/-!
# Reading numerals

A numeral is a run of digits, perhaps with a point and digits behind it, perhaps with an exponent
that has a sign. It is read as far as it goes, so it must be followed by a character that could not
be part of it.
-/

namespace FilterQuery.Text

/-- A point with the digits behind it, if there is a point, and what follows. -/
def readFraction : List Char → List Char × List Char
  | '.' :: rest => ('.' :: rest.takeWhile Char.isDigit, rest.dropWhile Char.isDigit)
  | rest => ([], rest)

/-- A sign, if there is one, and what follows. -/
def readSign : List Char → List Char × List Char
  | '+' :: rest => (['+'], rest)
  | '-' :: rest => (['-'], rest)
  | rest => ([], rest)

/-- An exponent, if there is a whole one, and what follows. -/
def readExponent : List Char → List Char × List Char
  | [] => ([], [])
  | mark :: rest =>
    let sign := readSign rest
    let digits := sign.2.takeWhile Char.isDigit
    if (mark = 'e' ∨ mark = 'E') ∧ digits ≠ [] then
      (mark :: sign.1 ++ digits, sign.2.dropWhile Char.isDigit)
    else ([], mark :: rest)

/-- The numeral at the start of a text, and what follows. -/
def readNumeral (s : List Char) : List Char × List Char :=
  let fraction := readFraction (s.dropWhile Char.isDigit)
  let exponent := readExponent fraction.2
  (s.takeWhile Char.isDigit ++ fraction.1 ++ exponent.1, exponent.2)

theorem readFraction_append (s : List Char) : (readFraction s).1 ++ (readFraction s).2 = s := by
  unfold readFraction
  split
  · simp
  · rfl

theorem readSign_append (s : List Char) : (readSign s).1 ++ (readSign s).2 = s := by
  unfold readSign
  split <;> rfl

theorem readExponent_append (s : List Char) : (readExponent s).1 ++ (readExponent s).2 = s := by
  cases s with
  | nil => rfl
  | cons mark rest =>
    have hsign := readSign_append rest
    simp only [readExponent]
    split
    · simp [hsign]
    · rfl

/-- Reading a numeral splits the text. -/
theorem readNumeral_append (s : List Char) : (readNumeral s).1 ++ (readNumeral s).2 = s := by
  have hfraction := readFraction_append (s.dropWhile Char.isDigit)
  have hexponent := readExponent_append (readFraction (s.dropWhile Char.isDigit)).2
  simp only [readNumeral, List.append_assoc, hexponent, hfraction, List.takeWhile_append_dropWhile]

theorem length_readNumeral {c : Char} (h : c.isDigit) (s : List Char) :
    (readNumeral (c :: s)).2.length < (c :: s).length := by
  have hsplit := congrArg List.length (readNumeral_append (c :: s))
  have hfirst : 0 < (readNumeral (c :: s)).1.length := by simp [readNumeral, h]
  rw [List.length_append] at hsplit
  omega

/-- A point with digits, or nothing. -/
def IsFraction (s : List Char) : Prop :=
  s = [] ∨ ∃ digits, s = '.' :: digits ∧ ∀ c ∈ digits, c.isDigit

/-- An exponent with its sign, or nothing. -/
def IsExponent (s : List Char) : Prop :=
  s = [] ∨ ∃ sign digits, s = 'e' :: sign :: digits ∧ (sign = '+' ∨ sign = '-') ∧
    digits ≠ [] ∧ ∀ c ∈ digits, c.isDigit

inductive IsNumeral : List Char → Prop where
  | mk {whole fraction exponent : List Char} (nonempty : whole ≠ [])
      (digits : ∀ c ∈ whole, c.isDigit) (isFraction : IsFraction fraction)
      (isExponent : IsExponent exponent) : IsNumeral (whole ++ fraction ++ exponent)

theorem IsNumeral.of_digits {s : List Char} (hne : s ≠ []) (h : ∀ c ∈ s, c.isDigit) :
    IsNumeral s := by
  have hnumeral := IsNumeral.mk hne h (.inl rfl) (.inl rfl)
  simpa using hnumeral

theorem IsNumeral.head_isDigit {s : List Char} (h : IsNumeral s) :
    ∃ c rest, s = c :: rest ∧ c.isDigit := by
  obtain ⟨hne, hdigits, -, -⟩ := h
  obtain ⟨c, rest, rfl⟩ := List.exists_cons_of_ne_nil hne
  exact ⟨c, _, rfl, hdigits c List.mem_cons_self⟩

/-- Whether a text could continue a numeral. -/
def Continues (rest : List Char) : Prop :=
  ∃ c ∈ rest.head?, c.isDigit ∨ c = '.' ∨ c = 'e' ∨ c = 'E'

/-- A run of characters of a class is all that is taken, and dropped, of them. -/
theorem takeWhile_dropWhile_append {p : Char → Bool} {s rest : List Char} (h : ∀ c ∈ s, p c)
    (hrest : ∀ c ∈ rest.head?, p c = false) :
    (s ++ rest).takeWhile p = s ∧ (s ++ rest).dropWhile p = rest := by
  rw [List.takeWhile_append_of_pos h, List.dropWhile_append_of_pos h]
  cases rest with
  | nil => simp
  | cons c rest => simp [hrest c rfl]

theorem readExponent_of_not_continues {rest : List Char} (h : ¬ Continues rest) :
    readExponent rest = ([], rest) := by
  cases rest with
  | nil => rfl
  | cons c rest =>
    have hmark : ¬ (c = 'e' ∨ c = 'E') := fun hc => h ⟨c, rfl, .inr (.inr hc)⟩
    simp [readExponent, hmark]

theorem head_of_not_continues {rest : List Char} (h : ¬ Continues rest) :
    ∀ c ∈ rest.head?, c.isDigit = false ∧ c ≠ '.' := by
  intro c hc
  constructor
  · exact Bool.eq_false_iff.mpr fun hdigit => h ⟨c, hc, .inl hdigit⟩
  · exact fun hpoint => h ⟨c, hc, .inr (.inl hpoint)⟩

/-- What follows the digits of a numeral is told from a digit and from a point by its first
character. -/
theorem IsExponent.head_append {s rest : List Char} (h : IsExponent s) (hrest : ¬ Continues rest) :
    ∀ c ∈ (s ++ rest).head?, c.isDigit = false ∧ c ≠ '.' := by
  rcases h with rfl | ⟨sign, digits, rfl, -⟩
  · exact head_of_not_continues hrest
  · intro c hc
    cases hc
    decide

theorem readExponent_isExponent {s rest : List Char} (h : IsExponent s) (hrest : ¬ Continues rest) :
    readExponent (s ++ rest) = (s, rest) := by
  rcases h with rfl | ⟨sign, digits, rfl, hsign, hne, hdigits⟩
  · exact readExponent_of_not_continues hrest
  · have hstop := fun c hc => (head_of_not_continues hrest c hc).1
    obtain ⟨htake, hdrop⟩ := takeWhile_dropWhile_append hdigits hstop
    have hread : readSign (sign :: (digits ++ rest)) = ([sign], digits ++ rest) := by
      rcases hsign with rfl | rfl <;> rfl
    simp [readExponent, hread, htake, hdrop, hne]

theorem readFraction_isFraction {s rest : List Char} (h : IsFraction s)
    (hrest : ∀ c ∈ rest.head?, c.isDigit = false ∧ c ≠ '.') :
    readFraction (s ++ rest) = (s, rest) := by
  rcases h with rfl | ⟨digits, rfl, hdigits⟩
  · rw [List.nil_append]
    unfold readFraction
    split
    · exact absurd rfl (hrest '.' rfl).2
    · rfl
  · obtain ⟨htake, hdrop⟩ := takeWhile_dropWhile_append hdigits fun c hc => (hrest c hc).1
    simp [readFraction, htake, hdrop]

/-- A numeral is read to its end if what follows does not continue it. -/
theorem readNumeral_isNumeral {s rest : List Char} (h : IsNumeral s) (hrest : ¬ Continues rest) :
    readNumeral (s ++ rest) = (s, rest) := by
  obtain @⟨whole, fraction, exponent, hne, hdigits, hfraction, hexponent⟩ := h
  have hafter := hexponent.head_append hrest
  have hstop : ∀ c ∈ (fraction ++ (exponent ++ rest)).head?, c.isDigit = false := by
    rcases hfraction with rfl | ⟨digits, rfl, -⟩
    · exact fun c hc => (hafter c hc).1
    · intro c hc
      cases hc
      decide
  obtain ⟨htake, hdrop⟩ := takeWhile_dropWhile_append hdigits hstop
  have hassoc : whole ++ fraction ++ exponent ++ rest =
      whole ++ (fraction ++ (exponent ++ rest)) := by simp
  rw [hassoc, readNumeral, htake, hdrop, readFraction_isFraction hfraction hafter,
    readExponent_isExponent hexponent hrest]

end FilterQuery.Text
