import FilterQuery.Text.Quoted

/-!
# Reading quoted text

Two rules by which a quoted text is read, from behind the mark that opens it to the mark that ends
it. Under the first rule a doubled mark belongs to the text, under the second a character behind a
backslash does. Each rule reads back what the escape of its name has written, whatever follows; only
behind doubled marks must the next character not be one more mark.
-/

namespace FilterQuery.Text

/-- The text up to the first mark that is not doubled, and what follows that mark. -/
def readDoubled (mark : Char) : List Char → Option (List Char × List Char)
  | [] => none
  | [c] => if c = mark then some ([], []) else none
  | c :: next :: rest =>
    if c ≠ mark then (readDoubled mark (next :: rest)).map fun (text, after) => (c :: text, after)
    else if next = mark then (readDoubled mark rest).map fun (text, after) => (mark :: text, after)
    else some ([], next :: rest)

/-- The text up to the first mark that is not behind a backslash, and what follows that mark. -/
def readBackslashed (mark : Char) : List Char → Option (List Char × List Char)
  | [] => none
  | [c] => if c = mark then some ([], []) else none
  | c :: next :: rest =>
    if c = '\\' then (readBackslashed mark rest).map fun (text, after) => (next :: text, after)
    else if c = mark then some ([], next :: rest)
    else (readBackslashed mark (next :: rest)).map fun (text, after) => (c :: text, after)

variable {mark : Char}

theorem readDoubled_cons {c : Char} (h : c ≠ mark) (rest : List Char) :
    readDoubled mark (c :: rest) =
      (readDoubled mark rest).map fun (text, after) => (c :: text, after) := by
  cases rest with
  | nil => simp [readDoubled, h]
  | cons next rest => simp [readDoubled, h]

theorem readDoubled_mark_mark (rest : List Char) :
    readDoubled mark (mark :: mark :: rest) =
      (readDoubled mark rest).map fun (text, after) => (mark :: text, after) := by
  simp [readDoubled]

theorem readDoubled_mark {rest : List Char} (h : ∀ c ∈ rest.head?, c ≠ mark) :
    readDoubled mark (mark :: rest) = some ([], rest) := by
  cases rest with
  | nil => simp [readDoubled]
  | cons next rest => simp [readDoubled, h next rfl]

/-- Doubled marks are read back up to the mark that ends the text. -/
theorem readDoubled_doubling (s : List Char) {rest : List Char}
    (h : ∀ c ∈ rest.head?, c ≠ mark) :
    readDoubled mark (s.flatMap (doubling mark) ++ mark :: rest) = some (s, rest) := by
  induction s with
  | nil => exact readDoubled_mark h
  | cons c s ih =>
    by_cases hc : c = mark
    · subst hc
      simp [doubling, readDoubled_mark_mark, ih]
    · simp [doubling, hc, readDoubled_cons hc, ih]

theorem readBackslashed_cons {c : Char} (hslash : c ≠ '\\') (hmark : c ≠ mark) (rest : List Char) :
    readBackslashed mark (c :: rest) =
      (readBackslashed mark rest).map fun (text, after) => (c :: text, after) := by
  cases rest with
  | nil => simp [readBackslashed, hmark]
  | cons next rest => simp [readBackslashed, hslash, hmark]

theorem readBackslashed_mark (h : mark ≠ '\\') (rest : List Char) :
    readBackslashed mark (mark :: rest) = some ([], rest) := by
  cases rest <;> simp [readBackslashed, h]

/-- What stands behind backslashes is read back up to the mark that ends the text. -/
theorem readBackslashed_backslashing (h : mark ≠ '\\') (s rest : List Char) :
    readBackslashed mark (s.flatMap (backslashing mark) ++ mark :: rest) = some (s, rest) := by
  induction s with
  | nil => exact readBackslashed_mark h rest
  | cons c s ih =>
    by_cases hc : c = mark ∨ c = '\\'
    · simp [backslashing, hc, readBackslashed, ih]
    · rw [not_or] at hc
      simp [backslashing, hc.1, hc.2, readBackslashed_cons hc.2 hc.1, ih]

theorem length_of_readDoubled {s text after : List Char}
    (h : readDoubled mark s = some (text, after)) : after.length < s.length := by
  fun_induction readDoubled mark s generalizing text with
  | case1 => cases h
  | case2 => cases h; simp
  | case3 => cases h
  | case4 c next rest hc ih =>
    obtain ⟨⟨text', after'⟩, hread, heq⟩ := Option.map_eq_some_iff.mp h
    cases heq
    have hlt := ih hread
    simp only [List.length_cons] at hlt ⊢
    omega
  | case5 c rest hc ih =>
    obtain ⟨⟨text', after'⟩, hread, heq⟩ := Option.map_eq_some_iff.mp h
    cases heq
    have hlt := ih hread
    simp only [List.length_cons]
    omega
  | case6 => cases h; simp

theorem length_of_readBackslashed {s text after : List Char}
    (h : readBackslashed mark s = some (text, after)) : after.length < s.length := by
  fun_induction readBackslashed mark s generalizing text with
  | case1 => cases h
  | case2 => cases h; simp
  | case3 => cases h
  | case4 next rest ih =>
    obtain ⟨⟨text', after'⟩, hread, heq⟩ := Option.map_eq_some_iff.mp h
    cases heq
    have hlt := ih hread
    simp only [List.length_cons]
    omega
  | case5 => cases h; simp
  | case6 c next rest hslash hc ih =>
    obtain ⟨⟨text', after'⟩, hread, heq⟩ := Option.map_eq_some_iff.mp h
    cases heq
    have hlt := ih hread
    simp only [List.length_cons] at hlt ⊢
    omega

end FilterQuery.Text
