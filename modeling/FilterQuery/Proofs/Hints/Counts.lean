import FilterQuery.Hints.Parser
import FilterQuery.Json.Numeral
import FilterQuery.Proofs.Text.Decimal

/-!
# Values that are counts

Digits are read from the left, and reading stops at the first one that would lead out of the range.
No digit behind it could lead back, so what is read is the number of the whole text whenever that is
in the range, however many leading zeros it has, and nothing otherwise. A JSON number is a count if
it is an exact integer in the range, and it is one exactly if its numeral is digits alone.
-/

namespace FilterQuery

open Json (Numeral Value)

/-- The natural number that a value gives exactly: as an integer, or written as a text. -/
inductive Json.Value.Denotes : Value → Nat → Prop where
  | integer (n : Nat) : Denotes (.number (.int n)) n
  | text {s : String} {n : Nat} (h : Text.Denotes s.toList n) : Denotes (.string s) n

namespace Count

theorem ofNat?_eq_some_iff {k : Nat} {n : Count} : ofNat? k = some n ↔ k = n.toNat := by
  rw [ofNat?]
  split
  · next h =>
    rw [Option.some.injEq, ← UInt64.toNat_inj, UInt64.toNat_ofNatLT]
  · next h => exact iff_of_false nofun fun heq => h (heq ▸ n.toNat_lt)

theorem ofNat?_eq_none_iff {k : Nat} : ofNat? k = none ↔ UInt64.size ≤ k := by
  rw [ofNat?]
  split
  · next h => exact iff_of_false nofun (Nat.not_le.mpr h)
  · next h => exact iff_of_true rfl (Nat.not_lt.mp h)

/-- Where the product leaves the range, so does the sum. -/
theorem appendDigit?_eq (n : Count) (digit : Char) :
    appendDigit? n digit = ofNat? (n.toNat * 10 + (digit.toNat - '0'.toNat)) := by
  rw [appendDigit?]
  cases hscaled : ofNat? (n.toNat * 10) with
  | none =>
    have hlarge := ofNat?_eq_none_iff.mp hscaled
    exact (ofNat?_eq_none_iff.mpr (Nat.le_add_right_of_le hlarge)).symm
  | some scaled => rw [ofNat?_eq_some_iff.mp hscaled]; rfl

/-- Reading digits behind a count gives the number of all of them, or nothing if it is too large. -/
theorem foldlM_appendDigit? (s : List Char) (n : Count) :
    s.foldlM appendDigit? n = ofNat? (n.toNat * Nat.pow 10 s.length + Text.decimal s) := by
  induction s generalizing n with
  | nil =>
    have hvalue : n.toNat * Nat.pow 10 0 + Text.decimal [] = n.toNat := Nat.mul_one _
    rw [List.length_nil, hvalue]
    exact (ofNat?_eq_some_iff.mpr rfl).symm
  | cons digit rest ih =>
    have hvalue : n.toNat * Nat.pow 10 (digit :: rest).length + Text.decimal (digit :: rest) =
        (n.toNat * 10 + (digit.toNat - '0'.toNat)) * Nat.pow 10 rest.length + Text.decimal rest := by
      rw [← Text.ofDigitChars_eq, ← Text.ofDigitChars_eq, Nat.ofDigitChars_cons, Nat.mul_comm]
    rw [List.foldlM_cons, appendDigit?_eq, hvalue]
    cases hnext : ofNat? (n.toNat * 10 + (digit.toNat - '0'.toNat)) with
    | none =>
      have hlarge := ofNat?_eq_none_iff.mp hnext
      have hgrows : n.toNat * 10 + (digit.toNat - '0'.toNat) ≤
          (n.toNat * 10 + (digit.toNat - '0'.toNat)) * Nat.pow 10 rest.length :=
        Nat.le_mul_of_pos_right _ (Nat.pow_pos (by decide))
      exact (ofNat?_eq_none_iff.mpr (Nat.le_add_right_of_le (hlarge.trans hgrows))).symm
    | some next => rw [ofNat?_eq_some_iff.mp hnext]; exact ih next

theorem ofDigits?_eq_some_iff {s : List Char} {n : Count} :
    ofDigits? s = some n ↔ s ≠ [] ∧ (∀ c ∈ s, c.isDigit) ∧ Text.decimal s = n.toNat := by
  have hvalue : (0 : Count).toNat * Nat.pow 10 s.length + Text.decimal s = Text.decimal s := by
    rw [UInt64.toNat_zero, Nat.zero_mul, Nat.zero_add]
  rw [ofDigits?, foldlM_appendDigit?, hvalue]
  split
  · next h =>
    have hdigits : ∀ c ∈ s, c.isDigit := List.all_eq_true.mp h.2
    rw [ofNat?_eq_some_iff, and_iff_right h.1, and_iff_right hdigits]
  · next h => exact iff_of_false nofun fun hs => h ⟨hs.1, List.all_eq_true.mpr hs.2.1⟩

theorem ofText?_of_plus {s digits : List Char} (h : Text.trim s = '+' :: digits) :
    ofText? s = ofDigits? digits := by
  simp only [ofText?, h]

theorem ofText?_of_not_plus {s : List Char} (h : ∀ digits, Text.trim s ≠ '+' :: digits) :
    ofText? s = ofDigits? (Text.trim s) := by
  unfold ofText?
  split
  · next digits hplus => exact absurd hplus (h digits)
  · rfl

theorem ofText?_eq_some_iff {s : List Char} {n : Count} :
    ofText? s = some n ↔ Text.Denotes s n.toNat := by
  constructor
  · intro h
    obtain ⟨before, after, hbefore, hafter, hs⟩ := Text.exists_trim_append s
    by_cases hplus : ∃ digits, Text.trim s = '+' :: digits
    · obtain ⟨digits, htrim⟩ := hplus
      rw [ofText?_of_plus htrim] at h
      obtain ⟨hne, hdigits, hvalue⟩ := ofDigits?_eq_some_iff.mp h
      rw [hs, htrim, ← hvalue]
      exact @Text.Denotes.mk before ['+'] digits after hbefore (.inr rfl) hne hdigits hafter
    · rw [ofText?_of_not_plus (not_exists.mp hplus)] at h
      obtain ⟨hne, hdigits, hvalue⟩ := ofDigits?_eq_some_iff.mp h
      rw [hs, ← hvalue]
      exact @Text.Denotes.mk before [] _ after hbefore (.inl rfl) hne hdigits hafter
  · intro h
    generalize hvalue : n.toNat = value at h
    obtain ⟨hbefore, hsign, hne, hdigits, hafter⟩ := h
    have htrim := Text.trim_append hbefore (Text.isBlank_numeral hsign hdigits) hafter
    have hread := ofDigits?_eq_some_iff.mpr ⟨hne, hdigits, hvalue.symm⟩
    rcases hsign with rfl | rfl
    · -- a digit is no plus sign
      rw [List.nil_append] at htrim ⊢
      rw [ofText?_of_not_plus, htrim]
      · exact hread
      · intro rest hplus
        have hmem : '+' ∈ '+' :: rest := List.mem_cons_self
        rw [← hplus, htrim] at hmem
        exact absurd (hdigits '+' hmem) (by decide)
    · rw [ofText?_of_plus htrim]
      exact hread

theorem denotes_int_iff {i : Int} {n : Nat} : (Value.number (.int i)).Denotes n ↔ i = n := by
  constructor
  · intro h
    cases h
    rfl
  · rintro rfl
    exact .integer n

theorem ofInt?_eq_some_iff {i : Int} {n : Count} : ofInt? i = some n ↔ i = n.toNat := by
  cases i with
  | ofNat k => rw [ofInt?, ofNat?_eq_some_iff, Int.ofNat_eq_natCast, Int.natCast_inj]
  | negSucc k => exact iff_of_false nofun nofun

/-- A value is read as a count exactly if it denotes it. -/
theorem ofValue?_eq_some_iff {v : Value} {n : Count} : ofValue? v = some n ↔ v.Denotes n.toNat := by
  cases v with
  | number number =>
    cases number with
    | int i =>
      rw [ofValue?, ofInt?_eq_some_iff, denotes_int_iff]
    | float x => exact iff_of_false nofun nofun
  | string s =>
    rw [ofValue?, ofText?_eq_some_iff]
    constructor
    · exact .text
    · intro h
      cases h with
      | text hs => exact hs
  | _ => exact iff_of_false nofun nofun

theorem ofValue?_eq_none_iff {v : Value} :
    ofValue? v = none ↔ ∀ n < UInt64.size, ¬ v.Denotes n := by
  constructor
  · intro h n hn hdenotes
    have hvalue : (UInt64.ofNatLT n hn).toNat = n := UInt64.toNat_ofNatLT
    rw [← hvalue, ← ofValue?_eq_some_iff, h] at hdenotes
    cases hdenotes
  · intro h
    cases hread : ofValue? v with
    | none => rfl
    | some n => exact absurd (ofValue?_eq_some_iff.mp hread) (h _ n.toNat_lt)

end Count

namespace Json.Numeral

theorem integer?_eq_some_iff {numeral : Numeral} {n : Nat} (h : n < UInt64.size) :
    numeral.integer? = some (n : Int) ↔ numeral.negative = false ∧ numeral.fraction = [] ∧
      numeral.exponent = none ∧ Text.decimal numeral.whole = n := by
  obtain ⟨negative, whole, fraction, exponent⟩ := numeral
  have hvalue : Nat.ofDigitChars 10 whole 0 = Text.decimal whole := by
    rw [Text.ofDigitChars_eq, Nat.zero_mul, Nat.zero_add]
  have hsize : Nat.pow 2 64 = UInt64.size := rfl
  simp only [integer?, hvalue, hsize]
  split
  · next hparts =>
    refine iff_of_false nofun fun hs => ?_
    rcases hparts with hfraction | hexponent
    · exact hfraction hs.2.1
    · rw [hs.2.2.1] at hexponent
      cases hexponent
  · next hparts =>
    rw [not_or, ne_eq, not_not, Option.not_isSome_iff_eq_none] at hparts
    rw [and_iff_right hparts.1, and_iff_right hparts.2]
    cases negative with
    | true =>
      -- without a fraction `-0` is no integer, so none of these integers is a natural number
      rw [if_pos rfl]
      refine iff_of_false ?_ nofun
      split
      · rw [Option.some.injEq]
        omega
      · exact nofun
    | false =>
      rw [if_neg Bool.false_ne_true, and_iff_right rfl]
      split
      · rw [Option.some.injEq, Int.natCast_inj]
      · next hlarge => exact iff_of_false nofun fun hs => hlarge (hs ▸ h)

/-- The number of a numeral is a count only if the numeral has no sign, no fraction and no exponent,
and then it is the number that the digits write. -/
theorem denotes_number?_iff {numeral : Numeral} {number : Json.Number}
    (h : numeral.number? = some number) (n : Count) :
    (Value.number number).Denotes n.toNat ↔
      numeral.negative = false ∧ numeral.fraction = [] ∧ numeral.exponent = none ∧
        Text.decimal numeral.whole = n.toNat := by
  rw [← integer?_eq_some_iff n.toNat_lt]
  rw [number?] at h
  split at h
  · next i hinteger =>
    rw [← Option.some.inj h, hinteger, Count.denotes_int_iff, Option.some.injEq]
  · next hinteger =>
    obtain ⟨x, -, rfl⟩ := Option.map_eq_some_iff.mp h
    rw [hinteger]
    exact iff_of_false nofun nofun

end Json.Numeral

end FilterQuery
