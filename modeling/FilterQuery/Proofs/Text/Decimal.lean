import Mathlib.Data.List.TakeWhile
import FilterQuery.Proofs.Text.Numeral
import FilterQuery.Text.Blank

/-!
# Numbers written as text

What a run of digits denotes, and what remains of a text without the white space around it. A number
may be given as text with white space around it and with a plus sign; digits and sign are no white
space, so the text has one such reading only.
-/

namespace FilterQuery.Text

/-- The number that digits write, each of them weighed by its place. -/
def decimal : List Char → Nat
  | [] => 0
  | digit :: rest => (digit.toNat - '0'.toNat) * Nat.pow 10 rest.length + decimal rest

/-- Digits, perhaps behind a plus sign, with white space around them. -/
inductive Denotes : List Char → Nat → Prop where
  | mk {before sign digits after : List Char} (before_blank : ∀ c ∈ before, isBlank c)
      (sign_plus : sign = [] ∨ sign = ['+']) (nonempty : digits ≠ [])
      (all_digits : ∀ c ∈ digits, c.isDigit) (after_blank : ∀ c ∈ after, isBlank c) :
    Denotes (before ++ (sign ++ digits) ++ after) (decimal digits)

/-- Reading the digits from the left, after others that gave `n`. -/
theorem ofDigitChars_eq (s : List Char) (n : Nat) :
    Nat.ofDigitChars 10 s n = n * Nat.pow 10 s.length + decimal s := by
  induction s generalizing n with
  | nil => simp [decimal, Nat.ofDigitChars_nil]
  | cons digit rest ih =>
    have hpow : n * Nat.pow 10 (digit :: rest).length = 10 * n * Nat.pow 10 rest.length := by
      rw [List.length_cons, Nat.pow_eq, Nat.pow_succ, Nat.mul_comm _ 10, ← Nat.mul_assoc,
        Nat.mul_comm n, Nat.pow_eq]
    rw [Nat.ofDigitChars_cons, ih, hpow, decimal, Nat.add_mul, Nat.add_assoc]

theorem isBlank_of_isDigit {c : Char} (h : c.isDigit) : isBlank c = false := by
  have hrange : '0'.toNat ≤ c.toNat ∧ c.toNat ≤ '9'.toNat := by
    simpa [Char.isDigit, UInt32.le_iff_toNat_le] using h
  rw [isBlank, List.any_eq_false]
  intro range hmem
  simp only [blankRanges, List.mem_cons, List.not_mem_nil, or_false] at hmem
  have hlow : '0'.toNat = 48 := rfl
  have hhigh : '9'.toNat = 57 := rfl
  rcases hmem with rfl | rfl | rfl | rfl | rfl | rfl | rfl | rfl | rfl | rfl <;> simp <;> omega

theorem isBlank_numeral {sign digits : List Char} (hsign : sign = [] ∨ sign = ['+'])
    (hdigits : ∀ c ∈ digits, c.isDigit) : ∀ c ∈ sign ++ digits, isBlank c = false := by
  intro c hc
  rcases List.mem_append.mp hc with hc | hc
  · rcases hsign with rfl | rfl
    · cases hc
    · rw [List.mem_singleton.mp hc]
      decide
  · exact isBlank_of_isDigit (hdigits c hc)

/-- White space around a text without any is all that is trimmed. -/
theorem trim_append {before core after : List Char} (hbefore : ∀ c ∈ before, isBlank c)
    (hcore : ∀ c ∈ core, isBlank c = false) (hafter : ∀ c ∈ after, isBlank c) :
    trim (before ++ core ++ after) = core := by
  have hstart : (before ++ core ++ after).dropWhile isBlank = (core ++ after).dropWhile isBlank := by
    rw [List.append_assoc, List.dropWhile_append_of_pos hbefore]
  rw [trim, hstart]
  cases core with
  | nil =>
    have hfront : ([] ++ after).dropWhile isBlank = [] := List.dropWhile_eq_nil_iff.mpr hafter
    rw [hfront]
    rfl
  | cons c core =>
    have hfront : (c :: core ++ after).dropWhile isBlank = c :: core ++ after := by
      rw [List.cons_append, List.dropWhile_cons_of_neg (by simp [hcore c List.mem_cons_self])]
    have hend := (@takeWhile_dropWhile_append isBlank after.reverse (c :: core).reverse
      (fun d hd => hafter d (List.mem_reverse.mp hd))
      fun d hd => hcore d (List.mem_reverse.mp (List.mem_of_mem_head? hd))).2
    rw [hfront, List.reverse_append, hend, List.reverse_reverse]

theorem exists_trim_append (s : List Char) :
    ∃ before after, (∀ c ∈ before, isBlank c) ∧ (∀ c ∈ after, isBlank c) ∧
      s = before ++ trim s ++ after := by
  refine ⟨s.takeWhile isBlank, ((s.dropWhile isBlank).reverse.takeWhile isBlank).reverse,
    fun c hc => List.mem_takeWhile_imp hc,
    fun c hc => List.mem_takeWhile_imp (List.mem_reverse.mp hc), ?_⟩
  rw [trim, List.append_assoc, ← List.reverse_append, List.takeWhile_append_dropWhile,
    List.reverse_reverse, List.takeWhile_append_dropWhile]

end FilterQuery.Text
