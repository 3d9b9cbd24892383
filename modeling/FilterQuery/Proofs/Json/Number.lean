import Mathlib.Data.List.TakeWhile
import FilterQuery.Json.Printer
import FilterQuery.Proofs.Text.Numeral

/-!
# How numbers are written

Every number is written as a numeral, with a minus in front if it is negative. For a binary64 number
this rests on its shortest decimal having a digit: the decimals that round to a positive number
are positive.
-/

namespace FilterQuery

open Text (IsExponent IsFraction IsNumeral)

namespace Binary64

/-- Stated for variables, so that no large power is evaluated where it is used. -/
theorem pow_pos_of_pos {base : Nat} (h : 0 < base) (exponent : Nat) : 0 < Nat.pow base exponent :=
  Nat.pow_pos h

theorem units_pos {r : Nat} (h : 0 < r) : 0 < units r := by
  have hpow := fun exponent => pow_pos_of_pos Nat.two_pos exponent
  unfold units
  simp only
  split
  · exact h
  · exact Nat.mul_pos (Nat.add_pos_left (hpow _) _) (hpow _)

theorem point_pos_of_readsBack {r point : Nat} (hr : 0 < r) (h : readsBack r point = true) :
    0 < point := by
  have hscale := pow_pos_of_pos (show 0 < 10 by decide) 340
  unfold readsBack at h
  generalize Nat.pow 10 340 = scale at h hscale
  have hlow : 0 < (units (r - 1) + units r) * scale :=
    Nat.mul_pos (Nat.add_pos_right _ (units_pos hr)) hscale
  simp only at h
  split at h
  · rw [Bool.and_eq_true, decide_eq_true_eq] at h
    exact hlow.trans_le h.1
  · rw [Bool.and_eq_true, decide_eq_true_eq] at h
    exact hlow.trans h.1

theorem multiple_pos_of_readsBack {r multiple spacing : Nat} (hr : 0 < r)
    (h : readsBack r (multiple * spacing) = true) : 0 < multiple :=
  Nat.pos_of_mul_pos_right (point_pos_of_readsBack hr h)

/-- The choice between two multiples, stated for variables like `pow_pos_of_pos`. -/
theorem multiple_pos_of_nearest {r magnitude spacing below above multiple : Nat} (hr : 0 < r)
    (habove : 0 < above)
    (h : (match readsBack r (below * spacing), readsBack r (above * spacing) with
      | true, true =>
        match compare (2 * magnitude) ((below + above) * spacing) with
        | .lt => some below
        | .gt => some above
        | .eq => some (below + below % 2)
      | true, false => some below
      | false, true => some above
      | false, false => none) = some multiple) : 0 < multiple := by
  cases hbelow : readsBack r (below * spacing) with
  | true =>
    have hpos : 0 < below := multiple_pos_of_readsBack hr hbelow
    cases ha : readsBack r (above * spacing) with
    | true =>
      simp only [hbelow, ha] at h
      cases hc : compare (2 * magnitude) ((below + above) * spacing) with
      | lt | gt | eq =>
        simp only [hc, Option.some.injEq] at h
        omega
    | false =>
      simp only [hbelow, ha, Option.some.injEq] at h
      omega
  | false =>
    cases ha : readsBack r (above * spacing) with
    | true =>
      simp only [hbelow, ha, Option.some.injEq] at h
      omega
    | false => simp only [hbelow, ha, reduceCtorEq] at h

theorem multiple_pos_of_onGrid? {r p multiple : Nat} (hr : 0 < r)
    (h : onGrid? r p = some multiple) : 0 < multiple := by
  unfold onGrid? at h
  generalize Nat.pow 2 1075 * Nat.pow 10 p = spacing at h
  generalize 2 * units r * Nat.pow 10 340 = magnitude at h
  exact multiple_pos_of_nearest hr (Nat.succ_pos (magnitude / spacing)) h

/-- A decimal whose digits are digits, at least one. -/
structure Decimal.Proper (d : Decimal) : Prop where
  nonempty : d.digits ≠ []
  digits : ∀ c ∈ d.digits, c.isDigit

theorem isDigit_toDigits (n : Nat) : ∀ c ∈ Nat.toDigits 10 n, c.isDigit :=
  fun _ hc => Nat.isDigit_of_mem_toDigits (by decide) (by decide) hc

theorem Decimal.proper_ofMultiple {multiple : Nat} (h : 0 < multiple) (p : Nat) :
    (ofMultiple multiple p).Proper := by
  constructor
  · intro hnil
    have hzeros : ∀ c ∈ Nat.toDigits 10 multiple, c = '0' := by
      have hdrop := List.dropWhile_eq_nil_iff.mp (List.reverse_eq_nil_iff.mp hnil)
      simpa using hdrop
    have hreplicate := List.eq_replicate_of_mem hzeros
    have hvalue := Nat.ofDigitChars_ten_toDigits (n := multiple)
    rw [hreplicate, Nat.ofDigitChars_replicate_zero] at hvalue
    omega
  · intro c hc
    have hmem : c ∈ (Nat.toDigits 10 multiple).reverse :=
      (List.dropWhile_sublist _).mem (List.mem_reverse.mp hc)
    exact isDigit_toDigits multiple c (List.mem_reverse.mp hmem)

theorem Decimal.proper_shortest {r : Nat} (h : 0 < r) : (shortest r).Proper := by
  unfold shortest
  simp only
  split
  · next decimal hfound =>
    obtain ⟨p, -, hp⟩ := List.exists_of_findSome?_eq_some hfound
    obtain ⟨multiple, hmultiple, rfl⟩ := Option.map_eq_some_iff.mp hp
    exact proper_ofMultiple (multiple_pos_of_onGrid? h hmultiple) p
  · exact ⟨Nat.toDigits_ne_nil, isDigit_toDigits _⟩

theorem isFraction_point {digits : List Char} (h : ∀ c ∈ digits, c.isDigit) :
    IsFraction ('.' :: digits) :=
  .inr ⟨digits, rfl, h⟩

theorem isNumeral_pointAfter {digits : List Char} (h : ∀ c ∈ digits, c.isDigit) (e : Nat) :
    IsNumeral (pointAfter (e + 1) digits) := by
  have hwhole : digits.take (e + 1) ++ List.replicate (e + 1 - digits.length) '0' ≠ [] := by
    intro hnil
    have hlength := congrArg List.length hnil
    simp only [List.length_append, List.length_take, List.length_replicate, List.length_nil]
      at hlength
    omega
  have hdigits : ∀ c ∈ digits.take (e + 1) ++ List.replicate (e + 1 - digits.length) '0',
      c.isDigit := by
    intro c hc
    rcases List.mem_append.mp hc with hc | hc
    · exact h c (List.mem_of_mem_take hc)
    · rw [List.eq_of_mem_replicate hc]
      decide
  have hfraction : ∀ c ∈ if digits.drop (e + 1) = [] then ['0'] else digits.drop (e + 1),
      c.isDigit := by
    intro c hc
    split at hc
    · rw [List.mem_singleton.mp hc]
      decide
    · exact h c (List.mem_of_mem_drop hc)
  have hnumeral := IsNumeral.mk hwhole hdigits (isFraction_point hfraction) (.inl rfl)
  rwa [List.append_nil] at hnumeral

theorem Decimal.Proper.isNumeral_positional {d : Decimal} (h : d.Proper) :
    IsNumeral d.positional := by
  unfold positional
  split
  · exact isNumeral_pointAfter h.digits _
  · next e _ =>
    have hfraction : ∀ c ∈ List.replicate e '0' ++ d.digits, c.isDigit := by
      intro c hc
      rcases List.mem_append.mp hc with hc | hc
      · rw [List.eq_of_mem_replicate hc]
        decide
      · exact h.digits c hc
    have hzero : ∀ c ∈ ['0'], c.isDigit := List.forall_mem_singleton.mpr rfl
    have hnumeral := IsNumeral.mk (List.cons_ne_nil _ _) hzero (isFraction_point hfraction)
      (.inl rfl)
    rwa [List.append_nil] at hnumeral

theorem Decimal.Proper.isNumeral_scientific {d : Decimal} (h : d.Proper) :
    IsNumeral d.scientific := by
  obtain ⟨digits, exponent⟩ := d
  obtain ⟨digit, rest, rfl⟩ := List.exists_cons_of_ne_nil h.nonempty
  have hsign : (if exponent < 0 then '-' else '+') = '+' ∨
      (if exponent < 0 then '-' else '+') = '-' := by
    split
    · exact .inr rfl
    · exact .inl rfl
  have hexponent : IsExponent ('e' :: (if exponent < 0 then '-' else '+') ::
      Nat.toDigits 10 exponent.natAbs) :=
    .inr ⟨_, _, rfl, hsign, Nat.toDigits_ne_nil, isDigit_toDigits _⟩
  have hdigit : ∀ c ∈ [digit], c.isDigit := by
    intro c hc
    rw [List.mem_singleton.mp hc]
    exact h.digits digit List.mem_cons_self
  cases rest with
  | nil => exact .mk (List.cons_ne_nil _ _) hdigit (.inl rfl) hexponent
  | cons next rest =>
    have hfraction : ∀ c ∈ next :: rest, c.isDigit := fun c hc =>
      h.digits c (List.mem_cons_of_mem digit hc)
    exact .mk (List.cons_ne_nil _ _) hdigit (isFraction_point hfraction) hexponent

theorem isNumeral_magnitudeChars (r : Nat) : IsNumeral (magnitudeChars r) := by
  unfold magnitudeChars
  split
  · have hzero : ∀ c ∈ ['0'], c.isDigit := List.forall_mem_singleton.mpr rfl
    exact isNumeral_pointAfter hzero 0
  · next hr =>
    have hproper := Decimal.proper_shortest (Nat.pos_of_ne_zero hr)
    unfold Decimal.chars
    split
    · exact hproper.isNumeral_positional
    · exact hproper.isNumeral_scientific

end Binary64

/-- A number is written as a numeral, or as one behind a minus. -/
theorem Json.Number.isNumeral_chars (n : Json.Number) :
    IsNumeral n.chars ∨ ∃ s, n.chars = '-' :: s ∧ IsNumeral s := by
  have hdigits (m : Nat) : IsNumeral (Nat.toDigits 10 m) :=
    .of_digits Nat.toDigits_ne_nil (Binary64.isDigit_toDigits m)
  cases n with
  | int n =>
    cases n with
    | ofNat m => exact .inl (hdigits m)
    | negSucc m => exact .inr ⟨_, rfl, hdigits (m + 1)⟩
  | float x =>
    have hmagnitude := Binary64.isNumeral_magnitudeChars x.rank
    unfold chars Binary64.chars
    simp only
    split
    · exact .inr ⟨_, rfl, hmagnitude⟩
    · exact .inl hmagnitude

end FilterQuery
