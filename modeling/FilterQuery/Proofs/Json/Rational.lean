import FilterQuery.Json.Value
import Mathlib.Algebra.Order.Field.Rat
import Mathlib.Tactic.Positivity

/-!
# The value of numbers

A binary64 number is a sign and a magnitude, and the magnitude a number of units. The magnitudes of
different runs are different, and so are those of one run, so a number of binary64 is equal to 1 only
if it is the one that is written for 1.
-/

namespace FilterQuery

namespace Binary64

def toRat (x : Binary64) : ℚ :=
  (if x.negative then -1 else 1) * ((units x.rank : ℚ) / 2 ^ 1074)

/-- Runs start at the powers of two, and no run reaches the start of the next one. -/
theorem add_mul_pow_eq_iff {run offset q e : ℕ} (h : offset < run) :
    (run + offset) * Nat.pow 2 q = run * Nat.pow 2 e ↔ offset = 0 ∧ q = e := by
  simp only [Nat.pow_eq]
  constructor
  · intro heq
    rcases lt_trichotomy q e with hlt | rfl | hlt
    · have hnext : (run + offset) * 2 ^ q < run * 2 ^ (q + 1) := by
        rw [pow_succ, mul_comm _ 2, ← mul_assoc]
        exact mul_lt_mul_of_pos_right (by omega) (by positivity)
      have hle : run * 2 ^ (q + 1) ≤ run * 2 ^ e :=
        Nat.mul_le_mul_left run (Nat.pow_le_pow_right Nat.two_pos hlt)
      omega
    · have hrun := Nat.eq_of_mul_eq_mul_right (by positivity) heq
      exact ⟨by omega, rfl⟩
    · have hle : run * 2 ^ q ≤ (run + offset) * 2 ^ q :=
        Nat.mul_le_mul_right _ (Nat.le_add_right run offset)
      have hnext : run * 2 ^ e < run * 2 ^ q :=
        Nat.mul_lt_mul_of_pos_left (Nat.pow_lt_pow_right (by decide) hlt) (by omega)
      omega
  · rintro ⟨rfl, rfl⟩
    rfl

/-- The power `2^(52 + e)` of a unit is the first magnitude of its run. -/
theorem units_eq_iff {r e : ℕ} : (units r : ℚ) = 2 ^ (52 + e) ↔ r = (e + 1) * Nat.pow 2 52 := by
  have hrun : 0 < Nat.pow 2 52 := Nat.pow_pos Nat.two_pos
  have hpow : 0 < Nat.pow 2 e := Nat.pow_pos Nat.two_pos
  have hfirst : (2 : ℚ) ^ (52 + e) = ((Nat.pow 2 52 * Nat.pow 2 e : ℕ) : ℚ) := by
    rw [pow_add, Nat.cast_mul, Nat.pow_eq, Nat.pow_eq, Nat.cast_pow, Nat.cast_pow, Nat.cast_ofNat]
  rw [hfirst, Nat.cast_inj]
  unfold units
  generalize Nat.pow 2 52 = run at hrun
  simp only
  split
  · next hr =>
    have hle := Nat.le_mul_of_pos_right run hpow
    have hlater : run ≤ (e + 1) * run := Nat.le_mul_of_pos_left run (Nat.succ_pos e)
    omega
  · next hr =>
    rw [add_mul_pow_eq_iff (Nat.mod_lt r hrun)]
    have hdiv := Nat.div_add_mod r run
    have hpos := Nat.div_pos (Nat.not_lt.mp hr) hrun
    constructor
    · rintro ⟨hmod, hquotient⟩
      have hexact : r / run = e + 1 := by omega
      rw [hmod, hexact, Nat.add_zero, Nat.mul_comm] at hdiv
      exact hdiv.symm
    · rintro rfl
      rw [Nat.mul_mod_left, Nat.mul_div_cancel _ hrun]
      exact ⟨rfl, rfl⟩

theorem toRat_eq_one_iff {x : Binary64} : x.toRat = 1 ↔ x = one false := by
  obtain ⟨negative, rank, hrank⟩ := x
  have hexponent : 1074 = 52 + 1022 := rfl
  have hpos : (0 : ℚ) < 2 ^ (52 + 1022) := by positivity
  have hnonneg : (0 : ℚ) ≤ (units rank : ℚ) / 2 ^ (52 + 1022) :=
    div_nonneg (Nat.cast_nonneg _) hpos.le
  rw [toRat, hexponent]
  cases negative with
  | true =>
    refine iff_of_false (fun h => ?_) (fun h => ?_)
    · rw [if_pos rfl, neg_one_mul] at h
      exact ((neg_nonpos.mpr hnonneg).trans_lt one_pos).ne h
    · exact absurd (congrArg Binary64.negative h) (Bool.false_ne_true ∘ Eq.symm)
  | false =>
    rw [if_neg Bool.false_ne_true, one_mul, div_eq_one_iff_eq hpos.ne', units_eq_iff, one,
      mk.injEq, and_iff_right rfl]

end Binary64

namespace Json.Number

def toRat : Number → ℚ
  | .int n => n
  | .float x => x.toRat

theorem isOne_iff {n : Number} : n.isOne false ↔ n.toRat = 1 := by
  cases n with
  | int n => simp [isOne, toRat]
  | float x => simp [isOne, toRat, Binary64.toRat_eq_one_iff]

end Json.Number

end FilterQuery
