import Mathlib.Data.List.Forall2
import FilterQuery.Proofs.Distinction
import FilterQuery.Proofs.Json.Reading

/-!
# Equal values

Equality of values does not see the order of fields or the sign of a zero, so it is not identity. It
is carried through lists item by item, and through objects field by field as long as no name is
given twice. A value that repeats no name is equal to itself.
-/

namespace FilterQuery

/-! ## Lists -/

section Lists

variable {α β γ : Type} [BEq α]

/-- Items of equal lists stand in whatever relation equal items have. -/
theorem forall₂_map_of_beq {R : β → γ → Prop} {f : α → β} {g : α → γ} {xs ys : List α}
    (h : (xs == ys) = true) (hR : ∀ x ∈ xs, ∀ y, (x == y) = true → R (f x) (g y)) :
    List.Forall₂ R (xs.map f) (ys.map g) := by
  induction xs generalizing ys with
  | nil =>
    cases ys with
    | nil => exact .nil
    | cons y ys => cases h
  | cons x xs ih =>
    cases ys with
    | nil => cases h
    | cons y ys =>
      rw [List.cons_beq_cons, Bool.and_eq_true] at h
      obtain ⟨hfirst, hlater⟩ := List.forall_mem_cons.mp hR
      exact .cons (hfirst y h.1) (ih h.2 hlater)

theorem beq_iff_forall₂ {xs ys : List α} :
    (xs == ys) = true ↔ List.Forall₂ (fun x y => (x == y) = true) xs ys := by
  constructor
  · intro h
    simpa using forall₂_map_of_beq (f := id) (g := id) h fun x _ y hxy => hxy
  · intro h
    induction h with
    | nil => rfl
    | cons hfirst _ ih => rw [List.cons_beq_cons, hfirst, ih, Bool.true_and]

theorem map_beq_of_forall₂ {δ : Type} [BEq δ] {R : β → γ → Prop} {f : β → δ} {g : γ → δ}
    {xs : List β} {ys : List γ} (h : List.Forall₂ R xs ys)
    (hR : ∀ x y, R x y → (f x == g y) = true) : (xs.map f == ys.map g) = true := by
  rw [beq_iff_forall₂, List.forall₂_map_left_iff, List.forall₂_map_right_iff]
  exact h.imp hR

theorem map_beq_map [BEq β] {f : α → β} {xs ys : List α} (h : (xs == ys) = true)
    (hf : ∀ x ∈ xs, ∀ y, (x == y) = true → (f x == f y) = true) : (xs.map f == ys.map f) = true :=
  beq_iff_forall₂.mpr (forall₂_map_of_beq h hf)

theorem map_eq_map_of_beq {f : α → β} {xs ys : List α} (h : (xs == ys) = true)
    (hf : ∀ x ∈ xs, ∀ y, (x == y) = true → f x = f y) : xs.map f = ys.map f := by
  have hmap := forall₂_map_of_beq h hf
  rwa [List.forall₂_eq_eq_eq] at hmap

theorem append_beq_append {xs xs' ys ys' : List α} (h : (xs == xs') = true)
    (h' : (ys == ys') = true) : (xs ++ ys == xs' ++ ys') = true :=
  beq_iff_forall₂.mpr (List.rel_append (beq_iff_forall₂.mp h) (beq_iff_forall₂.mp h'))

theorem flatMap_beq_flatMap [BEq β] {f : α → List β} {xs ys : List α} (h : (xs == ys) = true)
    (hf : ∀ x ∈ xs, ∀ y, (x == y) = true → (f x == f y) = true) :
    (xs.flatMap f == ys.flatMap f) = true := by
  have hlists := forall₂_map_of_beq h fun x hx y hxy => beq_iff_forall₂.mp (hf x hx y hxy)
  rw [beq_iff_forall₂, List.flatMap_def, List.flatMap_def]
  exact List.rel_flatten hlists

theorem isEmpty_eq_of_beq {xs ys : List α} (h : (xs == ys) = true) : xs.isEmpty = ys.isEmpty := by
  cases beq_iff_forall₂.mp h <;> rfl

theorem exists_mem_of_forall₂ {R : β → γ → Prop} {xs : List β} {ys : List γ}
    (h : List.Forall₂ R xs ys) {x : β} (hx : x ∈ xs) : ∃ y ∈ ys, R x y := by
  induction h with
  | nil => cases hx
  | cons hfirst _ ih =>
    rcases List.mem_cons.mp hx with rfl | hlater
    · exact ⟨_, List.mem_cons_self, hfirst⟩
    · obtain ⟨y, hy, hrelated⟩ := ih hlater
      exact ⟨y, List.mem_cons_of_mem _ hy, hrelated⟩

theorem list_beq_self {xs : List α} (h : ∀ x ∈ xs, (x == x) = true) : (xs == xs) = true :=
  beq_iff_forall₂.mpr (List.forall₂_same.mpr h)

end Lists

namespace Json

namespace Value

/-- Of two equal values both are arrays, or neither is. -/
theorem arrays_or_not_of_beq {v w : Value} (h : (v == w) = true) :
    (∃ vs ws, v = .array vs ∧ w = .array ws ∧ (vs == ws) = true) ∨
      v.kind ≠ .array ∧ w.kind ≠ .array := by
  have hkind : v.kind = w.kind := by
    cases v <;> cases w <;> first | rfl | cases h
  by_cases hv : v.kind = .array
  · obtain ⟨vs, rfl⟩ := kind_eq_array_iff.mp hv
    obtain ⟨ws, rfl⟩ := kind_eq_array_iff.mp (hkind.symm.trans hv)
    exact .inl ⟨vs, ws, rfl, rfl, array_beq vs ws ▸ h⟩
  · exact .inr ⟨hv, hkind ▸ hv⟩

theorem beqFields_of_forall {xs ys : Fields}
    (h : ∀ field ∈ xs, ∃ v, ys.lookup field.1 = some v ∧ (field.2 == v) = true) :
    beqFields xs ys = true := by
  induction xs with
  | nil => rfl
  | cons field xs ih =>
    obtain ⟨⟨v, hlookup, hbeq⟩, hlater⟩ := List.forall_mem_cons.mp h
    rw [beqFields_cons, hlookup, Option.elim_some, hbeq, ih hlater, Bool.true_and]

/-- A field with its name, and a value that is equal. -/
def AlikeFields (field other : String × Value) : Prop :=
  field.1 = other.1 ∧ (field.2 == other.2) = true

theorem object_beq_of_alikeFields {xs ys : Fields} (hnames : (ys.map Prod.fst).Nodup)
    (h : List.Forall₂ AlikeFields xs ys) : (Value.object xs == Value.object ys) = true := by
  rw [object_beq, h.length_eq, beq_self_eq_true, Bool.true_and]
  refine beqFields_of_forall fun field hfield => ?_
  obtain ⟨other, hother, hname, hbeq⟩ := exists_mem_of_forall₂ h hfield
  refine ⟨other.2, ?_, hbeq⟩
  rw [hname]
  exact (lookup_eq_some_iff_mem hnames).mpr hother

theorem number_beq_self (n : Number) : (Value.number n == Value.number n) = true := by
  cases n with
  | int n => exact beq_self_eq_true n
  | float x =>
    have hsame : x.same x = true := by simp [Binary64.same]
    exact hsame

/-- A value that repeats no name is equal to itself. -/
theorem beq_self {v : Value} (h : v.Distinct) : (v == v) = true := by
  induction h with
  | null => rfl
  | bool b => exact beq_self_eq_true b
  | number n => exact number_beq_self n
  | string s => exact beq_self_eq_true s
  | array each ih =>
    rw [array_beq]
    exact list_beq_self ih
  | object names each ih =>
    refine object_beq_of_alikeFields names (List.forall₂_same.mpr fun field hfield => ?_)
    exact ⟨rfl, ih field hfield⟩

end Value

end Json

end FilterQuery
