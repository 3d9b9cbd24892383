import FilterQuery.Proofs.Sql.Meaning

/-!
# What filtering adds to a statement

A group that is added to a statement without conditions is taken as it is. Added to conditions that
are there it contributes its predicates one by one, which makes no difference for an `AND` group. An
`OR` group is scattered: of its predicates all must be true. The conditions after any number of
groups are the conjunction of the groups, except where a scattered group is true with one of its
predicates false.
-/

namespace FilterQuery.Sql

variable (ρ : Test → Bool)

namespace Group

/-- The truth that `group` adds to `conditions`. -/
def added (conditions group : Group) : Bool :=
  if conditions.isEmpty then group.holds ρ else (group.verdicts ρ).all id

/-- An `OR` group that meets other conditions while one of its predicates is false. -/
def Scattered (conditions group : Group) : Prop :=
  group.combinator = .or ∧ conditions.isEmpty = false ∧ false ∈ group.verdicts ρ

theorem added_of_and (conditions : Group) {group : Group} (h : group.combinator = .and) :
    added ρ conditions group = group.holds ρ := by
  rw [added, holds_of_and ρ h, ite_self]

theorem all_eq_true_iff_not_mem (verdicts : List Bool) :
    verdicts.all id = true ↔ false ∉ verdicts := by
  rw [List.all_eq_true]
  constructor
  · intro h hmem
    exact Bool.false_ne_true (h false hmem)
  · intro h verdict hmem
    cases verdict with
    | true => rfl
    | false => exact absurd hmem h

/-- What is added is the group itself, unless it is scattered. -/
theorem added_eq_true_iff (conditions group : Group) :
    added ρ conditions group = true ↔ group.holds ρ = true ∧ ¬ Scattered ρ conditions group := by
  cases hgroup : group.combinator with
  | and =>
    have hkept : ¬ Scattered ρ conditions group := fun h => by cases hgroup.symm.trans h.1
    rw [added_of_and ρ conditions hgroup, and_iff_left hkept]
  | or =>
    by_cases hempty : conditions.isEmpty = true
    · have hkept : ¬ Scattered ρ conditions group := fun h => by cases hempty.symm.trans h.2.1
      rw [added, if_pos hempty, and_iff_left hkept]
    · rw [added, if_neg hempty]
      constructor
      · intro h
        have hverdicts := (all_eq_true_iff_not_mem _).mp h
        exact ⟨holds_of_all ρ h, fun hscattered => hverdicts hscattered.2.2⟩
      · intro h
        refine (all_eq_true_iff_not_mem _).mpr fun hfalse => h.2 ⟨hgroup, ?_, hfalse⟩
        exact Bool.eq_false_iff.mpr hempty

end Group

namespace Select

open Sql.Group (added added_eq_true_iff Scattered)

theorem holds_merge (conditions group : Group) :
    (merge conditions group).holds ρ = (conditions.holds ρ && added ρ conditions group) := by
  rw [merge]
  split
  · next hgroup =>
    have hadded : added ρ conditions group = true := by
      obtain ⟨combinator, predicates⟩ := group
      obtain rfl : predicates = [] := by simpa [Group.isEmpty] using hgroup
      rw [added, Group.holds_of_isEmpty ρ hgroup]
      exact ite_self true
    rw [hadded, Bool.and_true]
  · split
    · next hconditions =>
      rw [Group.holds_of_isEmpty ρ hconditions, added, if_pos hconditions, Bool.true_and]
    · next hconditions =>
      rw [added, if_neg hconditions]
      split
      · next hand =>
        have hmerged : (conditions.extend group).combinator = .and := hand
        rw [Group.holds_of_and ρ hmerged, Group.verdicts_extend, List.all_append,
          Group.holds_of_and ρ hand]
      · have hmerged : (((Group.empty .and).nest conditions).extend group).combinator = .and := rfl
        rw [Group.holds_of_and ρ hmerged, Group.verdicts_extend, List.all_append,
          Group.all_verdicts_nest]
        rfl

theorem holds_filter (s : Select) (group : Group) :
    (s.filter group).conditions.holds ρ =
      (s.conditions.holds ρ && added ρ s.conditions group) :=
  holds_merge ρ s.conditions group

/-- After a run of groups, each group has added its truth to the conditions it met. -/
theorem holds_foldl_filter (s : Select) (groups : List Group) :
    (groups.foldl filter s).conditions.holds ρ = true ↔
      s.conditions.holds ρ = true ∧ ∀ before group after, groups = before ++ group :: after →
        added ρ (before.foldl filter s).conditions group = true := by
  induction groups generalizing s with
  | nil => simp
  | cons first groups ih =>
    rw [List.foldl_cons, ih, holds_filter, Bool.and_eq_true, and_assoc]
    refine and_congr_right fun _ => ?_
    constructor
    · rintro ⟨hfirst, hrest⟩ before group after heq
      rcases List.cons_eq_append_iff.mp heq with ⟨rfl, hcons⟩ | ⟨before, rfl, hcons⟩
      · obtain ⟨rfl, rfl⟩ := List.cons.inj hcons
        exact hfirst
      · exact hrest before group after hcons
    · intro h
      refine ⟨h [] first groups rfl, fun before group after heq => ?_⟩
      exact h (first :: before) group after (by rw [heq, List.cons_append])

/-- Filtering by one group is conjunction with it, and filtering by any number of groups is
conjunction with all of them, exactly where no group is lost: all are true and one is scattered. -/
theorem filter_eq_conjunction_iff (s : Select) :
    (∀ group, (s.filter group).conditions.holds ρ = (s.conditions.holds ρ && group.holds ρ) ↔
      ¬ (s.conditions.holds ρ = true ∧ group.holds ρ = true ∧ Scattered ρ s.conditions group)) ∧
    ∀ groups : List Group, (groups.foldl filter s).conditions.holds ρ =
        (s.conditions.holds ρ && groups.all (Group.holds ρ)) ↔
      ¬ (s.conditions.holds ρ = true ∧ groups.all (Group.holds ρ) = true ∧
        ∃ before group after, groups = before ++ group :: after ∧
          Scattered ρ (before.foldl filter s).conditions group) := by
  constructor
  · intro group
    rw [holds_filter, Bool.eq_iff_iff, Bool.and_eq_true, Bool.and_eq_true, added_eq_true_iff]
    constructor
    · rintro heq ⟨hs, hgroup, hscattered⟩
      exact (heq.mpr ⟨hs, hgroup⟩).2.2 hscattered
    · intro hkept
      refine and_congr_right fun hs => ⟨And.left, fun hgroup => ⟨hgroup, fun hscattered => ?_⟩⟩
      exact hkept ⟨hs, hgroup, hscattered⟩
  · intro groups
    rw [Bool.eq_iff_iff, holds_foldl_filter, Bool.and_eq_true, List.all_eq_true]
    constructor
    · rintro heq ⟨hs, hall, before, group, after, hsplit, hscattered⟩
      have hadded := (heq.mpr ⟨hs, hall⟩).2 before group after hsplit
      exact ((added_eq_true_iff ρ _ _).mp hadded).2 hscattered
    · intro hkept
      refine and_congr_right fun hs => ⟨fun hadded group hgroup => ?_, fun hall => ?_⟩
      · obtain ⟨before, after, hsplit⟩ := List.append_of_mem hgroup
        exact ((added_eq_true_iff ρ _ _).mp (hadded before group after hsplit)).1
      · intro before group after hsplit
        have hgroup : group ∈ groups := by
          rw [hsplit]
          exact List.mem_append_right before List.mem_cons_self
        refine (added_eq_true_iff ρ _ _).mpr ⟨hall group hgroup, fun hscattered => ?_⟩
        exact hkept ⟨hs, hall, before, group, after, hsplit, hscattered⟩

/-- Filtered by `a = 1` and then by `b = 2 OR c = 3`, a statement asks for all three. -/
theorem filter_loses_or :
    let equals (name : String) (n : Nat) : Expr :=
      .compare (.column (.single name)) .eq (.value (.ofNat n))
    let s := (ofTable ⟨none, "t"⟩).filter ⟨.and, [equals "a" 1]⟩
    let group : Group := ⟨.or, [equals "b" 2, equals "c" 3]⟩
    let ρ : Test → Bool
      | .equals (.column ident) _ => ident ≠ .single "c"
      | _ => false
    (s.filter group).conditions.holds ρ = false ∧
      (s.conditions.holds ρ && group.holds ρ) = true := by
  decide +kernel

end Select

end FilterQuery.Sql
