import FilterQuery.Proofs.Hints.Queries
import FilterQuery.Proofs.Search.Leaves

/-!
# Runs of pushes

What a bool query holds after a run of pushes: each list has the clauses that were pushed to it, in
their order, and a minimum is recorded as soon as one of them was an alternative. The query of a
filter comes about by such a run, whatever groups the filter has, so what is written for it has a
minimum exactly where it has the list `should`.
-/

namespace FilterQuery.Search

open Json (Value)

namespace BoolQuery

variable {α : Type}

/-- The query after clauses have been pushed one after another, each to a list of its own. -/
def run (q : BoolQuery α) (pushes : List (Occur × α)) : BoolQuery α :=
  pushes.foldl (fun q push => q.push push.1 push.2) q

def list (q : BoolQuery α) : Occur → List α
  | .must => q.must
  | .filter => q.filter
  | .should => q.should
  | .mustNot => q.mustNot

/-- The clauses that a run pushes to one of the lists. -/
def pushedTo (occur : Occur) (pushes : List (Occur × α)) : List α :=
  (pushes.filter fun push => push.1 = occur).map Prod.snd

theorem pushedTo_cons (occur : Occur) (push : Occur × α) (pushes : List (Occur × α)) :
    pushedTo occur (push :: pushes) =
      (if push.1 = occur then [push.2] else []) ++ pushedTo occur pushes := by
  by_cases h : push.1 = occur <;> simp [pushedTo, h]

theorem run_append (q : BoolQuery α) (pushes later : List (Occur × α)) :
    q.run (pushes ++ later) = (q.run pushes).run later :=
  List.foldl_append

theorem run_map (q : BoolQuery α) (occur : Occur) (clauses : List α) :
    q.run (clauses.map fun clause => (occur, clause)) = q.pushAll occur clauses :=
  List.foldl_map

/-- A push goes to the end of its list and leaves the others. -/
theorem list_push (q : BoolQuery α) (pushed occur : Occur) (clause : α) :
    (q.push pushed clause).list occur =
      q.list occur ++ if pushed = occur then [clause] else [] := by
  cases pushed <;> cases occur <;> simp [push, list]

theorem list_run (q : BoolQuery α) (pushes : List (Occur × α)) (occur : Occur) :
    (q.run pushes).list occur = q.list occur ++ pushedTo occur pushes := by
  induction pushes generalizing q with
  | nil => exact (List.append_nil _).symm
  | cons push pushes ih =>
    have hlater := ih (q.push push.1 push.2)
    rw [list_push, List.append_assoc, ← pushedTo_cons] at hlater
    exact hlater

theorem length_run (q : BoolQuery α) (pushes : List (Occur × α)) :
    (q.run pushes).length = q.length + pushes.length := by
  induction pushes generalizing q with
  | nil => rfl
  | cons push pushes ih =>
    have hlater := ih (q.push push.1 push.2)
    rw [length_push, Nat.add_right_comm] at hlater
    exact hlater

theorem Guarded.run {q : BoolQuery α} (h : q.Guarded) (pushes : List (Occur × α)) :
    (q.run pushes).Guarded := by
  induction pushes generalizing q with
  | nil => exact h
  | cons push pushes ih => exact ih (h.push push.1 push.2)

theorem field?_should_toValue (q : BoolQuery Clause) :
    (q.toValue Clause.toValue).field? "should" =
      (listField Clause.toValue "should" q.should).lookup "should" := by
  have hminimum : (q.minimumShouldMatch.map fun n =>
      ("minimum_should_match", Value.ofNat n)).toList.lookup "should" = none := by
    cases q.minimumShouldMatch <;> rfl
  simp [toValue, Value.field?, List.lookup_append, lookup_listField, hminimum]

theorem field?_minimum_toValue (q : BoolQuery Clause) :
    (q.toValue Clause.toValue).field? "minimum_should_match" =
      q.minimumShouldMatch.map Value.ofNat := by
  have hminimum : (q.minimumShouldMatch.map fun n =>
      ("minimum_should_match", Value.ofNat n)).toList.lookup "minimum_should_match" =
        q.minimumShouldMatch.map Value.ofNat := by
    cases q.minimumShouldMatch <;> rfl
  simp [toValue, Value.field?, List.lookup_append, lookup_listField, hminimum]

/-- In what is written for a guarded query, a minimum of one stands beside the list `should` and
nowhere else. -/
theorem Guarded.field?_minimum {q : BoolQuery Clause} (h : q.Guarded) :
    (q.toValue Clause.toValue).field? "minimum_should_match" =
      ((q.toValue Clause.toValue).field? "should").map fun _ => .ofNat 1 := by
  rw [field?_minimum_toValue, field?_should_toValue, h]
  cases q.should <;> rfl

end BoolQuery

variable (bounds : Bounds)

theorem exists_run_pushNode (q : BoolQuery Clause) (node : Node) :
    ∃ pushes, pushNode bounds q node = q.run pushes := by
  cases node with
  | condition c => exact ⟨[leaf bounds c], rfl⟩
  | group kind items =>
    cases kind with
    | and => exact ⟨_, (q.run_map .must (nestedItems bounds items)).symm⟩
    | or =>
      rw [pushNode]
      split
      · exact ⟨_, (q.run_map .should (nestedItems bounds items)).symm⟩
      · exact ⟨[(.must, groupClause .or (nestedItems bounds items))], rfl⟩

theorem exists_run_foldl_pushNode (nodes : List Node) (q : BoolQuery Clause) :
    ∃ pushes, nodes.foldl (pushNode bounds) q = q.run pushes := by
  induction nodes generalizing q with
  | nil => exact ⟨[], rfl⟩
  | cons node nodes ih =>
    obtain ⟨first, hfirst⟩ := exists_run_pushNode bounds q node
    obtain ⟨later, hlater⟩ := ih (pushNode bounds q node)
    refine ⟨first ++ later, ?_⟩
    rw [List.foldl_cons, hlater, hfirst, BoolQuery.run_append]

theorem exists_run_boolQuery (filter : Filter) :
    ∃ pushes, boolQuery bounds filter = BoolQuery.empty.run pushes :=
  exists_run_foldl_pushNode bounds filter.nodes .empty

/-- A run from the empty query leaves in each list the clauses that were pushed to it, a minimum of
one exactly if `should` has clauses, and as many clauses as there were pushes. The query of a filter
is what such a run leaves, and the minimum is written for it exactly if the list `should` is. -/
theorem list_run_and_minimum_written :
    (∀ (α : Type) (pushes : List (Occur × α)),
      (∀ occur, (BoolQuery.empty.run pushes).list occur = BoolQuery.pushedTo occur pushes) ∧
      (BoolQuery.empty.run pushes).minimumShouldMatch =
        (if (BoolQuery.empty.run pushes).should.isEmpty then none else some 1) ∧
      (BoolQuery.empty.run pushes).length = pushes.length) ∧
    ∀ (config : Config) (filter : Filter), ∃ pushes,
      let q := BoolQuery.empty.run pushes
      boolQuery config.searchBounds filter = q ∧
        q.minimumShouldMatch = (if q.should.isEmpty then none else some 1) ∧
        (q.toValue Clause.toValue).field? "minimum_should_match" =
          ((q.toValue Clause.toValue).field? "should").map fun _ => .ofNat 1 := by
  refine ⟨fun α pushes => ⟨fun occur => ?_, ?_, ?_⟩, fun config filter => ?_⟩
  · rw [BoolQuery.list_run]
    cases occur <;> rfl
  · exact BoolQuery.guarded_empty.run pushes
  · rw [BoolQuery.length_run]
    exact Nat.zero_add _
  · obtain ⟨pushes, hpushes⟩ := exists_run_boolQuery config.searchBounds filter
    have hguarded : (BoolQuery.empty.run pushes : BoolQuery Clause).Guarded :=
      BoolQuery.guarded_empty.run pushes
    exact ⟨pushes, hpushes, hguarded, hguarded.field?_minimum⟩

/-- Groups without items push nothing, or one clause behind the first alternatives. -/
example (c : Condition) :
    let q := boolQuery bounds ⟨[.group .or [], .group .or [.condition c], .group .or []]⟩
    q.should = [conditionClause bounds c] ∧ q.must = [.any []] ∧ q.minimumShouldMatch = some 1 :=
  ⟨rfl, rfl, rfl⟩

end FilterQuery.Search
