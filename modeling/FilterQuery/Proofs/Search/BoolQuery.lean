import FilterQuery.Proofs.Search.Clause
import FilterQuery.Search.BoolQuery

/-!
# What bool queries mean

A bool query holds if all clauses in `must` and `filter` do, none in `mustNot`, and at least one in
`should` as soon as there is one. Pushing keeps the query guarded: a minimum of one is recorded
exactly when `should` has clauses. For guarded queries the JSON that is written is read in the same
way, and each push adds its clause to what is asked for.
-/

namespace FilterQuery.Search

open Json (Value)

namespace BoolQuery

section Meaning

variable {α : Type} (truth : α → Bool)

def holds (q : BoolQuery α) : Bool :=
  q.must.all truth && q.filter.all truth && (q.should.isEmpty || q.should.any truth) &&
    q.mustNot.all fun clause => !truth clause

/-- A minimum of one stands beside `should`, and no minimum without it. -/
def Guarded (q : BoolQuery α) : Prop :=
  q.minimumShouldMatch = if q.should.isEmpty then none else some 1

@[simp] theorem holds_empty : (empty : BoolQuery α).holds truth = true := rfl

theorem guarded_empty : (empty : BoolQuery α).Guarded := rfl

theorem Guarded.push {q : BoolQuery α} (h : q.Guarded) (occur : Occur) (clause : α) :
    (q.push occur clause).Guarded := by
  cases occur with
  | should => simp [Guarded, BoolQuery.push]
  | must => exact h
  | filter => exact h
  | mustNot => exact h

theorem Guarded.pushAll {q : BoolQuery α} (h : q.Guarded) (occur : Occur) (clauses : List α) :
    (q.pushAll occur clauses).Guarded := by
  induction clauses generalizing q with
  | nil => exact h
  | cons clause clauses ih => exact ih (h.push occur clause)

/-- Every list but `should` asks for each clause that is pushed. -/
theorem holds_push (q : BoolQuery α) {occur : Occur} (h : occur ≠ .should) (clause : α) :
    (q.push occur clause).holds truth =
      (q.holds truth && if occur = .mustNot then !truth clause else truth clause) := by
  cases occur with
  | should => exact absurd rfl h
  | must => simp [holds, push, Bool.and_assoc, Bool.and_comm]
  | filter => simp [holds, push, Bool.and_assoc, Bool.and_comm, Bool.and_left_comm]
  | mustNot => simp [holds, push, Bool.and_assoc]

theorem holds_pushAll_must (q : BoolQuery α) (clauses : List α) :
    (q.pushAll .must clauses).holds truth = (q.holds truth && clauses.all truth) := by
  induction clauses generalizing q with
  | nil => simp [pushAll]
  | cons clause clauses ih =>
    have hstep := ih (q.push .must clause)
    rw [holds_push truth q (by decide), if_neg (by decide), Bool.and_assoc] at hstep
    exact hstep

theorem pushAll_should (q : BoolQuery α) (clauses : List α) :
    (q.pushAll .should clauses).must = q.must ∧ (q.pushAll .should clauses).filter = q.filter ∧
      (q.pushAll .should clauses).mustNot = q.mustNot ∧
      (q.pushAll .should clauses).should = q.should ++ clauses := by
  induction clauses generalizing q with
  | nil => simp [pushAll]
  | cons clause clauses ih =>
    obtain ⟨hmust, hfilter, hmustNot, hshould⟩ := ih (q.push .should clause)
    refine ⟨hmust, hfilter, hmustNot, hshould.trans ?_⟩
    rw [push, List.append_assoc, List.singleton_append]

/-- The clauses that fill an empty `should` are alternatives. -/
theorem holds_pushAll_should {q : BoolQuery α} (h : q.should = []) {clauses : List α}
    (hne : clauses ≠ []) :
    (q.pushAll .should clauses).holds truth = (q.holds truth && clauses.any truth) := by
  obtain ⟨hmust, hfilter, hmustNot, hshould⟩ := q.pushAll_should clauses
  obtain ⟨clause, clauses, rfl⟩ := List.exists_cons_of_ne_nil hne
  simp [holds, hmust, hfilter, hmustNot, hshould, h, Bool.and_assoc, Bool.and_comm,
    Bool.and_left_comm]

end Meaning

section Reading

variable (σ : Test → Bool)

theorem listsHold_append (minimum : Nat) (lists rest : List (String × Value)) :
    listsHold σ minimum (lists ++ rest) =
      (listsHold σ minimum lists && listsHold σ minimum rest) := by
  induction lists with
  | nil => rfl
  | cons list lists ih =>
    obtain ⟨name, value⟩ := list
    cases value with
    | array clauses => simp only [List.cons_append, listsHold, ih, Bool.and_assoc]
    | number n => simp only [List.cons_append, listsHold, ih, Bool.and_assoc]
    | null => rfl
    | bool b => rfl
    | string s => rfl
    | object fields => rfl

theorem listsHold_listField (minimum : Nat) (name : String) (clauses : List Clause) :
    listsHold σ minimum (listField Clause.toValue name clauses) =
      (clauses.isEmpty || listHolds minimum name (clauses.map (Clause.holds σ))) := by
  cases clauses with
  | nil => rfl
  | cons clause clauses =>
    have htruths := clauseTruths_map σ (clause :: clauses) fun c _ => clauseHolds_toValue σ c
    simp only [listField, listsHold, htruths, Bool.and_true, List.isEmpty_cons, Bool.false_or]

theorem lookup_listField {key name : String} (h : key ≠ name) (clauses : List Clause) :
    (listField Clause.toValue name clauses).lookup key = none := by
  cases clauses with
  | nil => rfl
  | cons clause clauses => simp [listField, List.lookup_cons, beq_false_of_ne h]

/-- The recorded minimum is the one that is read, as far as `should` needs one. -/
theorem Guarded.minimumShould {q : BoolQuery Clause} (h : q.Guarded) (hne : q.should ≠ []) :
    minimumShould (listField Clause.toValue "must" q.must ++
      listField Clause.toValue "filter" q.filter ++ listField Clause.toValue "should" q.should ++
      listField Clause.toValue "must_not" q.mustNot ++
      (q.minimumShouldMatch.map fun n => ("minimum_should_match", Value.ofNat n)).toList) = 1 := by
  have hminimum : q.minimumShouldMatch = some 1 := by
    rw [h, if_neg (by simpa using hne)]
  rw [Search.minimumShould]
  simp [hminimum, List.lookup_append, lookup_listField, Value.ofNat]

/-- The list `should` needs one clause that holds as soon as it is there. -/
theorem listsHold_should (clauses : List Clause) :
    listsHold σ 1 (listField Clause.toValue "should" clauses) =
      (clauses.isEmpty || clauses.any (Clause.holds σ)) := by
  rw [listsHold_listField, listHolds, one_le_count_true, List.any_map, Function.id_comp]

/-- Written out as JSON, a guarded query is read as it is meant. -/
theorem Guarded.boolHolds_toValue {q : BoolQuery Clause} (h : q.Guarded) :
    boolHolds σ (q.toValue Clause.toValue) = q.holds (Clause.holds σ) := by
  have hmust (minimum : Nat) : listsHold σ minimum (listField Clause.toValue "must" q.must) =
      q.must.all (Clause.holds σ) := by
    rw [listsHold_listField]
    cases q.must <;> simp [listHolds]
  have hfilter (minimum : Nat) : listsHold σ minimum (listField Clause.toValue "filter" q.filter) =
      q.filter.all (Clause.holds σ) := by
    rw [listsHold_listField]
    cases q.filter <;> simp [listHolds]
  have hnot (minimum : Nat) : listsHold σ minimum (listField Clause.toValue "must_not" q.mustNot) =
      q.mustNot.all fun clause => !clause.holds σ := by
    rw [listsHold_listField, listHolds, List.all_map]
    cases q.mustNot <;> rfl
  have hmin (minimum : Nat) : listsHold σ minimum (q.minimumShouldMatch.map fun n =>
      ("minimum_should_match", Value.ofNat n)).toList = true := by
    cases q.minimumShouldMatch <;> simp [listsHold, Value.ofNat]
  rw [toValue, boolHolds]
  by_cases hne : q.should = []
  · simp only [listsHold_append, hmust, hfilter, hnot, hmin, listsHold_listField, hne, holds]
    simp
  · rw [h.minimumShould hne]
    simp only [listsHold_append, hmust, hfilter, hnot, hmin, listsHold_should, holds]
    rw [Bool.and_true]

end Reading

end BoolQuery

end FilterQuery.Search
