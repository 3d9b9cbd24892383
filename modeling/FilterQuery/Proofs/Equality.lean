import FilterQuery.Proofs.Relational.Parameters
import FilterQuery.Proofs.Search.Equality
import FilterQuery.Proofs.Sql.Equality

/-!
# Equal filters have equal queries

Compiling respects equality of values. Predicates of equal filters are equal expressions, as the
clauses are equal clauses, and applied to a template they leave equal statements: one text in every
dialect, and equal values for its placeholders.
-/

namespace FilterQuery

open Json (Value)
open Sql (Expr Select SortExpr)

namespace Relational

variable (bounds : Bounds)

theorem conditionForm_beq (field : String) {op op' : Op} (h : op.Alike op') :
    (conditionForm bounds ⟨field, op⟩ == conditionForm bounds ⟨field, op'⟩) = true := by
  have hcondition {op op' : Op} (h : op.Alike op') :
      (Node.condition ⟨field, op⟩ == .condition ⟨field, op'⟩) = true := by
    rw [Node.condition_beq, h.beq, beq_self_eq_true, Bool.true_and]
  have hmembership := hcondition h.asMembership
  cases h with
  | between hlower hupper =>
    cases bounds with
    | inclusive => exact hmembership
    | exclusive =>
      rw [conditionForm, conditionForm, Node.group_beq, beq_iff_forall₂.mpr]
      · rfl
      · exact .cons (hcondition (.gt hlower)) (.cons (hcondition (.lt hupper)) .nil)
  | _ => exact hmembership

theorem form_beq {a b : Node} (h : (a == b) = true) : (form bounds a == form bounds b) = true := by
  refine Node.beq_induction (fun field op op' hop => ?_) (fun kind items items' _ hpairs => ?_) h
  · exact conditionForm_beq bounds field hop
  · have hforms := map_beq_of_forall₂ hpairs fun _ _ hpair => hpair
    rw [form_group, form_group, Node.group_beq, hforms, beq_self_eq_true, Bool.true_and]

theorem nodePredicate_beq {a b : Node} (h : (a == b) = true) :
    (nodePredicate bounds a == nodePredicate bounds b) = true := by
  rw [nodePredicate_eq, nodePredicate_eq, formExpr_beq]
  exact form_beq bounds h

theorem predicates_beq {filter filter' : Filter} (h : (filter == filter') = true) :
    (predicates bounds filter == predicates bounds filter') = true := by
  rw [predicates, predicates, Sql.Group.beq_def, nodePredicates_eq_map, nodePredicates_eq_map]
  exact map_beq_map h fun _ _ _ => nodePredicate_beq bounds

theorem Query.beq_def (q q' : Query) :
    (q == q') = (q.conditions == q'.conditions && (q.orderBy == q'.orderBy &&
      (q.limit == q'.limit && q.offset == q'.offset))) := rfl

theorem sortExprs_beq_self (sort : Option SortHint) :
    (sortExprs sort == sortExprs sort) = true := by
  refine SortExpr.list_beq_self ?_
  rw [flatMap_values_sortExprs]
  exact List.forall_mem_nil _

theorem query_beq (config : Config) {filter filter' : Filter} (h : (filter == filter') = true)
    (hints : Hints) :
    (query config ⟨filter, hints⟩ == query config ⟨filter', hints⟩) = true := by
  simp [query, Query.beq_def, predicates_beq config.relationalBounds h, sortExprs_beq_self]

/-- Applied to one template, equal queries leave equal statements. -/
theorem apply_beq {template : Select} (htemplate : (template == template) = true) {q q' : Query}
    (h : (q == q') = true) : (q.apply template == q'.apply template) = true := by
  simp only [Query.beq_def, Select.beq_def, Bool.and_eq_true, beq_iff_eq] at h htemplate
  obtain ⟨hconditions, horder, hlimit, hoffset⟩ := h
  obtain ⟨hcolumns, -, htemplateConditions, htemplateOrder, -, -⟩ := htemplate
  have hmerged := Select.merge_beq htemplateConditions hconditions
  have hordered := append_beq_append htemplateOrder horder
  rw [Query.apply_eq, Query.apply_eq, hlimit, hoffset]
  simp [Select.beq_def, hcolumns, hmerged, hordered]

end Relational

/-- Both compilers answer requests with equal filters and equal hints with equal queries. Those of
the search are equal with their clauses as such, with the JSON of their clauses, and as they are
written. Over a template whose values repeat no name, the statements have one text in every dialect,
and equal values are bound for them. -/
theorem compile_beq (config : Config) {template : Select}
    (htemplate : ∀ v ∈ template.values, v.Distinct) {request other : Request}
    (hfilter : (request.filter == other.filter) = true)
    (hhints : (request.hints == other.hints) = true) :
    (∃ q q', (Search.compile config request).outcome = .ok q ∧
      (Search.compile config other).outcome = .ok q' ∧ (q == q') = true ∧
      (q.map Search.Clause.toValue == q'.map Search.Clause.toValue) = true ∧
      (q.toValue Search.Clause.toValue == q'.toValue Search.Clause.toValue) = true) ∧
    (Relational.query config request == Relational.query config other) = true ∧
    ∃ s s', (Relational.compile template config request).outcome = .ok s ∧
      (Relational.compile template config other).outcome = .ok s' ∧ (s == s') = true ∧
      ∀ d, (Sql.bound d (s.pieces d)).sql = (Sql.bound d (s'.pieces d)).sql ∧
        ((Sql.bound d (s.pieces d)).params == (Sql.bound d (s'.pieces d)).params) = true := by
  obtain ⟨filter, hints⟩ := request
  obtain ⟨filter', hints'⟩ := other
  obtain rfl : hints = hints' := eq_of_beq hhints
  have hquery := Relational.query_beq config hfilter hints
  have hstatement := Relational.apply_beq (Select.beq_self htemplate) hquery
  refine ⟨⟨_, _, rfl, rfl, Search.query_beq config hfilter hints⟩, hquery, _, _, rfl, rfl,
    hstatement, fun d => ⟨?_, Select.params_beq hstatement d⟩⟩
  exact Relational.sql_eq_of_erase_eq (Select.erase_eq_of_beq hstatement) d

/-- An object in an array, a range from a zero on and a group, for some order of the fields and a
sign of the zero. -/
def placedRequest (place : Json.Fields) (zero : Binary64) : Request :=
  ⟨⟨[.condition ⟨"at", .notEq (.array [.object place, .null])⟩,
      .group .or [.condition ⟨"x", .between (.number (.float zero)) (.ofNat 9)⟩,
        .group .and [.condition ⟨"x", .eq (.number (.float zero))⟩]]]⟩,
    ⟨some (.byField "x"), some 5, none⟩⟩

/-- A disjunction as condition, and an object among the columns. -/
def placedTemplate : Select :=
  ⟨[.value (.object [("a", .null), ("b", .ofNat 1)])], some ⟨none, "t"⟩,
    ⟨.or, [.isNull (.path "a") false, .compare (.path "b") .eq (.value (.ofNat 2))]⟩,
    [⟨.path "c", .desc⟩], none, some 8⟩

theorem compile_beq_reordered :
    let config := Config.default
    let request := placedRequest [("a", .ofNat 1), ("b", .null)] (.zero false)
    let other := placedRequest [("b", .null), ("a", .ofNat 1)] (.zero true)
    (request.filter == other.filter) = true ∧ (request.hints == other.hints) = true ∧
      (∃ q q', (Search.compile config request).outcome = .ok q ∧
        (Search.compile config other).outcome = .ok q' ∧ (q == q') = true ∧
        (q.map Search.Clause.toValue == q'.map Search.Clause.toValue) = true ∧
        (q.toValue Search.Clause.toValue == q'.toValue Search.Clause.toValue) = true) ∧
      (Relational.query config request == Relational.query config other) = true ∧
      ∃ s s', (Relational.compile placedTemplate config request).outcome = .ok s ∧
        (Relational.compile placedTemplate config other).outcome = .ok s' ∧ (s == s') = true ∧
        ∀ d, (Sql.bound d (s.pieces d)).sql = (Sql.bound d (s'.pieces d)).sql ∧
          ((Sql.bound d (s.pieces d)).params == (Sql.bound d (s'.pieces d)).params) = true := by
  intro config request other
  have htemplate : ∀ v ∈ placedTemplate.values, v.Distinct := by
    have hobject : (Value.object [("a", .null), ("b", .ofNat 1)]).Distinct :=
      .object (by decide) (List.forall_mem_cons.mpr
        ⟨.null, List.forall_mem_singleton.mpr (.number _)⟩)
    exact List.forall_mem_cons.mpr ⟨hobject, List.forall_mem_singleton.mpr (.number _)⟩
  have hfilter : (request.filter == other.filter) = true := rfl
  have hhints : (request.hints == other.hints) = true := rfl
  exact ⟨hfilter, hhints, compile_beq config htemplate hfilter hhints⟩

end FilterQuery
