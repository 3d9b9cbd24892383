import FilterQuery.Proofs.Filter.Image
import FilterQuery.Proofs.Relational.Reading
import FilterQuery.Proofs.Sql.Statement

/-!
# Which documents give grammatical statements

Whatever documents are accepted, the statement on one table has no keyword without its clause and no
empty parentheses. It has an empty `IN` list exactly if the filter asks for equality with, or for
membership in, an array without elements.
-/

namespace FilterQuery

open Json (Value)

/-- An array that a field is compared with has elements. -/
def Op.Filled : Op → Prop
  | .eq operand => operand ≠ .array []
  | .notEq operand => operand ≠ .array []
  | .oneOf operands => operands ≠ []
  | .noneOf operands => operands ≠ []
  | _ => True

def Filter.Filled (filter : Filter) : Prop :=
  ∀ node ∈ filter.nodes, node.Every fun c => c.op.Filled

namespace Node

theorem every_condition_iff {P : Condition → Prop} {c : Condition} :
    (Node.condition c).Every P ↔ P c := by
  constructor
  · intro h
    cases h with
    | condition holds => exact holds
  · exact .condition

theorem every_group_iff {P : Condition → Prop} {kind : GroupKind} {items : List Node} :
    (Node.group kind items).Every P ↔ items ≠ [] ∧ ∀ item ∈ items, item.Every P := by
  constructor
  · intro h
    cases h with
    | group _ hne heach => exact ⟨hne, heach⟩
  · exact fun h => .group kind h.1 h.2

end Node

namespace Relational

open Sql (Expr Select Table)

theorem listsFilled_membership (field : String) (operands : List Value) (negated : Bool) :
    (membership field operands negated).ListsFilled ↔ operands ≠ [] := by
  simp [membership, Expr.ListsFilled]

theorem listsFilled_conditionPredicate (bounds : Bounds) (c : Condition) :
    (conditionPredicate bounds c).ListsFilled ↔ c.op.Filled := by
  obtain ⟨field, op⟩ := c
  cases op with
  | eq operand =>
    cases operand with
    | array operands => simp [conditionPredicate, listsFilled_membership, Op.Filled]
    | _ => simp [conditionPredicate, comparison, Expr.ListsFilled, Op.Filled]
  | notEq operand =>
    cases operand with
    | array operands => simp [conditionPredicate, listsFilled_membership, Op.Filled]
    | _ => simp [conditionPredicate, comparison, Expr.ListsFilled, Op.Filled]
  | oneOf operands => exact listsFilled_membership field operands false
  | noneOf operands => exact listsFilled_membership field operands true
  | between lower upper =>
    cases bounds with
    | inclusive => exact Iff.rfl
    | exclusive =>
      simp [conditionPredicate, betweenPredicate, comparison, Expr.ListsFilled, Expr.EachFilled,
        Op.Filled]
  | _ => exact Iff.rfl

theorem listsFilled_nodePredicate (bounds : Bounds) {node : Node} (h : node.Populated) :
    (nodePredicate bounds node).ListsFilled ↔ node.Every fun c => c.op.Filled := by
  induction h with
  | condition c =>
    rw [Node.every_condition_iff]
    exact listsFilled_conditionPredicate bounds c
  | group kind hne each ih =>
    rw [nodePredicate, nodePredicates_eq_map, Expr.ListsFilled, Expr.eachFilled_iff,
      List.forall_mem_map, Node.every_group_iff, and_iff_right hne]
    exact forall₂_congr ih

theorem byColumn_of_mem_sortExprs (sort : Option SortHint) :
    ∀ key ∈ sortExprs sort, key.ByColumn := by
  cases sort with
  | none => exact fun _ hkey => absurd hkey List.not_mem_nil
  | some sort =>
    intro key hkey
    obtain ⟨key, -, rfl⟩ := List.mem_map.mp hkey
    exact ⟨_, rfl, Sql.Ident.parts_ofPath_ne_nil key.field⟩

/-- On a template without conditions, a query has the predicates of the filter. -/
theorem predicates_merge_empty (combinator : Sql.Combinator) (group : Sql.Group) :
    (Select.merge (.empty combinator) group).predicates = group.predicates := by
  unfold Select.merge
  split
  · next h =>
    have hempty : group.predicates = [] := by simpa [Sql.Group.isEmpty] using h
    exact hempty.symm
  · rfl

/-- Both texts of a statement are read as statements, and as grammatical ones exactly if `P`. -/
structure ReadsGrammatical (d : Sql.Dialect) (s : Select) (P : Prop) : Prop where
  bound_isSome : ((Sql.bound d (s.pieces d)).statement? d).isSome = true
  bound_iff : Sql.Grammatical ((Sql.bound d (s.pieces d)).statement? d) ↔ P
  inline_isSome : (Sql.inlineStatement? d (Sql.inline d (s.pieces d))).isSome = true
  inline_iff : Sql.Grammatical (Sql.inlineStatement? d (Sql.inline d (s.pieces d))) ↔ P

theorem readsGrammatical_apply (table : Table) (config : Config) {request : Request}
    (h : request.filter.Populated) (d : Sql.Dialect) :
    ReadsGrammatical d ((query config request).apply (Select.ofTable table))
      request.filter.Filled := by
  have hpredicates : ((query config request).apply (Select.ofTable table)).conditions.predicates =
      (predicates config.relationalBounds request.filter).predicates := by
    rw [Query.conditions_apply]
    exact predicates_merge_empty .and _
  have hcolumns : ((query config request).apply (Select.ofTable table)).columns = [.star] := by
    rw [Query.apply_eq]
    rfl
  have htable : ((query config request).apply (Select.ofTable table)).table = some table := by
    rw [Query.apply_eq]
    rfl
  have horder : ∀ key ∈ ((query config request).apply (Select.ofTable table)).orderBy,
      key.ByColumn := by
    rw [Query.apply_eq]
    exact byColumn_of_mem_sortExprs request.hints.sort
  have hconditions := isCondition_of_mem_predicates config.relationalBounds h
  have hfilled : (∀ predicate ∈ (predicates config.relationalBounds request.filter).predicates,
      predicate.ListsFilled) ↔ request.filter.Filled := by
    rw [predicates, nodePredicates_eq_map, List.forall_mem_map]
    exact forall₂_congr fun node hnode => listsFilled_nodePredicate _ (h node hnode)
  rw [← hpredicates] at hconditions hfilled
  generalize (query config request).apply (Select.ofTable table) = s at *
  obtain ⟨hbound, hboundIff⟩ := Select.grammatical_items_iff hcolumns htable hconditions horder
    .bound d
  obtain ⟨hinline, hinlineIff⟩ := Select.grammatical_items_iff hcolumns htable hconditions horder
    .inline d
  rw [← s.statement?_bound] at hbound hboundIff
  rw [← s.inlineStatement?_inline] at hinline hinlineIff
  exact ⟨hbound, hboundIff.trans hfilled, hinline, hinlineIff.trans hfilled⟩

/-- Accepted documents give a statement that is read to its end, as a grammatical one exactly if no
operand array of the filter is empty. -/
theorem readsGrammatical_ofDocuments (table : Table) (config : Config) {query hint : Document}
    {request : Request} (h : (Request.ofDocuments query hint).outcome = .ok request) :
    ∃ s, (ofDocuments (Select.ofTable table) config query hint).outcome = .ok s ∧
      ∀ d, ReadsGrammatical d s request.filter.Filled := by
  obtain ⟨filter, hfilter, hhints⟩ := Traced.outcome_bind_eq_ok.mp h
  obtain ⟨hints, -, hrequest⟩ := Traced.outcome_bind_eq_ok.mp hhints
  cases hrequest
  have hpopulated := Filter.populated_ofDocument hfilter
  refine ⟨(Relational.query config ⟨filter, hints⟩).apply (Select.ofTable table), ?_, ?_⟩
  · rw [ofDocuments, Traced.outcome_bind, h]
    rfl
  · exact fun d => readsGrammatical_apply table config hpopulated d

/-- A membership in one value, with a group around it and an offset but no limit beside it. -/
def pagedQuery : Document :=
  [("$or", .array [.object [("f", .object [("$in", .array [.null])])]])]

theorem readsGrammatical_ofDocuments_paged :
    ∃ request, (Request.ofDocuments pagedQuery [("$skip", .ofNat 1)]).outcome = .ok request ∧
      ∃ s, (ofDocuments (Select.ofTable ⟨none, "t"⟩) .default pagedQuery
          [("$skip", .ofNat 1)]).outcome = .ok s ∧
        ∀ d, Sql.Grammatical ((Sql.bound d (s.pieces d)).statement? d) := by
  have hrequest : (Request.ofDocuments pagedQuery [("$skip", .ofNat 1)]).outcome =
      .ok ⟨⟨[.group .or [.condition ⟨"f", .oneOf [.null]⟩]]⟩, ⟨none, none, some 1⟩⟩ := rfl
  obtain ⟨s, hs, hread⟩ := readsGrammatical_ofDocuments ⟨none, "t"⟩ .default hrequest
  refine ⟨_, hrequest, s, hs, fun d => (hread d).bound_iff.mpr ?_⟩
  simp [Filter.Filled, Node.every_group_iff, Node.every_condition_iff, Op.Filled]

/-- An empty array is accepted and rendered as an empty list. -/
theorem emptyList_accepted :
    ∃ s, (ofDocuments (Select.ofTable ⟨none, "t"⟩) .default
        [("f", .object [("$in", .array [])])] []).outcome = .ok s ∧
      (Sql.bound .postgres (s.pieces .postgres)).sql = "SELECT * FROM \"t\" WHERE \"f\" IN ()" ∧
      ¬ Sql.Grammatical ((Sql.bound .postgres (s.pieces .postgres)).statement? .postgres) := by
  have hpopulated : (⟨[.condition ⟨"f", .oneOf []⟩]⟩ : Filter).Populated := by
    simp [Filter.Populated, Node.Populated.condition]
  have hread := @readsGrammatical_apply ⟨none, "t"⟩ .default ⟨_, .empty⟩ hpopulated .postgres
  refine ⟨_, rfl, rfl, fun h => ?_⟩
  have hfilled := hread.bound_iff.mp h
  simp [Filter.Filled, Node.every_condition_iff, Op.Filled] at hfilled

end Relational

end FilterQuery
