import FilterQuery.Proofs.Sql.Select
import FilterQuery.Relational.Query

/-!
# Statements mean their filters

The predicates of a filter have the truth of the filter, where a test of a field is the test of its
column. A query that is applied to a statement adds its conditions to those of the statement and
changes nothing else but order and paging, so what is compiled onto a template asks for the
template's conditions and for the filter.
-/

namespace FilterQuery.Relational

open Json (Value)
open Sql (Combinator Expr Group Select)

/-- The truth of field tests that goes with a truth of predicates. -/
def fieldTruth (ρ : Sql.Test → Bool) : Test → Bool
  | .equals field operand => ρ (.equals (.path field) (.value operand))
  | .oneOf field operands => ρ (.oneOf (.path field) (operands.map .value))
  | .like field pattern => ρ (.like (.path field) (.value (.string pattern)))
  | .present field => !ρ (.null (.path field))
  | .gt field bound => ρ (.gt (.path field) (.value bound))
  | .gte field bound => ρ (.ge (.path field) (.value bound))
  | .lt field bound => ρ (.lt (.path field) (.value bound))
  | .lte field bound => ρ (.le (.path field) (.value bound))

section Predicates

variable (ρ : Sql.Test → Bool) (bounds : Bounds)

theorem join_combinator (kind : GroupKind) : (combinator kind).join = kind.join := by
  cases kind <;> rfl

/-- A condition has a verdict of its own, also where it becomes a group of two comparisons. -/
theorem verdict_conditionPredicate (c : Condition) :
    (conditionPredicate bounds c).verdict ρ = some (c.holds (fieldTruth ρ) bounds) := by
  obtain ⟨field, op⟩ := c
  cases op with
  | eq operand =>
    cases operand <;>
      simp [conditionPredicate, membership, comparison, Expr.verdict, Sql.Comparison.holds,
        Condition.holds, Test.ofEquality, fieldTruth]
  | notEq operand =>
    cases operand <;>
      simp [conditionPredicate, membership, comparison, Expr.verdict, Sql.Comparison.holds,
        Condition.holds, Test.ofEquality, fieldTruth]
  | oneOf operands =>
    simp [conditionPredicate, membership, Expr.verdict, Condition.holds, fieldTruth]
  | noneOf operands =>
    simp [conditionPredicate, membership, Expr.verdict, Condition.holds, fieldTruth]
  | like pattern => rfl
  | gt bound => rfl
  | gte bound => rfl
  | lt bound => rfl
  | lte bound => rfl
  | between lower upper =>
    cases bounds with
    | inclusive => rfl
    | exclusive =>
      simp [conditionPredicate, betweenPredicate, comparison, Expr.verdict, Expr.verdicts,
        Sql.Comparison.holds, Combinator.join, allOf, Condition.holds, fieldTruth]
  | isNull => simp [conditionPredicate, Expr.verdict, Condition.holds, fieldTruth]
  | isNotNull => simp [conditionPredicate, Expr.verdict, Condition.holds, fieldTruth]

theorem verdicts_nodePredicates (nodes : List Node)
    (h : ∀ node ∈ nodes,
      (nodePredicate bounds node).verdict ρ = node.verdict (fieldTruth ρ) bounds) :
    Expr.verdicts ρ (nodePredicates bounds nodes) =
      Node.verdicts (fieldTruth ρ) bounds nodes := by
  induction nodes with
  | nil => rfl
  | cons node nodes ih =>
    have hnode := h node List.mem_cons_self
    have hnodes := ih fun other hother => h other (List.mem_cons_of_mem node hother)
    rw [nodePredicates, Expr.verdicts, hnode, hnodes, Node.verdicts]

theorem verdict_nodePredicate (node : Node) :
    (nodePredicate bounds node).verdict ρ = node.verdict (fieldTruth ρ) bounds := by
  induction node with
  | condition c => exact verdict_conditionPredicate ρ bounds c
  | group kind items ih =>
    rw [nodePredicate, Expr.verdict, verdicts_nodePredicates ρ bounds items ih, join_combinator,
      Node.verdict]

theorem holds_predicates (filter : Filter) :
    (predicates bounds filter).holds ρ = filter.holds (fieldTruth ρ) bounds := by
  have hverdicts := verdicts_nodePredicates ρ bounds filter.nodes
    fun node _ => verdict_nodePredicate ρ bounds node
  rw [Group.holds_of_and ρ rfl, Group.verdicts, predicates, hverdicts, Node.all_verdicts,
    Filter.holds]

end Predicates

theorem foldl_addOrder (s : Select) (keys : List Sql.SortExpr) :
    keys.foldl Select.addOrder s = { s with orderBy := s.orderBy ++ keys } := by
  induction keys generalizing s with
  | nil => rw [List.foldl_nil, List.append_nil]
  | cons key keys ih =>
    rw [List.foldl_cons, ih, Select.addOrder, List.append_assoc, List.singleton_append]

theorem sortExprs_eq_map (sort : Option SortHint) :
    sortExprs sort = ((sort.map SortHint.toKeys).getD []).map fun key =>
      ⟨.path key.field, match key.direction with | .ascending => .asc | .descending => .desc⟩ := by
  cases sort <;> rfl

/-- What a query makes of each part of a statement. -/
theorem Query.apply_eq (q : Query) (s : Select) :
    q.apply s = {
      s with
      conditions := Select.merge s.conditions q.conditions
      orderBy := s.orderBy ++ q.orderBy
      limit := q.limit <|> s.limit
      offset := q.offset <|> s.offset } := by
  rw [apply, foldl_addOrder]
  cases q.limit <;> cases q.offset <;> rfl

theorem holds_apply_query (template : Select) (config : Config) (request : Request)
    (ρ : Sql.Test → Bool) :
    ((query config request).apply template).conditions.holds ρ =
      (template.conditions.holds ρ &&
        request.filter.holds (fieldTruth ρ) config.relationalBounds) := by
  have hand : (predicates config.relationalBounds request.filter).combinator = .and := rfl
  rw [Query.apply_eq, query, Select.holds_merge, Group.added_of_and ρ _ hand, holds_predicates]

end FilterQuery.Relational
