import FilterQuery.Proofs.Json.Reading
import FilterQuery.Proofs.Search.Leaves

/-!
# Every condition is emitted once

What a backend emits for a filter has tests at its leaves. Those of the bool query are the conditions
of the filter in some order, each without its sign. Those of the predicates are the conditions in
order, where a range without its bounds takes two comparisons.
-/

namespace FilterQuery

open Json (Value)

namespace Sql

/-- The path that the parts of a name come from. -/
def Ident.path (ident : Ident) : String :=
  String.ofList (['.'].intercalate (ident.parts.map String.toList))

theorem Ident.path_ofPath (path : String) : (ofPath path).path = path := by
  rw [Ident.path, intercalate_parts_ofPath, String.ofList_toList]

namespace Expr

mutual

/-- The predicates inside a predicate that are not groups, from left to right. -/
def leaves : Expr → List Expr
  | .nested _ predicates => eachLeaves predicates
  | predicate => [predicate]

def eachLeaves : List Expr → List Expr
  | [] => []
  | predicate :: predicates => leaves predicate ++ eachLeaves predicates

end

theorem leaves_nested (combinator : Combinator) (predicates : List Expr) :
    (nested combinator predicates).leaves = predicates.flatMap leaves := by
  rw [leaves]
  induction predicates with
  | nil => rfl
  | cons predicate predicates ih => rw [eachLeaves, ih, List.flatMap_cons]

end Expr

end Sql

namespace Relational

open Sql (Comparison Expr)

def field? : Expr → Option String
  | .column ident => some ident.path
  | _ => none

def operand? : Expr → Option Value
  | .value v => some v
  | _ => none

def comparisonOp : Comparison → Value → Op
  | .eq => .eq
  | .ne => .notEq
  | .lt => .lt
  | .le => .lte
  | .gt => .gt
  | .ge => .gte

def leafOp? : Expr → Option Op
  | .compare _ c right => (operand? right).map (comparisonOp c)
  | .inList _ items negated =>
    (items.mapM operand?).map (if negated then .noneOf else .oneOf)
  | .like _ (.value (.string pattern)) => some (.like pattern)
  | .between _ (.value lower) (.value upper) => some (.between lower upper)
  | .isNull _ negated => some (if negated then .isNotNull else .isNull)
  | _ => none

def leafSubject? : Expr → Option Expr
  | .compare left _ _ => some left
  | .inList subject _ _ => some subject
  | .like subject _ => some subject
  | .between subject _ _ => some subject
  | .isNull subject _ => some subject
  | _ => none

/-- The condition that a predicate on one column says. -/
def leafCondition? (predicate : Expr) : Option Condition := do
  let field ← (leafSubject? predicate).bind field?
  let op ← leafOp? predicate
  return ⟨field, op⟩

theorem mapM_operand?_value (operands : List Value) :
    (operands.map Expr.value).mapM operand? = some operands :=
  Json.mapM_map_eq_some fun _ _ => rfl

theorem leafSubject?_formPredicate (field : String) (op : Op) :
    leafSubject? (formPredicate field op) = some (.path field) := by
  cases op <;> rfl

theorem leafOp?_formPredicate (field : String) (op : Op) :
    leafOp? (formPredicate field op) = some op := by
  cases op with
  | oneOf operands => exact congrArg (Option.map Op.oneOf) (mapM_operand?_value operands)
  | noneOf operands => exact congrArg (Option.map Op.noneOf) (mapM_operand?_value operands)
  | _ => rfl

/-- A condition in its form is read back from its predicate. -/
theorem leafCondition?_formPredicate (field : String) (op : Op) :
    leafCondition? (formPredicate field op) = some ⟨field, op⟩ := by
  have hfield : field? (.path field) = some field := congrArg some (Sql.Ident.path_ofPath field)
  rw [leafCondition?, leafSubject?_formPredicate, leafOp?_formPredicate, Option.bind_some, hfield]
  rfl

theorem leaves_formPredicate (field : String) (op : Op) :
    (formPredicate field op).leaves = [formPredicate field op] := by
  cases op <;> rfl

theorem leafConditions_formExpr (node : Node) :
    (formExpr node).leaves.map leafCondition? = node.conditions.map some := by
  induction node with
  | condition c =>
    rw [formExpr, leaves_formPredicate, List.map_singleton, leafCondition?_formPredicate]
    rfl
  | group kind items ih =>
    rw [formExpr, formExprs_eq_map, Expr.leaves_nested, Node.conditions_group, List.flatMap_map,
      List.map_flatMap, List.map_flatMap]
    exact List.flatMap_congr ih

/-- The leaves of the predicates of a filter are its conditions in order, in the forms that
predicates have for them. -/
theorem leafConditions_predicates (bounds : Bounds) (filter : Filter) :
    ((predicates bounds filter).predicates.flatMap Expr.leaves).map leafCondition? =
      (filter.conditions.flatMap fun c => (conditionForm bounds c).conditions).map some := by
  have hnode (node : Node) : (nodePredicate bounds node).leaves.map leafCondition? =
      (node.conditions.flatMap fun c => (conditionForm bounds c).conditions).map some := by
    rw [nodePredicate_eq, leafConditions_formExpr, form, Node.conditions_replace]
  rw [predicates, nodePredicates_eq_map, Filter.conditions, List.flatMap_map, List.flatMap_assoc,
    List.map_flatMap, List.map_flatMap]
  exact List.flatMap_congr fun node _ => hnode node

end Relational

/-- Each backend emits every condition of a filter once. The leaves of the bool query are the
conditions without their signs in some order, and its length counts conditions and items at the top;
the leaves of the predicates are the conditions in order, and there is one predicate for each node. -/
theorem leafConditions_emitted (config : Config) (filter : Filter) :
    ((Search.boolLeaves
        ((Search.boolQuery config.searchBounds filter).toValue Search.Clause.toValue)).map
          (Search.leafCondition? config.searchBounds)).Perm
        (filter.conditions.map fun c => some (Search.leafForm c)) ∧
      (Search.boolQuery config.searchBounds filter).length = Search.clauseCount filter.nodes ∧
      ((Relational.predicates config.relationalBounds filter).predicates.flatMap
          Sql.Expr.leaves).map Relational.leafCondition? =
        (filter.conditions.flatMap fun c =>
          (Relational.conditionForm config.relationalBounds c).conditions).map some ∧
      (Relational.predicates config.relationalBounds filter).count = filter.nodes.length := by
  refine ⟨Search.leafConditions_boolQuery _ filter, Search.length_boolQuery _ filter,
    Relational.leafConditions_predicates _ filter, ?_⟩
  rw [Sql.Group.count, Relational.predicates, Relational.nodePredicates_eq_map, List.length_map]

end FilterQuery
