import FilterQuery.Proofs.Filter.Conditions
import FilterQuery.Proofs.Relational.Reading
import FilterQuery.Proofs.Sql.Frame
import FilterQuery.Proofs.Sql.Values

/-!
# The parameters of compiled statements

An operation binds its operands in order, an array that is compared with item by item. A filter
binds the operands of its conditions depth first. Compiled onto a template, they stand behind the
values of the template's conditions and before those of its order, with either kind of range.

The text with placeholders depends on the outline of a request only, where operands are erased and
of an array the length is kept.
-/

namespace FilterQuery

open Json (Value)

namespace Op

def params : Op → List Value
  | .eq (.array operands) => operands
  | .eq operand => [operand]
  | .notEq (.array operands) => operands
  | .notEq operand => [operand]
  | .oneOf operands => operands
  | .noneOf operands => operands
  | .like pattern => [.string pattern]
  | .gt bound => [bound]
  | .gte bound => [bound]
  | .lt bound => [bound]
  | .lte bound => [bound]
  | .between lower upper => [lower, upper]
  | .isNull => []
  | .isNotNull => []

def eraseOperand : Value → Value
  | .array items => .array (items.map fun _ => .null)
  | _ => .null

def erase : Op → Op
  | .eq operand => .eq (eraseOperand operand)
  | .notEq operand => .notEq (eraseOperand operand)
  | .oneOf operands => .oneOf (operands.map fun _ => .null)
  | .noneOf operands => .noneOf (operands.map fun _ => .null)
  | .like _ => .like ""
  | .gt _ => .gt .null
  | .gte _ => .gte .null
  | .lt _ => .lt .null
  | .lte _ => .lte .null
  | .between _ _ => .between .null .null
  | .isNull => .isNull
  | .isNotNull => .isNotNull

end Op

def Condition.erase (c : Condition) : Condition :=
  ⟨c.field, c.op.erase⟩

namespace Node

def params (node : Node) : List Value :=
  node.conditions.flatMap fun c => c.op.params

def erase (node : Node) : Node :=
  node.replace fun c => .condition c.erase

theorem params_condition (c : Condition) : (Node.condition c).params = c.op.params :=
  List.flatMap_singleton _ c

theorem params_group (kind : GroupKind) (items : List Node) :
    (Node.group kind items).params = items.flatMap params := by
  rw [params, conditions_group, List.flatMap_assoc]
  rfl

theorem erase_group (kind : GroupKind) (items : List Node) :
    (Node.group kind items).erase = .group kind (items.map erase) :=
  replace_group _ kind items

end Node

def Filter.params (filter : Filter) : List Value :=
  filter.nodes.flatMap Node.params

/-- The outline of a request: a limit and an offset stay as such, but not their numbers. -/
def Request.erase (request : Request) : Request where
  filter := ⟨request.filter.nodes.map Node.erase⟩
  hints := ⟨request.hints.sort, request.hints.limit.map fun _ => 0,
    request.hints.skip.map fun _ => 0⟩

namespace Relational

open Sql (Expr Group Select SortExpr)

section Params

theorem values_membership (field : String) (operands : List Value) (negated : Bool) :
    (membership field operands negated).values = operands := by
  have hitems : (operands.map Expr.value).flatMap Expr.values = operands := by
    simp [List.flatMap_map, Expr.values]
  rw [membership, Expr.values, Expr.eachValues_eq_flatMap, hitems]
  rfl

theorem values_conditionPredicate (bounds : Bounds) (c : Condition) :
    (conditionPredicate bounds c).values = c.op.params := by
  obtain ⟨field, op⟩ := c
  cases op with
  | eq operand =>
    cases operand with
    | array operands => exact values_membership field operands false
    | _ => rfl
  | notEq operand =>
    cases operand with
    | array operands => exact values_membership field operands true
    | _ => rfl
  | oneOf operands => exact values_membership field operands false
  | noneOf operands => exact values_membership field operands true
  | between lower upper => cases bounds <;> rfl
  | _ => rfl

theorem values_nodePredicate (bounds : Bounds) (node : Node) :
    (nodePredicate bounds node).values = node.params := by
  induction node with
  | condition c => rw [nodePredicate, values_conditionPredicate, Node.params_condition]
  | group kind items ih =>
    rw [nodePredicate, nodePredicates_eq_map, Expr.values, Expr.eachValues_eq_flatMap,
      List.flatMap_map, Node.params_group]
    exact List.flatMap_congr ih

theorem values_predicates (bounds : Bounds) (filter : Filter) :
    (predicates bounds filter).values = filter.params := by
  rw [predicates, Group.values, nodePredicates_eq_map, List.flatMap_map]
  exact List.flatMap_congr fun node _ => values_nodePredicate bounds node

/-- The columns that a request is sorted by have no values. -/
theorem flatMap_values_sortExprs (sort : Option SortHint) :
    (sortExprs sort).flatMap SortExpr.values = [] := by
  rw [sortExprs_eq_map, List.flatMap_map, List.flatMap_eq_nil_iff]
  exact fun _ _ => rfl

end Params

section Outline

theorem erase_membership {operands others : List Value} (h : operands.length = others.length)
    (field : String) (negated : Bool) :
    (membership field operands negated).erase = (membership field others negated).erase := by
  simp [membership, Expr.erase, Expr.eraseEach_eq_map, List.map_map, Function.comp_def,
    List.map_const', h]

theorem erase_conditionPredicate (bounds : Bounds) (c : Condition) :
    (conditionPredicate bounds c.erase).erase = (conditionPredicate bounds c).erase := by
  have hlength (operands : List Value) :
      (operands.map fun _ => Value.null).length = operands.length := List.length_map _
  obtain ⟨field, op⟩ := c
  cases op with
  | eq operand =>
    cases operand with
    | array operands => exact erase_membership (hlength operands) field false
    | _ => rfl
  | notEq operand =>
    cases operand with
    | array operands => exact erase_membership (hlength operands) field true
    | _ => rfl
  | oneOf operands => exact erase_membership (hlength operands) field false
  | noneOf operands => exact erase_membership (hlength operands) field true
  | between lower upper => cases bounds <;> rfl
  | _ => rfl

theorem erase_nodePredicate (bounds : Bounds) (node : Node) :
    (nodePredicate bounds node.erase).erase = (nodePredicate bounds node).erase := by
  induction node with
  | condition c => exact erase_conditionPredicate bounds c
  | group kind items ih =>
    rw [Node.erase_group, nodePredicate, nodePredicate, nodePredicates_eq_map,
      nodePredicates_eq_map, Expr.erase, Expr.erase, Expr.eraseEach_eq_map, Expr.eraseEach_eq_map]
    simpa using ih

theorem erase_predicates (bounds : Bounds) (nodes : List Node) :
    (predicates bounds ⟨nodes.map Node.erase⟩).erase = (predicates bounds ⟨nodes⟩).erase := by
  simp [predicates, Group.erase, nodePredicates_eq_map, erase_nodePredicate]

theorem erase_merge (conditions group : Group) :
    (Select.merge conditions group).erase = Select.merge conditions.erase group.erase := by
  have hempty (g : Group) : g.erase.isEmpty = g.isEmpty := by simp [Group.isEmpty, Group.erase]
  unfold Select.merge
  rw [hempty, hempty]
  split
  · rfl
  · split
    · rfl
    · obtain ⟨combinator, predicates⟩ := conditions
      cases combinator <;>
        simp [Group.erase, Group.extend, Group.nest, Group.push, Group.empty, Group.toExpr,
          Expr.erase, Expr.eraseEach_eq_map]

/-- What is compiled for the outline of a request is the same statement but for its values. -/
theorem erase_apply_query (template : Select) (config : Config) (request : Request) :
    ((query config request.erase).apply template).erase =
      ((query config request).apply template).erase := by
  have hconditions := erase_predicates config.relationalBounds request.filter.nodes
  have hlimit : ((request.hints.limit.map fun _ => (0 : Count)) <|> template.limit).map
      (fun _ => (0 : Count)) = (request.hints.limit <|> template.limit).map fun _ => 0 := by
    cases request.hints.limit <;> rfl
  have hoffset : ((request.hints.skip.map fun _ => (0 : Count)) <|> template.offset).map
      (fun _ => (0 : Count)) = (request.hints.skip <|> template.offset).map fun _ => 0 := by
    cases request.hints.skip <;> rfl
  simp only [Query.apply_eq, query, Request.erase, Select.erase, erase_merge, hconditions, hlimit,
    hoffset]

theorem sql_eq_of_erase_eq {s t : Select} (h : s.erase = t.erase) (d : Sql.Dialect) :
    (Sql.bound d (s.pieces d)).sql = (Sql.bound d (t.pieces d)).sql := by
  rw [← Sql.sql_eq_of_map_erase_eq d (s.map_erase_pieces d), h,
    Sql.sql_eq_of_map_erase_eq d (t.map_erase_pieces d)]

end Outline

/-- What is bound for a statement compiled onto a template, in every dialect; and requests of one
outline give one text. -/
theorem params_compile (template : Select) (config : Config) (request : Request) :
    ∃ s, (compile template config request).outcome = .ok s ∧
      (∀ d, (Sql.bound d (s.pieces d)).params =
        template.columns.flatMap Expr.values ++ template.conditions.values ++
          request.filter.params ++ template.orderBy.flatMap SortExpr.values ++
          Select.countValues (request.hints.limit <|> template.limit) ++
          Select.countValues (request.hints.skip <|> template.offset)) ∧
      ∀ other : Request, other.erase = request.erase →
        ∃ t, (compile template config other).outcome = .ok t ∧
          ∀ d, (Sql.bound d (t.pieces d)).sql = (Sql.bound d (s.pieces d)).sql := by
  refine ⟨(query config request).apply template, rfl, fun d => ?_, fun other hother => ?_⟩
  · rw [Select.params_pieces, Query.apply_eq]
    simp only [query, Select.values_merge, values_predicates, List.flatMap_append,
      flatMap_values_sortExprs, List.append_nil, List.append_assoc]
  · have herase : ((query config other).apply template).erase =
        ((query config request).apply template).erase := by
      rw [← erase_apply_query, hother, erase_apply_query]
    exact ⟨(query config other).apply template, rfl, sql_eq_of_erase_eq herase⟩

/-- Values in the columns, in a disjunction as condition and in the order. -/
def valuedTemplate : Select :=
  ⟨[.value (.ofNat 1)], some ⟨none, "t"⟩,
    ⟨.or, [.compare (.path "a") .eq (.value (.ofNat 2)), .isNull (.path "b") false]⟩,
    [⟨.value (.ofNat 6), .asc⟩], none, some 8⟩

def priceRequest (lower upper : Value) (name : String) (limit : Count) : Request :=
  ⟨⟨[.group .or [.condition ⟨"price", .between lower upper⟩,
      .condition ⟨"name", .eq (.array [.string name])⟩]]⟩, ⟨none, some limit, none⟩⟩

theorem params_compile_price :
    let config := Config.default.withRelationalBounds .exclusive
    let first := priceRequest (.ofNat 3) (.ofNat 4) "x" 7
    let other := priceRequest .null (.array []) "y' OR 'y" 0
    other.erase = first.erase ∧
      ∃ s t, (compile valuedTemplate config first).outcome = .ok s ∧
        (compile valuedTemplate config other).outcome = .ok t ∧
        (∀ d, (Sql.bound d (s.pieces d)).params =
          [.ofNat 1, .ofNat 2, .ofNat 3, .ofNat 4, .string "x", .ofNat 6, .ofNat 7, .ofNat 8]) ∧
        ∀ d, (Sql.bound d (t.pieces d)).sql = (Sql.bound d (s.pieces d)).sql := by
  intro config first other
  have hother : other.erase = first.erase := rfl
  obtain ⟨s, hs, hparams, houtline⟩ := params_compile valuedTemplate config first
  obtain ⟨t, ht, hsql⟩ := houtline other hother
  exact ⟨hother, s, t, hs, ht, fun d => (hparams d).trans rfl, hsql⟩

end Relational

end FilterQuery
