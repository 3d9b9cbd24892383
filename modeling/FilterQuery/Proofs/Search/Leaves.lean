import FilterQuery.Proofs.Distinction

/-!
# The leaves of bool queries

Every condition of a filter stands at one leaf of its bool query, somewhere in the four lists or in
the bool objects inside them. Whichever list a node at the top goes to, the leaves of the query grow
by those of its conditions. The length of the query counts what the nodes at the top add to it.
-/

namespace FilterQuery

open Json (Value)

namespace Search

mutual

/-- The clauses inside a clause that are not bool objects. -/
def clauseLeaves : Value → List Value
  | .object [(name, .object body)] =>
    if name = "bool" then listLeaves body else [.object [(name, .object body)]]
  | clause => [clause]

def listLeaves : List (String × Value) → List Value
  | [] => []
  | (_, .array clauses) :: lists => eachLeaves clauses ++ listLeaves lists
  | _ :: lists => listLeaves lists

def eachLeaves : List Value → List Value
  | [] => []
  | clause :: clauses => clauseLeaves clause ++ eachLeaves clauses

end

def boolLeaves : Value → List Value
  | .object lists => listLeaves lists
  | _ => []

def rangeOp? : Bounds → List (String × Value) → Option Op
  | _, [("gt", bound)] => some (.gt bound)
  | _, [("gte", bound)] => some (.gte bound)
  | _, [("lt", bound)] => some (.lt bound)
  | _, [("lte", bound)] => some (.lte bound)
  | .exclusive, [("gt", lower), ("lt", upper)] => some (.between lower upper)
  | .inclusive, [("gte", lower), ("lte", upper)] => some (.between lower upper)
  | _, _ => none

/-- The condition that a leaf tests. -/
def leafCondition? (bounds : Bounds) : Value → Option Condition
  | .object [("term", .object [(field, operand)])] => some ⟨field, .eq operand⟩
  | .object [("terms", .object [(field, .array operands)])] => some ⟨field, .oneOf operands⟩
  | .object [("wildcard", .object [(field, .string pattern)])] => some ⟨field, .like pattern⟩
  | .object [("exists", .object [("field", .string field)])] => some ⟨field, .isNotNull⟩
  | .object [("range", .object [(field, .object ends)])] =>
    (rangeOp? bounds ends).map fun op => ⟨field, op⟩
  | _ => none

end Search

/-- The operation that this one negates, or itself. -/
def Op.unsigned : Op → Op
  | .notEq operand => .eq operand
  | .noneOf operands => .oneOf operands
  | .isNull => .isNotNull
  | op => op

namespace Search

/-- A condition as it stands at a leaf, where its sign is not seen. -/
def leafForm (c : Condition) : Condition :=
  ⟨c.field, c.op.asMembership.starred.unsigned⟩

/-- The clause of a condition without its sign. -/
def leafValue (bounds : Bounds) (c : Condition) : Value :=
  (leaf bounds c).2.toValue

def Clause.leaves (clause : Clause) : List Value :=
  clauseLeaves clause.toValue

/-- The field and the operand of a condition stand at its leaf. -/
theorem leafCondition?_leafValue (bounds : Bounds) (c : Condition) :
    leafCondition? bounds (leafValue bounds c) = some (leafForm c) := by
  obtain ⟨field, op⟩ := c
  cases op with
  | eq operand => cases operand <;> rfl
  | notEq operand => cases operand <;> rfl
  | like pattern =>
    exact congrArg (fun starred => some (Condition.mk field (.like starred)))
      (wildcardPattern_eq_map pattern)
  | between lower upper => cases bounds <;> rfl
  | _ => rfl

theorem clauseLeaves_bool (body : List (String × Value)) :
    clauseLeaves (.object [("bool", .object body)]) = listLeaves body := by
  rw [clauseLeaves, if_pos rfl]

theorem eachLeaves_toValue (clauses : List Clause) :
    eachLeaves (clauses.map Clause.toValue) = clauses.flatMap Clause.leaves := by
  induction clauses with
  | nil => rfl
  | cons clause clauses ih => rw [List.map_cons, eachLeaves, ih, List.flatMap_cons, Clause.leaves]

/-- The clause of a condition is a leaf as long as it is not negated. -/
theorem leaves_leaf (bounds : Bounds) (c : Condition) :
    (leaf bounds c).2.leaves = [leafValue bounds c] := by
  obtain ⟨field, op⟩ := c
  cases op with
  | eq operand => cases operand <;> rfl
  | notEq operand => cases operand <;> rfl
  | _ => rfl

theorem leaves_not (clause : Clause) : (Clause.not clause).leaves = clause.leaves := by
  rw [Clause.leaves, Clause.toValue, clauseLeaves_bool]
  simp [listLeaves, eachLeaves, Clause.leaves]

theorem leaves_groupClause (kind : GroupKind) (clauses : List Clause) :
    (groupClause kind clauses).leaves = clauses.flatMap Clause.leaves := by
  rw [Clause.leaves]
  cases kind <;> rw [groupClause, Clause.toValue, clauseLeaves_bool, Clause.toValues_eq_map] <;>
    simp [listLeaves, eachLeaves_toValue, Value.ofNat]

theorem leaves_conditionClause (bounds : Bounds) (c : Condition) :
    (conditionClause bounds c).leaves = [leafValue bounds c] := by
  have hleaf := leaves_leaf bounds c
  rw [conditionClause]
  split
  · next h =>
    rw [h] at hleaf
    rw [leaves_not, hleaf]
  · next h =>
    rw [h] at hleaf
    exact hleaf

/-- A nested node has the leaves of its conditions, depth first. -/
theorem leaves_nested (bounds : Bounds) (node : Node) :
    (nested bounds node).leaves = node.conditions.map (leafValue bounds) := by
  induction node with
  | condition c => exact leaves_conditionClause bounds c
  | group kind items ih =>
    rw [nested, leaves_groupClause, nestedItems_eq_map, Node.conditions_group,
      List.map_flatMap, List.flatMap_map]
    exact List.flatMap_congr ih

namespace BoolQuery

variable {α : Type}

def clauses (q : BoolQuery α) : List α :=
  q.must ++ q.filter ++ q.should ++ q.mustNot

theorem length_clauses (q : BoolQuery α) : q.clauses.length = q.length := by
  simp only [clauses, length, List.length_append]

/-- A clause that is pushed is one clause more, and nothing is lost. -/
theorem clauses_push (q : BoolQuery α) (occur : Occur) (clause : α) :
    (q.push occur clause).clauses.Perm (q.clauses ++ [clause]) := by
  have hrest (front back : List α) :
      (front ++ [clause] ++ back).Perm (front ++ back ++ [clause]) := by
    rw [List.append_assoc, List.append_assoc]
    exact List.perm_append_comm.append_left front
  cases occur with
  | must => simpa [clauses, push] using hrest q.must (q.filter ++ q.should ++ q.mustNot)
  | filter => simpa [clauses, push] using hrest (q.must ++ q.filter) (q.should ++ q.mustNot)
  | should => simpa [clauses, push] using hrest (q.must ++ q.filter ++ q.should) q.mustNot
  | mustNot => simp [clauses, push]

theorem clauses_pushAll (q : BoolQuery α) (occur : Occur) (added : List α) :
    (q.pushAll occur added).clauses.Perm (q.clauses ++ added) := by
  induction added generalizing q with
  | nil => simp [pushAll]
  | cons clause added ih =>
    refine (ih (q.push occur clause)).trans ?_
    have hfirst := (clauses_push q occur clause).append_right added
    rwa [List.append_assoc, List.singleton_append] at hfirst

theorem length_push (q : BoolQuery α) (occur : Occur) (clause : α) :
    (q.push occur clause).length = q.length + 1 := by
  rw [← length_clauses, (q.clauses_push occur clause).length_eq, List.length_append,
    length_clauses, List.length_singleton]

theorem length_pushAll (q : BoolQuery α) (occur : Occur) (added : List α) :
    (q.pushAll occur added).length = q.length + added.length := by
  rw [← length_clauses, (q.clauses_pushAll occur added).length_eq, List.length_append,
    length_clauses]

theorem should_push (q : BoolQuery α) {occur : Occur} (h : occur ≠ .should) (clause : α) :
    (q.push occur clause).should = q.should := by
  cases occur with
  | should => exact absurd rfl h
  | _ => rfl

theorem should_pushAll_must (q : BoolQuery α) (added : List α) :
    (q.pushAll .must added).should = q.should := by
  induction added generalizing q with
  | nil => rfl
  | cons clause added ih => exact ih (q.push .must clause)

theorem listLeaves_append (lists rest : List (String × Value)) :
    listLeaves (lists ++ rest) = listLeaves lists ++ listLeaves rest := by
  induction lists with
  | nil => rfl
  | cons list lists ih =>
    obtain ⟨name, value⟩ := list
    cases value with
    | array clauses => rw [List.cons_append, listLeaves, listLeaves, ih, List.append_assoc]
    | _ => exact ih

theorem listLeaves_listField (name : String) (clauses : List Clause) :
    listLeaves (listField Clause.toValue name clauses) =
      clauses.flatMap Clause.leaves := by
  cases clauses with
  | nil => rfl
  | cons clause clauses =>
    rw [← eachLeaves_toValue]
    exact List.append_nil _

/-- Written out as JSON, a query has the leaves of its clauses. -/
theorem boolLeaves_toValue (q : BoolQuery Clause) :
    boolLeaves (q.toValue Clause.toValue) =
      q.clauses.flatMap Clause.leaves := by
  have hminimum : listLeaves (q.minimumShouldMatch.map fun n =>
      ("minimum_should_match", Value.ofNat n)).toList = [] := by
    cases q.minimumShouldMatch <;> rfl
  rw [toValue, boolLeaves]
  simp only [listLeaves_append, listLeaves_listField, hminimum, clauses, List.flatMap_append,
    List.append_nil]

end BoolQuery

section Routing

variable (bounds : Bounds)

theorem flatMap_leaves_nestedItems (items : List Node) :
    ((nestedItems bounds items).flatMap Clause.leaves) =
      (items.flatMap Node.conditions).map (leafValue bounds) := by
  rw [nestedItems_eq_map, List.flatMap_map, List.map_flatMap]
  exact List.flatMap_congr fun item _ => leaves_nested bounds item

/-- Whichever lists they go to, the clauses that a node at the top adds have the leaves of its
conditions. -/
theorem clauses_pushNode (q : BoolQuery Clause) (node : Node) :
    ∃ added, (pushNode bounds q node).clauses.Perm (q.clauses ++ added) ∧
      (added.flatMap Clause.leaves) =
        node.conditions.map (leafValue bounds) := by
  cases node with
  | condition c =>
    refine ⟨_, BoolQuery.clauses_push q _ _, ?_⟩
    rw [List.flatMap_singleton, leaves_leaf]
    rfl
  | group kind items =>
    have hitems := flatMap_leaves_nestedItems bounds items
    rw [Node.conditions_group]
    cases kind with
    | and => exact ⟨_, BoolQuery.clauses_pushAll q _ _, hitems⟩
    | or =>
      rw [pushNode]
      split
      · exact ⟨_, BoolQuery.clauses_pushAll q _ _, hitems⟩
      · refine ⟨_, BoolQuery.clauses_push q _ _, ?_⟩
        rw [List.flatMap_singleton, leaves_groupClause]
        exact hitems

theorem leaves_pushNode (q : BoolQuery Clause) (node : Node) :
    (boolLeaves ((pushNode bounds q node).toValue Clause.toValue)).Perm
      (boolLeaves (q.toValue Clause.toValue) ++
        node.conditions.map (leafValue bounds)) := by
  obtain ⟨added, hclauses, hleaves⟩ := clauses_pushNode bounds q node
  rw [BoolQuery.boolLeaves_toValue, BoolQuery.boolLeaves_toValue, ← hleaves, ← List.flatMap_append]
  exact hclauses.flatMap_right _

theorem leaves_foldl_pushNode (nodes : List Node) (q : BoolQuery Clause) :
    (boolLeaves ((nodes.foldl (pushNode bounds) q).toValue Clause.toValue)).Perm
      (boolLeaves (q.toValue Clause.toValue) ++
        (nodes.flatMap Node.conditions).map (leafValue bounds)) := by
  induction nodes generalizing q with
  | nil => simp
  | cons node nodes ih =>
    refine (ih (pushNode bounds q node)).trans ?_
    rw [List.flatMap_cons, List.map_append, ← List.append_assoc]
    exact (leaves_pushNode bounds q node).append_right _

/-- The leaves of the query of a filter are those of its conditions, one each. -/
theorem leafConditions_boolQuery (filter : Filter) :
    ((boolLeaves ((boolQuery bounds filter).toValue Clause.toValue)).map
      (leafCondition? bounds)).Perm (filter.conditions.map fun c => some (leafForm c)) := by
  have hleaves := (leaves_foldl_pushNode bounds filter.nodes .empty).map (leafCondition? bounds)
  rw [List.map_append, List.map_map] at hleaves
  refine hleaves.trans (List.Perm.of_eq ?_)
  exact List.map_congr_left fun c _ => leafCondition?_leafValue bounds c

end Routing

end Search

/-! ## The length of bool queries -/

namespace Node

def isCondition : Node → Bool
  | .condition _ => true
  | .group _ _ => false

def isGroup (kind : GroupKind) : Node → Bool
  | .condition _ => false
  | .group found _ => found = kind

/-- The direct items of a group. -/
def items : Node → List Node
  | .condition _ => []
  | .group _ items => items

end Node

namespace Search

/-- The clauses that `or` groups add one after another: none before one has items, as many as it has
items for this one, and a single one for each group behind it. -/
def alternativeCount (groups : List Node) : Nat :=
  match groups.dropWhile fun group => group.items.isEmpty with
  | [] => 0
  | first :: later => first.items.length + later.length

/-- The clauses that conditions and `and` groups add. -/
def requiredCount (nodes : List Node) : Nat :=
  nodes.countP Node.isCondition + ((nodes.filter (Node.isGroup .and)).flatMap Node.items).length

def clauseCount (nodes : List Node) : Nat :=
  requiredCount nodes + alternativeCount (nodes.filter (Node.isGroup .or))

/-- The clauses that nodes add to a query: once there are alternatives, an `or` group adds one. -/
def addedCount (q : BoolQuery Clause) (nodes : List Node) : Nat :=
  requiredCount nodes +
    if q.should = [] then alternativeCount (nodes.filter (Node.isGroup .or))
    else (nodes.filter (Node.isGroup .or)).length

section Routing

variable (bounds : Bounds)

theorem alternativeCount_cons_empty (kind : GroupKind) (groups : List Node) :
    alternativeCount (.group kind [] :: groups) = alternativeCount groups := by
  simp [alternativeCount, Node.items]

theorem alternativeCount_cons {kind : GroupKind} {items : List Node} (h : items ≠ [])
    (groups : List Node) :
    alternativeCount (.group kind items :: groups) = items.length + groups.length := by
  simp [alternativeCount, Node.items, List.isEmpty_eq_false_iff.mpr h]

theorem length_nestedItems (items : List Node) :
    (nestedItems bounds items).length = items.length := by
  rw [nestedItems_eq_map, List.length_map]

theorem requiredCount_condition (c : Condition) (nodes : List Node) :
    requiredCount (.condition c :: nodes) = requiredCount nodes + 1 := by
  simp only [requiredCount, List.countP_cons, List.filter_cons, Node.isCondition, Node.isGroup,
    Bool.false_eq_true, if_true, if_false]
  omega

theorem requiredCount_and (items nodes : List Node) :
    requiredCount (.group .and items :: nodes) = requiredCount nodes + items.length := by
  simp only [requiredCount, List.countP_cons, List.filter_cons, Node.isCondition, Node.isGroup,
    Node.items, decide_true, Bool.false_eq_true, if_true, if_false, List.flatMap_cons,
    List.length_append]
  omega

/-- What a node adds is counted either in the query or among what is to come. -/
theorem length_pushNode (q : BoolQuery Clause) (node : Node) (nodes : List Node) :
    (pushNode bounds q node).length + addedCount (pushNode bounds q node) nodes =
      q.length + addedCount q (node :: nodes) := by
  cases node with
  | condition c =>
    have hor : (Node.condition c :: nodes).filter (Node.isGroup .or) =
        nodes.filter (Node.isGroup .or) := rfl
    rw [pushNode, addedCount, addedCount, q.should_push (leaf_ne_should bounds c), q.length_push,
      requiredCount_condition, hor]
    omega
  | group kind items =>
    cases kind with
    | and =>
      have hor : (Node.group .and items :: nodes).filter (Node.isGroup .or) =
          nodes.filter (Node.isGroup .or) := rfl
      rw [pushNode, addedCount, addedCount, q.should_pushAll_must, q.length_pushAll,
        length_nestedItems, requiredCount_and, hor]
      omega
    | or =>
      have hrequired : requiredCount (.group .or items :: nodes) = requiredCount nodes := rfl
      have hor : (Node.group .or items :: nodes).filter (Node.isGroup .or) =
          .group .or items :: nodes.filter (Node.isGroup .or) := rfl
      rw [pushNode, addedCount, addedCount, hrequired, hor]
      by_cases hshould : q.should = []
      · obtain ⟨-, -, -, hfilled⟩ := q.pushAll_should (nestedItems bounds items)
        rw [if_pos hshould, if_pos hshould, hfilled, hshould, List.nil_append, q.length_pushAll,
          length_nestedItems]
        cases items with
        | nil =>
          rw [alternativeCount_cons_empty]
          rfl
        | cons item items =>
          rw [alternativeCount_cons (List.cons_ne_nil item items), nestedItems,
            if_neg (List.cons_ne_nil _ _)]
          omega
      · rw [if_neg hshould, if_neg hshould, q.should_push (by decide), if_neg hshould,
          q.length_push, List.length_cons]
        omega

theorem length_foldl_pushNode (nodes : List Node) (q : BoolQuery Clause) :
    (nodes.foldl (pushNode bounds) q).length = q.length + addedCount q nodes := by
  induction nodes generalizing q with
  | nil => simp [addedCount, requiredCount, alternativeCount]
  | cons node nodes ih => rw [List.foldl_cons, ih, length_pushNode]

theorem length_boolQuery (filter : Filter) :
    (boolQuery bounds filter).length = clauseCount filter.nodes := by
  have hempty : (BoolQuery.empty : BoolQuery Clause).should = [] := rfl
  rw [boolQuery, length_foldl_pushNode, addedCount, if_pos hempty]
  exact Nat.zero_add _

/-- An `or` group without items adds nothing before the first one with items, and a clause behind
it. -/
example (c : Condition) :
    clauseCount [.group .or [], .group .or [.condition c, .condition c], .group .or []] = 3 := rfl

end Routing

end Search

end FilterQuery
