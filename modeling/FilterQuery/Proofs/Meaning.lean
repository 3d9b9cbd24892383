import FilterQuery.Config
import FilterQuery.Filter

/-!
# What filters mean

A filter is read under an assignment of truth values to the atomic tests of fields. A condition is a
test, the negation of a test or, for a range, the conjunction of two. A group is the conjunction or
the disjunction of its items. A group without items imposes no condition: it has no verdict and is
left out wherever it stands, and so is a group that holds only such groups.

The second part is about filters whose groups have items at every depth. There every node has a
verdict, and groups are plain conjunctions and disjunctions.
-/

namespace FilterQuery

open Json (Value)

/-- A test of one field that has no parts. -/
inductive Test where
  | equals (field : String) (operand : Value)
  | oneOf (field : String) (operands : List Value)
  | like (field pattern : String)
  | present (field : String)
  | gt (field : String) (bound : Value)
  | gte (field : String) (bound : Value)
  | lt (field : String) (bound : Value)
  | lte (field : String) (bound : Value)

namespace Test

/-- Equality with an array is membership in it. -/
def ofEquality (field : String) : Value → Test
  | .array operands => .oneOf field operands
  | operand => .equals field operand

/-- The test whose pattern has `*` where this one has `%`. -/
def starred : Test → Test
  | .like field pattern => .like field (pattern.map fun c => if c = '%' then '*' else c)
  | test => test

@[simp] theorem starred_ofEquality (field : String) (operand : Value) :
    (ofEquality field operand).starred = ofEquality field operand := by
  cases operand <;> rfl

end Test

/-- All of the verdicts, and `anyOf` one of them, if there are any. -/
def allOf : List Bool → Option Bool
  | [] => none
  | verdicts => some (verdicts.all id)

def anyOf : List Bool → Option Bool
  | [] => none
  | verdicts => some (verdicts.any id)

theorem allOf_getD (verdicts : List Bool) : (allOf verdicts).getD true = verdicts.all id := by
  cases verdicts <;> rfl

theorem anyOf_getD (verdicts : List Bool) :
    (anyOf verdicts).getD true = (verdicts.isEmpty || verdicts.any id) := by
  cases verdicts <;> rfl

/-- Among verdicts that must all be true, a missing one counts as true. -/
theorem all_toList (verdict : Option Bool) : verdict.toList.all id = verdict.getD true := by
  cases verdict <;> simp

def GroupKind.join : GroupKind → List Bool → Option Bool
  | .and => allOf
  | .or => anyOf

section Reading

variable (σ : Test → Bool) (bounds : Bounds)

def Condition.holds (c : Condition) : Bool :=
  match c.op with
  | .eq operand => σ (.ofEquality c.field operand)
  | .notEq operand => !σ (.ofEquality c.field operand)
  | .oneOf operands => σ (.oneOf c.field operands)
  | .noneOf operands => !σ (.oneOf c.field operands)
  | .like pattern => σ (.like c.field pattern)
  | .gt bound => σ (.gt c.field bound)
  | .gte bound => σ (.gte c.field bound)
  | .lt bound => σ (.lt c.field bound)
  | .lte bound => σ (.lte c.field bound)
  | .between lower upper =>
    match bounds with
    | .exclusive => σ (.gt c.field lower) && σ (.lt c.field upper)
    | .inclusive => σ (.gte c.field lower) && σ (.lte c.field upper)
  | .isNull => !σ (.present c.field)
  | .isNotNull => σ (.present c.field)

namespace Node

mutual

/-- The truth of a node, or nothing for a group that imposes no condition. -/
def verdict : Node → Option Bool
  | .condition c => some (c.holds σ bounds)
  | .group kind items => kind.join (verdicts items)

def verdicts : List Node → List Bool
  | [] => []
  | node :: nodes => (verdict node).toList ++ verdicts nodes

end

def holds (node : Node) : Bool :=
  (node.verdict σ bounds).getD true

end Node

def Filter.holds (filter : Filter) : Bool :=
  filter.nodes.all (Node.holds σ bounds)

end Reading

namespace Node

inductive Populated : Node → Prop where
  | condition (c : Condition) : Populated (.condition c)
  | group (kind : GroupKind) {items : List Node} (nonempty : items ≠ [])
      (each : ∀ item ∈ items, Populated item) : Populated (.group kind items)

theorem populated_group_iff {kind : GroupKind} {items : List Node} :
    (Node.group kind items).Populated ↔ items ≠ [] ∧ ∀ item ∈ items, item.Populated := by
  constructor
  · intro h
    cases h with
    | group _ hne heach => exact ⟨hne, heach⟩
  · exact fun h => .group kind h.1 h.2

variable (σ : Test → Bool) (bounds : Bounds)

theorem all_verdicts (nodes : List Node) :
    (verdicts σ bounds nodes).all id = nodes.all (holds σ bounds) := by
  induction nodes with
  | nil => rfl
  | cons node nodes ih => rw [verdicts, List.all_append, all_toList, ih, List.all_cons, holds]

theorem verdicts_of_forall_some {nodes : List Node}
    (h : ∀ node ∈ nodes, node.verdict σ bounds = some (node.holds σ bounds)) :
    verdicts σ bounds nodes = nodes.map (holds σ bounds) := by
  induction nodes with
  | nil => rfl
  | cons node nodes ih =>
    have hnode := h node List.mem_cons_self
    have hnodes := ih fun other hother => h other (List.mem_cons_of_mem node hother)
    rw [verdicts, hnode, hnodes, Option.toList_some, List.singleton_append, List.map_cons]

theorem Populated.verdict_eq {node : Node} (h : node.Populated) :
    node.verdict σ bounds = some (node.holds σ bounds) := by
  induction h with
  | condition c => rfl
  | group kind hne _ ih =>
    obtain ⟨item, items, rfl⟩ := List.exists_cons_of_ne_nil hne
    have hverdicts := verdicts_of_forall_some σ bounds ih
    rw [holds, verdict, hverdicts]
    cases kind <;> rfl

theorem Populated.holds_group {kind : GroupKind} {items : List Node}
    (h : (Node.group kind items).Populated) :
    (Node.group kind items).holds σ bounds =
      match kind with
      | .and => items.all (holds σ bounds)
      | .or => items.any (holds σ bounds) := by
  obtain ⟨hne, heach⟩ := populated_group_iff.mp h
  obtain ⟨item, items, rfl⟩ := List.exists_cons_of_ne_nil hne
  have hverdicts := verdicts_of_forall_some σ bounds fun item hitem =>
    (heach item hitem).verdict_eq σ bounds
  rw [holds, verdict, hverdicts]
  cases kind with
  | and => simp [GroupKind.join, allOf]
  | or => simp [GroupKind.join, anyOf]

end Node

def Filter.Populated (filter : Filter) : Prop :=
  ∀ node ∈ filter.nodes, node.Populated

end FilterQuery
