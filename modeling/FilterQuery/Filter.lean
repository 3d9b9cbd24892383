import FilterQuery.Json.Value

/-!
# Filters

A filter is the conjunction of its nodes; a node is a condition on one field or a group of nodes.
The parser never makes an empty group, but a tree that is built or read back may hold one.
Equality `==` compares operands as values.
-/

namespace FilterQuery

open Json (Value)

/-- What is asked of a field. In a pattern `%` stands for any sequence of characters. -/
inductive Op where
  | eq (operand : Value)
  | notEq (operand : Value)
  | oneOf (operands : List Value)
  | noneOf (operands : List Value)
  | like (pattern : String)
  | gt (bound : Value)
  | gte (bound : Value)
  | lt (bound : Value)
  | lte (bound : Value)
  | between (lower upper : Value)
  | isNull
  | isNotNull

structure Condition where
  field : String
  op : Op

inductive GroupKind where
  | and
  | or
deriving DecidableEq

inductive Node where
  | condition (c : Condition)
  | group (kind : GroupKind) (items : List Node)

structure Filter where
  nodes : List Node

def Op.beq : Op → Op → Bool
  | .eq v, .eq w => v == w
  | .notEq v, .notEq w => v == w
  | .oneOf vs, .oneOf ws => vs == ws
  | .noneOf vs, .noneOf ws => vs == ws
  | .like p, .like q => p == q
  | .gt v, .gt w => v == w
  | .gte v, .gte w => v == w
  | .lt v, .lt w => v == w
  | .lte v, .lte w => v == w
  | .between a b, .between c d => a == c && b == d
  | .isNull, .isNull => true
  | .isNotNull, .isNotNull => true
  | _, _ => false

instance : BEq Op := ⟨Op.beq⟩

instance : BEq Condition where
  beq a b := a.field == b.field && a.op == b.op

namespace Node

mutual

def beq : Node → Node → Bool
  | .condition a, .condition b => a == b
  | .group kind items, .group kind' items' => kind == kind' && beqItems items items'
  | _, _ => false

def beqItems : List Node → List Node → Bool
  | [], [] => true
  | a :: as, b :: bs => beq a b && beqItems as bs
  | _, _ => false

end

instance : BEq Node := ⟨beq⟩

/-- Induction on a node: a group has the property if all its items have it. -/
@[elab_as_elim, induction_eliminator]
theorem induction {P : Node → Prop} (condition : ∀ c, P (.condition c))
    (group : ∀ kind items, (∀ item ∈ items, P item) → P (.group kind items)) (node : Node) :
    P node := by
  apply @Node.rec P (fun items => ∀ item ∈ items, P item) condition group
  · intro item hitem
    cases hitem
  · intro node nodes hnode hnodes item hitem
    rcases List.mem_cons.mp hitem with rfl | hitem
    · exact hnode
    · exact hnodes item hitem

end Node

instance : BEq Filter where
  beq a b := a.nodes == b.nodes

end FilterQuery
