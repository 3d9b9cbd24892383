import Mathlib.Data.List.Basic
import FilterQuery.Filter

/-!
# The conditions of a node

A node has conditions at its leaves. They are listed depth first, and one node after the other can be
put in their place, with the groups around them left as they are.
-/

namespace FilterQuery.Node

mutual

def conditions : Node → List Condition
  | .condition c => [c]
  | .group _ items => eachConditions items

def eachConditions : List Node → List Condition
  | [] => []
  | node :: nodes => conditions node ++ eachConditions nodes

end

theorem conditions_group (kind : GroupKind) (items : List Node) :
    (Node.group kind items).conditions = items.flatMap conditions := by
  rw [conditions]
  induction items with
  | nil => rfl
  | cons item items ih => rw [eachConditions, ih, List.flatMap_cons]

mutual

/-- The node with another one in place of each condition. -/
def replace (f : Condition → Node) : Node → Node
  | .condition c => f c
  | .group kind items => .group kind (replaceEach f items)

def replaceEach (f : Condition → Node) : List Node → List Node
  | [] => []
  | node :: nodes => replace f node :: replaceEach f nodes

end

theorem replace_group (f : Condition → Node) (kind : GroupKind) (items : List Node) :
    (Node.group kind items).replace f = .group kind (items.map (replace f)) := by
  have heach : replaceEach f items = items.map (replace f) := by
    induction items with
    | nil => rfl
    | cons item items ih => rw [replaceEach, ih, List.map_cons]
  rw [replace, heach]

theorem conditions_replace (f : Condition → Node) (node : Node) :
    (node.replace f).conditions = node.conditions.flatMap fun c => (f c).conditions := by
  induction node with
  | condition c => simp [replace, conditions]
  | group kind items ih =>
    rw [replace_group, conditions_group, conditions_group, List.flatMap_map, List.flatMap_assoc]
    exact List.flatMap_congr ih

end FilterQuery.Node

/-- All conditions of a filter, depth first. -/
def FilterQuery.Filter.conditions (filter : Filter) : List Condition :=
  filter.nodes.flatMap Node.conditions
