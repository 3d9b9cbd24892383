import FilterQuery.Config
import FilterQuery.Filter
import FilterQuery.Search.BoolQuery

/-!
# From filters to bool queries

The conditions of a filter are spread over the lists of a bool query: negated ones go to `mustNot`,
ranges and other unscored tests to `filter`, the rest to `must`. The items of an `and` group are
required one by one. The first `or` group takes the `should` list, and any later one is required as
a clause of its own.
-/

namespace FilterQuery

open Json (Value)

namespace Search

/-- In search patterns `*` is written for any sequence of characters. -/
def wildcardPattern (pattern : String) : String :=
  String.ofList (pattern.toList.map fun c => if c = '%' then '*' else c)

/-- Equality with an array is membership in it. -/
def equality (field : String) : Value → Clause
  | .array operands => .terms field operands
  | operand => .term field operand

def betweenEnds (bounds : Bounds) (lower upper : Value) : List (RangeEnd × Value) :=
  match bounds with
  | .exclusive => [(.gt, lower), (.lt, upper)]
  | .inclusive => [(.gte, lower), (.lte, upper)]

/-- The clause of a condition and the list it belongs to. -/
def leaf (bounds : Bounds) (c : Condition) : Occur × Clause :=
  match c.op with
  | .eq operand => (.must, equality c.field operand)
  | .like pattern => (.must, .wildcard c.field (wildcardPattern pattern))
  | .notEq operand => (.mustNot, equality c.field operand)
  | .noneOf operands => (.mustNot, .terms c.field operands)
  | .isNull => (.mustNot, .present c.field)
  | .oneOf operands => (.filter, .terms c.field operands)
  | .isNotNull => (.filter, .present c.field)
  | .gt bound => (.filter, .range c.field [(.gt, bound)])
  | .gte bound => (.filter, .range c.field [(.gte, bound)])
  | .lt bound => (.filter, .range c.field [(.lt, bound)])
  | .lte bound => (.filter, .range c.field [(.lte, bound)])
  | .between lower upper => (.filter, .range c.field (betweenEnds bounds lower upper))

def conditionClause (bounds : Bounds) (c : Condition) : Clause :=
  match leaf bounds c with
  | (.mustNot, clause) => .not clause
  | (_, clause) => clause

def groupClause (kind : GroupKind) (clauses : List Clause) : Clause :=
  match kind with
  | .and => .all clauses
  | .or => .any clauses

mutual

def nested (bounds : Bounds) : Node → Clause
  | .condition c => conditionClause bounds c
  | .group kind items => groupClause kind (nestedItems bounds items)

def nestedItems (bounds : Bounds) : List Node → List Clause
  | [] => []
  | node :: nodes => nested bounds node :: nestedItems bounds nodes

end

theorem nestedItems_eq_map (bounds : Bounds) (nodes : List Node) :
    nestedItems bounds nodes = nodes.map (nested bounds) := by
  induction nodes with
  | nil => rfl
  | cons node nodes ih => rw [nestedItems, ih, List.map_cons]

def pushNode (bounds : Bounds) (q : BoolQuery Clause) : Node → BoolQuery Clause
  | .condition c => q.push (leaf bounds c).1 (leaf bounds c).2
  | .group .and items => q.pushAll .must (nestedItems bounds items)
  | .group .or items =>
    if q.should = [] then q.pushAll .should (nestedItems bounds items)
    else q.push .must (groupClause .or (nestedItems bounds items))

def boolQuery (bounds : Bounds) (filter : Filter) : BoolQuery Clause :=
  filter.nodes.foldl (pushNode bounds) .empty

end Search

end FilterQuery
