import FilterQuery.Config
import FilterQuery.Filter
import FilterQuery.Sql.Expr

/-!
# From filters to predicates

Each condition becomes a predicate on the column of its field, and each group a nested group.
Equality with an array is membership in it. A range without its bounds is a group of two
comparisons.
-/

namespace FilterQuery

open Json (Value)

namespace Relational

open Sql (Comparison Expr)

def membership (field : String) (operands : List Value) (negated : Bool) : Expr :=
  .inList (.path field) (operands.map .value) negated

def comparison (field : String) (c : Comparison) (operand : Value) : Expr :=
  .compare (.path field) c (.value operand)

def betweenPredicate (bounds : Bounds) (field : String) (lower upper : Value) : Expr :=
  match bounds with
  | .inclusive => .between (.path field) (.value lower) (.value upper)
  | .exclusive => .nested .and [comparison field .gt lower, comparison field .lt upper]

def conditionPredicate (bounds : Bounds) (c : Condition) : Expr :=
  match c.op with
  | .eq (.array operands) => membership c.field operands false
  | .eq operand => comparison c.field .eq operand
  | .notEq (.array operands) => membership c.field operands true
  | .notEq operand => comparison c.field .ne operand
  | .oneOf operands => membership c.field operands false
  | .noneOf operands => membership c.field operands true
  | .like pattern => .like (.path c.field) (.value (.string pattern))
  | .gt bound => comparison c.field .gt bound
  | .gte bound => comparison c.field .ge bound
  | .lt bound => comparison c.field .lt bound
  | .lte bound => comparison c.field .le bound
  | .between lower upper => betweenPredicate bounds c.field lower upper
  | .isNull => .isNull (.path c.field) false
  | .isNotNull => .isNull (.path c.field) true

def combinator : GroupKind → Sql.Combinator
  | .and => .and
  | .or => .or

mutual

def nodePredicate (bounds : Bounds) : Node → Expr
  | .condition c => conditionPredicate bounds c
  | .group kind items => .nested (combinator kind) (nodePredicates bounds items)

def nodePredicates (bounds : Bounds) : List Node → List Expr
  | [] => []
  | node :: nodes => nodePredicate bounds node :: nodePredicates bounds nodes

end

def predicates (bounds : Bounds) (filter : Filter) : Sql.Group :=
  ⟨.and, nodePredicates bounds filter.nodes⟩

end Relational

end FilterQuery
