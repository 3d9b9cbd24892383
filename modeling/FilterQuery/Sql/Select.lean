import FilterQuery.Count
import FilterQuery.Sql.Expr

/-!
# SELECT statements

A statement on one table with predicates, order and paging. A group that is added to a statement
contributes its predicates to the conditions there are: an `AND` group of conditions is extended by
them, an `OR` group first becomes one predicate of a new `AND` group.
-/

namespace FilterQuery.Sql

structure Table where
  schema : Option String
  name : String
deriving DecidableEq

inductive Order where
  | asc
  | desc
deriving DecidableEq

structure SortExpr where
  expr : Expr
  order : Order
deriving BEq

structure Select where
  columns : List Expr
  table : Option Table
  conditions : Group
  orderBy : List SortExpr
  limit : Option Count
  offset : Option Count
deriving BEq

namespace Select

def empty : Select :=
  ⟨[], none, .empty .and, [], none, none⟩

def ofTable (table : Table) : Select :=
  { empty with columns := [.star], table := some table }

def withColumns (s : Select) (columns : List Expr) : Select :=
  { s with columns := columns }

/-- The conditions so far with those of a group. The first group that is added keeps its combinator;
of any later one only the predicates count. -/
def merge (conditions group : Group) : Group :=
  if group.isEmpty then conditions
  else if conditions.isEmpty then group
  else match conditions.combinator with
    | .and => conditions.extend group
    | .or => ((Group.empty .and).nest conditions).extend group

def filter (s : Select) (group : Group) : Select :=
  { s with conditions := merge s.conditions group }

def addOrder (s : Select) (key : SortExpr) : Select :=
  { s with orderBy := s.orderBy ++ [key] }

def withLimit (s : Select) (n : Count) : Select :=
  { s with limit := some n }

def withOffset (s : Select) (n : Count) : Select :=
  { s with offset := some n }

end Select

end FilterQuery.Sql
