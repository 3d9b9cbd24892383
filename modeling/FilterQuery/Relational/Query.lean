import FilterQuery.Relational.Predicates
import FilterQuery.Request
import FilterQuery.Sql.Select

/-!
# Relational queries

The part of a statement that a request asks for: predicates, sort keys and paging. Applied to a
statement, the predicates are added to its own conditions, the sort keys follow its own, and a limit
or an offset replaces its own.
-/

namespace FilterQuery

namespace Relational

open Sql (Select SortExpr)

structure Query where
  conditions : Sql.Group
  orderBy : List SortExpr
  limit : Option Count
  offset : Option Count
deriving BEq

def order : Direction → Sql.Order
  | .ascending => .asc
  | .descending => .desc

def sortExpr (key : SortKey) : SortExpr :=
  ⟨.path key.field, order key.direction⟩

def sortExprs : Option SortHint → List SortExpr
  | some sort => sort.toKeys.map sortExpr
  | none => []

def query (config : Config) (request : Request) : Query :=
  ⟨predicates config.relationalBounds request.filter, sortExprs request.hints.sort,
    request.hints.limit, request.hints.skip⟩

def Query.apply (q : Query) (s : Select) : Select :=
  let ordered := q.orderBy.foldl Select.addOrder (s.filter q.conditions)
  let limited := match q.limit with
    | some n => ordered.withLimit n
    | none => ordered
  match q.offset with
  | some n => limited.withOffset n
  | none => limited

def compile (template : Select) (config : Config) (request : Request) : Traced Select := do
  let query := query config request
  Traced.emit (.compiledRelational query.conditions.count query.orderBy.length)
  return query.apply template

def ofDocuments (template : Select) (config : Config) (query hint : Document) :
    Traced Select := do
  compile template config (← Request.ofDocuments query hint)

def ofParams {σ : Type} [ParamSource σ] (template : Select) (config : Config) (source : σ) :
    Traced Select := do
  compile template config (← Request.ofParams config source)

end Relational

end FilterQuery
