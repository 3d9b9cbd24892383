import FilterQuery.Hints.Encoding
import FilterQuery.Request
import FilterQuery.Search.Routing

/-!
# Search queries

A search query asks for the entries that match a bool query, without scoring, sorted and paged as
the hints say. Compiling a request never fails.
-/

namespace FilterQuery

open Json (Value)

namespace Search

/-- One item of the sort list: a field alone, or with its direction. -/
inductive SortClause where
  | field (name : String)
  | ordered (name : String) (direction : Direction)
deriving DecidableEq

namespace SortClause

def toValue : SortClause → Value
  | .field name => .string name
  | .ordered name direction =>
    .object [(name, .object [("order", .string direction.abbreviation)])]

end SortClause

structure Query (α : Type) where
  boolQuery : BoolQuery α
  sort : Option (List SortClause)
  size : Option Count
  start : Option Count
deriving BEq

namespace Query

variable {α : Type}

def ofBoolQuery (q : BoolQuery α) : Query α :=
  ⟨q, none, none, none⟩

def toValue (clauseToValue : α → Value) (query : Query α) : Value :=
  let body := Value.object [("query", .object [("constant_score", .object [("filter",
    .object [("bool", query.boolQuery.toValue clauseToValue)])])])]
  .object <|
    ("body", body) ::
      (query.sort.map fun clauses => ("sort", Value.array (clauses.map SortClause.toValue))).toList ++
      (query.size.map fun n => ("size", n.toValue)).toList ++
      (query.start.map fun n => ("from", n.toValue)).toList

end Query

def sortClauses : SortHint → List SortClause
  | .byField field => [.field field]
  | .byKeys keys => keys.map fun key => .ordered key.field key.direction

def query (config : Config) (request : Request) : Query Clause :=
  ⟨boolQuery config.searchBounds request.filter, request.hints.sort.map sortClauses,
    request.hints.limit, request.hints.skip⟩

def compile (config : Config) (request : Request) : Traced (Query Clause) := do
  let query := query config request
  Traced.emit (.compiledSearch query.boolQuery.length request.filter.nodes.length)
  return query

def ofDocuments (config : Config) (query hint : Document) : Traced (Query Clause) := do
  compile config (← Request.ofDocuments query hint)

def ofParams {σ : Type} [ParamSource σ] (config : Config) (source : σ) :
    Traced (Query Clause) := do
  compile config (← Request.ofParams config source)

end Search

end FilterQuery
