import FilterQuery.Filter.Parser
import FilterQuery.Hints.Parser
import FilterQuery.Params

/-!
# Requests

A request is a filter with hints. It is read from two documents, the filter first, and the documents
may come from named parameters.
-/

namespace FilterQuery

structure Request where
  filter : Filter
  hints : Hints

namespace Request

def ofDocuments (query hint : Document) : Traced Request := do
  let filter ← Filter.ofDocument query
  let hints ← Hints.ofDocument hint
  return ⟨filter, hints⟩

def ofParams {σ : Type} [ParamSource σ] (config : Config) (source : σ) : Traced Request := do
  let documents ← Traced.ofExcept (config.paramNames.decode source)
  ofDocuments documents.1 documents.2

end Request

end FilterQuery
