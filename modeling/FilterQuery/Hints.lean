import FilterQuery.Count
import FilterQuery.Json.Value

/-!
# Hints

How the matching entries are ordered and paged. A single field as sort hint asks for ascending
order; a list of keys gives each key its direction.
-/

namespace FilterQuery

open Json (Value)

inductive Direction where
  | ascending
  | descending
deriving DecidableEq

namespace Direction

/-- Ascending is asked for by three texts and the number 1. -/
def isAscendingToken : Value → Bool
  | .string s => s ∈ ["asc", "ASC", "1"]
  | .number n => n.isOne false
  | _ => false

/-- Descending is asked for explicitly by three texts and the number -1. -/
def isDescendingToken : Value → Bool
  | .string s => s ∈ ["desc", "DESC", "-1"]
  | .number n => n.isOne true
  | _ => false

/-- Whatever does not ask for ascending order is descending. -/
def ofToken (token : Value) : Direction :=
  if isAscendingToken token then .ascending else .descending

/-- The short name, as search requests use it. -/
def abbreviation : Direction → String
  | .ascending => "asc"
  | .descending => "desc"

end Direction

structure SortKey where
  field : String
  direction : Direction
deriving DecidableEq

inductive SortHint where
  | byField (field : String)
  | byKeys (keys : List SortKey)
deriving DecidableEq

def SortHint.toKeys : SortHint → List SortKey
  | .byField field => [⟨field, .ascending⟩]
  | .byKeys keys => keys

structure Hints where
  sort : Option SortHint
  limit : Option Count
  skip : Option Count
deriving DecidableEq

namespace Hints

def empty : Hints := ⟨none, none, none⟩

def isEmpty (hints : Hints) : Bool :=
  hints.sort.isNone && hints.limit.isNone && hints.skip.isNone

end Hints

end FilterQuery
