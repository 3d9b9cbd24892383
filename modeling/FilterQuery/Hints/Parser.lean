import FilterQuery.Document
import FilterQuery.Hints
import FilterQuery.Traced

/-!
# Reading hints

The entries of a hint document are read one by one. Unknown keys and a sort of the wrong kind are
reported and ignored; a limit or skip that is not a count is an error.
-/

namespace FilterQuery

open Json (Value)

/-- A count given as an exact integer or as text. -/
def Count.ofValue? : Value → Option Count
  | .number (.int n) => ofInt? n
  | .string s => ofText? s.toList
  | _ => none

def SortKey.ofEntry (field : String) (token : Value) : Traced SortKey := do
  let direction := Direction.ofToken token
  if direction = .descending ∧ ¬ Direction.isDescendingToken token then
    Traced.emit (.unknownDirection token field)
  return ⟨field, direction⟩

def SortKey.ofEntries : List (String × Value) → Traced (List SortKey)
  | [] => pure []
  | (field, token) :: entries => do
    let key ← ofEntry field token
    let keys ← ofEntries entries
    return key :: keys

def SortHint.ofValue : Value → Traced (Option SortHint)
  | .string field => pure (some (.byField field))
  | .object entries => do return some (.byKeys (← SortKey.ofEntries entries))
  | other => do
    Traced.emit (.unusableSort other.kind)
    return none

namespace Hints

def count (key : HintKey) (value : Value) : Traced Count :=
  match Count.ofValue? value with
  | some n => pure n
  | none => .fail (.hint key value)

def readEntry (hints : Hints) (name : String) (value : Value) : Traced Hints :=
  match HintKey.ofToken? name with
  | some .sort => do return { hints with sort := ← SortHint.ofValue value }
  | some .limit => do return { hints with limit := some (← count .limit value) }
  | some .skip => do return { hints with skip := some (← count .skip value) }
  | none => do
    Traced.emit (.unknownHint name)
    return hints

def readEntries (hints : Hints) : Document → Traced Hints
  | [] => pure hints
  | (name, value) :: entries => do readEntries (← readEntry hints name value) entries

def ofDocument (document : Document) : Traced Hints :=
  readEntries empty document

end Hints

end FilterQuery
