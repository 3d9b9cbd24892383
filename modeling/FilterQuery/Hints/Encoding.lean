import FilterQuery.Hints
import FilterQuery.Json.Record

/-!
# Hints as JSON

Hints are a record of sort, limit and skip; each may be null or missing. A sort is a variant: a
field, or a list of keys with their directions.
-/

namespace FilterQuery

open Json (Raw Value)

def Count.toValue (n : Count) : Value :=
  .ofNat n.toNat

def Count.ofRaw? : Raw → Option Count
  | .number (some (.int n)) => ofInt? n
  | _ => none

def optionToValue {α : Type} (toValue : α → Value) : Option α → Value
  | some a => toValue a
  | none => .null

/-- A field that may be missing or null. -/
def optionOfRaw? {α : Type} (ofRaw? : Raw → Option α) : Option Raw → Option (Option α)
  | none => some none
  | some .null => some none
  | some raw => (ofRaw? raw).map some

namespace Direction

def name : Direction → String
  | .ascending => "Ascending"
  | .descending => "Descending"

def ofRaw? (depth : Nat) (raw : Raw) : Option Direction :=
  match raw.unitVariant? depth with
  | some "Ascending" => some .ascending
  | some "Descending" => some .descending
  | _ => none

end Direction

namespace SortKey

def toValue (key : SortKey) : Value :=
  .object [("field", .string key.field), ("direction", .string key.direction.name)]

def ofRaw? : Nat → Raw → Option SortKey
  | 0, _ => none
  | depth + 1, raw => do
    let fields ← raw.record? ["field", "direction"]
    let field ← (← fields.lookup "field").string?
    let direction ← Direction.ofRaw? depth (← fields.lookup "direction")
    return ⟨field, direction⟩

end SortKey

namespace SortHint

def toValue : SortHint → Value
  | .byField field => .object [("Field", .string field)]
  | .byKeys keys => .object [("Keys", .array (keys.map SortKey.toValue))]

def ofRaw? : Nat → Raw → Option SortHint
  | _ + 1, .object [(some "Field", field)] => field.string?.map .byField
  | depth + 2, .object [(some "Keys", .array keys)] =>
    (keys.mapM (SortKey.ofRaw? depth)).map .byKeys
  | _, _ => none

end SortHint

namespace Hints

def toValue (hints : Hints) : Value :=
  .object [("sort", optionToValue SortHint.toValue hints.sort),
    ("limit", optionToValue Count.toValue hints.limit),
    ("skip", optionToValue Count.toValue hints.skip)]

def ofRaw? : Nat → Raw → Option Hints
  | 0, _ => none
  | depth + 1, raw => do
    let fields ← raw.record? ["sort", "limit", "skip"]
    let sort ← optionOfRaw? (SortHint.ofRaw? depth) (fields.lookup "sort")
    let limit ← optionOfRaw? Count.ofRaw? (fields.lookup "limit")
    let skip ← optionOfRaw? Count.ofRaw? (fields.lookup "skip")
    return ⟨sort, limit, skip⟩

end Hints

end FilterQuery
