import FilterQuery.Json.Value

/-!
# JSON as written

A text that follows the grammar of the format may still denote no value: a number can be out of
range, a string can hold half of a surrogate pair, and arrays and objects can be nested too deeply.
`Raw` is the tree of such a text, with `none` for a string or number that denotes nothing, and with
all fields of an object, also those of the same name. `Value.ofRaw?` is the value, where at most
`depth` arrays and objects may be open at a time.

Whoever reads a field out of an object decides what happens to the others. A field that is skipped
is never turned into a value, so nothing but the grammar is asked of it.
-/

namespace FilterQuery.Json

inductive Raw where
  | null
  | bool (b : Bool)
  | number (n : Option Number)
  | string (s : Option String)
  | array (items : List Raw)
  | object (fields : List (Option String × Raw))
deriving Inhabited

/-- Nesting allowed in a text. -/
def maxDepth : Nat := 127

namespace Value

mutual

def ofRaw? : Nat → Raw → Option Value
  | _, .null => some .null
  | _, .bool b => some (.bool b)
  | _, .number n => n.map .number
  | _, .string s => s.map .string
  | 0, .array _ => none
  | depth + 1, .array items => (itemsOfRaw? depth items).map .array
  | 0, .object _ => none
  | depth + 1, .object fields => (pairsOfRaw? depth fields).map fun pairs =>
      .object (Fields.ofPairs pairs)

def itemsOfRaw? : Nat → List Raw → Option (List Value)
  | _, [] => some []
  | depth, item :: items => do return (← ofRaw? depth item) :: (← itemsOfRaw? depth items)

def pairsOfRaw? : Nat → List (Option String × Raw) → Option (List (String × Value))
  | _, [] => some []
  | depth, (name, item) :: fields => do
    return (← name, ← ofRaw? depth item) :: (← pairsOfRaw? depth fields)

end

mutual

/-- The tree of a text that is written for a value. -/
def toRaw : Value → Raw
  | .null => .null
  | .bool b => .bool b
  | .number n => .number (some n)
  | .string s => .string (some s)
  | .array items => .array (itemsToRaw items)
  | .object fields => .object (fieldsToRaw fields)

def itemsToRaw : List Value → List Raw
  | [] => []
  | item :: items => toRaw item :: itemsToRaw items

def fieldsToRaw : List (String × Value) → List (Option String × Raw)
  | [] => []
  | (name, value) :: fields => (some name, toRaw value) :: fieldsToRaw fields

end

end Value

end FilterQuery.Json
