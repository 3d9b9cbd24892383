import FilterQuery.Json.Escape
import FilterQuery.Json.Numeral
import FilterQuery.Json.Raw

/-!
# Reading JSON text

The grammar of JSON, strictly: white space is space, tab, line feed and carriage return, and
nothing else may stand before, between or after the parts of a text. Each function reads one part
from the start of a text and returns what follows it.

The numeral argument bounds the steps. Every step reads a character, so the length of the text is
enough.
-/

namespace FilterQuery.Json.Raw

def isSpace (c : Char) : Bool :=
  c = ' ' || c = '\t' || c = '\n' || c = '\r'

def skipSpace (s : List Char) : List Char :=
  s.dropWhile isSpace

/-- The rest of a string, after its opening quotation mark. -/
def readString (s : List Char) : Option (Option String × List Char) :=
  (Escape.body? s).map fun (body, rest) => ((Escape.decode? body).map String.ofList, rest)

/-- The name of a field, with the colon behind it. -/
def readName : List Char → Option (Option String × List Char)
  | '"' :: rest => do
    let (name, rest) ← readString rest
    match skipSpace rest with
    | ':' :: rest => return (name, rest)
    | _ => none
  | _ => none

def readNumber (s : List Char) : Option (Raw × List Char) :=
  (Numeral.read? s).map fun (numeral, rest) => (.number numeral.number?, rest)

mutual

def readValue : Nat → List Char → Option (Raw × List Char)
  | 0, _ => none
  | steps + 1, s =>
    match skipSpace s with
    | 'n' :: 'u' :: 'l' :: 'l' :: rest => some (.null, rest)
    | 't' :: 'r' :: 'u' :: 'e' :: rest => some (.bool true, rest)
    | 'f' :: 'a' :: 'l' :: 's' :: 'e' :: rest => some (.bool false, rest)
    | '"' :: rest => (readString rest).map fun (text, rest) => (.string text, rest)
    | '[' :: rest =>
      match skipSpace rest with
      | ']' :: rest => some (.array [], rest)
      | rest => (readItems steps rest).map fun (items, rest) => (.array items, rest)
    | '{' :: rest =>
      match skipSpace rest with
      | '}' :: rest => some (.object [], rest)
      | rest => (readFields steps rest).map fun (fields, rest) => (.object fields, rest)
    | s => readNumber s

/-- One or more items, with the bracket that closes them. -/
def readItems : Nat → List Char → Option (List Raw × List Char)
  | 0, _ => none
  | steps + 1, s => do
    let (item, s) ← readValue steps s
    match skipSpace s with
    | ',' :: rest =>
      let (items, rest) ← readItems steps rest
      return (item :: items, rest)
    | ']' :: rest => return ([item], rest)
    | _ => none

/-- One or more fields, with the brace that closes them. -/
def readFields : Nat → List Char → Option (List (Option String × Raw) × List Char)
  | 0, _ => none
  | steps + 1, s => do
    let (name, s) ← readName (skipSpace s)
    let (value, s) ← readValue steps s
    match skipSpace s with
    | ',' :: rest =>
      let (fields, rest) ← readFields steps rest
      return ((name, value) :: fields, rest)
    | '}' :: rest => return ([(name, value)], rest)
    | _ => none

end

def read? (text : String) : Option Raw := do
  let (raw, rest) ← readValue text.length text.toList
  if skipSpace rest = [] then some raw else none

end FilterQuery.Json.Raw

namespace FilterQuery.Json.Value

def read? (text : String) : Option Value := do
  ofRaw? maxDepth (← Raw.read? text)

end FilterQuery.Json.Value
