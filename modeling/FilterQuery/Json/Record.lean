import FilterQuery.Json.Raw

/-!
# Records and variants

How values of other types are read from JSON. A record is an object with named fields, or an array
with the fields in their order. In an object other names are skipped, and a field that is given
twice is refused. A variant of a sum type is written as its name, or as an object with the name as
its only field.
-/

namespace FilterQuery.Json.Raw

/-- The fields called by one of `names`, none of them twice. -/
def knownFields? (names : List String) :
    List (Option String × Raw) → Option (List (String × Raw))
  | [] => some []
  | (none, _) :: _ => none
  | (some name, value) :: rest =>
    match knownFields? names rest with
    | none => none
    | some fields =>
      if name ∉ names then some fields
      else if (fields.lookup name).isSome then none
      else some ((name, value) :: fields)

/-- The fields of a record; an array has all of them. -/
def record? (names : List String) : Raw → Option (List (String × Raw))
  | .object fields => knownFields? names fields
  | .array items => if items.length = names.length then some (names.zip items) else none
  | _ => none

/-- The fields of a record that has defaults; an array may lack the last ones. -/
def openRecord? (names : List String) : Raw → Option (List (String × Raw))
  | .object fields => knownFields? names fields
  | .array items => if items.length ≤ names.length then some (names.zip items) else none
  | _ => none

def unitVariant? : Nat → Raw → Option String
  | _, .string name => name
  | _ + 1, .object [(name, .null)] => name
  | _, _ => none

def string? : Raw → Option String
  | .string s => s
  | _ => none

end FilterQuery.Json.Raw
