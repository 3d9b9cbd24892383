import FilterQuery.Config

/-!
# The configuration as JSON

A configuration is a record of four fields, each with a default. A text is read as a whole before
the names are checked.
-/

namespace FilterQuery

open Json (Raw Value)

namespace Bounds

def name : Bounds → String
  | .inclusive => "inclusive"
  | .exclusive => "exclusive"

def ofName? : String → Option Bounds
  | "inclusive" => some .inclusive
  | "exclusive" => some .exclusive
  | _ => none

def ofRaw? (depth : Nat) (raw : Raw) : Option Bounds :=
  raw.unitVariant? depth >>= ofName?

end Bounds

namespace Config

def toValue (c : Config) : Value :=
  .object [("query_param", .string c.queryParam), ("hint_param", .string c.hintParam),
    ("search_between", .string c.searchBounds.name),
    ("relational_between", .string c.relationalBounds.name)]

/-- A field that keeps its default when it is missing. -/
def fieldOr {α : Type} (ofRaw? : Raw → Option α) (default : α) : Option Raw → Option α
  | none => some default
  | some raw => ofRaw? raw

/-- The fields of a configuration, with names that are not checked yet. -/
def unchecked? : Nat → Raw → Option Config
  | 0, _ => none
  | depth + 1, raw => do
    let fields ← raw.openRecord?
      ["query_param", "hint_param", "search_between", "relational_between"]
    let queryParam ← fieldOr Raw.string? default.queryParam (fields.lookup "query_param")
    let hintParam ← fieldOr Raw.string? default.hintParam (fields.lookup "hint_param")
    let searchBounds ←
      fieldOr (Bounds.ofRaw? depth) default.searchBounds (fields.lookup "search_between")
    let relationalBounds ←
      fieldOr (Bounds.ofRaw? depth) default.relationalBounds (fields.lookup "relational_between")
    return ⟨queryParam, hintParam, searchBounds, relationalBounds⟩

/-- Reads a configuration and says why it is refused. -/
def ofText (text : String) : Except ConfigError Config :=
  match Raw.read? text >>= unchecked? Json.maxDepth with
  | some c => c.check
  | none => .error .unreadable

/-- Reads a configuration that is part of a larger text. -/
def ofRaw? (depth : Nat) (raw : Raw) : Option Config :=
  unchecked? depth raw >>= fun c => c.check.toOption

end Config

end FilterQuery
