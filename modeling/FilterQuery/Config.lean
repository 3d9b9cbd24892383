import FilterQuery.Json.Record
import FilterQuery.Json.Reader

/-!
# Configuration

The names of the two request parameters, and for each backend whether a `$bt` range includes its
bounds. The names must not be empty and must differ. Every way to a configuration from outside
checks that, in the order of the errors below.
-/

namespace FilterQuery

open Json (Raw Value)

inductive Bounds where
  | inclusive
  | exclusive
deriving DecidableEq

structure Config where
  queryParam : String
  hintParam : String
  searchBounds : Bounds
  relationalBounds : Bounds
deriving DecidableEq

/-- Which of the two documents a parameter holds. -/
inductive DocumentRole where
  | filter
  | hint
deriving DecidableEq

inductive ConfigError where
  /-- The message is the reader's own, on what is wrong with the text and where. It is left out
  here, so the error only says that there is no configuration in the text. -/
  | unreadable
  | emptyName (role : DocumentRole)
  | sameName (name : String)
deriving DecidableEq

def DocumentRole.phrase : DocumentRole → String
  | .filter => "the filter document"
  | .hint => "the hint document"

/-- The wording of errors about names; for a text that cannot be read it is the reader's. -/
def ConfigError.message? : ConfigError → Option String
  | .unreadable => none
  | .emptyName role => some ("Parameter name for " ++ role.phrase ++ " must not be empty")
  | .sameName name =>
    some ("Filter and hint parameters must differ, both are '" ++ name ++ "'")

namespace Config

def default : Config :=
  ⟨"q", "h", .exclusive, .inclusive⟩

/-- The configuration itself, if its names can be used. -/
def check (c : Config) : Except ConfigError Config :=
  if c.queryParam = "" then .error (.emptyName .filter)
  else if c.hintParam = "" then .error (.emptyName .hint)
  else if c.queryParam = c.hintParam then .error (.sameName c.queryParam)
  else .ok c

def withQueryParam (c : Config) (name : String) : Except ConfigError Config :=
  check { c with queryParam := name }

def withHintParam (c : Config) (name : String) : Except ConfigError Config :=
  check { c with hintParam := name }

def withSearchBounds (c : Config) (bounds : Bounds) : Config :=
  { c with searchBounds := bounds }

def withRelationalBounds (c : Config) (bounds : Bounds) : Config :=
  { c with relationalBounds := bounds }

end Config

end FilterQuery
