import Std.Data.HashMap
import Std.Data.TreeMap
import FilterQuery.Config
import FilterQuery.Document

/-!
# Request parameters

The filter and the hint document come as the values of two named parameters. A source of parameters
is asked for a value by name; a list of pairs answers with the first pair of that name. A missing
parameter counts as the empty document.
-/

namespace FilterQuery

class ParamSource (σ : Type) where
  get? : σ → String → Option String

instance : ParamSource (List (String × String)) where
  get? pairs name := pairs.lookup name

instance : ParamSource (Std.HashMap String String) where
  get? map name := map[name]?

instance : ParamSource (Std.TreeMap String String) where
  get? map name := map[name]?

structure ParamNames where
  query : String
  hint : String
deriving DecidableEq

def Config.paramNames (c : Config) : ParamNames :=
  ⟨c.queryParam, c.hintParam⟩

namespace ParamNames

def document {σ : Type} [ParamSource σ] (source : σ) (name : String) : Except Error Document :=
  match ParamSource.get? source name with
  | some text => (Document.read text).mapError (.malformed (some name))
  | none => .ok []

def decode {σ : Type} [ParamSource σ] (names : ParamNames) (source : σ) :
    Except Error (Document × Document) := do
  let query ← document source names.query
  let hint ← document source names.hint
  return (query, hint)

end ParamNames

end FilterQuery
