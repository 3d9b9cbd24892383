import FilterQuery.Error
import FilterQuery.Json.Reader

/-!
# Documents

A document is the list of fields of a JSON object.
-/

namespace FilterQuery

open Json (Value)

abbrev Document := Json.Fields

namespace Document

def ofValue : Value → Except DocumentFault Document
  | .object fields => .ok fields
  | other => .error (.notObject other.kind)

def read (text : String) : Except DocumentFault Document :=
  match Value.read? text with
  | some value => ofValue value
  | none => .error .notJson

def ofText (text : String) : Except Error Document :=
  (read text).mapError (.malformed none)

end Document

end FilterQuery
