import FilterQuery.Json.Printer
import FilterQuery.Operator

/-!
# Errors

Why a document is refused. Each error holds its cause; the wording is in the `message` functions.
What the reader says about a text that is not JSON is left out.
-/

namespace FilterQuery

open Json (Kind Value)

inductive DocumentFault where
  /-- The message goes on with what is wrong, in which line and column, as the reader words it. That
  part is left out here. -/
  | notJson
  | notObject (found : Kind)
deriving DecidableEq

inductive OperandFault where
  | notFieldName (found : Kind)
  | notElement (found : Kind)
  | notValue
  | notArray (found : Kind)
  | notPattern (found : Kind)
  | notBounds (count : Nat)
  | notScalar (found : Kind)
deriving DecidableEq

inductive Error where
  /-- A text is not a document; it may be the value of a named parameter. -/
  | malformed (parameter : Option String) (fault : DocumentFault)
  | operand (op : Operator) (field : String) (fault : OperandFault)
  | hint (key : HintKey) (found : Value)

def DocumentFault.message : DocumentFault → String
  | .notJson => "invalid JSON"
  | .notObject found => "expected a JSON object, found " ++ found.phrase

def OperandFault.message : OperandFault → String
  | .notFieldName found => "expected a field name, found " ++ found.phrase
  | .notElement found => "group elements must be objects, found " ++ found.phrase
  | .notValue => "expected a value"
  | .notArray found => "expected an array, found " ++ found.phrase
  | .notPattern found => "expected a string pattern, found " ++ found.phrase
  | .notBounds count => "expected [lower, upper], found " ++ toString count ++ " elements"
  | .notScalar found => "expected a scalar, found " ++ found.phrase

def Error.message : Error → String
  | .malformed none fault => "Malformed input: " ++ fault.message
  | .malformed (some name) fault =>
    "Malformed input: parameter '" ++ name ++ "': " ++ fault.message
  | .operand op field fault =>
    "Invalid operand for '" ++ op.token ++ "' on field '" ++ field ++ "': " ++ fault.message
  | .hint key found =>
    "Invalid value for hint '" ++ key.token ++ "': expected a non-negative integer, found "
      ++ found.text

end FilterQuery
