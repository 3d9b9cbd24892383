import FilterQuery.Filter
import FilterQuery.Json.Printer
import FilterQuery.Operator

/-!
# Events

What parsing and compiling report: entries that contribute nothing, hints that are ignored, and
queries that were built. Hints that are ignored are warnings, all else is for debugging.
-/

namespace FilterQuery

open Json (Kind Value)

inductive Event where
  | emptyElement (kind : GroupKind)
  | emptyGroup (kind : GroupKind)
  | emptyOperatorMap (field : String)
  | unknownOperator (token field : String)
  | misplacedOperator (op : Operator) (field : String)
  | unknownHint (key : String)
  | unknownDirection (token : Value) (field : String)
  | unusableSort (found : Kind)
  | compiledSearch (clauses nodes : Nat)
  | compiledRelational (predicates keys : Nat)

inductive Level where
  | debug
  | warn
deriving DecidableEq

def Level.name : Level → String
  | .debug => "DEBUG"
  | .warn => "WARN"

def GroupKind.operator : GroupKind → Operator
  | .and => .and
  | .or => .or

namespace Event

def level : Event → Level
  | .unknownHint _ => .warn
  | .unusableSort _ => .warn
  | _ => .debug

def message : Event → String
  | .emptyElement kind => "Skipping empty element in " ++ kind.operator.token ++ " group"
  | .emptyGroup kind => "Dropping " ++ kind.operator.token ++ " group without predicates"
  | .emptyOperatorMap field => "Skipping field '" ++ field ++ "' with an empty operator map"
  | .unknownOperator token field =>
    "Skipping unknown operator '" ++ token ++ "' on field '" ++ field ++ "'"
  | .misplacedOperator op field =>
    "Operator '" ++ op.token ++ "' is not valid inside field '" ++ field ++ "'"
  | .unknownHint key => "Ignoring unknown hint '" ++ key ++ "'"
  | .unknownDirection token field =>
    "Unrecognized sort direction " ++ token.text ++ " for '" ++ field ++ "', using desc"
  | .unusableSort found =>
    "Ignoring " ++ found.phrase ++ " sort hint, expected a field or an object"
  | .compiledSearch clauses nodes =>
    "Compiled search query with " ++ toString clauses ++ " clauses from " ++ toString nodes
      ++ " filter nodes"
  | .compiledRelational predicates keys =>
    "Compiled relational query with " ++ toString predicates ++ " predicates, " ++ toString keys
      ++ " sort keys"

end Event

end FilterQuery
