import FilterQuery.Document
import FilterQuery.Traced

/-!
# Reading filters

Each entry of a document gives a node or nothing. `$null` and `$notnull` name a field, `$and` and
`$or` with an array hold a group, and every other entry is a condition: a field with a map from an
operator to its operand, or a field with the value it must equal. Of an operator map, and of each
element of a group, only the first entry counts.

What contributes nothing is reported as an event and skipped. An operand that an operator cannot
use is an error, and the first one in document order ends the parse.
-/

namespace FilterQuery

open Json (Value)

namespace Op

/-- A comparison, whose bound must not be an array or an object. -/
def ofScalar (op : Operator) (field : String) (make : Value → Op) : Value → Traced (Option Op)
  | .array _ => .fail (.operand op field (.notScalar .array))
  | .object _ => .fail (.operand op field (.notScalar .object))
  | bound => pure (some (make bound))

def ofOperand (field : String) : Operator → Value → Traced (Option Op)
  | .not, .object _ => .fail (.operand .not field .notValue)
  | .not, operand => pure (some (.notEq operand))
  | .oneOf, .array operands => pure (some (.oneOf operands))
  | .oneOf, other => .fail (.operand .oneOf field (.notArray other.kind))
  | .noneOf, .array operands => pure (some (.noneOf operands))
  | .noneOf, other => .fail (.operand .noneOf field (.notArray other.kind))
  | .like, .string pattern => pure (some (.like pattern))
  | .like, other => .fail (.operand .like field (.notPattern other.kind))
  | .greater, bound => ofScalar .greater field .gt bound
  | .greaterEqual, bound => ofScalar .greaterEqual field .gte bound
  | .less, bound => ofScalar .less field .lt bound
  | .lessEqual, bound => ofScalar .lessEqual field .lte bound
  | .between, .array [lower, upper] => pure (some (.between lower upper))
  | .between, .array bounds => .fail (.operand .between field (.notBounds bounds.length))
  | .between, other => .fail (.operand .between field (.notArray other.kind))
  | op, _ => do
    Traced.emit (.misplacedOperator op field)
    return none

end Op

namespace Node

def ofOperatorMap (field : String) : List (String × Value) → Traced (Option Node)
  | [] => do
    Traced.emit (.emptyOperatorMap field)
    return none
  | (token, operand) :: _ =>
    match Operator.ofToken? token with
    | none => do
      Traced.emit (.unknownOperator token field)
      return none
    | some op => do
      let found ← Op.ofOperand field op operand
      return found.map fun op => .condition ⟨field, op⟩

def ofField (field : String) : Value → Traced (Option Node)
  | .object fields => ofOperatorMap field fields
  | value => pure (some (.condition ⟨field, .eq value⟩))

/-- The test for presence or absence that names its field as operand. -/
def ofPresence (operator : Operator) (op : Op) : Value → Traced (Option Node)
  | .string field => pure (some (.condition ⟨field, op⟩))
  | other => .fail (.operand operator operator.token (.notFieldName other.kind))

/-- A group, unless nothing is left in it. -/
def ofItems (kind : GroupKind) : List Node → Traced (Option Node)
  | [] => do
    Traced.emit (.emptyGroup kind)
    return none
  | items => pure (some (.group kind items))

mutual

def ofEntry (name : String) (value : Value) : Traced (Option Node) :=
  match Operator.ofToken? name, value with
  | some .null, value => ofPresence .null .isNull value
  | some .notNull, value => ofPresence .notNull .isNotNull value
  | some .and, .array elements => do ofItems .and (← ofElements .and elements)
  | some .or, .array elements => do ofItems .or (← ofElements .or elements)
  | _, value => ofField name value

/-- The nodes of a group, one at most from each element. -/
def ofElements (kind : GroupKind) : List Value → Traced (List Node)
  | [] => pure []
  | .object [] :: elements => do
    Traced.emit (.emptyElement kind)
    ofElements kind elements
  | .object ((name, value) :: _) :: elements => do
    let node ← ofEntry name value
    let nodes ← ofElements kind elements
    return node.toList ++ nodes
  | other :: _ => .fail (.operand kind.operator kind.operator.token (.notElement other.kind))

end

def ofEntries : Document → Traced (List Node)
  | [] => pure []
  | (name, value) :: entries => do
    let node ← ofEntry name value
    let nodes ← ofEntries entries
    return node.toList ++ nodes

end Node

def Filter.ofDocument (document : Document) : Traced Filter := do
  return ⟨← Node.ofEntries document⟩

end FilterQuery
