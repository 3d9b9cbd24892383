import FilterQuery.Filter
import FilterQuery.Json.Record

/-!
# Filters as JSON

A filter is the record of its nodes, a condition the record of its field and operation, a group the
record of its kind and items. Nodes and operations are variants, with their operands as payload.
-/

namespace FilterQuery

open Json (Raw Value)

namespace Op

def toValue : Op → Value
  | .eq v => .object [("Eq", v)]
  | .notEq v => .object [("NotEq", v)]
  | .oneOf vs => .object [("In", .array vs)]
  | .noneOf vs => .object [("NotIn", .array vs)]
  | .like pattern => .object [("Like", .string pattern)]
  | .gt v => .object [("Gt", v)]
  | .gte v => .object [("Gte", v)]
  | .lt v => .object [("Lt", v)]
  | .lte v => .object [("Lte", v)]
  | .between lower upper => .object [("Between", .array [lower, upper])]
  | .isNull => .string "IsNull"
  | .isNotNull => .string "IsNotNull"

def operands? : Nat → Raw → Option (List Value)
  | depth + 1, .array items => Value.itemsOfRaw? depth items
  | _, _ => none

def ofPayload? (depth : Nat) (variant : String) (payload : Raw) : Option Op :=
  let operand := Value.ofRaw? depth payload
  match variant with
  | "Eq" => operand.map .eq
  | "NotEq" => operand.map .notEq
  | "In" => (operands? depth payload).map .oneOf
  | "NotIn" => (operands? depth payload).map .noneOf
  | "Like" => payload.string?.map .like
  | "Gt" => operand.map .gt
  | "Gte" => operand.map .gte
  | "Lt" => operand.map .lt
  | "Lte" => operand.map .lte
  | "Between" =>
    match operands? depth payload with
    | some [lower, upper] => some (.between lower upper)
    | _ => none
  | _ => none

def ofRaw? (depth : Nat) (raw : Raw) : Option Op :=
  match raw.unitVariant? depth with
  | some "IsNull" => some .isNull
  | some "IsNotNull" => some .isNotNull
  | _ =>
    match depth, raw with
    | depth + 1, .object [(some variant, payload)] => ofPayload? depth variant payload
    | _, _ => none

end Op

namespace Condition

def toValue (c : Condition) : Value :=
  .object [("field", .string c.field), ("op", c.op.toValue)]

def ofRaw? : Nat → Raw → Option Condition
  | 0, _ => none
  | depth + 1, raw => do
    let fields ← raw.record? ["field", "op"]
    let field ← (← fields.lookup "field").string?
    let op ← Op.ofRaw? depth (← fields.lookup "op")
    return ⟨field, op⟩

end Condition

namespace GroupKind

def name : GroupKind → String
  | .and => "And"
  | .or => "Or"

def ofRaw? (depth : Nat) (raw : Raw) : Option GroupKind :=
  match raw.unitVariant? depth with
  | some "And" => some .and
  | some "Or" => some .or
  | _ => none

end GroupKind

namespace Node

mutual

def toValue : Node → Value
  | .condition c => .object [("Condition", c.toValue)]
  | .group kind items =>
    .object [("Group", .object [("kind", .string kind.name), ("items", .array (toValues items))])]

def toValues : List Node → List Value
  | [] => []
  | node :: nodes => toValue node :: toValues nodes

end

/-- A group opens three levels: the variant, its record and the array of its items. -/
def ofRaw? : Nat → Raw → Option Node
  | depth + 1, .object [(some "Condition", c)] => (Condition.ofRaw? depth c).map .condition
  | depth + 3, .object [(some "Group", body)] => do
    let fields ← body.record? ["kind", "items"]
    let kind ← GroupKind.ofRaw? (depth + 1) (← fields.lookup "kind")
    match ← fields.lookup "items" with
    | .array items => return .group kind (← items.mapM (ofRaw? depth))
    | _ => none
  | _, _ => none

end Node

namespace Filter

def toValue (filter : Filter) : Value :=
  .object [("nodes", .array (Node.toValues filter.nodes))]

def ofRaw? : Nat → Raw → Option Filter
  | depth + 2, raw => do
    let fields ← raw.record? ["nodes"]
    match ← fields.lookup "nodes" with
    | .array items => return ⟨← items.mapM (Node.ofRaw? depth)⟩
    | _ => none
  | _, _ => none

end Filter

end FilterQuery
