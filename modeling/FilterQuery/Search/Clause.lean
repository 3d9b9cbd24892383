import FilterQuery.Json.Value

/-!
# Search clauses

A clause tests one field or combines other clauses. In JSON every clause is an object with one
field; the combinations are `bool` objects with a single list.
-/

namespace FilterQuery.Search

open Json (Value)

inductive RangeEnd where
  | gt
  | gte
  | lt
  | lte
deriving DecidableEq

def RangeEnd.name : RangeEnd → String
  | .gt => "gt"
  | .gte => "gte"
  | .lt => "lt"
  | .lte => "lte"

inductive Clause where
  | term (field : String) (operand : Value)
  | terms (field : String) (operands : List Value)
  | wildcard (field : String) (pattern : String)
  | present (field : String)
  | range (field : String) (ends : List (RangeEnd × Value))
  | not (clause : Clause)
  | all (clauses : List Clause)
  | any (clauses : List Clause)

namespace Clause

mutual

def toValue : Clause → Value
  | .term field operand => .object [("term", .object [(field, operand)])]
  | .terms field operands => .object [("terms", .object [(field, .array operands)])]
  | .wildcard field pattern => .object [("wildcard", .object [(field, .string pattern)])]
  | .present field => .object [("exists", .object [("field", .string field)])]
  | .range field ends =>
    .object [("range", .object [(field, .object (ends.map fun (key, bound) => (key.name, bound)))])]
  | .not clause => .object [("bool", .object [("must_not", .array [toValue clause])])]
  | .all clauses => .object [("bool", .object [("must", .array (toValues clauses))])]
  | .any clauses =>
    .object [("bool",
      .object [("should", .array (toValues clauses)), ("minimum_should_match", .ofNat 1)])]

def toValues : List Clause → List Value
  | [] => []
  | clause :: clauses => toValue clause :: toValues clauses

end

mutual

def beq : Clause → Clause → Bool
  | .term f v, .term g w => f == g && v == w
  | .terms f vs, .terms g ws => f == g && vs == ws
  | .wildcard f p, .wildcard g q => f == g && p == q
  | .present f, .present g => f == g
  | .range f vs, .range g ws => f == g && vs == ws
  | .not c, .not d => beq c d
  | .all cs, .all ds => beqClauses cs ds
  | .any cs, .any ds => beqClauses cs ds
  | _, _ => false

def beqClauses : List Clause → List Clause → Bool
  | [], [] => true
  | c :: cs, d :: ds => beq c d && beqClauses cs ds
  | _, _ => false

end

instance : BEq Clause := ⟨beq⟩

theorem toValues_eq_map (clauses : List Clause) : toValues clauses = clauses.map toValue := by
  induction clauses with
  | nil => rfl
  | cons clause clauses ih => rw [toValues, ih, List.map_cons]

end Clause

end FilterQuery.Search
