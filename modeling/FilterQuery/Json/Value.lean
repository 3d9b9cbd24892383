import FilterQuery.Binary64

/-!
# JSON values

A value keeps the fields of its objects in order, and exact integers apart from binary64 numbers.
Equality `==` is equality of values: the order of fields does not matter, the two zeros of binary64
are equal, and an integer never equals a binary64 number. It takes the fields of an object to have
different names, which is what `Fields.put` keeps.
-/

namespace FilterQuery.Json

inductive Number where
  | int (n : Int)
  | float (x : Binary64)
deriving DecidableEq

namespace Number

def beq : Number → Number → Bool
  | .int m, .int n => m == n
  | .float x, .float y => x.same y
  | _, _ => false

instance : BEq Number := ⟨beq⟩

/-- Whether the number is 1, or -1 if `negative`, in either representation. -/
def isOne (negative : Bool) : Number → Bool
  | .int n => n == if negative then -1 else 1
  | .float x => x == Binary64.one negative

end Number

inductive Value where
  | null
  | bool (b : Bool)
  | number (n : Number)
  | string (s : String)
  | array (items : List Value)
  | object (fields : List (String × Value))
deriving Inhabited

abbrev Fields := List (String × Value)

/-- Sets a field: a name that is present keeps its place, a new one goes to the end. -/
def Fields.put : Fields → String → Value → Fields
  | [], name, value => [(name, value)]
  | (key, old) :: rest, name, value =>
    if key = name then (key, value) :: rest else (key, old) :: Fields.put rest name value

/-- The fields that remain when pairs are set one after another. -/
def Fields.ofPairs (pairs : List (String × Value)) : Fields :=
  pairs.foldl (fun fields pair => fields.put pair.1 pair.2) []

namespace Value

def ofNat (n : Nat) : Value :=
  .number (.int n)

mutual

def beq : Value → Value → Bool
  | .null, .null => true
  | .bool a, .bool b => a == b
  | .number m, .number n => m == n
  | .string s, .string t => s == t
  | .array xs, .array ys => beqItems xs ys
  | .object xs, .object ys => xs.length == ys.length && beqFields xs ys
  | _, _ => false

def beqItems : List Value → List Value → Bool
  | [], [] => true
  | x :: xs, y :: ys => beq x y && beqItems xs ys
  | _, _ => false

/-- Every field on the left is on the right with an equal value. -/
def beqFields : List (String × Value) → List (String × Value) → Bool
  | [], _ => true
  | (name, x) :: xs, ys =>
    (match ys.lookup name with
      | some y => beq x y
      | none => false) && beqFields xs ys

end

instance : BEq Value := ⟨beq⟩

end Value

/-- The six kinds of values, as error texts name them. -/
inductive Kind where
  | null
  | boolean
  | number
  | string
  | array
  | object
deriving DecidableEq

def Kind.phrase : Kind → String
  | .null => "null"
  | .boolean => "a boolean"
  | .number => "a number"
  | .string => "a string"
  | .array => "an array"
  | .object => "an object"

def Value.kind : Value → Kind
  | .null => .null
  | .bool _ => .boolean
  | .number _ => .number
  | .string _ => .string
  | .array _ => .array
  | .object _ => .object

theorem Value.kind_eq_array_iff {v : Value} : v.kind = .array ↔ ∃ items, v = .array items := by
  cases v <;> simp [kind]

theorem Value.kind_eq_object_iff {v : Value} : v.kind = .object ↔ ∃ fields, v = .object fields := by
  cases v <;> simp [kind]

/-- Every object in the value, however deep, has fields with different names. -/
inductive Value.Distinct : Value → Prop where
  | null : Distinct .null
  | bool (b : Bool) : Distinct (.bool b)
  | number (n : Number) : Distinct (.number n)
  | string (s : String) : Distinct (.string s)
  | array {items : List Value} (each : ∀ item ∈ items, Distinct item) : Distinct (.array items)
  | object {fields : Fields} (names : (fields.map Prod.fst).Nodup)
      (each : ∀ field ∈ fields, Distinct field.2) : Distinct (.object fields)

theorem Value.distinct_array_iff {items : List Value} :
    (Value.array items).Distinct ↔ ∀ item ∈ items, item.Distinct := by
  constructor
  · intro h
    cases h with
    | array each => exact each
  · exact .array

theorem Value.Distinct.of_object {fields : Fields} (h : (Value.object fields).Distinct) :
    ∀ field ∈ fields, field.2.Distinct := by
  cases h with
  | object names each => exact each

theorem Value.distinct_singleton {name : String} {value : Value} (h : value.Distinct) :
    (Value.object [(name, value)]).Distinct := by
  refine .object (List.pairwise_singleton _ _) fun field hfield => ?_
  rw [List.mem_singleton.mp hfield]
  exact h

/-- A name that is not there yet goes to the end. -/
theorem Fields.put_of_not_mem {fields : Fields} {name : String} (value : Value)
    (h : name ∉ fields.map Prod.fst) : fields.put name value = fields ++ [(name, value)] := by
  induction fields with
  | nil => rfl
  | cons field fields ih =>
    rw [List.map_cons, List.mem_cons, not_or] at h
    rw [put, if_neg fun heq => h.1 heq.symm, ih h.2, List.cons_append]

theorem Fields.foldl_put {fields pairs : Fields} (h : ((fields ++ pairs).map Prod.fst).Nodup) :
    pairs.foldl (fun fields pair => fields.put pair.1 pair.2) fields = fields ++ pairs := by
  induction pairs generalizing fields with
  | nil => exact (List.append_nil fields).symm
  | cons pair pairs ih =>
    have hsplit : fields ++ pair :: pairs = fields ++ [pair] ++ pairs := by simp
    have hfresh : pair.1 ∉ fields.map Prod.fst := by
      rw [List.map_append, List.map_cons] at h
      intro hmem
      exact (List.nodup_append.mp h).2.2 pair.1 hmem pair.1 List.mem_cons_self rfl
    rw [List.foldl_cons, put_of_not_mem pair.2 hfresh, hsplit]
    exact ih (hsplit ▸ h)

/-- Pairs with different names are the fields that they set. -/
theorem Fields.ofPairs_eq {pairs : Fields} (h : (pairs.map Prod.fst).Nodup) :
    ofPairs pairs = pairs :=
  foldl_put h

end FilterQuery.Json
