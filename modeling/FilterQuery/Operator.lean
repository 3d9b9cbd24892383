/-!
# Reserved tokens

The closed set of operators and hint keys. Each has one token of its own; `$notnull` may also be
written `$nnull`.
-/

namespace FilterQuery

inductive Operator where
  | not
  | oneOf
  | noneOf
  | like
  | or
  | and
  | null
  | notNull
  | greater
  | greaterEqual
  | less
  | lessEqual
  | between
deriving DecidableEq

/-- Logical operators stand for tests and groups, comparison operators for ranges. -/
inductive OperatorClass where
  | logical
  | comparison
deriving DecidableEq

namespace Operator

def all : List Operator :=
  [.not, .oneOf, .noneOf, .like, .or, .and, .null, .notNull,
    .greater, .greaterEqual, .less, .lessEqual, .between]

def token : Operator → String
  | .not => "$not"
  | .oneOf => "$in"
  | .noneOf => "$nin"
  | .like => "$like"
  | .or => "$or"
  | .and => "$and"
  | .null => "$null"
  | .notNull => "$notnull"
  | .greater => "$gt"
  | .greaterEqual => "$gte"
  | .less => "$lt"
  | .lessEqual => "$lte"
  | .between => "$bt"

def notNullAlias : String := "$nnull"

def ofToken? (s : String) : Option Operator :=
  if s = notNullAlias then some .notNull else all.find? fun op => op.token = s

theorem ofToken?_token (op : Operator) : ofToken? op.token = some op := by
  cases op <;> decide

/-- A token stands for one operator, and only `notNull` has a second token. -/
theorem ofToken?_eq_some_iff {s : String} {op : Operator} :
    ofToken? s = some op ↔ s = op.token ∨ op = .notNull ∧ s = notNullAlias := by
  constructor
  · intro h
    unfold ofToken? at h
    split at h
    · next halias => exact .inr ⟨(Option.some.inj h).symm, halias⟩
    · have htoken := List.find?_some h
      exact .inl (of_decide_eq_true htoken).symm
  · rintro (rfl | ⟨rfl, rfl⟩)
    · exact ofToken?_token op
    · rfl

/-- The name under which an operator is stored. -/
def name : Operator → String
  | .not => "Not"
  | .oneOf => "In"
  | .noneOf => "NotIn"
  | .like => "Like"
  | .or => "Or"
  | .and => "And"
  | .null => "Null"
  | .notNull => "NotNull"
  | .greater => "Greater"
  | .greaterEqual => "GreaterEqual"
  | .less => "Less"
  | .lessEqual => "LessEqual"
  | .between => "Between"

def operatorClass : Operator → OperatorClass
  | .greater | .greaterEqual | .less | .lessEqual | .between => .comparison
  | _ => .logical

def index (op : Operator) : Nat :=
  all.idxOf op

end Operator

def OperatorClass.name : OperatorClass → String
  | .logical => "logical"
  | .comparison => "comparison"

inductive HintKey where
  | sort
  | limit
  | skip
deriving DecidableEq

namespace HintKey

def all : List HintKey := [.sort, .limit, .skip]

def token : HintKey → String
  | .sort => "$sort"
  | .limit => "$limit"
  | .skip => "$skip"

def ofToken? (s : String) : Option HintKey :=
  all.find? fun key => key.token = s

theorem ofToken?_token (key : HintKey) : ofToken? key.token = some key := by
  cases key <;> decide

theorem ofToken?_eq_some_iff {s : String} {key : HintKey} :
    ofToken? s = some key ↔ s = key.token := by
  constructor
  · intro h
    have htoken := List.find?_some h
    exact (of_decide_eq_true htoken).symm
  · rintro rfl
    exact ofToken?_token key

theorem ofToken?_eq_none_iff {s : String} : ofToken? s = none ↔ s ∉ all.map token := by
  simp [ofToken?]

end HintKey

inductive UnknownToken where
  | operator (token : String)
  | hint (token : String)

def UnknownToken.message : UnknownToken → String
  | .operator token => "Unknown operator: " ++ token
  | .hint token => "Unknown hint: " ++ token

end FilterQuery
