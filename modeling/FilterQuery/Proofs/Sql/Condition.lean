import FilterQuery.Proofs.Sql.Items

/-!
# Reading conditions

A reader for the conditions of a statement. `AND` binds tighter than `OR`, parentheses make a
predicate of a condition, and the `AND` of a `BETWEEN` belongs to it. A condition that is one
conjunction is an `AND` group, any other one an `OR` group of its conjunctions; so a group of one
predicate is read as an `AND` group.
-/

namespace FilterQuery.Sql

open Json (Value)

/-- What is read: a predicate on a column, or a group in parentheses. -/
inductive Predicate (ν : Type) where
  | compare (column : Ident) (comparison : Comparison) (operand : ν)
  | inList (column : Ident) (operands : List ν) (negated : Bool)
  | like (column : Ident) (pattern : ν)
  | between (column : Ident) (low high : ν)
  | isNull (column : Ident) (negated : Bool)
  | nested (combinator : Combinator) (parts : List (Predicate ν))

variable {ν : Type}

def Comparison.ofSign? (sign : String) : Option Comparison :=
  [Comparison.eq, .ne, .lt, .le, .gt, .ge].find? (·.sign = sign)

/-- An operand is a value, or a token that may stand for one. -/
def Item.operand? (literal? : Token → Option ν) : Item ν → Option ν
  | .operand v => some v
  | .token t => literal? t

/-- Whether the item may be the number of a limit or an offset. -/
def Item.isCount : Item ν → Bool
  | .operand _ => true
  | .token (.number _) => true
  | _ => false

/-- The name parts of a column, with points between them. -/
def readColumn : List (Item ν) → Option (List String × List (Item ν))
  | .token (.name part) :: .token (.symbol ".") :: rest =>
    (readColumn rest).map fun (parts, after) => (part :: parts, after)
  | .token (.name part) :: rest => some ([part], rest)
  | _ => none

def readClosing : List (Item ν) → Option (List (Item ν))
  | .token (.symbol ")") :: rest => some rest
  | _ => none

section Reading

variable (literal? : Token → Option ν)

/-- The operands behind the first one, up to the closing parenthesis. -/
def readOperandsMore : List (Item ν) → Option (List ν × List (Item ν))
  | .token (.symbol ")") :: rest => some ([], rest)
  | .token (.symbol ",") :: item :: rest =>
    (item.operand? literal?).bind fun operand =>
      (readOperandsMore rest).map fun (operands, after) => (operand :: operands, after)
  | _ => none

def readOperands : List (Item ν) → Option (List ν × List (Item ν))
  | [] => none
  | item :: rest =>
    match item.operand? literal? with
    | some operand =>
      (readOperandsMore literal? rest).map fun (operands, after) => (operand :: operands, after)
    | none => (readClosing (item :: rest)).map ([], ·)

/-- What is said of a column. -/
def readTest (column : Ident) : List (Item ν) → Option (Predicate ν × List (Item ν))
  | .token (.word "IS") :: .token (.word "NULL") :: rest => some (.isNull column false, rest)
  | .token (.word "IS") :: .token (.word "NOT") :: .token (.word "NULL") :: rest =>
    some (.isNull column true, rest)
  | .token (.word "IN") :: .token (.symbol "(") :: rest =>
    (readOperands literal? rest).map fun (operands, after) => (.inList column operands false, after)
  | .token (.word "NOT") :: .token (.word "IN") :: .token (.symbol "(") :: rest =>
    (readOperands literal? rest).map fun (operands, after) => (.inList column operands true, after)
  | .token (.word "LIKE") :: item :: rest =>
    (item.operand? literal?).map fun pattern => (.like column pattern, rest)
  | .token (.word "BETWEEN") :: first :: .token (.word "AND") :: second :: rest =>
    (first.operand? literal?).bind fun low =>
      (second.operand? literal?).map fun high => (.between column low high, rest)
  | .token (.symbol sign) :: item :: rest =>
    (Comparison.ofSign? sign).bind fun comparison =>
      (item.operand? literal?).map fun operand => (.compare column comparison operand, rest)
  | _ => none

/-- The parts of one conjunction as one predicate. -/
def conjunct : List (Predicate ν) → Predicate ν
  | [part] => part
  | parts => .nested .and parts

/-- A condition by its conjunctions. -/
def condition : List (List (Predicate ν)) → Predicate ν
  | [parts] => .nested .and parts
  | conjunctions => .nested .or (conjunctions.map conjunct)

mutual

/-- The conjunctions of a condition. The first argument bounds the depth of the recursion. -/
def readCondition :
    Nat → List (Item ν) → Option (List (List (Predicate ν)) × List (Item ν))
  | 0, _ => none
  | fuel + 1, items =>
    match readConjunction fuel items with
    | some (parts, .token (.word "OR") :: rest) =>
      (readCondition fuel rest).map fun (conjunctions, after) => (parts :: conjunctions, after)
    | some (parts, rest) => some ([parts], rest)
    | none => none

def readConjunction : Nat → List (Item ν) → Option (List (Predicate ν) × List (Item ν))
  | 0, _ => none
  | fuel + 1, items =>
    match readPredicate fuel items with
    | some (part, .token (.word "AND") :: rest) =>
      (readConjunction fuel rest).map fun (parts, after) => (part :: parts, after)
    | some (part, rest) => some ([part], rest)
    | none => none

def readPredicate : Nat → List (Item ν) → Option (Predicate ν × List (Item ν))
  | 0, _ => none
  | fuel + 1, .token (.symbol "(") :: items =>
    match readCondition fuel items with
    | some (conjunctions, .token (.symbol ")") :: rest) => some (condition conjunctions, rest)
    | _ => none
  | _ + 1, items =>
    (readColumn items).bind fun (parts, rest) => readTest literal? ⟨parts⟩ rest

end

end Reading

namespace Predicate

mutual

def map {μ : Type} (f : ν → μ) : Predicate ν → Predicate μ
  | .compare column comparison operand => .compare column comparison (f operand)
  | .inList column operands negated => .inList column (operands.map f) negated
  | .like column pattern => .like column (f pattern)
  | .between column low high => .between column (f low) (f high)
  | .isNull column negated => .isNull column negated
  | .nested combinator parts => .nested combinator (mapParts f parts)

def mapParts {μ : Type} (f : ν → μ) : List (Predicate ν) → List (Predicate μ)
  | [] => []
  | part :: parts => map f part :: mapParts f parts

end

mutual

/-- The expression that the predicate is. -/
def expr : Predicate Value → Expr
  | .compare column comparison operand => .compare (.column column) comparison (.value operand)
  | .inList column operands negated => .inList (.column column) (operands.map .value) negated
  | .like column pattern => .like (.column column) (.value pattern)
  | .between column low high => .between (.column column) (.value low) (.value high)
  | .isNull column negated => .isNull (.column column) negated
  | .nested combinator parts => .nested combinator (exprs parts)

def exprs : List (Predicate Value) → List Expr
  | [] => []
  | part :: parts => expr part :: exprs parts

end

theorem mapParts_eq_map {μ : Type} (f : ν → μ) (parts : List (Predicate ν)) :
    mapParts f parts = parts.map (map f) := by
  induction parts with
  | nil => rfl
  | cons part parts ih => rw [mapParts, ih, List.map_cons]

mutual

theorem map_id : ∀ p : Predicate ν, p.map id = p
  | .compare _ _ _ => rfl
  | .inList column operands negated => by rw [map, List.map_id]
  | .like _ _ => rfl
  | .between _ _ _ => rfl
  | .isNull _ _ => rfl
  | .nested combinator parts => by rw [map, mapParts_id parts]

theorem mapParts_id : ∀ parts : List (Predicate ν), mapParts id parts = parts
  | [] => rfl
  | part :: parts => by rw [mapParts, map_id part, mapParts_id parts]

end

theorem exprs_eq_map (parts : List (Predicate Value)) : exprs parts = parts.map expr := by
  induction parts with
  | nil => rfl
  | cons part parts ih => rw [exprs, ih, List.map_cons]

end Predicate

namespace Combinator

/-- The combinator by which a group of so many predicates is read. -/
def settled (c : Combinator) (count : Nat) : Combinator :=
  if count = 1 then .and else c

end Combinator

mutual

/-- The expression with each group of one predicate as an `AND` group. -/
def Expr.settled : Expr → Expr
  | .compare left comparison right =>
    .compare (Expr.settled left) comparison (Expr.settled right)
  | .inList subject members negated =>
    .inList (Expr.settled subject) (Expr.eachSettled members) negated
  | .like subject pattern => .like (Expr.settled subject) (Expr.settled pattern)
  | .between subject low high =>
    .between (Expr.settled subject) (Expr.settled low) (Expr.settled high)
  | .isNull subject negated => .isNull (Expr.settled subject) negated
  | .nested combinator predicates =>
    .nested (combinator.settled predicates.length) (Expr.eachSettled predicates)
  | e => e

def Expr.eachSettled : List Expr → List Expr
  | [] => []
  | e :: es => Expr.settled e :: Expr.eachSettled es

end

theorem Expr.eachSettled_eq_map (es : List Expr) : eachSettled es = es.map settled := by
  induction es with
  | nil => rfl
  | cons e es ih => rw [eachSettled, ih, List.map_cons]

def Group.settled (g : Group) : Group :=
  ⟨g.combinator.settled g.predicates.length, g.predicates.map Expr.settled⟩

/-- What filters are compiled to: predicates that compare columns with values, and groups of such
predicates with at least one in each. -/
inductive Expr.IsCondition : Expr → Prop where
  | compare {column : Ident} (named : column.parts ≠ []) (comparison : Comparison)
      (operand : Value) : IsCondition (.compare (.column column) comparison (.value operand))
  | inList {column : Ident} (named : column.parts ≠ []) (operands : List Value) (negated : Bool) :
      IsCondition (.inList (.column column) (operands.map .value) negated)
  | like {column : Ident} (named : column.parts ≠ []) (pattern : Value) :
      IsCondition (.like (.column column) (.value pattern))
  | between {column : Ident} (named : column.parts ≠ []) (low high : Value) :
      IsCondition (.between (.column column) (.value low) (.value high))
  | isNull {column : Ident} (named : column.parts ≠ []) (negated : Bool) :
      IsCondition (.isNull (.column column) negated)
  | nested (combinator : Combinator) {predicates : List Expr} (nonempty : predicates ≠ [])
      (each : ∀ predicate ∈ predicates, IsCondition predicate) :
      IsCondition (.nested combinator predicates)

namespace Group

theorem predicates_ne_nil {g : Group} (h : g.isEmpty = false) : g.predicates ≠ [] := by
  simpa [isEmpty] using h

/-- A group of conditions may stand for a condition itself. -/
theorem isCondition_toExpr {g : Group} (hne : g.isEmpty = false)
    (h : ∀ predicate ∈ g.predicates, predicate.IsCondition) : g.toExpr.IsCondition :=
  .nested g.combinator (predicates_ne_nil hne) h

end Group

end FilterQuery.Sql
