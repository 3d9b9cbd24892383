import FilterQuery.Json.Value

/-!
# SQL expressions

Expressions over columns and values, and groups of predicates that are joined by one combinator.
Equality `==` compares values as values.
-/

namespace FilterQuery.Sql

open Json (Value)

/-- A name, possibly qualified: each part is a name of its own. -/
structure Ident where
  parts : List String
deriving DecidableEq

namespace Ident

def single (name : String) : Ident :=
  ⟨[name]⟩

/-- A path is split at its dots, unless one of its segments is empty. -/
def ofPath (path : String) : Ident :=
  let segments := (path.toList.splitOn '.').map String.ofList
  if "" ∈ segments then single path else ⟨segments⟩

end Ident

inductive Comparison where
  | eq
  | ne
  | lt
  | le
  | gt
  | ge
deriving DecidableEq

inductive Combinator where
  | and
  | or
deriving DecidableEq

inductive Expr where
  | column (ident : Ident)
  | star
  | value (v : Value)
  | compare (left : Expr) (comparison : Comparison) (right : Expr)
  | inList (subject : Expr) (items : List Expr) (negated : Bool)
  | like (subject pattern : Expr)
  | between (subject low high : Expr)
  | isNull (subject : Expr) (negated : Bool)
  | nested (combinator : Combinator) (predicates : List Expr)

namespace Expr

def path (p : String) : Expr :=
  .column (.ofPath p)

mutual

def beq : Expr → Expr → Bool
  | .column i, .column j => i == j
  | .star, .star => true
  | .value v, .value w => v == w
  | .compare l c r, .compare l' c' r' => beq l l' && c == c' && beq r r'
  | .inList s items negated, .inList s' items' negated' =>
    beq s s' && beqList items items' && negated == negated'
  | .like s p, .like s' p' => beq s s' && beq p p'
  | .between s l h, .between s' l' h' => beq s s' && beq l l' && beq h h'
  | .isNull s negated, .isNull s' negated' => beq s s' && negated == negated'
  | .nested c ps, .nested c' ps' => c == c' && beqList ps ps'
  | _, _ => false

def beqList : List Expr → List Expr → Bool
  | [], [] => true
  | a :: as, b :: bs => beq a b && beqList as bs
  | _, _ => false

end

instance : BEq Expr := ⟨beq⟩

/-- Whether the expression is a group without predicates. -/
def isEmptyGroup : Expr → Bool
  | .nested _ [] => true
  | _ => false

/-- Induction on an expression: a list or a group has the property if all its parts have it. -/
@[elab_as_elim, induction_eliminator]
theorem induction {P : Expr → Prop} (column : ∀ ident, P (.column ident)) (star : P .star)
    (value : ∀ v, P (.value v))
    (compare : ∀ left comparison right, P left → P right → P (.compare left comparison right))
    (inList : ∀ subject items negated, P subject → (∀ item ∈ items, P item) →
      P (.inList subject items negated))
    (like : ∀ subject pattern, P subject → P pattern → P (.like subject pattern))
    (between : ∀ subject low high, P subject → P low → P high → P (.between subject low high))
    (isNull : ∀ subject negated, P subject → P (.isNull subject negated))
    (nested : ∀ combinator predicates, (∀ predicate ∈ predicates, P predicate) →
      P (.nested combinator predicates)) (e : Expr) : P e := by
  apply @Expr.rec P (fun parts => ∀ part ∈ parts, P part) column star value compare inList like
    between isNull nested
  · intro part hpart
    cases hpart
  · intro part parts hfirst hparts other hother
    rcases List.mem_cons.mp hother with rfl | hother
    · exact hfirst
    · exact hparts other hother

end Expr

/-- Predicates joined by one combinator. As part of another group it is put in parentheses. -/
structure Group where
  combinator : Combinator
  predicates : List Expr
deriving BEq

namespace Group

def empty (combinator : Combinator) : Group :=
  ⟨combinator, []⟩

/-- The number of direct predicates; a nested group counts once. -/
def count (g : Group) : Nat :=
  g.predicates.length

def isEmpty (g : Group) : Bool :=
  g.predicates.isEmpty

def push (g : Group) (predicate : Expr) : Group :=
  { g with predicates := g.predicates ++ [predicate] }

def toExpr (g : Group) : Expr :=
  .nested g.combinator g.predicates

/-- Appends a group as one predicate in parentheses. -/
def nest (g inner : Group) : Group :=
  g.push inner.toExpr

/-- Appends the predicates of another group, whatever its combinator. -/
def extend (g other : Group) : Group :=
  { g with predicates := g.predicates ++ other.predicates }

end Group

end FilterQuery.Sql
