import FilterQuery.Proofs.Meaning
import FilterQuery.Search.Clause

/-!
# What search clauses mean

`Clause.holds` gives the truth of a clause under an assignment of truth values to tests.
`clauseHolds` reads the JSON of a clause by itself, without the type of clauses: an object with one
field is a test or a `bool` object, and a `bool` object is read list by list. The two agree on every
clause that is written out.
-/

namespace FilterQuery.Search

open Json (Value)

def RangeEnd.test (field : String) (bound : Value) : RangeEnd → Test
  | .gt => .gt field bound
  | .gte => .gte field bound
  | .lt => .lt field bound
  | .lte => .lte field bound

namespace Clause

theorem induction {P : Clause → Prop} (term : ∀ field operand, P (.term field operand))
    (terms : ∀ field operands, P (.terms field operands))
    (wildcard : ∀ field pattern, P (.wildcard field pattern))
    (present : ∀ field, P (.present field)) (range : ∀ field ends, P (.range field ends))
    (not : ∀ clause, P clause → P (.not clause))
    (all : ∀ clauses, (∀ clause ∈ clauses, P clause) → P (.all clauses))
    (any : ∀ clauses, (∀ clause ∈ clauses, P clause) → P (.any clauses)) (clause : Clause) :
    P clause := by
  apply @Clause.rec P (fun clauses => ∀ clause ∈ clauses, P clause) term terms wildcard present
    range not all any
  · intro clause hclause
    cases hclause
  · intro clause clauses hclause hclauses other hother
    rcases List.mem_cons.mp hother with rfl | hother
    · exact hclause
    · exact hclauses other hother

variable (σ : Test → Bool)

mutual

def holds : Clause → Bool
  | .term field operand => σ (.equals field operand)
  | .terms field operands => σ (.oneOf field operands)
  | .wildcard field pattern => σ (.like field pattern)
  | .present field => σ (.present field)
  | .range field ends => ends.all fun (key, bound) => σ (key.test field bound)
  | .not clause => !holds clause
  | .all clauses => (truths clauses).all id
  | .any clauses => (truths clauses).any id

def truths : List Clause → List Bool
  | [] => []
  | clause :: clauses => holds clause :: truths clauses

end

theorem truths_eq_map (clauses : List Clause) : truths σ clauses = clauses.map (holds σ) := by
  induction clauses with
  | nil => rfl
  | cons clause clauses ih => rw [truths, ih, List.map_cons]

end Clause

section Reading

variable (σ : Test → Bool)

def boundHolds (field : String) : String × Value → Bool
  | ("gt", bound) => σ (.gt field bound)
  | ("gte", bound) => σ (.gte field bound)
  | ("lt", bound) => σ (.lt field bound)
  | ("lte", bound) => σ (.lte field bound)
  | _ => false

/-- A clause that is not a `bool` object, from its name and the fields of its body. -/
def testHolds (name : String) (body : List (String × Value)) : Bool :=
  match name, body with
  | "term", [(field, operand)] => σ (.equals field operand)
  | "terms", [(field, .array operands)] => σ (.oneOf field operands)
  | "wildcard", [(field, .string pattern)] => σ (.like field pattern)
  | "exists", [("field", .string field)] => σ (.present field)
  | "range", [(field, .object bounds)] => bounds.all (boundHolds σ field)
  | _, _ => false

/-- How many clauses of `should` must hold. Where it is not written, it is one if no clause is
required otherwise, and zero else. -/
def minimumShould (lists : List (String × Value)) : Nat :=
  match lists.lookup "minimum_should_match" with
  | some (.number (.int n)) => n.toNat
  | _ => if (lists.lookup "must").isNone && (lists.lookup "filter").isNone then 1 else 0

/-- One list of a `bool` object, from the truth of its clauses. -/
def listHolds (minimum : Nat) (name : String) (truths : List Bool) : Bool :=
  match name with
  | "must" => truths.all id
  | "filter" => truths.all id
  | "should" => minimum ≤ truths.count true
  | "must_not" => truths.all not
  | _ => false

mutual

def clauseHolds : Value → Bool
  | .object [(name, .object body)] =>
    if name = "bool" then listsHold (minimumShould body) body else testHolds σ name body
  | _ => false

/-- The lists of a `bool` object, of which all must allow a match. -/
def listsHold (minimum : Nat) : List (String × Value) → Bool
  | [] => true
  | (name, .array clauses) :: lists =>
    listHolds minimum name (clauseTruths clauses) && listsHold minimum lists
  | (name, .number _) :: lists => name = "minimum_should_match" && listsHold minimum lists
  | _ => false

def clauseTruths : List Value → List Bool
  | [] => []
  | clause :: clauses => clauseHolds clause :: clauseTruths clauses

end

def boolHolds : Value → Bool
  | .object lists => listsHold σ (minimumShould lists) lists
  | _ => false

theorem boundHolds_name (field : String) (key : RangeEnd) (bound : Value) :
    boundHolds σ field (key.name, bound) = σ (key.test field bound) := by
  cases key <;> rfl

theorem one_le_count_true (truths : List Bool) :
    decide (1 ≤ truths.count true) = truths.any id := by
  induction truths with
  | nil => rfl
  | cons truth truths ih => cases truth <;> simp_all

theorem clauseTruths_map (clauses : List Clause)
    (h : ∀ clause ∈ clauses, clauseHolds σ clause.toValue = clause.holds σ) :
    clauseTruths σ (clauses.map Clause.toValue) = clauses.map (Clause.holds σ) := by
  induction clauses with
  | nil => rfl
  | cons clause clauses ih =>
    have hclause := h clause List.mem_cons_self
    have hclauses := ih fun other hother => h other (List.mem_cons_of_mem clause hother)
    rw [List.map_cons, clauseTruths, hclause, hclauses, List.map_cons]

theorem clauseHolds_bool (body : List (String × Value)) :
    clauseHolds σ (.object [("bool", .object body)]) = listsHold σ (minimumShould body) body := by
  rw [clauseHolds, if_pos rfl]

/-- Written out as JSON, a clause is read as it is meant. -/
theorem clauseHolds_toValue (clause : Clause) : clauseHolds σ clause.toValue = clause.holds σ := by
  induction clause using Clause.induction with
  | term field operand => rfl
  | terms field operands => rfl
  | wildcard field pattern => rfl
  | present field => rfl
  | range field ends =>
    rw [Clause.toValue, clauseHolds, if_neg (by decide), testHolds, List.all_map, Clause.holds]
    exact List.all_congr rfl fun ⟨key, bound⟩ => boundHolds_name σ field key bound
  | not clause ih =>
    rw [Clause.toValue, clauseHolds_bool, Clause.holds]
    simp [listsHold, listHolds, clauseTruths, ih]
  | all clauses ih =>
    rw [Clause.toValue, clauseHolds_bool, Clause.toValues_eq_map, Clause.holds,
      Clause.truths_eq_map]
    simp [listsHold, listHolds, clauseTruths_map σ clauses ih]
  | any clauses ih =>
    have hminimum : minimumShould [("should", .array (clauses.map Clause.toValue)),
        ("minimum_should_match", .ofNat 1)] = 1 := rfl
    rw [Clause.toValue, clauseHolds_bool, Clause.toValues_eq_map, hminimum, Clause.holds,
      Clause.truths_eq_map]
    simp only [listsHold, listHolds, clauseTruths_map σ clauses ih, one_le_count_true]
    simp [Value.ofNat, listsHold]

end Reading

end FilterQuery.Search
