import FilterQuery.Proofs.Meaning
import FilterQuery.Sql.Select

/-!
# What conditions of a statement mean

An expression is read under an assignment of truth values to atomic tests. Inequality and the
negated forms of `IN` and `IS NULL` are negations, and `BETWEEN` is the conjunction of two
comparisons. As in filters, a group without predicates imposes no condition and is left out wherever
it stands, which is how it is rendered.
-/

namespace FilterQuery.Sql

/-- A predicate without parts; `bare` is any other expression in its place. -/
inductive Test where
  | equals (left right : Expr)
  | lt (left right : Expr)
  | le (left right : Expr)
  | gt (left right : Expr)
  | ge (left right : Expr)
  | oneOf (subject : Expr) (items : List Expr)
  | like (subject pattern : Expr)
  | null (subject : Expr)
  | bare (e : Expr)

def Combinator.join : Combinator → List Bool → Option Bool
  | .and => allOf
  | .or => anyOf

section Reading

variable (ρ : Test → Bool)

def Comparison.holds (left right : Expr) : Comparison → Bool
  | .eq => ρ (.equals left right)
  | .ne => !ρ (.equals left right)
  | .lt => ρ (.lt left right)
  | .le => ρ (.le left right)
  | .gt => ρ (.gt left right)
  | .ge => ρ (.ge left right)

namespace Expr

mutual

/-- The truth of a predicate, or nothing for a group that imposes no condition. -/
def verdict : Expr → Option Bool
  | .compare left comparison right => some (comparison.holds ρ left right)
  | .inList subject items negated => some (negated ^^ ρ (.oneOf subject items))
  | .like subject pattern => some (ρ (.like subject pattern))
  | .between subject low high => some (ρ (.ge subject low) && ρ (.le subject high))
  | .isNull subject negated => some (negated ^^ ρ (.null subject))
  | .nested combinator predicates => combinator.join (verdicts predicates)
  | .column ident => some (ρ (.bare (.column ident)))
  | .star => some (ρ (.bare .star))
  | .value v => some (ρ (.bare (.value v)))

def verdicts : List Expr → List Bool
  | [] => []
  | e :: es => (verdict e).toList ++ verdicts es

end

end Expr

namespace Group

/-- The verdicts on those predicates of a group that impose a condition. -/
def verdicts (g : Group) : List Bool :=
  Expr.verdicts ρ g.predicates

def holds (g : Group) : Bool :=
  (g.combinator.join (g.verdicts ρ)).getD true

end Group

end Reading

variable (ρ : Test → Bool)

theorem Expr.verdicts_append (es fs : List Expr) :
    verdicts ρ (es ++ fs) = verdicts ρ es ++ verdicts ρ fs := by
  induction es with
  | nil => rfl
  | cons e es ih => rw [List.cons_append, verdicts, ih, verdicts, List.append_assoc]

namespace Group

/-- A conjunction is read through the verdicts alone, whether or not there are any. -/
theorem holds_of_and {g : Group} (h : g.combinator = .and) :
    g.holds ρ = (g.verdicts ρ).all id := by
  rw [holds, h, Combinator.join, allOf_getD]

theorem holds_of_or {g : Group} (h : g.combinator = .or) :
    g.holds ρ = ((g.verdicts ρ).isEmpty || (g.verdicts ρ).any id) := by
  rw [holds, h, Combinator.join, anyOf_getD]

theorem holds_of_isEmpty {g : Group} (h : g.isEmpty) : g.holds ρ = true := by
  obtain ⟨combinator, predicates⟩ := g
  obtain rfl : predicates = [] := by simpa [isEmpty] using h
  cases combinator <;> rfl

theorem verdicts_extend (g other : Group) :
    (g.extend other).verdicts ρ = g.verdicts ρ ++ other.verdicts ρ :=
  Expr.verdicts_append ρ g.predicates other.predicates

theorem all_verdicts_nest (g inner : Group) :
    ((g.nest inner).verdicts ρ).all id = ((g.verdicts ρ).all id && inner.holds ρ) := by
  have hnest : (g.nest inner).verdicts ρ = g.verdicts ρ ++ Expr.verdicts ρ [inner.toExpr] :=
    Expr.verdicts_append ρ g.predicates [inner.toExpr]
  rw [hnest, List.all_append, Expr.verdicts, Expr.verdicts, List.append_nil, all_toList]
  rfl

theorem holds_of_all {g : Group} (h : (g.verdicts ρ).all id = true) : g.holds ρ = true := by
  cases hg : g.combinator with
  | and => rw [holds_of_and ρ hg, h]
  | or =>
    rw [holds_of_or ρ hg]
    cases hv : g.verdicts ρ with
    | nil => rfl
    | cons verdict verdicts =>
      rw [hv, List.all_cons, Bool.and_eq_true] at h
      rw [List.any_cons, h.1, Bool.true_or, Bool.or_true]

end Group

end FilterQuery.Sql
