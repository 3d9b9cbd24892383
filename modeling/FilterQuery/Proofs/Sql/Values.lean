import Mathlib.Data.List.Basic
import FilterQuery.Proofs.Sql.Writing

/-!
# The values of a statement

The values of an expression are read off its tree from left to right, and those of a group predicate
by predicate. What is laid out holds these values in this order: a nested group that is not shown
has none, and a limit or an offset is a value behind all others.
-/

namespace FilterQuery.Sql

open Json (Value)

namespace Piece

theorem values_separated (separator : String) (parts : List (List Piece)) :
    values (separated separator parts) = parts.flatMap values := by
  unfold separated
  induction parts with
  | nil => rfl
  | cons part parts ih =>
    cases parts with
    | nil => simp
    | cons next parts =>
      rw [List.intercalate_cons_cons, values_append, values_append, ih]
      simp [values]

theorem values_map_name (names : List String) :
    (names.map fun name => [Piece.name name]).flatMap values = [] := by
  simp [values]

end Piece

namespace Expr

mutual

def values : Expr → List Value
  | .column _ => []
  | .star => []
  | .value v => [v]
  | .compare left _ right => values left ++ values right
  | .inList subject items _ => values subject ++ eachValues items
  | .like subject pattern => values subject ++ values pattern
  | .between subject low high => values subject ++ values low ++ values high
  | .isNull subject _ => values subject
  | .nested _ predicates => eachValues predicates

def eachValues : List Expr → List Value
  | [] => []
  | e :: es => values e ++ eachValues es

end

theorem eachValues_eq_flatMap (es : List Expr) : eachValues es = es.flatMap values := by
  induction es with
  | nil => rfl
  | cons e es ih => rw [eachValues, ih, List.flatMap_cons]

theorem values_of_isEmptyGroup {e : Expr} (h : e.isEmptyGroup = true) : e.values = [] := by
  cases e with
  | nested combinator predicates =>
    cases predicates with
    | nil => rfl
    | cons predicate predicates => cases h
  | _ => cases h

/-- The groups that are not shown have no values. -/
theorem flatMap_values_filter (es : List Expr) :
    (es.filter (!·.isEmptyGroup)).flatMap values = es.flatMap values := by
  induction es with
  | nil => rfl
  | cons e es ih =>
    cases h : e.isEmptyGroup with
    | true => simp [h, ih, values_of_isEmptyGroup h]
    | false => simp [h, ih]

theorem flatMap_values_map_pieces {es : List Expr}
    (h : ∀ e ∈ es, Piece.values e.pieces = e.values) :
    (es.map pieces).flatMap Piece.values = es.flatMap values := by
  rw [List.flatMap_map]
  exact List.flatMap_congr h

theorem values_shownPieces {es : List Expr} (h : ∀ e ∈ es, Piece.values e.pieces = e.values) :
    (shownPieces es).flatMap Piece.values = es.flatMap values := by
  rw [shownPieces_eq_map, flatMap_values_map_pieces, flatMap_values_filter]
  exact fun e he => h e (List.mem_filter.mp he).1

theorem values_pieces (e : Expr) : Piece.values e.pieces = e.values := by
  induction e with
  | column ident => exact (Piece.values_separated _ _).trans (Piece.values_map_name ident.parts)
  | star => rfl
  | value v => rfl
  | compare left comparison right hleft hright => simp [pieces, values, hleft, hright]
  | inList subject items negated hsubject hitems =>
    rw [values, eachValues_eq_flatMap, ← flatMap_values_map_pieces hitems, pieces,
      eachPieces_eq_map]
    simp [hsubject, Piece.values_separated, Piece.values]
  | like subject pattern hsubject hpattern => simp [pieces, values, hsubject, hpattern]
  | between subject low high hsubject hlow hhigh =>
    simp [pieces, values, hsubject, hlow, hhigh]
  | isNull subject negated hsubject => simp [pieces, values, hsubject, Piece.values]
  | nested combinator predicates hpredicates =>
    rw [values, eachValues_eq_flatMap, ← values_shownPieces hpredicates, pieces]
    simp [Piece.values_separated, Piece.values]

end Expr

def Group.values (g : Group) : List Value :=
  g.predicates.flatMap Expr.values

theorem Group.values_pieces (g : Group) : Piece.values g.pieces = g.values := by
  rw [pieces, Piece.values_separated, Expr.values_shownPieces fun e _ => e.values_pieces, values]

theorem Group.values_of_isEmpty {g : Group} (h : g.isEmpty = true) : g.values = [] := by
  rw [values, List.isEmpty_iff.mp h, List.flatMap_nil]

def SortExpr.values (key : SortExpr) : List Value :=
  key.expr.values

theorem SortExpr.values_pieces (key : SortExpr) : Piece.values key.pieces = key.values := by
  simp [pieces, values, Expr.values_pieces, Piece.values]

namespace Select

/-- Merging keeps the values of both groups in order, also where one of them is wrapped. -/
theorem values_merge (conditions group : Group) :
    (merge conditions group).values = conditions.values ++ group.values := by
  unfold merge
  split
  · next hgroup => rw [Group.values_of_isEmpty hgroup, List.append_nil]
  · split
    · next hconditions => rw [Group.values_of_isEmpty hconditions, List.nil_append]
    · split
      · simp [Group.values, Group.extend]
      · simp [Group.values, Group.extend, Group.nest, Group.push, Group.empty, Group.toExpr,
          Expr.values, Expr.eachValues_eq_flatMap]

theorem values_tablePieces (table : Option Table) : Piece.values (tablePieces table) = [] := by
  cases table with
  | none => rfl
  | some table =>
    exact (Piece.values_separated _ _).trans
      (Piece.values_map_name (table.schema.toList ++ [table.name]))

theorem values_conditionPieces (conditions : Group) :
    Piece.values (conditionPieces conditions) = conditions.values := by
  unfold conditionPieces
  split
  · next h => rw [Group.values_of_isEmpty h, Piece.values]
  · rw [Piece.values_text, Group.values_pieces]

theorem values_orderPieces (keys : List SortExpr) :
    Piece.values (orderPieces keys) = keys.flatMap SortExpr.values := by
  cases keys with
  | nil => rfl
  | cons key keys =>
    have hvalues : (Piece.values ∘ SortExpr.pieces) = SortExpr.values :=
      funext SortExpr.values_pieces
    simp only [orderPieces, Piece.values_text, Piece.values_separated, List.flatMap_map]
    exact congrArg (List.flatMap · (key :: keys)) hvalues

/-- The value that stands for a number of rows. -/
def countValues (n : Option Count) : List Value :=
  (n.map fun n => Value.ofNat n.toNat).toList

theorem values_limitPieces (d : Dialect) (limit offset : Option Count) :
    Piece.values (limitPieces d limit offset) = countValues limit := by
  cases d <;> cases limit <;> cases offset <;> rfl

theorem values_offsetPieces (offset : Option Count) :
    Piece.values (offsetPieces offset) = countValues offset := by
  cases offset <;> rfl

/-- The values that are bound for a statement, clause by clause. -/
theorem params_pieces (d : Dialect) (s : Select) :
    (bound d (s.pieces d)).params =
      s.columns.flatMap Expr.values ++ s.conditions.values ++ s.orderBy.flatMap SortExpr.values ++
        countValues s.limit ++ countValues s.offset := by
  have hcolumns := Expr.flatMap_values_map_pieces fun e (_ : e ∈ s.columns) => e.values_pieces
  simp only [bound, pieces, List.cons_append, Piece.values_text, Piece.values_append,
    Piece.values_separated, hcolumns, values_tablePieces, values_conditionPieces,
    values_orderPieces, values_limitPieces, values_offsetPieces, List.append_nil]

end Select

end FilterQuery.Sql
