import FilterQuery.Sql.Piece
import FilterQuery.Sql.Select

/-!
# Layout of SQL

The pieces that expressions, groups and statements are written with. A group does not show the
nested groups without predicates, and a statement leaves out the clauses that it does not need. Only
the paging of a statement depends on the dialect.
-/

namespace FilterQuery.Sql

/-- Pieces of several parts with a separator between the parts. -/
def separated (separator : String) (parts : List (List Piece)) : List Piece :=
  [.text separator].intercalate parts

def Ident.pieces (i : Ident) : List Piece :=
  separated "." (i.parts.map fun part => [.name part])

def Comparison.symbol : Comparison → String
  | .eq => " = "
  | .ne => " != "
  | .lt => " < "
  | .le => " <= "
  | .gt => " > "
  | .ge => " >= "

def Combinator.separator : Combinator → String
  | .and => " AND "
  | .or => " OR "

namespace Expr

mutual

def pieces : Expr → List Piece
  | .column ident => ident.pieces
  | .star => [.text "*"]
  | .value v => [.value v]
  | .compare left comparison right => pieces left ++ .text comparison.symbol :: pieces right
  | .inList subject items negated =>
    pieces subject ++ .text (if negated then " NOT IN (" else " IN (") ::
      separated ", " (eachPieces items) ++ [.text ")"]
  | .like subject pattern => pieces subject ++ .text " LIKE " :: pieces pattern
  | .between subject low high =>
    pieces subject ++ .text " BETWEEN " :: pieces low ++ .text " AND " :: pieces high
  | .isNull subject negated =>
    pieces subject ++ [.text (if negated then " IS NOT NULL" else " IS NULL")]
  | .nested combinator predicates =>
    .text "(" :: separated combinator.separator (shownPieces predicates) ++ [.text ")"]

def eachPieces : List Expr → List (List Piece)
  | [] => []
  | e :: es => pieces e :: eachPieces es

/-- The predicates of a group that are shown. -/
def shownPieces : List Expr → List (List Piece)
  | [] => []
  | e :: es => if e.isEmptyGroup then shownPieces es else pieces e :: shownPieces es

end

theorem eachPieces_eq_map (es : List Expr) : eachPieces es = es.map pieces := by
  induction es with
  | nil => rfl
  | cons e es ih => rw [eachPieces, ih, List.map_cons]

theorem shownPieces_eq_map (es : List Expr) :
    shownPieces es = (es.filter (!·.isEmptyGroup)).map pieces := by
  induction es with
  | nil => rfl
  | cons e es ih =>
    rw [shownPieces, ih]
    cases h : e.isEmptyGroup <;> simp [h]

end Expr

/-- The predicates of a group, without parentheses. -/
def Group.pieces (g : Group) : List Piece :=
  separated g.combinator.separator (Expr.shownPieces g.predicates)

def Table.pieces (t : Table) : List Piece :=
  separated "." ((t.schema.toList ++ [t.name]).map fun part => [.name part])

def Order.text : Order → String
  | .asc => " ASC"
  | .desc => " DESC"

def SortExpr.pieces (key : SortExpr) : List Piece :=
  key.expr.pieces ++ [.text key.order.text]

namespace Select

def tablePieces : Option Table → List Piece
  | some table => .text " FROM " :: table.pieces
  | none => []

def conditionPieces (conditions : Group) : List Piece :=
  if conditions.isEmpty then [] else .text " WHERE " :: conditions.pieces

def orderPieces : List SortExpr → List Piece
  | [] => []
  | keys => .text " ORDER BY " :: separated ", " (keys.map SortExpr.pieces)

def countPiece (n : Count) : Piece :=
  .value (.ofNat n.toNat)

def limitPieces (d : Dialect) : Option Count → Option Count → List Piece
  | some limit, _ => [.text " LIMIT ", countPiece limit]
  | none, some _ => (d.allRows?.map fun rows => Piece.text (" LIMIT " ++ rows)).toList
  | none, none => []

def offsetPieces : Option Count → List Piece
  | some offset => [.text " OFFSET ", countPiece offset]
  | none => []

def pieces (d : Dialect) (s : Select) : List Piece :=
  .text "SELECT " :: separated ", " (s.columns.map Expr.pieces) ++ tablePieces s.table ++
    conditionPieces s.conditions ++ orderPieces s.orderBy ++ limitPieces d s.limit s.offset ++
    offsetPieces s.offset

end Select

end FilterQuery.Sql
