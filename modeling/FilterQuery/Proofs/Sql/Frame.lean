import FilterQuery.Proofs.Sql.Writing

/-!
# The text around the values

A frame is a text with gaps. What is laid out for a statement, an expression or a group has one gap
for each value, and the frame is the same when all values are erased. Filled with placeholders it is
the bound text, and filled with literals it is the inline text.
-/

namespace FilterQuery.Sql

open Json (Value)

/-- A text with gaps: the part before the first gap, and the parts that follow each gap. -/
structure Frame where
  first : List Char
  others : List (List Char)

namespace Frame

def fill (f : Frame) (fillers : List (List Char)) : List Char :=
  f.first ++ (List.zipWith (· ++ ·) fillers f.others).flatten

/-- The frame with more text in front. -/
def after (s : List Char) (f : Frame) : Frame :=
  { f with first := s ++ f.first }

/-- The frame with a gap in front. -/
def afterGap (f : Frame) : Frame :=
  ⟨[], f.first :: f.others⟩

theorem fill_after (s : List Char) (f : Frame) (fillers : List (List Char)) :
    (f.after s).fill fillers = s ++ f.fill fillers := by
  simp [fill, after]

theorem fill_afterGap (f : Frame) (filler : List Char) (fillers : List (List Char)) :
    f.afterGap.fill (filler :: fillers) = filler ++ f.fill fillers := by
  simp [fill, afterGap]

end Frame

namespace Piece

def frame (d : Dialect) : List Piece → Frame
  | [] => ⟨[], []⟩
  | .text s :: pieces => (frame d pieces).after s.toList
  | .name s :: pieces => (frame d pieces).after (d.quoteName s.toList)
  | .value _ :: pieces => (frame d pieces).afterGap

theorem length_others_frame (d : Dialect) (pieces : List Piece) :
    (frame d pieces).others.length = (values pieces).length := by
  induction pieces with
  | nil => rfl
  | cons piece pieces ih => cases piece <;> simp [frame, values, Frame.after, Frame.afterGap, ih]

/-- However the values are written, the text is the frame with what is written in its gaps. -/
theorem chars_eq_fill (d : Dialect) (write : Nat → Value → List Char) (index : Nat)
    (pieces : List Piece) :
    chars d write index pieces =
      (frame d pieces).fill ((values pieces).mapIdx fun i v => write (index + i) v) := by
  induction pieces generalizing index with
  | nil => rfl
  | cons piece pieces ih =>
    cases piece with
    | text s => rw [chars, frame, values_text, Frame.fill_after, ih]
    | name s => rw [chars, frame, values_name, Frame.fill_after, ih]
    | value v =>
      have hnext : (fun i v => write (index + 1 + i) v) = fun i v => write (index + (i + 1)) v := by
        funext i v
        congr 1
        omega
      rw [chars, frame, values_value, List.mapIdx_cons, Frame.fill_afterGap, ih, hnext,
        Nat.add_zero]

theorem boundChars_eq_fill (d : Dialect) (pieces : List Piece) :
    boundChars d 0 pieces =
      (frame d pieces).fill ((List.range (values pieces).length).map d.placeholder) := by
  have hfillers : (values pieces).mapIdx (fun i _ => d.placeholder (0 + i)) =
      (List.range (values pieces).length).map d.placeholder := by
    apply List.ext_getElem <;> simp
  rw [boundChars_eq_chars, chars_eq_fill, hfillers]

theorem inlineChars_eq_fill (d : Dialect) (pieces : List Piece) :
    inlineChars d pieces = (frame d pieces).fill ((values pieces).map d.literal) := by
  have hfillers : (values pieces).mapIdx (fun _ v => d.literal v) =
      (values pieces).map d.literal := by
    apply List.ext_getElem <;> simp
  rw [inlineChars_eq_chars d 0, chars_eq_fill, hfillers]

def erase : Piece → Piece
  | .value _ => .value .null
  | piece => piece

@[simp] theorem erase_erase (piece : Piece) : piece.erase.erase = piece.erase := by
  cases piece <;> rfl

theorem map_erase_map_erase (pieces : List Piece) :
    (pieces.map erase).map erase = pieces.map erase := by
  simp

theorem frame_map_erase (d : Dialect) (pieces : List Piece) :
    frame d (pieces.map erase) = frame d pieces := by
  induction pieces with
  | nil => rfl
  | cons piece pieces ih => cases piece <;> simp only [List.map_cons, erase, frame, ih]

theorem map_erase_separated (separator : String) (parts : List (List Piece)) :
    (separated separator parts).map erase = separated separator (parts.map (List.map erase)) := by
  unfold separated
  induction parts with
  | nil => rfl
  | cons part parts ih =>
    cases parts with
    | nil => simp
    | cons next parts =>
      rw [List.intercalate_cons_cons, List.map_append, ih]
      simp [List.intercalate_cons_cons, erase]

end Piece

theorem Ident.map_erase_pieces (i : Ident) : i.pieces.map Piece.erase = i.pieces := by
  rw [pieces, Piece.map_erase_separated, List.map_map]
  rfl

namespace Expr

mutual

/-- The expression with `NULL` in place of each value. -/
def erase : Expr → Expr
  | .column ident => .column ident
  | .star => .star
  | .value _ => .value .null
  | .compare left comparison right => .compare (erase left) comparison (erase right)
  | .inList subject items negated => .inList (erase subject) (eraseEach items) negated
  | .like subject pattern => .like (erase subject) (erase pattern)
  | .between subject low high => .between (erase subject) (erase low) (erase high)
  | .isNull subject negated => .isNull (erase subject) negated
  | .nested combinator predicates => .nested combinator (eraseEach predicates)

def eraseEach : List Expr → List Expr
  | [] => []
  | e :: es => erase e :: eraseEach es

end

theorem eraseEach_eq_map (es : List Expr) : eraseEach es = es.map erase := by
  induction es with
  | nil => rfl
  | cons e es ih => rw [eraseEach, ih, List.map_cons]

theorem isEmptyGroup_erase (e : Expr) : e.erase.isEmptyGroup = e.isEmptyGroup := by
  cases e with
  | nested combinator predicates => cases predicates <;> simp [erase, eraseEach, isEmptyGroup]
  | _ => rfl

theorem filter_map_erase (es : List Expr) :
    (es.map erase).filter (!·.isEmptyGroup) = (es.filter (!·.isEmptyGroup)).map erase := by
  rw [List.filter_map]
  congr 1
  exact List.filter_congr fun e _ => by simp [isEmptyGroup_erase]

/-- What is laid out for several expressions, if each is laid out with its values erased. -/
theorem map_pieces_erase {es : List Expr}
    (h : ∀ e ∈ es, e.erase.pieces = e.pieces.map Piece.erase) :
    (es.map erase).map pieces = (es.map pieces).map (List.map Piece.erase) := by
  rw [List.map_map, List.map_map]
  exact List.map_congr_left h

theorem shownPieces_erase {es : List Expr}
    (h : ∀ e ∈ es, e.erase.pieces = e.pieces.map Piece.erase) :
    shownPieces (es.map erase) = (shownPieces es).map (List.map Piece.erase) := by
  rw [shownPieces_eq_map, shownPieces_eq_map, filter_map_erase]
  exact map_pieces_erase fun e he => h e (List.mem_filter.mp he).1

theorem pieces_erase (e : Expr) : e.erase.pieces = e.pieces.map Piece.erase := by
  induction e with
  | column ident => exact ident.map_erase_pieces.symm
  | star => rfl
  | value v => rfl
  | compare left comparison right hleft hright => simp [erase, pieces, hleft, hright, Piece.erase]
  | inList subject items negated hsubject hitems =>
    rw [erase, pieces, pieces, eraseEach_eq_map, eachPieces_eq_map, eachPieces_eq_map,
      map_pieces_erase hitems, hsubject]
    simp [Piece.erase, Piece.map_erase_separated]
  | like subject pattern hsubject hpattern => simp [erase, pieces, hsubject, hpattern, Piece.erase]
  | between subject low high hsubject hlow hhigh =>
    simp [erase, pieces, hsubject, hlow, hhigh, Piece.erase]
  | isNull subject negated hsubject => simp [erase, pieces, hsubject, Piece.erase]
  | nested combinator predicates hpredicates =>
    rw [erase, pieces, pieces, eraseEach_eq_map, shownPieces_erase hpredicates]
    simp [Piece.erase, Piece.map_erase_separated]

end Expr

def Group.erase (g : Group) : Group :=
  ⟨g.combinator, g.predicates.map Expr.erase⟩

def SortExpr.erase (key : SortExpr) : SortExpr :=
  ⟨key.expr.erase, key.order⟩

/-- The statement without its values; a limit and an offset stay as such, but not their numbers. -/
def Select.erase (s : Select) : Select where
  columns := s.columns.map Expr.erase
  table := s.table
  conditions := s.conditions.erase
  orderBy := s.orderBy.map SortExpr.erase
  limit := s.limit.map fun _ => 0
  offset := s.offset.map fun _ => 0

theorem Group.pieces_erase (g : Group) : g.erase.pieces = g.pieces.map Piece.erase := by
  rw [pieces, pieces, erase, Expr.shownPieces_erase fun e _ => e.pieces_erase,
    Piece.map_erase_separated]

theorem SortExpr.pieces_erase (key : SortExpr) : key.erase.pieces = key.pieces.map Piece.erase := by
  simp [pieces, erase, Expr.pieces_erase, Piece.erase]

namespace Select

theorem conditionPieces_erase (g : Group) :
    conditionPieces g.erase = (conditionPieces g).map Piece.erase := by
  have hempty : g.erase.isEmpty = g.isEmpty := by simp [Group.isEmpty, Group.erase]
  rw [conditionPieces, conditionPieces, hempty]
  by_cases h : g.isEmpty
  · simp [h]
  · simp [h, Group.pieces_erase, Piece.erase]

theorem orderPieces_erase (keys : List SortExpr) :
    orderPieces (keys.map SortExpr.erase) = (orderPieces keys).map Piece.erase := by
  cases keys with
  | nil => rfl
  | cons key keys =>
    have hkeys : ((key :: keys).map SortExpr.erase).map SortExpr.pieces =
        ((key :: keys).map SortExpr.pieces).map (List.map Piece.erase) := by
      simp [SortExpr.pieces_erase]
    rw [List.map_cons, orderPieces, ← List.map_cons, hkeys, ← Piece.map_erase_separated,
      orderPieces]
    · rfl
    · nofun
    · nofun

theorem limitPieces_erase (d : Dialect) (limit offset : Option Count) :
    (limitPieces d (limit.map fun _ => 0) (offset.map fun _ => 0)).map Piece.erase =
      (limitPieces d limit offset).map Piece.erase := by
  cases limit <;> cases offset <;> rfl

theorem offsetPieces_erase (offset : Option Count) :
    (offsetPieces (offset.map fun _ => 0)).map Piece.erase =
      (offsetPieces offset).map Piece.erase := by
  cases offset <;> rfl

/-- Erasing the values of a statement leaves what is laid out around them. -/
theorem map_erase_pieces (d : Dialect) (s : Select) :
    (s.erase.pieces d).map Piece.erase = (s.pieces d).map Piece.erase := by
  have hcolumns : (s.columns.map Expr.erase).map Expr.pieces =
      (s.columns.map Expr.pieces).map (List.map Piece.erase) :=
    Expr.map_pieces_erase fun e _ => e.pieces_erase
  simp only [pieces, erase, hcolumns, ← Piece.map_erase_separated, conditionPieces_erase,
    orderPieces_erase, List.map_append, List.map_cons, limitPieces_erase, offsetPieces_erase,
    Piece.map_erase_map_erase]

end Select

/-! ## Pieces that differ by their values -/

section ErasedPieces

variable (d : Dialect) {pieces erased : List Piece}
  (h : erased.map Piece.erase = pieces.map Piece.erase)
include h

theorem Piece.frame_eq_of_map_erase_eq : frame d erased = frame d pieces := by
  rw [← frame_map_erase, h, frame_map_erase]

/-- The bound text is made of the frame and the number of values. -/
theorem sql_eq_of_map_erase_eq : (bound d erased).sql = (bound d pieces).sql := by
  have hframe := Piece.frame_eq_of_map_erase_eq d h
  have hlength : (Piece.values erased).length = (Piece.values pieces).length := by
    rw [← Piece.length_others_frame d, ← Piece.length_others_frame d, hframe]
  rw [bound, bound, Piece.boundChars_eq_fill, Piece.boundChars_eq_fill, hframe, hlength]

end ErasedPieces

end FilterQuery.Sql
