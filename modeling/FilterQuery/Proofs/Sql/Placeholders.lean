import Mathlib.Data.List.Nodup
import FilterQuery.Proofs.Sql.Frame
import FilterQuery.Proofs.Sql.Rendering

/-!
# Placeholders in the gaps

The bound text of a statement, an expression or a group has a placeholder in each gap of its frame.
In one dialect these are numbered from one in the order of the values, so that none occurs twice,
and in the others they are all alike. Reading the bound text finds the same placeholders and no
others, also where a name contains what looks like one.
-/

namespace FilterQuery.Sql

open Json (Value)

namespace Dialect

/-- What stands for `n` values, from the first to the last. -/
def placeholders (n : Nat) : Dialect → List (List Char)
  | .postgres => (List.range' 1 n).map fun position => '$' :: Nat.toDigits 10 position
  | .mysql | .ansi => List.replicate n ['?']

def placeholderTokens (n : Nat) : Dialect → List Token
  | .postgres => (List.range' 1 n).map fun position => .placeholder (some position)
  | .mysql | .ansi => List.replicate n (.placeholder none)

theorem map_succ_range {α : Type} (numbered : Nat → α) (n : Nat) :
    (List.range n).map (fun index => numbered (index + 1)) = (List.range' 1 n).map numbered := by
  rw [List.range'_eq_map_range, List.map_map]
  exact List.map_congr_left fun index _ => by simp [Nat.add_comm 1]

theorem map_placeholder_range (d : Dialect) (n : Nat) :
    (List.range n).map d.placeholder = d.placeholders n := by
  cases d with
  | postgres => exact map_succ_range (fun position => '$' :: Nat.toDigits 10 position) n
  | mysql | ansi => exact List.eq_replicate_iff.mpr ⟨by simp, by simp [placeholder]⟩

theorem map_placeholderToken_range (d : Dialect) (n : Nat) :
    (List.range n).map d.placeholderToken = d.placeholderTokens n := by
  cases d with
  | postgres => exact map_succ_range (fun position => Token.placeholder (some position)) n
  | mysql | ansi => exact List.eq_replicate_iff.mpr ⟨by simp, by simp [placeholderToken]⟩

/-- A number is read back from its digits, so different numbers are written differently. -/
theorem nodup_placeholders (n : Nat) : (Dialect.postgres.placeholders n).Nodup := by
  refine List.Nodup.map (fun i j h => ?_) List.nodup_range'
  have hdigits : Nat.toDigits 10 i = Nat.toDigits 10 j := List.cons_injective h
  rw [← Nat.ofDigitChars_ten_toDigits (n := i), hdigits, Nat.ofDigitChars_ten_toDigits]

end Dialect

/-- The two texts of some pieces are one frame, which is that of the pieces with erased values. What
fills the gaps of the bound text is all that is read as placeholders in it. -/
structure SharesFrame (d : Dialect) (pieces erased : List Piece) : Prop where
  length_params : (bound d pieces).params.length = (Piece.frame d erased).others.length
  sql_bound : (bound d pieces).sql = String.ofList ((Piece.frame d erased).fill
    ((List.range (bound d pieces).params.length).map d.placeholder))
  placeholders_eq : (List.range (bound d pieces).params.length).map d.placeholder =
    d.placeholders (bound d pieces).params.length
  placeholders_read : (lex d (bound d pieces).sql.toList).map (List.filter Token.isPlaceholder) =
    some (d.placeholderTokens (bound d pieces).params.length)
  inline_eq : inline d pieces = String.ofList ((Piece.frame d erased).fill
    ((bound d pieces).params.map d.literal))
  sql_erased : (bound d pieces).sql = (bound d erased).sql

theorem SharesFrame.of_spelled {d : Dialect} {pieces erased : List Piece}
    (herased : erased.map Piece.erase = pieces.map Piece.erase) {items : List (Item Value)}
    (hspelled : Spelled d pieces items) (hfixed : AllTokens Token.IsFixed items) :
    SharesFrame d pieces erased := by
  have hframe := Piece.frame_eq_of_map_erase_eq d herased
  have hlength : (Item.values items).length = (bound d pieces).params.length :=
    congrArg List.length hspelled.values_eq.symm
  constructor
  · rw [hframe, Piece.length_others_frame]
    rfl
  · rw [hframe, bound, Piece.boundChars_eq_fill]
  · exact d.map_placeholder_range _
  · rw [hspelled.lex_bound, Option.map_some, Item.filter_isPlaceholder_tokens d hfixed, hlength,
      ← List.range_eq_range', d.map_placeholderToken_range]
  · rw [hframe, inline, Piece.inlineChars_eq_fill]
    rfl
  · exact (sql_eq_of_map_erase_eq d herased).symm

/-- For statements, expressions and groups alike: the values fill the gaps of a text that does not
depend on them, in their order, as placeholders or as literals. Numbered placeholders differ. -/
theorem sharesFrame_erase (d : Dialect) :
    (∀ s : Select, SharesFrame d (s.pieces d) (s.erase.pieces d)) ∧
      (∀ e : Expr, SharesFrame d e.pieces e.erase.pieces) ∧
      (∀ g : Group, SharesFrame d g.pieces g.erase.pieces) ∧
      ∀ n, (Dialect.postgres.placeholders n).Nodup := by
  have hfixed : ∀ t : Token, t.IsPlain → t.IsFixed := fun _ => Token.IsPlain.isFixed
  refine ⟨fun s => ?_, fun e => ?_, fun g => ?_, Dialect.nodup_placeholders⟩
  · exact .of_spelled (s.map_erase_pieces d) s.spelled (s.allFixed_items d)
  · have herased : e.erase.pieces.map Piece.erase = e.pieces.map Piece.erase := by
      rw [e.pieces_erase, Piece.map_erase_map_erase]
    exact .of_spelled herased e.spelled (e.allTokens_items.mono hfixed)
  · have herased : g.erase.pieces.map Piece.erase = g.pieces.map Piece.erase := by
      rw [g.pieces_erase, Piece.map_erase_map_erase]
    exact .of_spelled herased g.spelled (g.allTokens_items.mono hfixed)

end FilterQuery.Sql
