import FilterQuery.Sql.Layout

/-!
# Writing the values

Bound and inline text differ in nothing but what is written where a value stands. `Piece.chars`
takes that as a parameter, which may depend on the number of values before. Both texts are instances
of it, and a fact about `Piece.chars` is one about both.
-/

namespace FilterQuery.Sql

open Json (Value)

namespace Piece

variable (d : Dialect) (write : Nat → Value → List Char)

/-- The text where `write` says how the value with `index` values before it is written. -/
def chars : Nat → List Piece → List Char
  | _, [] => []
  | index, .text s :: pieces => s.toList ++ chars index pieces
  | index, .name s :: pieces => d.quoteName s.toList ++ chars index pieces
  | index, .value v :: pieces => write index v ++ chars (index + 1) pieces

theorem boundChars_eq_chars (index : Nat) (pieces : List Piece) :
    boundChars d index pieces = chars d (fun i _ => d.placeholder i) index pieces := by
  induction pieces generalizing index with
  | nil => rfl
  | cons piece pieces ih => cases piece <;> simp only [boundChars, chars, ih]

theorem inlineChars_eq_chars (index : Nat) (pieces : List Piece) :
    inlineChars d pieces = chars d (fun _ v => d.literal v) index pieces := by
  induction pieces generalizing index with
  | nil => rfl
  | cons piece pieces ih =>
    cases piece with
    | text s => rw [inlineChars, chars, ih index]
    | name s => rw [inlineChars, chars, ih index]
    | value v => rw [inlineChars, chars, ih (index + 1)]

@[simp] theorem values_text (s : String) (pieces : List Piece) :
    values (.text s :: pieces) = values pieces := rfl

@[simp] theorem values_name (s : String) (pieces : List Piece) :
    values (.name s :: pieces) = values pieces := rfl

@[simp] theorem values_value (v : Value) (pieces : List Piece) :
    values (.value v :: pieces) = v :: values pieces := rfl

@[simp] theorem values_append (pieces others : List Piece) :
    values (pieces ++ others) = values pieces ++ values others := by
  induction pieces with
  | nil => rfl
  | cons piece pieces ih => cases piece <;> simp [ih]

/-- The values of a later part are counted from where an earlier part ends. -/
theorem chars_append (index : Nat) (pieces others : List Piece) :
    chars d write index (pieces ++ others) =
      chars d write index pieces ++ chars d write (index + (values pieces).length) others := by
  induction pieces generalizing index with
  | nil => rfl
  | cons piece pieces ih =>
    cases piece with
    | text s => simp [chars, ih]
    | name s => simp [chars, ih]
    | value v =>
      have hnext : index + 1 + (values pieces).length = index + ((values pieces).length + 1) := by
        omega
      simp [chars, ih, hnext]

end Piece

end FilterQuery.Sql
