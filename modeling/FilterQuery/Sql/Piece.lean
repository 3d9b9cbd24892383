import FilterQuery.Json.Printer
import FilterQuery.Sql.Dialect

/-!
# Pieces of SQL text

SQL text is laid out as pieces: fixed text, names and values. A dialect quotes the names. The values
are either bound, which leaves a placeholder in the text and lists the values beside it, or written
into the text as literals.
-/

namespace FilterQuery.Sql

open Json (Value)

inductive Piece where
  | text (s : String)
  | name (s : String)
  | value (v : Value)

namespace Dialect

/-- A value as a literal; arrays and objects are written as the text of their JSON. -/
def literal (d : Dialect) : Value → List Char
  | .null => ['N', 'U', 'L', 'L']
  | .bool true => ['T', 'R', 'U', 'E']
  | .bool false => ['F', 'A', 'L', 'S', 'E']
  | .number n => n.chars
  | .string s => d.quoteText s.toList
  | v => d.quoteText v.chars

end Dialect

namespace Piece

def values : List Piece → List Value
  | [] => []
  | .value v :: pieces => v :: values pieces
  | _ :: pieces => values pieces

/-- The text with placeholders, where `index` values stand before it. -/
def boundChars (d : Dialect) : Nat → List Piece → List Char
  | _, [] => []
  | index, .text s :: pieces => s.toList ++ boundChars d index pieces
  | index, .name s :: pieces => d.quoteName s.toList ++ boundChars d index pieces
  | index, .value _ :: pieces => d.placeholder index ++ boundChars d (index + 1) pieces

def inlineChars (d : Dialect) : List Piece → List Char
  | [] => []
  | .text s :: pieces => s.toList ++ inlineChars d pieces
  | .name s :: pieces => d.quoteName s.toList ++ inlineChars d pieces
  | .value v :: pieces => d.literal v ++ inlineChars d pieces

end Piece

/-- A statement as it is handed to a database: text with placeholders, and the bound values. -/
structure Bound where
  sql : String
  params : List Value

def bound (d : Dialect) (pieces : List Piece) : Bound :=
  ⟨String.ofList (Piece.boundChars d 0 pieces), Piece.values pieces⟩

def inline (d : Dialect) (pieces : List Piece) : String :=
  String.ofList (Piece.inlineChars d pieces)

end FilterQuery.Sql
