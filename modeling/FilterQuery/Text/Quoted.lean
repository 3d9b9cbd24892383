/-!
# Quoted text

A text between two quotation marks. Inside, each character is written as an escape function says,
which is how a mark that belongs to the text is told from the one that ends it.
-/

namespace FilterQuery.Text

/-- Quotation marks around `s`, each of its characters written by `escape`. -/
def quoted (mark : Char) (escape : Char → List Char) (s : List Char) : List Char :=
  mark :: s.flatMap escape ++ [mark]

/-- The escape that writes the mark itself twice. -/
def doubling (mark : Char) (c : Char) : List Char :=
  if c = mark then [mark, mark] else [c]

/-- The escape that writes a backslash before the mark and before a backslash. -/
def backslashing (mark : Char) (c : Char) : List Char :=
  if c = mark ∨ c = '\\' then ['\\', c] else [c]

end FilterQuery.Text
