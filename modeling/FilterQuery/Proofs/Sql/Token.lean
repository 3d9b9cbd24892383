import FilterQuery.Proofs.Text.Numeral
import FilterQuery.Proofs.Text.Quoted
import FilterQuery.Sql.Dialect

/-!
# Tokens of SQL

The lexical rules by which a dialect reads a text. A quoted name ends at the first mark that is not
doubled, a quoted text as the dialect says; outside of both stand words, numerals, placeholders and
symbols. A text with anything else, such as a comment or the marks of another dialect, is refused.
-/

namespace FilterQuery.Sql

open Text

inductive Token where
  | word (s : String)
  | symbol (s : String)
  | name (s : String)
  | text (s : String)
  | number (s : String)
  | placeholder (position : Option Nat)
deriving DecidableEq

def isWordChar (c : Char) : Bool :=
  c.isAlphanum || c = '_'

/-- A word does not begin with a digit. -/
def isWordStart (c : Char) : Bool :=
  isWordChar c && !c.isDigit

/-- The symbols, each before those that it begins with. -/
def symbols : List String :=
  ["!=", "<=", "<>", ">=", "=", "<", ">", "(", ")", ",", ".", "*"]

def readSymbol? (s : List Char) : Option (Token × List Char) :=
  (symbols.find? fun symbol => symbol.toList.isPrefixOf s).map fun symbol =>
    (.symbol symbol, s.drop symbol.toList.length)

namespace Dialect

/-- A text up to the mark that ends it. -/
def readText? (d : Dialect) (s : List Char) : Option (List Char × List Char) :=
  match d with
  | .mysql => readBackslashed '\'' s
  | _ => readDoubled '\'' s

/-- A placeholder has a position in one dialect, and stands for the next value in the others. -/
def readPlaceholder? (d : Dialect) : List Char → Option (Token × List Char)
  | [] => none
  | c :: rest =>
    match d with
    | .postgres =>
      let digits := rest.takeWhile Char.isDigit
      if c = '$' ∧ digits ≠ [] then
        some (.placeholder (some (Nat.ofDigitChars 10 digits 0)), rest.dropWhile Char.isDigit)
      else none
    | _ => if c = '?' then some (.placeholder none, rest) else none

end Dialect

/-- The token at the start of a text, and what follows. A minus belongs to the number behind it. -/
def Token.read? (d : Dialect) : List Char → Option (Token × List Char)
  | [] => none
  | c :: rest =>
    if c = d.nameMark then
      (readDoubled c rest).map fun (content, after) => (.name (String.ofList content), after)
    else if c = '\'' then
      (d.readText? rest).map fun (content, after) => (.text (String.ofList content), after)
    else if isWordStart c then
      some (.word (String.ofList (c :: rest.takeWhile isWordChar)), rest.dropWhile isWordChar)
    else if c.isDigit then
      let (numeral, after) := readNumeral (c :: rest)
      some (.number (String.ofList numeral), after)
    else if c = '-' ∧ rest.head?.any Char.isDigit then
      let (numeral, after) := readNumeral rest
      some (.number (String.ofList (c :: numeral)), after)
    else (d.readPlaceholder? (c :: rest)).or (readSymbol? (c :: rest))

theorem Dialect.length_of_readText? {d : Dialect} {s text after : List Char}
    (h : d.readText? s = some (text, after)) : after.length < s.length := by
  cases d with
  | mysql => exact length_of_readBackslashed h
  | postgres | ansi => exact length_of_readDoubled h

theorem Dialect.length_of_readPlaceholder? {d : Dialect} {s after : List Char} {t : Token}
    (h : d.readPlaceholder? s = some (t, after)) : after.length < s.length := by
  cases s with
  | nil => cases h
  | cons c rest =>
    have hdrop : (rest.dropWhile Char.isDigit).length ≤ rest.length :=
      (List.dropWhile_sublist _).length_le
    cases d with
    | postgres =>
      simp only [readPlaceholder?] at h
      split at h
      · cases h
        simp only [List.length_cons]
        omega
      · cases h
    | mysql | ansi =>
      simp only [readPlaceholder?] at h
      split at h
      · cases h
        simp
      · cases h

theorem symbols_ne_nil : ∀ symbol ∈ symbols, symbol.toList ≠ [] := by
  decide

theorem length_of_readSymbol? {s after : List Char} {t : Token}
    (h : readSymbol? s = some (t, after)) : after.length < s.length := by
  obtain ⟨symbol, hfound, heq⟩ := Option.map_eq_some_iff.mp h
  cases heq
  have hprefix := List.find?_some (p := fun symbol : String => symbol.toList.isPrefixOf s) hfound
  have hshort := (List.isPrefixOf_iff_prefix.mp hprefix).length_le
  have hpos := List.length_pos_iff.mpr (symbols_ne_nil symbol (List.mem_of_find?_eq_some hfound))
  rw [List.length_drop]
  omega

/-- Every token takes part of the text. -/
theorem Token.length_of_read? {d : Dialect} {s after : List Char} {t : Token}
    (h : read? d s = some (t, after)) : after.length < s.length := by
  cases s with
  | nil => cases h
  | cons c rest =>
    simp only [read?] at h
    split at h
    · obtain ⟨read, hread, heq⟩ := Option.map_eq_some_iff.mp h
      cases heq
      exact Nat.lt_succ_of_lt (length_of_readDoubled hread)
    split at h
    · obtain ⟨read, hread, heq⟩ := Option.map_eq_some_iff.mp h
      cases heq
      exact Nat.lt_succ_of_lt (Dialect.length_of_readText? hread)
    split at h
    · cases h
      exact Nat.lt_succ_of_le (List.dropWhile_sublist _).length_le
    split at h
    · next hdigit =>
      cases h
      exact length_readNumeral hdigit rest
    split at h
    · next hminus =>
      cases h
      cases rest with
      | nil => simp at hminus
      | cons digit rest =>
        have hlt := length_readNumeral (c := digit) (by simpa using hminus.2) rest
        exact Nat.lt_succ_of_lt hlt
    · rcases Option.or_eq_some_iff.mp h with h | ⟨-, h⟩
      · exact Dialect.length_of_readPlaceholder? h
      · exact length_of_readSymbol? h

/-- The tokens of a whole text. -/
def lex (d : Dialect) : List Char → Option (List Token)
  | [] => some []
  | c :: rest =>
    if c.isWhitespace then lex d rest
    else match _h : Token.read? d (c :: rest) with
      | some (t, after) => (lex d after).map (t :: ·)
      | none => none
termination_by s => s.length
decreasing_by
  · exact Nat.lt_succ_self _
  · exact Token.length_of_read? _h

theorem lex_nil (d : Dialect) : lex d [] = some [] := by
  rw [lex]

theorem lex_space (d : Dialect) (rest : List Char) : lex d (' ' :: rest) = lex d rest := by
  rw [lex]
  rfl

theorem lex_of_read? {d : Dialect} {c : Char} {rest after : List Char} {t : Token}
    (hspace : c.isWhitespace = false) (h : Token.read? d (c :: rest) = some (t, after)) :
    lex d (c :: rest) = (lex d after).map (t :: ·) := by
  rw [lex, hspace, if_neg Bool.false_ne_true]
  split
  · next heq =>
    rw [h] at heq
    cases heq
    rfl
  · next heq =>
    rw [h] at heq
    cases heq

end FilterQuery.Sql
