import FilterQuery.Text.Quoted

/-!
# SQL dialects

How names and texts are quoted, how a bound value is marked, and what a statement with an offset
but no limit needs. All dialects double the mark inside a quoted name. Inside a text two of them
double it, and the third puts a backslash before marks and backslashes.
-/

namespace FilterQuery.Sql

inductive Dialect where
  | postgres
  | mysql
  | ansi
deriving DecidableEq

namespace Dialect

def nameMark : Dialect → Char
  | .mysql => '\x60'
  | _ => '"'

def quoteName (d : Dialect) (name : List Char) : List Char :=
  Text.quoted d.nameMark (Text.doubling d.nameMark) name

def quoteText (d : Dialect) (text : List Char) : List Char :=
  match d with
  | .mysql => Text.quoted '\'' (Text.backslashing '\'') text
  | _ => Text.quoted '\'' (Text.doubling '\'') text

/-- The mark of the bound value with `index` values before it. -/
def placeholder (d : Dialect) (index : Nat) : List Char :=
  match d with
  | .postgres => '$' :: Nat.toDigits 10 (index + 1)
  | _ => ['?']

/-- The limit that means all rows, where an offset must not stand alone. -/
def allRows? : Dialect → Option String
  | .mysql => some "18446744073709551615"
  | _ => none

end Dialect

end FilterQuery.Sql
