import FilterQuery.Binary64.Rounding
import FilterQuery.Json.Value

/-!
# JSON numerals

A numeral has digits before the point, perhaps digits after it, and perhaps an exponent. Written
without fraction and exponent it denotes an exact integer if that fits 64 bits, signed when there
is a minus and unsigned otherwise, except that `-0` denotes the binary64 zero with that sign. All
other numerals denote binary64 numbers, or nothing if they are too large. Of their digits only a
significand of 64 bits is used, so these are near the numerals but not always nearest to them.
-/

namespace FilterQuery.Json

/-- An absent fraction has no digits. -/
structure Numeral where
  negative : Bool
  whole : List Char
  fraction : List Char
  exponent : Option Int

namespace Numeral

/-- A run of at least one digit, and what follows it. -/
def digits? (s : List Char) : Option (List Char × List Char) :=
  let digits := s.takeWhile Char.isDigit
  if digits = [] then none else some (digits, s.dropWhile Char.isDigit)

/-- Digits without a superfluous leading zero. -/
def whole? (s : List Char) : Option (List Char × List Char) :=
  match digits? s with
  | some ('0' :: _ :: _, _) => none
  | result => result

def fraction? : List Char → Option (List Char × List Char)
  | '.' :: rest => digits? rest
  | rest => some ([], rest)

def signedDigits? : List Char → Option (Int × List Char)
  | '-' :: rest => (digits? rest).map fun (digits, after) => (-(Nat.ofDigitChars 10 digits 0), after)
  | '+' :: rest => (digits? rest).map fun (digits, after) => (Nat.ofDigitChars 10 digits 0, after)
  | rest => (digits? rest).map fun (digits, after) => (Nat.ofDigitChars 10 digits 0, after)

def exponent? : List Char → Option (Option Int × List Char)
  | 'e' :: rest => (signedDigits? rest).map fun (e, after) => (some e, after)
  | 'E' :: rest => (signedDigits? rest).map fun (e, after) => (some e, after)
  | rest => some (none, rest)

def unsigned? (negative : Bool) (s : List Char) : Option (Numeral × List Char) := do
  let (whole, s) ← whole? s
  let (fraction, s) ← fraction? s
  let (exponent, s) ← exponent? s
  return (⟨negative, whole, fraction, exponent⟩, s)

/-- The numeral at the start of a text, and what follows it. -/
def read? : List Char → Option (Numeral × List Char)
  | '-' :: rest => unsigned? true rest
  | rest => unsigned? false rest

def integer? (n : Numeral) : Option Int :=
  let magnitude := Nat.ofDigitChars 10 n.whole 0
  if n.fraction ≠ [] ∨ n.exponent.isSome then none
  else if n.negative then
    if 0 < magnitude ∧ magnitude ≤ Nat.pow 2 63 then some (-magnitude) else none
  else if magnitude < Nat.pow 2 64 then some magnitude else none

/-- The significand with more digits behind it, up to the first that would take it beyond 64 bits,
and the digits from that one on. -/
def extend (significand : Nat) : List Char → Nat × List Char
  | [] => (significand, [])
  | c :: digits =>
    let extended := Nat.ofDigitChars 10 [c] significand
    if extended < Nat.pow 2 64 then extend extended digits else (significand, c :: digits)

/-- Digits that are left out before the point count as zeros, and those behind it not at all. -/
def float? (n : Numeral) : Option Binary64 :=
  let whole := extend 0 n.whole
  let all := extend whole.1 n.fraction
  let kept := n.fraction.length - all.2.length
  Binary64.ofDecimal? n.negative all.1 (n.exponent.getD 0 + whole.2.length - kept)

def number? (n : Numeral) : Option Number :=
  match n.integer? with
  | some i => some (.int i)
  | none => n.float?.map .float

end Numeral

end FilterQuery.Json
