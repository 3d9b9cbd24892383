import FilterQuery.Binary64.Shortest

/-!
# How a binary64 number is written

With the fewest digits that round back. If the exponent of the first digit is at least -5 and at
most 15 the number is written positionally with at least one digit after the point; otherwise with
an exponent that always has a sign, and with a point only if there are several digits.
-/

namespace FilterQuery.Binary64

/-- Digits with the point after `whole` of them, filled up with zeros on the right. -/
def pointAfter (whole : Nat) (digits : List Char) : List Char :=
  let fraction := digits.drop whole
  digits.take whole ++ List.replicate (whole - digits.length) '0' ++
    '.' :: if fraction = [] then ['0'] else fraction

def Decimal.positional (d : Decimal) : List Char :=
  match d.exponent with
  | .ofNat e => pointAfter (e + 1) d.digits
  | .negSucc e => '0' :: '.' :: List.replicate e '0' ++ d.digits

def Decimal.scientific (d : Decimal) : List Char :=
  let mantissa := match d.digits with
    | [] => []
    | [digit] => [digit]
    | digit :: rest => digit :: '.' :: rest
  let sign := if d.exponent < 0 then '-' else '+'
  mantissa ++ 'e' :: sign :: Nat.toDigits 10 d.exponent.natAbs

def Decimal.chars (d : Decimal) : List Char :=
  if -5 ≤ d.exponent ∧ d.exponent ≤ 15 then d.positional else d.scientific

def magnitudeChars (r : Nat) : List Char :=
  if r = 0 then ['0', '.', '0'] else (shortest r).chars

def chars (x : Binary64) : List Char :=
  if x.negative then '-' :: magnitudeChars x.rank else magnitudeChars x.rank

end FilterQuery.Binary64
