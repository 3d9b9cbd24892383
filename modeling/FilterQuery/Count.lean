import FilterQuery.Text.Blank

/-!
# Counts

A count is an unsigned 64-bit number. As text it is a run of ASCII digits, of any length, that may
follow a plus sign; its value must be below 2^64.
-/

namespace FilterQuery

abbrev Count := UInt64

namespace Count

/-- The count of value `n`, if there is one. -/
def ofNat? (n : Nat) : Option Count :=
  if h : n < UInt64.size then some (UInt64.ofNatLT n h) else none

def ofInt? : Int → Option Count
  | .ofNat n => ofNat? n
  | .negSucc _ => none

/-- The count with one more digit behind it. Neither step may leave the range. -/
def appendDigit? (n : Count) (digit : Char) : Option Count := do
  let scaled ← ofNat? (n.toNat * 10)
  ofNat? (scaled.toNat + (digit.toNat - '0'.toNat))

/-- Digits alone: at least one, nothing else. -/
def ofDigits? (s : List Char) : Option Count :=
  if s ≠ [] ∧ s.all Char.isDigit then s.foldlM appendDigit? 0 else none

/-- A numeral between optional white space, with an optional plus sign. -/
def ofText? (s : List Char) : Option Count :=
  match Text.trim s with
  | '+' :: digits => ofDigits? digits
  | digits => ofDigits? digits

end Count

end FilterQuery
