import FilterQuery.Binary64

/-!
# The fewest digits that round back

The numbers that round to a magnitude fill the interval between the midpoints to its two
neighbours; the ends belong to it exactly when the rank is even. Among the decimals in the interval
those on the coarsest grid of powers of ten are the shortest, and of these the nearest to the
magnitude is chosen, the even one of two that are equally near.

All comparisons are made on natural numbers, in units of 2^-1075 * 10^-340. Every grid that is tried
consists of whole numbers of these units.
-/

namespace FilterQuery.Binary64

/-- A positive decimal by its digits and the exponent of the first one. -/
structure Decimal where
  digits : List Char
  exponent : Int
deriving DecidableEq

/-- Whether a point of the fine scale lies among the numbers that round to rank `r`. -/
def readsBack (r : Nat) (point : Nat) : Bool :=
  let low := (units (r - 1) + units r) * Nat.pow 10 340
  let high := (units r + units (r + 1)) * Nat.pow 10 340
  if r % 2 = 0 then low ≤ point && point ≤ high else low < point && point < high

/-- On the grid of spacing 10^p, counted from 10^-340: the multiple of the spacing that reads back
and is nearest to the magnitude. The two multiples around the magnitude are the only candidates. -/
def onGrid? (r p : Nat) : Option Nat :=
  let magnitude := 2 * units r * Nat.pow 10 340
  let spacing := Nat.pow 2 1075 * Nat.pow 10 p
  let below := magnitude / spacing
  let above := below + 1
  match readsBack r (below * spacing), readsBack r (above * spacing) with
  | true, true =>
    match compare (2 * magnitude) ((below + above) * spacing) with
    | .lt => some below
    | .gt => some above
    | .eq => some (below + below % 2)
  | true, false => some below
  | false, true => some above
  | false, false => none

/-- A multiple of 10^(p - 340) without its trailing zeros. -/
def Decimal.ofMultiple (multiple p : Nat) : Decimal :=
  let digits := Nat.toDigits 10 multiple
  ⟨(digits.reverse.dropWhile (· = '0')).reverse, digits.length + p - 341⟩

/-- The shortest decimal for the magnitude of a positive rank. Seventeen digits always suffice;
should none of the grids have a point, the exact value would be written. -/
def shortest (r : Nat) : Decimal :=
  let size := (Nat.toDigits 10 (2 * units r * Nat.pow 10 340 / Nat.pow 2 1075)).length
  let grids := (List.range 17).map fun n => size - 1 - n
  match grids.findSome? fun p => (onGrid? r p).map (Decimal.ofMultiple · p) with
  | some decimal => decimal
  | none =>
    let digits := Nat.toDigits 10 (units r * Nat.pow 5 1074)
    ⟨digits, digits.length - 1075⟩

end FilterQuery.Binary64
