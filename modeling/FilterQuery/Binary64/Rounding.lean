import FilterQuery.Binary64

/-!
# Computing a decimal in binary64

`nearestRank num den` is the rank of the magnitude nearest to `num / den`, the even rank of two
that are equally near. Products and quotients of magnitudes are the exact ones, rounded so.

A decimal `significand * 10^exponent` is not rounded once from its exact value. The significand
becomes a magnitude, a power of ten becomes another, and their product or quotient is rounded again,
so there are several roundings. A long decimal may thus get a neighbour of its nearest number, and
one just below the overflow may get none.
-/

namespace FilterQuery.Binary64

/-- `num / den` to the nearest natural number, a half to the even one. -/
def roundQuotient (num den : Nat) : Nat :=
  let quotient := num / den
  match compare (2 * (num % den)) den with
  | .lt => quotient
  | .gt => quotient + 1
  | .eq => quotient + quotient % 2

/-- The spacing at this magnitude is 2^scale units, and 53 binary digits are kept. -/
def nearestRank (num den : Nat) : Nat :=
  let units := num * Nat.pow 2 1074
  let scale := (units / den).log2 + 1 - 53
  scale * Nat.pow 2 52 + roundQuotient units (den * Nat.pow 2 scale)

/-- The rank of the product of two magnitudes, which are given by their ranks. -/
def productRank (r s : Nat) : Nat :=
  nearestRank (units r * units s) (Nat.pow 2 2148)

def quotientRank (r s : Nat) : Nat :=
  nearestRank (units r) (units s)

def powerRank (n : Nat) : Nat :=
  nearestRank (Nat.pow 10 n) 1

/-- The largest finite power of ten is `10^308`, and a decimal with a smaller exponent than `-308` is
divided twice. Below twice that exponent every significand of 64 bits would come to zero. -/
def rankOfDecimal (significand : Nat) (exponent : Int) : Nat :=
  let r := nearestRank significand 1
  if significand = 0 ∨ exponent < -616 then 0
  else if 308 < exponent then 0x7FF * Nat.pow 2 52
  else if 0 ≤ exponent then productRank r (powerRank exponent.toNat)
  else if -308 ≤ exponent then quotientRank r (powerRank (-exponent).toNat)
  else quotientRank (quotientRank r (powerRank 308)) (powerRank (-exponent - 308).toNat)

def ofDecimal? (negative : Bool) (significand : Nat) (exponent : Int) : Option Binary64 :=
  ofRank? negative (rankOfDecimal significand exponent)

end FilterQuery.Binary64
