/-!
# Finite binary64 numbers

The finite magnitudes of the format are ranked upwards from zero, so a number is a sign and a
rank. `units` gives the magnitude of a rank in units of 2^-1074, the least positive number of the
format; every magnitude is a whole number of these units. Zero has two signs and one value.
-/

namespace FilterQuery

structure Binary64 where
  negative : Bool
  rank : Nat
  rank_lt : rank < 0x7FF * Nat.pow 2 52
deriving DecidableEq

namespace Binary64

/-- The magnitude of rank `r`, in units of 2^-1074. Above the first 2^52 ranks the magnitudes come
in runs of 2^52 with a spacing that doubles from run to run. -/
def units (r : Nat) : Nat :=
  let run := Nat.pow 2 52
  if r < run then r else (run + r % run) * Nat.pow 2 (r / run - 1)

def ofRank? (negative : Bool) (r : Nat) : Option Binary64 :=
  if h : r < 0x7FF * Nat.pow 2 52 then some ⟨negative, r, h⟩ else none

def zero (negative : Bool) : Binary64 :=
  ⟨negative, 0, by decide⟩

def one (negative : Bool) : Binary64 :=
  ⟨negative, 1023 * Nat.pow 2 52, by decide⟩

/-- Equal in value: the two zeros are equal. -/
def same (x y : Binary64) : Bool :=
  x.rank == y.rank && (x.negative == y.negative || x.rank == 0)

end Binary64

end FilterQuery
