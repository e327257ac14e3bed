import Theming.Decimal.Binary64

/-! The fewest decimal digits that read back as a given double, and among those the ones
nearest to it. -/

namespace Theming

structure Decimal where
  digits : Nat
  scale : Int
  deriving DecidableEq, Repr

namespace Binary64

/-- A positive double with the ends of the interval of reals that round to it, all as multiples
of `2 ^ exponent`. -/
structure Interval where
  low : Nat
  value : Nat
  high : Nat
  exponent : Int
  closed : Bool

/-- The interval reaches halfway to both neighbours, and the lower neighbour of a power of two
is only half as far. Its ends round to the even mantissa. -/
def interval (x : Binary64) : Interval where
  low := if x.mantissa = leastNormal && leastExponent < x.exponent then 4 * x.mantissa - 1
    else 4 * x.mantissa - 2
  value := 4 * x.mantissa
  high := 4 * x.mantissa + 2
  exponent := x.exponent - 2
  closed := x.mantissa % 2 == 0

def sides (n : Nat) (exponent : Int) (c : Nat) (scale : Int) : Nat × Nat :=
  (n * Nat.pow 2 exponent.toNat * Nat.pow 10 (-scale).toNat,
    c * Nat.pow 10 scale.toNat * Nat.pow 2 (-exponent).toNat)

namespace Interval

def holds (i : Interval) (p : Decimal) : Bool :=
  let (low, point) := sides i.low i.exponent p.digits p.scale
  let (high, point') := sides i.high i.exponent p.digits p.scale
  if i.closed then low ≤ point && point' ≤ high else low < point && point' < high

def below (i : Interval) (scale : Int) : Decimal :=
  let (value, unit) := sides i.value i.exponent 1 scale
  ⟨value / unit, scale⟩

/-- Is the point above the value further away than the point below it, or as far and odd? -/
def prefersBelow (i : Interval) (p : Decimal) : Bool :=
  let (value, unit) := sides i.value i.exponent 1 p.scale
  let doubled := 2 * (value - p.digits * unit)
  doubled < unit || (doubled == unit && p.digits % 2 == 0)

def pointOn? (i : Interval) (scale : Int) : Option Decimal :=
  let p := i.below scale
  let q : Decimal := ⟨p.digits + 1, scale⟩
  match i.holds p && p.digits != 0, i.holds q with
  | true, true => some (if i.prefersBelow p then p else q)
  | true, false => some p
  | false, true => some q
  | false, false => none

/-- The best point of the coarsest grid that has one, looking at ever finer grids. -/
def coarsest (i : Interval) : (grids : Nat) → (scale : Int) → Decimal
  | 0, scale => i.below scale
  | grids + 1, scale => (i.pointOn? scale).getD (coarsest i grids (scale - 1))

end Interval

/-- The scale of a grid that is too coarse, from the position of the leading bit. -/
def coarseScale (x : Binary64) : Int :=
  ((x.mantissa.log2 : Int) + x.exponent) * 30103 / 100000 + 2

/-- No double needs more than 17 significant digits, so twenty grids are enough. -/
def shortest (x : Binary64) : Decimal := x.interval.coarsest 20 x.coarseScale

end Binary64

end Theming
