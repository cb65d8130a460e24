/-!
# `ServiceTypes.Decimal.Shortest`: the shortest decimal of a double

A finite positive double is `m * 2^q`. The reals that round to it form
an interval around it, ends included when `m` is even. Of the decimal
grids `10^g`, taken from the coarsest on, the first that has a point in
the interval gives the fewest digits; of two such points the nearer is
taken, and of two equally near the even one. All arithmetic is on
natural numbers: interval and grid are compared after multiplication by
their denominators.

* `Interval` is the interval of a double, `intervalOfBits` reads it off
  the bit pattern;
* `Interval.point?` looks for a point on one grid;
* `shortest` is the coefficient and the power of ten of the decimal.
-/

set_option autoImplicit false

namespace ServiceTypes.Decimal

/-- The reals that round to a double: from `low` to `high` around `value`, in units of
`2^unit`; the ends belong to it when `closed`. -/
structure Interval where
  low : Nat
  value : Nat
  high : Nat
  unit : Int
  closed : Bool

/-- The leading bit of a normal double, `2^52`, which its bit pattern does not hold. -/
def hiddenBit : Nat := 0x10000000000000

/-- The interval of a finite positive double. A quarter of the distance to the next
double is the unit; below a power of two the distance is half of that above. -/
def intervalOfBits (bits : UInt64) : Interval :=
  let fraction := bits.toNat % hiddenBit
  let biased := bits.toNat / hiddenBit % 0x800
  let m := if biased = 0 then fraction else hiddenBit + fraction
  let q : Int := (if biased = 0 then 1 else biased : Nat) - 1075
  { low := if fraction = 0 ∧ 1 < biased then 4 * m - 1 else 4 * m - 2
    value := 4 * m
    high := 4 * m + 2
    unit := q - 2
    closed := m % 2 = 0 }

/-- `base^n` for a power that is not negative, and `1` for a negative one: the numerator
of the power. The denominator of `base^n` is the numerator of `base^(-n)`. -/
def powerNumerator (base : Nat) (n : Int) : Nat :=
  Nat.pow base n.toNat

/-- The point of the grid `10^g` in the interval that is nearest to the value, as a
multiple of `10^g`. Only the two neighbours of the value can be it. -/
def Interval.point? (i : Interval) (g : Int) : Option Nat :=
  let unit := powerNumerator 2 i.unit * powerNumerator 10 (-g)
  let grid := powerNumerator 10 g * powerNumerator 2 (-i.unit)
  let below := i.value * unit / grid
  let above := below + 1
  let lowFits := if i.closed then i.low * unit ≤ below * grid else i.low * unit < below * grid
  let highFits :=
    if i.closed then above * grid ≤ i.high * unit else above * grid < i.high * unit
  let toBelow := i.value * unit - below * grid
  let toAbove := above * grid - i.value * unit
  if lowFits ∧ highFits then
    some (if toBelow < toAbove then below
      else if toAbove < toBelow then above
      else if below % 2 = 0 then below else above)
  else if lowFits then some below
  else if highFits then some above
  else none

/-- The power of the coarsest grid that a double can lie near, above the finest. -/
def gridCount : Nat := 309 + 324

/-- The power of the finest grid: it has a point in the interval of every double. -/
def finestGrid : Int := -324

/-- The first hit on the grids from `10^(finestGrid + n)` down. -/
def Interval.firstPoint (i : Interval) : Nat → Nat × Int
  | 0 => ((i.point? finestGrid).getD 0, finestGrid)
  | n + 1 =>
    match i.point? (finestGrid + (n + 1 : Nat)) with
    | some c => (c, finestGrid + (n + 1 : Nat))
    | none => i.firstPoint n

/-- The shortest decimal of a finite positive double: its coefficient and its power of
ten. -/
def shortest (bits : UInt64) : Nat × Int :=
  (intervalOfBits bits).firstPoint gridCount

example : shortest (0.1 : Float).toBits = (1, -1) := by decide +kernel
example : shortest (1e23 : Float).toBits = (1, 23) := by decide +kernel
example : shortest 1 = (5, -324) := by decide +kernel

end ServiceTypes.Decimal
