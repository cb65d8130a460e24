/-!
# `ServiceTypes.Decimal.Double`: doubles from decimal parts

A decimal is given as a significand below 2^64 and a power of ten. The
double of it is computed in double arithmetic: the significand becomes
a double and is multiplied or divided by a power of ten. Powers beyond
`10^308` are reached by dividing in steps of `10^308`.

* `powerOfTen` is the double nearest to a power of ten up to `10^308`;
* `ofDecimal?` is the double of a decimal, unless it is too large.
-/

set_option autoImplicit false

namespace ServiceTypes.Decimal

/-- The greatest power of ten that is a finite double. -/
def greatestPower : Nat := 308

/-- The double nearest to `10^n`, for `n` up to `greatestPower`. -/
def powerOfTen (n : Nat) : Float :=
  Float.ofScientific 1 false n

/-- `f / 10^n`, in steps of `10^308`. A value that has become zero stays zero, so the
steps end there. -/
def dividePower (f : Float) (n : Nat) : Float :=
  if n ≤ greatestPower then f / powerOfTen n
  else if f == 0.0 then f
  else dividePower (f / powerOfTen greatestPower) (n - greatestPower)
termination_by n
decreasing_by simp only [greatestPower] at *; omega

/-- `f * 10^n`, unless that is beyond the doubles. -/
def multiplyPower? (f : Float) (n : Nat) : Option Float :=
  if n ≤ greatestPower then
    let product := f * powerOfTen n
    if product.isInf then none else some product
  else if f == 0.0 then some f
  else none

/-- The double of `significand * 10^exponent`, unless that is beyond the doubles. -/
def ofDecimal? (negative : Bool) (significand : UInt64) (exponent : Int) : Option Float :=
  let magnitude? :=
    if 0 ≤ exponent then multiplyPower? significand.toFloat exponent.toNat
    else some (dividePower significand.toFloat exponent.natAbs)
  magnitude?.map fun f => if negative then -f else f

end ServiceTypes.Decimal
