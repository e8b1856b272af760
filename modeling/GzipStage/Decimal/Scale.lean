/-! Doubles from decimal numbers, rounding the significand, the power of ten and the result, so that
the result is not always the nearest double. -/
namespace GzipStage.Decimal

def power (n : Nat) : Float := Float.ofScientific 1 false n

def scale? (f : Float) (e : Int) : Option Float :=
  if e.natAbs ≤ 308 then
    if 0 ≤ e then
      let g := f * power e.natAbs
      if g.isInf then none else some g
    else some (f / power e.natAbs)
  else if f == 0 then some f
  else if 0 ≤ e then none
  else scale? (f / power 308) (e + 308)
termination_by e.natAbs

/-- The double for `significand * 10 ^ exponent`, for significands below `2 ^ 64`. -/
def toFloat? (significand : Nat) (exponent : Int) : Option Float :=
  scale? significand.toUInt64.toFloat exponent

end GzipStage.Decimal
