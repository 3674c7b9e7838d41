import PhpScript.Number.Scientific

/-!
# Rounding to decimal places

A float is scaled with a power of ten and brought to sixteen digits, which removes what the binary
form added, so that a decimal half is recognised as one.
-/

namespace PhpScript.Rounding

/-- Where halves go. -/
inductive HalfRule where
  | awayFromZero | towardsZero | toEven | toOdd
deriving DecidableEq

def powerLoop (result base : Float) (exponent : Nat) : Float :=
  let next := if exponent % 2 = 1 then result * base else result
  if exponent < 2 then next else powerLoop next (base * base) (exponent / 2)
termination_by exponent

def powerOfTen (exponent : Nat) : Float := powerLoop 1.0 10.0 exponent

/-- A float to sixteen digits, free of errors of scaling. -/
def denoise (number : Float) : Float :=
  match Binary64.decode number with
  | .finite negative significand exponent =>
    if significand = 0 then number
    else
      let (numerator, denominator) := Binary64.ratio significand exponent
      let decimal := Scientific.rounded 16 numerator denominator
      Binary64.ofDecimal negative decimal.significand (decimal.exponent - 15)
  | _ => number

/-- The nearest whole number, halves by a rule. -/
def toWhole (rule : HalfRule) (number : Float) : Float :=
  let floor := number.floor
  if number - floor == 0.5 then
    let floorIsEven := Binary64.isZero (Binary64.remainder floor 2.0)
    match rule with
    | .awayFromZero => number.round
    | .towardsZero => if number > 0.0 then floor else floor + 1.0
    | .toEven => if floorIsEven then floor else floor + 1.0
    | .toOdd => if floorIsEven then floor + 1.0 else floor
  else number.round

def scaleLimit : Nat := 308

/-- A float to a number of decimal places; a negative number counts places before the point. Where
scaling leaves the range of floats, the float stays as it is. -/
def toPlaces (rule : HalfRule) (places : Int) (number : Float) : Float :=
  if !Binary64.isFinite number then number
  else
    let factor := powerOfTen (min places.natAbs scaleLimit)
    let scaled := if 0 ≤ places then number * factor else number / factor
    if !Binary64.isFinite scaled then number
    else
      let whole := toWhole rule (denoise scaled)
      let result := if 0 ≤ places then whole / factor else whole * factor
      if Binary64.isFinite result then result else number

end PhpScript.Rounding
