import PhpScript.Number.Integer

/-!
# Binary floating point, exactly

A float is looked at through the bits of its encoding, as a whole number times a power of two.
Everything that has to be exact is computed on that pair in whole numbers.
-/

namespace PhpScript

/-- What an encoded float stands for. A finite one is
`significand * 2 ^ exponent`, with a sign that zeros have too. -/
inductive Binary64 where
  | nan
  | infinite (negative : Bool)
  | finite (negative : Bool) (significand : Nat) (exponent : Int)
deriving DecidableEq

namespace Binary64

/-- One more than the largest significand of a float below the normal range. -/
def hidden : Nat := Nat.pow 2 52

def leastExponent : Int := -1074

/-- The encoding of the infinite magnitude; larger magnitudes are not numbers. -/
def infiniteBits : Nat := 2047 * hidden

def magnitudeBits (float : Float) : Nat := float.toBits.toNat % Nat.pow 2 63

def isNegative (float : Float) : Bool := Nat.pow 2 63 ≤ float.toBits.toNat

/-- What the bits of a float say. -/
def decode (float : Float) : Binary64 :=
  let bits := magnitudeBits float
  let negative := isNegative float
  let field := bits / hidden
  let fraction := bits % hidden
  if field = 2047 then
    if fraction = 0 then .infinite negative else .nan
  else if field = 0 then .finite negative fraction leastExponent
  else .finite negative (hidden + fraction) (field + (leastExponent - 1))

def ofMagnitude (negative : Bool) (bits : Nat) : Float :=
  Float.ofBits (UInt64.ofNat (if negative then Nat.pow 2 63 + bits else bits))

def notANumber : Float := Float.ofBits 0x7ff8000000000000

def infinity (negative : Bool) : Float := ofMagnitude negative infiniteBits

def isNan (float : Float) : Bool := infiniteBits < magnitudeBits float

def isFinite (float : Float) : Bool := magnitudeBits float < infiniteBits

def isZero (float : Float) : Bool := magnitudeBits float = 0

/-- The place of a float in the order of numbers; floats that stand for no number have none. The
two zeros share one place. -/
def orderKey (float : Float) : Option Int :=
  if isNan float then none
  else if isNegative float then some (-(magnitudeBits float : Int))
  else some (magnitudeBits float)

/-- How two floats compare; none with no number. -/
def compare? (left right : Float) : Option Ordering := do
  return compare (← orderKey left) (← orderKey right)

/-- Numerical equality: the two zeros are equal, and what is not a number equals nothing. -/
def equals (left right : Float) : Bool := compare? left right == some .eq

/-- The integer nearest to a quotient, the even one of two. -/
def roundDivide (numerator denominator : Nat) : Nat :=
  let quotient := numerator / denominator
  let double := 2 * (numerator % denominator)
  if double < denominator then quotient
  else if denominator < double then quotient + 1
  else quotient + quotient % 2

/-- A fraction times a power of two. -/
def scale (numerator denominator : Nat) (power : Int) : Nat × Nat :=
  if 0 ≤ power then (numerator * Nat.pow 2 power.toNat, denominator)
  else (numerator, denominator * Nat.pow 2 (-power).toNat)

def binaryExponent (numerator denominator : Nat) : Int :=
  let guess : Int := (Nat.log2 numerator : Int) - Nat.log2 denominator
  let (scaledNumerator, scaledDenominator) := scale numerator denominator (-guess)
  if scaledDenominator ≤ scaledNumerator then guess else guess - 1

/-- The magnitude bits of the float nearest to `numerator / denominator`, ties to even. -/
def nearestMagnitude (numerator denominator : Nat) : Nat :=
  if numerator = 0 then 0
  else
    let exponent := max leastExponent (binaryExponent numerator denominator - 52)
    let (scaledNumerator, scaledDenominator) := scale numerator denominator (-exponent)
    let significand := roundDivide scaledNumerator scaledDenominator
    min infiniteBits ((exponent - leastExponent).toNat * hidden + significand)

/-- The float nearest to a fraction. -/
def nearest (negative : Bool) (numerator denominator : Nat) : Float :=
  ofMagnitude negative (nearestMagnitude numerator denominator)

def ofInt (number : Int) : Float := nearest (number < 0) number.natAbs 1

def ofInt64 (number : Int64) : Float := ofInt number.toInt

/-- The float nearest to `significand * 10 ^ exponent`. Exponents far outside the range of floats
are settled without computing the power: a significand of `bits + 1` bits is at least
`10 ^ (3 * bits / 10)` and less than `10 ^ (bits / 3 + 1)`. -/
def ofDecimal (negative : Bool) (significand : Nat) (exponent : Int) : Float :=
  let bits := Nat.log2 significand
  if significand = 0 || (bits / 3 + 1 : Nat) + exponent < -400 then ofMagnitude negative 0
  else if 400 < (3 * bits / 10 : Nat) + exponent then infinity negative
  else if 0 ≤ exponent then nearest negative (significand * Nat.pow 10 exponent.toNat) 1
  else nearest negative significand (Nat.pow 10 (-exponent).toNat)

/-- A finite float as a fraction. -/
def ratio (significand : Nat) (exponent : Int) : Nat × Nat := scale significand 1 exponent

/-- A finite float without its fraction. -/
def truncate? (float : Float) : Option Int :=
  match decode float with
  | .finite negative significand exponent =>
    let (numerator, denominator) := ratio significand exponent
    let whole : Int := (numerator / denominator : Nat)
    some (if negative then -whole else whole)
  | _ => none

def isIntegral (float : Float) : Bool :=
  match decode float with
  | .finite _ significand exponent =>
    let (numerator, denominator) := ratio significand exponent
    numerator % denominator = 0
  | _ => false

/-- Conversion to a script integer: the integer part modulo `2 ^ 64`, and zero for what is not a
finite number. -/
def toInt64 (float : Float) : Int64 := Integer.wrap ((truncate? float).getD 0)

/-- What division leaves, with the sign of the dividend. -/
def remainder (dividend divisor : Float) : Float :=
  match decode dividend, decode divisor with
  | .finite negative leftSignificand leftExponent, .finite _ rightSignificand rightExponent =>
    if rightSignificand = 0 then notANumber
    else
      let unit := min leftExponent rightExponent
      let left := leftSignificand * Nat.pow 2 (leftExponent - unit).toNat
      let right := rightSignificand * Nat.pow 2 (rightExponent - unit).toNat
      let (numerator, denominator) := ratio (left % right) unit
      nearest negative numerator denominator
  | .finite .., .infinite _ => dividend
  | _, _ => notANumber

end Binary64

end PhpScript
