import PhpScript.Number.Binary64

/-!
# Decimal digits of a float

The magnitude of a finite float other than zero as decimal digits with the power of ten of the first
one. There are a fixed number of digits, correctly rounded, or the fewest that still read back as
the same float.
-/

namespace PhpScript

/-- The decimal number `d.ddd * 10 ^ exponent`, where `significand` is the number that the digits
form when the point is left out. -/
structure Scientific where
  significand : Nat
  exponent : Int
deriving DecidableEq

namespace Scientific

def digits (number : Scientific) : List Char := Nat.toDigits 10 number.significand

def trimmedDigits (number : Scientific) : List Char :=
  match number.digits with
  | [] => []
  | first :: rest => first :: (rest.reverse.dropWhile (· = '0')).reverse

def scale (numerator denominator : Nat) (power : Int) : Nat × Nat :=
  if 0 ≤ power then (numerator * Nat.pow 10 power.toNat, denominator)
  else (numerator, denominator * Nat.pow 10 (-power).toNat)

def decimalExponent (numerator denominator : Nat) : Int :=
  let guess : Int :=
    ((Nat.toDigits 10 numerator).length : Int) - (Nat.toDigits 10 denominator).length
  let (scaledNumerator, scaledDenominator) := scale numerator denominator (-guess)
  if scaledDenominator ≤ scaledNumerator then guess else guess - 1

/-- A fraction to some digits. -/
def rounded (count : Nat) (numerator denominator : Nat) : Scientific :=
  let exponent := decimalExponent numerator denominator
  let (scaledNumerator, scaledDenominator) :=
    scale numerator denominator ((count : Int) - 1 - exponent)
  let significand := Binary64.roundDivide scaledNumerator scaledDenominator
  if significand = Nat.pow 10 count then ⟨Nat.pow 10 (count - 1), exponent + 1⟩
  else ⟨significand, exponent⟩

/-- Whether the decimal `candidate / 10 ^ power` reads back as the float
`significand * 2 ^ exponent`. The numbers that do are those between the midpoints to the two
neighbouring floats; a midpoint itself goes to the float with the even significand. All sides are
compared in quarters of the unit `2 ^ exponent`. -/
def readsBack (significand : Nat) (exponent : Int) (candidate : Nat) (power : Int) : Bool :=
  let below :=
    if significand = Binary64.hidden ∧ Binary64.leastExponent < exponent then 1 else 2
  let (quarters, unit) := Binary64.scale candidate 1 (2 - exponent)
  let (value, parts) := scale quarters unit (-power)
  let low := (4 * significand - below) * parts
  let high := (4 * significand + 2) * parts
  if significand % 2 = 0 then low ≤ value && value ≤ high else low < value && value < high

/-- The one or two neighbours of the float on the grid of `count` digits that read back, the nearer
first; a tie goes to the larger. -/
def shortestAt (significand : Nat) (exponent : Int) (count : Nat) : Option Scientific :=
  let (numerator, denominator) := Binary64.ratio significand exponent
  let leading := decimalExponent numerator denominator
  let power := (count : Int) - 1 - leading
  let (scaledNumerator, scaledDenominator) := scale numerator denominator power
  let below := scaledNumerator / scaledDenominator
  let above := below + 1
  let nearerAbove := scaledDenominator ≤ 2 * (scaledNumerator % scaledDenominator)
  let ordered := if nearerAbove then [above, below] else [below, above]
  (ordered.find? (readsBack significand exponent · power)).map fun found =>
    if found = Nat.pow 10 count then ⟨1, leading + 1⟩ else ⟨found, leading⟩

/-- The fewest digits that read back as the float `significand * 2 ^ exponent`, and of those the
nearest to it, a tie going to the larger. Seventeen digits always suffice. -/
def shortest (significand : Nat) (exponent : Int) : Scientific :=
  let (numerator, denominator) := Binary64.ratio significand exponent
  ((List.range' 1 17).findSome? (shortestAt significand exponent)).getD
    (rounded 17 numerator denominator)

def positional (digits : List Char) (exponent : Int) : String :=
  let size : Int := digits.length
  if exponent < 0 then
    "0." ++ String.ofList (List.replicate (-exponent - 1).toNat '0' ++ digits)
  else if size ≤ exponent + 1 then
    String.ofList (digits ++ List.replicate (exponent + 1 - size).toNat '0')
  else
    let whole := (exponent + 1).toNat
    String.ofList (digits.take whole) ++ "." ++ String.ofList (digits.drop whole)

end Scientific

end PhpScript
