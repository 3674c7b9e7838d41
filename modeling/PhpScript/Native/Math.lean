import PhpScript.Number.Rounding
import PhpScript.Signature
import PhpScript.Value.Operation

/-!
# Native functions on numbers
-/

namespace PhpScript

/-- Functions on numbers. -/
inductive MathFunction where
  | abs | acos | acosh | asin | asinh | ceil | floor | fmod | intdiv | max | min | pi | pow | round
  | sqrt
deriving DecidableEq

namespace MathFunction

def names : List (String × MathFunction) :=
  [("abs", .abs), ("acos", .acos), ("acosh", .acosh), ("asin", .asin), ("asinh", .asinh),
    ("ceil", .ceil), ("floor", .floor), ("fmod", .fmod), ("intdiv", .intdiv), ("max", .max),
    ("min", .min), ("pi", .pi), ("pow", .pow), ("round", .round), ("sqrt", .sqrt)]

def ofFloat (function : String) : Signature := ⟨function, [.required "$num" [.float]]⟩

def ofNumber (function : String) : Signature := ⟨function, [.required "$num" [.int, .float]]⟩

def ofCandidates (function : String) : Signature :=
  ⟨function, [.required "$value" [.mixed], .variadic "$values" [.mixed]]⟩

def signature : MathFunction → Signature
  | .abs => ofNumber "abs"
  | .acos => ofFloat "acos"
  | .acosh => ofFloat "acosh"
  | .asin => ofFloat "asin"
  | .asinh => ofFloat "asinh"
  | .ceil => ofNumber "ceil"
  | .floor => ofNumber "floor"
  | .fmod => ⟨"fmod", [.required "$num1" [.float], .required "$num2" [.float]]⟩
  | .intdiv => ⟨"intdiv", [.required "$num1" [.int], .required "$num2" [.int]]⟩
  | .max => ofCandidates "max"
  | .min => ofCandidates "min"
  | .pi => ⟨"pi", []⟩
  | .pow => ⟨"pow", [.required "$num" [.mixed], .required "$exponent" [.mixed]]⟩
  | .round =>
    ⟨"round", [.required "$num" [.int, .float], .optional "$precision" [.int] (.int 0),
      .optional "$mode" [.int] (.int 1)]⟩
  | .sqrt => ofFloat "sqrt"

def circleRatio : Float := Float.ofBits 0x400921fb54442d18

def absolute (number : Value) : Value :=
  match number with
  | .int value =>
    match Integer.fit? value.toInt.natAbs with
    | some magnitude => .int magnitude
    | none => .float (Binary64.ofInt value.toInt.natAbs)
  | other => .float (Binary64.ofMagnitude false (Binary64.magnitudeBits other.toFloat))

def integerDivision (dividend divisor : Int64) : Except Problem Value :=
  if divisor = 0 then .error .divisionByZero
  else
    match Integer.fit? (dividend.toInt.tdiv divisor.toInt) with
    | some quotient => .ok (.int quotient)
    | none => .error .quotientOutOfRange

def halfRule (mode : Int64) : Rounding.HalfRule :=
  if mode = 2 then .towardsZero
  else if mode = 3 then .toEven
  else if mode = 4 then .toOdd
  else .awayFromZero

def roundTo (number : Value) (places mode : Int64) : Value :=
  match number with
  | .int value =>
    if places.toInt < 0 then
      .float (Rounding.toPlaces (halfRule mode) places.toInt (Binary64.ofInt64 value))
    else .float (Binary64.ofInt64 value)
  | other => .float (Rounding.toPlaces (halfRule mode) places.toInt other.toFloat)

/-- The values to choose from: the arguments, or the elements of a single array. -/
def candidates (function : String) (first : Value) (others : List Value) :
    Except Problem (Value × List Value) :=
  match first, others with
  | .array elements, [] =>
    match elements.values with
    | [] => .error (.noCandidates function)
    | best :: rest => .ok (best, rest)
  | first, [] => .error (.argumentType function 1 "$value" "array" first.type)
  | first, others => .ok (first, others)

/-- The first of some values that no later one is beyond; `wanted` says how a value beyond compares
with the one before. -/
def extreme (function : String) (wanted : Ordering) (first rest : Value) :
    Except Problem Value := do
  let others := rest.toTable.values
  let (best, others) ← candidates function first others
  return others.foldl (fun best candidate =>
    if candidate.compare? best == some wanted then candidate else best) best

def apply (function : MathFunction) (arguments : List Value) : Checked Value := do
  match function, arguments with
  | .abs, [number] => return absolute number
  | .acos, [number] => return .float number.toFloat.acos
  | .acosh, [number] => return .float number.toFloat.acosh
  | .asin, [number] => return .float number.toFloat.asin
  | .asinh, [number] => return .float number.toFloat.asinh
  | .ceil, [number] => return .float number.toFloat.ceil
  | .floor, [number] => return .float number.toFloat.floor
  | .fmod, [dividend, divisor] =>
    return .float (Binary64.remainder dividend.toFloat divisor.toFloat)
  | .intdiv, [dividend, divisor] =>
    MonadExcept.ofExcept (integerDivision dividend.toInt divisor.toInt)
  | .max, [first, rest] => MonadExcept.ofExcept (extreme "max" .gt first rest)
  | .min, [first, rest] => MonadExcept.ofExcept (extreme "min" .lt first rest)
  | .pi, [] => return .float circleRatio
  | .pow, [base, exponent] => Value.binary .pow base exponent
  | .round, [number, places, mode] => return roundTo number places.toInt mode.toInt
  | .sqrt, [number] => return .float number.toFloat.sqrt
  | _, _ => return .null

end MathFunction

end PhpScript
