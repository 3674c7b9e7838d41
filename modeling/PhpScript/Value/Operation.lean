import PhpScript.Problem
import PhpScript.Text.Bytes
import PhpScript.Value.Compare

/-!
# Operators on values

Operands are converted first, with a report where the conversion is doubtful; operators without a
result on the given types fail.
-/

namespace PhpScript

namespace Value

def stringify (value : Value) : Checked String := do
  if value.isArray then Checked.warn .arrayToString
  return value.toText

/-- A value as a number; a text that is none is reported. -/
def operand (value : Value) : Checked Numeric :=
  match value with
  | .str text =>
    match Numeric.parse? text with
    | some number => return number
    | none => do
      Checked.warn .nonNumericValue
      return Numeric.leading text
  | other => return other.toNumeric

/-- Both operands as numbers, the left one first; arrays are refused. -/
def operands (left : Value) (operator : BinaryOperator) (right : Value) :
    Checked (Numeric × Numeric) := do
  if left.isArray || right.isArray then
    throw (.unsupportedOperands left.type operator right.type)
  let leftNumber ← left.operand
  let rightNumber ← right.operand
  return (leftNumber, rightNumber)

end Value

namespace Numeric

/-- Division, but not by zero. -/
def divide (left right : Numeric) : Checked Numeric :=
  if Binary64.isZero right.toFloat then throw .divisionByZero else return left.div right

/-- What integer division leaves, with the sign of the dividend. -/
def modulo (left right : Numeric) : Checked Numeric :=
  let dividend := left.toInt64.toInt
  let divisor := right.toInt64.toInt
  if divisor = 0 then throw .moduloByZero
  else return .int (Integer.wrap (dividend.tmod divisor))

/-- From here on powers are computed in floats. -/
def exactExponentLimit : Int := 4294967296

/-- An integer power that is a script integer. A base of at least two in size leaves the range
with an exponent of 64, so larger exponents need not be computed. -/
def exactPower? (base : Int) (exponent : Int) : Option Int64 :=
  if exponent < 0 ∨ exactExponentLimit ≤ exponent then none
  else if base.natAbs ≤ 1 then
    let sameParity := if exponent = 0 then 0 else exponent.toNat % 2 + 2
    Integer.fit? (Int.pow base sameParity)
  else if 64 ≤ exponent then none
  else Integer.fit? (Int.pow base exponent.toNat)

/-- A power of integers that is one too, or of floats. -/
def power (left right : Numeric) : Numeric :=
  let byFloats : Numeric := .float (Float.pow left.toFloat right.toFloat)
  match left, right with
  | .int base, .int exponent =>
    match exactPower? base.toInt exponent.toInt with
    | some result => .int result
    | none => byFloats
  | _, _ => byFloats

/-- Shift a number by some places. To the left the highest bits are lost, to the right the sign is
kept. -/
def shift (leftwards : Bool) (number distance : Int64) : Checked Numeric :=
  let value := number.toInt
  let places := distance.toInt.toNat
  if distance.toInt < 0 then throw .negativeShift
  else if leftwards then
    return .int (if 64 ≤ places then 0 else Integer.wrap (value * Int.pow 2 places))
  else
    return .int (if 64 ≤ places then (if value < 0 then -1 else 0)
      else Integer.wrap (value.fdiv (Int.pow 2 places)))

end Numeric

namespace Value

/-- An operator on numbers. -/
def arithmetic (operator : BinaryOperator) (left right : Numeric) : Checked Numeric :=
  match operator with
  | .add => return left.add right
  | .sub => return left.sub right
  | .mul => return left.mul right
  | .div => left.divide right
  | .mod => left.modulo right
  | .pow => return left.power right
  | .bitAnd => return .int (left.toInt64 &&& right.toInt64)
  | .bitOr => return .int (left.toInt64 ||| right.toInt64)
  | .bitXor => return .int (left.toInt64 ^^^ right.toInt64)
  | .shiftLeft => Numeric.shift true left.toInt64 right.toInt64
  | _ => Numeric.shift false left.toInt64 right.toInt64

def comparison (operator : BinaryOperator) (left right : Value) : Value :=
  match operator with
  | .equal => .bool (left.looselyEqual right)
  | .notEqual => .bool (!left.looselyEqual right)
  | .identical => .bool (left.identical right)
  | .notIdentical => .bool (!left.identical right)
  | .less => .bool (left.compare? right == some .lt)
  | .lessEqual => .bool (left.compare? right == some .lt || left.compare? right == some .eq)
  | .greater => .bool (left.compare? right == some .gt)
  | .greaterEqual => .bool (left.compare? right == some .gt || left.compare? right == some .eq)
  | _ => .int (left.spaceship right)

/-- An operator on values. -/
def binary (operator : BinaryOperator) (left right : Value) : Checked Value :=
  match operator with
  | .and => return .bool (left.toBool && right.toBool)
  | .or => return .bool (left.toBool || right.toBool)
  | .xor => return .bool (left.toBool ^^ right.toBool)
  | .concat => do
    let front ← left.stringify
    let back ← right.stringify
    return .str (front ++ back)
  | operator => do
    if operator.isComparison then return comparison operator left right
    match operator, left, right with
    | .add, .array leftElements, .array rightElements =>
      return .array (leftElements.union rightElements)
    | _, _, _ =>
      let (leftNumber, rightNumber) ← operands left operator right
      let result ← arithmetic operator leftNumber rightNumber
      return result.toValue

def unary (operator : UnaryOperator) (value : Value) : Checked Value :=
  match operator with
  | .not => return .bool (!value.toBool)
  | .plus | .neg => do
    if value.isArray then throw (.unsupportedOperands value.type .mul .int)
    let number ← value.operand
    return (if operator = .plus then number else number.neg).toValue
  | .bitNot =>
    match value with
    | .int number => return .int (~~~number)
    | .float number => return .int (~~~(Binary64.toInt64 number))
    | .str text => return .str (Text.ofBytes ((Text.bytes text).map (~~~·)))
    | other => throw (.bitwiseNot other.type)

/-- The class of an ASCII letter or digit: its last member, its first member, and the character
that is put in front when a run of this class overflows. -/
def alphanumericClass? (character : Char) : Option (Char × Char × Char) :=
  if character.isLower then some ('z', 'a', 'a')
  else if character.isUpper then some ('Z', 'A', 'A')
  else if character.isDigit then some ('9', '0', '1')
  else none

def nextCharacter (character : Char) : Char := Char.ofNat (character.toNat + 1)

/-- The successor of a text whose characters are given from the last to the first. Letters and
digits count up within their class and carry to the left; any other character ends the carry.
`overflow` is what goes in front when the carry runs out of characters. -/
def succeedReversed (overflow : List Char) : List Char → List Char
  | [] => overflow
  | character :: rest =>
    match alphanumericClass? character with
    | none => character :: rest
    | some (last, first, extra) =>
      if character = last then first :: succeedReversed [extra] rest
      else nextCharacter character :: rest

def successor (text : String) : String :=
  String.ofList (succeedReversed [] text.toList.reverse).reverse

def stepNumber (operator : StepOperator) (number : Numeric) : Numeric :=
  match operator with
  | .increment => number.add (.int 1)
  | .decrement => number.sub (.int 1)

def step (operator : StepOperator) (value : Value) : Checked Value :=
  match value with
  | .void | .null => return if operator = .increment then .int 1 else .null
  | .bool flag => return .bool flag
  | .int number => return (stepNumber operator (.int number)).toValue
  | .float number => return (stepNumber operator (.float number)).toValue
  | .str text =>
    if text = "" then return if operator = .increment then .str "1" else .int (-1)
    else
      match Numeric.parse? text with
      | some number => return (stepNumber operator number).toValue
      | none => return .str (if operator = .increment then successor text else text)
  | .array _ => throw (.stepArray operator)

end Value

end PhpScript
