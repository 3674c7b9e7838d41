import PhpScript.Signature
import PhpScript.Text.Whitespace
import PhpScript.Value.Operation

/-!
# Native functions on the types of values

Conversions, and questions about the type of a value.
-/

namespace PhpScript

inductive TypeFunction where
  | toBool | toFloat | typeName | longTypeName | toInt | isArray | isBool | isFloat | isInt | isNull
  | isNumeric | isScalar | isString | toText
deriving DecidableEq

namespace TypeFunction

def names : List (String × TypeFunction) :=
  [("boolval", .toBool), ("doubleval", .toFloat), ("floatval", .toFloat),
    ("get_debug_type", .typeName), ("gettype", .longTypeName), ("intval", .toInt),
    ("is_array", .isArray), ("is_bool", .isBool), ("is_double", .isFloat), ("is_float", .isFloat),
    ("is_int", .isInt), ("is_integer", .isInt), ("is_long", .isInt), ("is_null", .isNull),
    ("is_numeric", .isNumeric), ("is_scalar", .isScalar), ("is_string", .isString),
    ("strval", .toText), ("is_iterable", .isArray), ("is_countable", .isArray)]

def ofValue (function : String) : Signature := ⟨function, [.required "$value" [.mixed]]⟩

def signature : TypeFunction → Signature
  | .toBool => ofValue "boolval"
  | .toFloat => ofValue "floatval"
  | .typeName => ofValue "get_debug_type"
  | .longTypeName => ofValue "gettype"
  | .toInt => ⟨"intval", [.required "$value" [.mixed], .optional "$base" [.int] (.int 10)]⟩
  | .isArray => ofValue "is_array"
  | .isBool => ofValue "is_bool"
  | .isFloat => ofValue "is_float"
  | .isInt => ofValue "is_int"
  | .isNull => ofValue "is_null"
  | .isNumeric => ofValue "is_numeric"
  | .isScalar => ofValue "is_scalar"
  | .isString => ofValue "is_string"
  | .toText => ofValue "strval"

def digitValue? (character : Char) : Option Nat :=
  let lower := character.toLower
  if lower.isDigit then some (lower.toNat - '0'.toNat)
  else if 'a' ≤ lower && lower ≤ 'z' then some (lower.toNat - 'a'.toNat + 10)
  else none

/-- Take the digits at the head of a text in behind a number. There is nothing when a step leaves
the range of integers. -/
def accumulate? (radix : Nat) (value : Int64) : List Char → Option Int64
  | [] => some value
  | character :: rest =>
    match (digitValue? character).filter (· < radix) with
    | none => some value
    | some digit => do
      let product ← Integer.fit? (value.toInt * radix)
      let sum ← Integer.fit? (product.toInt + digit)
      accumulate? radix sum rest

def hasMark (letter : Char) : List Char → Bool
  | '0' :: mark :: _ => mark.toLower = letter
  | _ => false

/-- The base in which an unsigned text is read, and the digits. Base zero is found out from the
text. -/
def detectBase (base : Int) (text : List Char) : Nat × List Char :=
  let marked (letter : Char) (number : Int) : Bool :=
    (base = 0 || base = number) && hasMark letter text
  if marked 'x' 16 then (16, text.drop 2)
  else if marked 'o' 8 then (8, text.drop 2)
  else if marked 'b' 2 then (2, text.drop 2)
  else if base = 0 then
    match text with
    | '0' :: rest => if rest.isEmpty then (10, text) else (8, rest)
    | _ => (10, text)
  else ((min (max base 2) 36).toNat, text)

/-- The integer that a text begins with in a base; base zero leaves it to the text. -/
def integerInBase (text : String) (base : Int) : Int64 :=
  let trimmed := Text.trimStart text.toList
  let (isNegative, unsigned) :=
    match trimmed with
    | '-' :: rest => (true, rest)
    | '+' :: rest => (false, rest)
    | rest => (false, rest)
  let (radix, digits) := detectBase base unsigned
  match accumulate? radix 0 digits with
  | some magnitude => if isNegative then -magnitude else magnitude
  | none => if isNegative then Int64.minValue else Int64.maxValue

def apply (function : TypeFunction) (arguments : List Value) : Checked Value := do
  match function, arguments with
  | .toBool, [value] => return .bool value.toBool
  | .toFloat, [value] => return .float value.toFloat
  | .typeName, [value] => return .str value.typeOrNull.render
  | .longTypeName, [value] => return .str value.longTypeName
  | .toInt, [.str text, base] =>
    if base.toInt = 10 then return .int (Value.str text).toInt
    else return .int (integerInBase text base.toInt.toInt)
  | .toInt, [value, _] => return .int value.toInt
  | .isArray, [value] => return .bool value.isArray
  | .isBool, [value] => return .bool (value matches .bool _)
  | .isFloat, [value] => return .bool (value matches .float _)
  | .isInt, [value] => return .bool (value matches .int _)
  | .isNull, [value] => return .bool value.isNull
  | .isNumeric, [.str text] => return .bool (Numeric.parse? text).isSome
  | .isNumeric, [value] => return .bool (value matches .int _ | .float _)
  | .isScalar, [value] => return .bool value.isScalar
  | .isString, [value] => return .bool (value matches .str _)
  | .toText, [value] => return .str (← value.stringify)
  | _, _ => return .null

end TypeFunction

end PhpScript
