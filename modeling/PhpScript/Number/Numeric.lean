import PhpScript.Number.Binary64

/-!
# Numbers in text

A numeric text is an optional sign and a decimal numeral: digits, optionally with a point and an
exponent. Without point and exponent it denotes an integer as long as that is in range, and a float
in all other cases.
-/

namespace PhpScript

/-- A number of a script. -/
inductive Numeric where
  | int (value : Int64)
  | float (value : Float)

/-- A decimal numeral without sign, as it was spelled. The flag of the exponent says that it is
negative. -/
structure Numeral where
  whole : List Char
  fraction : Option (List Char)
  exponent : Option (Bool × List Char)
deriving DecidableEq

namespace Numeral

def takeDigits (text : List Char) : List Char × List Char :=
  (text.takeWhile Char.isDigit, text.dropWhile Char.isDigit)

def takeSign : List Char → Bool × List Char
  | '-' :: rest => (true, rest)
  | '+' :: rest => (false, rest)
  | rest => (false, rest)

def takeFraction (whole : List Char) (text : List Char) : Option (List Char) × List Char :=
  match text with
  | '.' :: rest =>
    let (digits, after) := takeDigits rest
    if whole.isEmpty && digits.isEmpty then (none, text) else (some digits, after)
  | _ => (none, text)

def isExponentMark (character : Char) : Bool := character = 'e' || character = 'E'

/-- An exponent: mark, optional sign, digits. Without digits there is none. -/
def takeExponent (text : List Char) : Option (Bool × List Char) × List Char :=
  match text with
  | mark :: rest =>
    if isExponentMark mark then
      let (negative, unsigned) := takeSign rest
      let (digits, after) := takeDigits unsigned
      if digits.isEmpty then (none, text) else (some (negative, digits), after)
    else (none, text)
  | [] => (none, text)

/-- The numeral that a text begins with. -/
def take? (text : List Char) : Option (Numeral × List Char) :=
  let (whole, afterWhole) := takeDigits text
  let (fraction, afterFraction) := takeFraction whole afterWhole
  if whole.isEmpty && fraction.isNone then none
  else
    let (exponent, rest) := takeExponent afterFraction
    some (⟨whole, fraction, exponent⟩, rest)

/-- From this size on an exponent is large enough, and its further digits are passed over. -/
def ampleExponent : Nat := 65536

def exponentSize (digits : List Char) : Nat :=
  digits.foldl
    (fun size digit =>
      if size < ampleExponent then 10 * size + Integer.digitValue digit else size)
    0

def power (numeral : Numeral) : Int :=
  match numeral.exponent with
  | none => 0
  | some (negative, digits) =>
    if negative then -(exponentSize digits : Int) else exponentSize digits

def toFloat (negative : Bool) (numeral : Numeral) : Float :=
  let fraction := numeral.fraction.getD []
  Binary64.ofDecimal negative (Integer.ofDigits (numeral.whole ++ fraction))
    (numeral.power - fraction.length)

/-- An integer if written as one and in range, else a float. -/
def toNumeric (negative : Bool) (numeral : Numeral) : Numeric :=
  if numeral.fraction.isNone && numeral.exponent.isNone then
    let magnitude : Int := Integer.ofDigits numeral.whole
    match Integer.fit? (if negative then -magnitude else magnitude) with
    | some value => .int value
    | none => .float (numeral.toFloat negative)
  else .float (numeral.toFloat negative)

end Numeral

namespace Numeric

def isBlank (character : Char) : Bool :=
  character = ' ' || character = '\t' || character = '\n' || character = '\r' ||
    character = '\x0b' || character = '\x0c'

/-- The number that a text begins with behind blanks. -/
def take? (text : List Char) : Option (Numeric × List Char) :=
  let (negative, unsigned) := Numeral.takeSign (text.dropWhile isBlank)
  (Numeral.take? unsigned).map fun (numeral, rest) => (numeral.toNumeric negative, rest)

/-- The number that a whole text is, up to blanks. -/
def parse? (text : String) : Option Numeric :=
  match take? text.toList with
  | some (number, rest) => if rest.all isBlank then some number else none
  | none => none

/-- The number that a text begins with, or zero. -/
def leading (text : String) : Numeric :=
  match take? text.toList with
  | some (number, _) => number
  | none => .int 0

def toFloat : Numeric → Float
  | .int value => Binary64.ofInt64 value
  | .float value => value

def toInt64 : Numeric → Int64
  | .int value => value
  | .float value => Binary64.toInt64 value

def compare? : Numeric → Numeric → Option Ordering
  | .int left, .int right => some (compare left.toInt right.toInt)
  | left, right => Binary64.compare? left.toFloat right.toFloat

/-- A result that is exact in range, and else a float. -/
def ofExact (result : Int) (fallback : Float) : Numeric :=
  match Integer.fit? result with
  | some value => .int value
  | none => .float fallback

/-- Sums of integers out of range are floats. -/
def add : Numeric → Numeric → Numeric
  | .int left, .int right =>
    ofExact (left.toInt + right.toInt) (Binary64.ofInt64 left + Binary64.ofInt64 right)
  | left, right => .float (left.toFloat + right.toFloat)

def sub : Numeric → Numeric → Numeric
  | .int left, .int right =>
    ofExact (left.toInt - right.toInt) (Binary64.ofInt64 left - Binary64.ofInt64 right)
  | left, right => .float (left.toFloat - right.toFloat)

def mul : Numeric → Numeric → Numeric
  | .int left, .int right =>
    ofExact (left.toInt * right.toInt) (Binary64.ofInt64 left * Binary64.ofInt64 right)
  | left, right => .float (left.toFloat * right.toFloat)

/-- The quotient by a divisor other than zero: an integer when it is exact and in range. -/
def div : Numeric → Numeric → Numeric
  | .int left, .int right =>
    let fallback := Binary64.ofInt64 left / Binary64.ofInt64 right
    if left.toInt.tmod right.toInt = 0 then ofExact (left.toInt.tdiv right.toInt) fallback
    else .float fallback
  | left, right => .float (left.toFloat / right.toFloat)

def neg : Numeric → Numeric
  | .int value => ofExact (-value.toInt) (-(Binary64.ofInt64 value))
  | .float value => .float (-value)

end Numeric

end PhpScript
