import PhpScript.Number.Scientific

/-!
# Float text

Which exponents are written positionally, how an exponent is marked, and whether a whole number
keeps a point. The digits themselves come from `Scientific`.
-/

namespace PhpScript

/-- How many digits are written. -/
inductive Precision where
  | digits (count : Nat)
  | shortest

structure FloatFormat where
  /-- The exponents, first and last, that are written positionally; all of them if absent. -/
  positional : Option (Int × Int)
  keepsPoint : Bool
  forcesFraction : Bool
  exponentMark : String
  negativeExponentMark : String
  notANumber : String
  infinite : String

namespace FloatFormat

def digitsOf (precision : Precision) (significand : Nat) (exponent : Int) : List Char × Int :=
  let number :=
    match precision with
    | .digits count =>
      let (numerator, denominator) := Binary64.ratio significand exponent
      Scientific.rounded count numerator denominator
    | .shortest => Scientific.shortest significand exponent
  (number.trimmedDigits, number.exponent)

def writePositional (format : FloatFormat) (digits : List Char) (exponent : Int) : String :=
  let text := Scientific.positional digits exponent
  if format.keepsPoint && (digits.length : Int) ≤ exponent + 1 then text ++ ".0" else text

def writeExponential (format : FloatFormat) (digits : List Char) (exponent : Int) : String :=
  let mark := if exponent < 0 then format.negativeExponentMark else format.exponentMark
  let fraction :=
    match digits.drop 1 with
    | [] => if format.forcesFraction then ".0" else ""
    | rest => "." ++ String.ofList rest
  String.ofList (digits.take 1) ++ fraction ++ mark ++ toString exponent.natAbs

def writeDigits (format : FloatFormat) (digits : List Char) (exponent : Int) : String :=
  match format.positional with
  | none => format.writePositional digits exponent
  | some (first, last) =>
    if first ≤ exponent && exponent ≤ last then format.writePositional digits exponent
    else format.writeExponential digits exponent

/-- The text of a float. -/
def write (format : FloatFormat) (precision : Precision) (float : Float) : String :=
  let sign := fun negative : Bool => if negative then "-" else ""
  match Binary64.decode float with
  | .nan => format.notANumber
  | .infinite negative => sign negative ++ format.infinite
  | .finite negative 0 _ => sign negative ++ if format.keepsPoint then "0.0" else "0"
  | .finite negative significand exponent =>
    let (digits, leading) := digitsOf precision significand exponent
    sign negative ++ format.writeDigits digits leading

/-- How scripts print floats: positional from `0.0001` up to as many digits as are shown. -/
def script (limit : Int) : FloatFormat where
  positional := some (-4, limit - 1)
  keepsPoint := false
  forcesFraction := true
  exponentMark := "E+"
  negativeExponentMark := "E-"
  notANumber := "NAN"
  infinite := "INF"

def plain : FloatFormat where
  positional := none
  keepsPoint := false
  forcesFraction := false
  exponentMark := ""
  negativeExponentMark := ""
  notANumber := "NaN"
  infinite := "inf"

/-- Listings of tokens: a whole number keeps its point, and numbers below `0.0001` or of more than
sixteen digits before the point have an exponent. -/
def listing : FloatFormat where
  positional := some (-4, 15)
  keepsPoint := true
  forcesFraction := false
  exponentMark := "e"
  negativeExponentMark := "e-"
  notANumber := "NaN"
  infinite := "inf"

/-- Data interchange: as in listings, but positional from `0.00001` on, and with a sign in front of
every exponent. -/
def interchange : FloatFormat :=
  { listing with positional := some (-5, 15), exponentMark := "e+" }

end FloatFormat

namespace FloatText

/-- A float converted to text. -/
def shown (float : Float) : String := (FloatFormat.script 14).write (.digits 14) float

/-- The shortest text that gives the float back. -/
def exact (float : Float) : String := (FloatFormat.script 15).write .shortest float

end FloatText

end PhpScript
