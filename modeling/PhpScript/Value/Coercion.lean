import PhpScript.Value.Basic

/-!
# Values against declared types

Scalars of other types than the declared ones are converted where the conversion loses nothing that
the declaration cares about, preferring integers to floats, floats to texts and texts to truth
values; an integer where a float is declared is widened before anything else is tried.
-/

namespace PhpScript.Value

/-- A value is of a type as it is. -/
def hasType (value : Value) (type : TypeName) : Bool :=
  match type, value with
  | .mixed, _ => true
  | .null, .null | .null, .void => true
  | .bool, .bool _ => true
  | .false, .bool flag => !flag
  | .true, .bool flag => flag
  | .int, .int _ => true
  | .float, .float _ => true
  | .string, .str _ => true
  | .array, .array _ | .iterable, .array _ => true
  | .callable, .str _ | .callable, .array _ => true
  | _, _ => false

/-- The floats without fraction below this bound convert to integers. -/
def integralBound : Nat := 9200000000000000000

def integral? (number : Float) : Option Int64 := do
  let whole ← Binary64.truncate? number
  if Binary64.isIntegral number && whole.natAbs < integralBound then return Integer.wrap whole
  else none

/-- The value of a type that another converts to. -/
def convert? (value : Value) (type : TypeName) : Option Value :=
  match type, value with
  | .int, .bool flag => some (.int (ofFlag flag))
  | .int, .float number => (integral? number).map .int
  | .int, .str text =>
    match Numeric.parse? text with
    | some (.int number) => some (.int number)
    | some (.float number) => (integral? number).map .int
    | none => none
  | .float, .bool flag => some (.float (Binary64.ofInt64 (ofFlag flag)))
  | .float, .int number => some (.float (Binary64.ofInt64 number))
  | .float, .str text => (Numeric.parse? text).map fun number => .float number.toFloat
  | .string, .bool _ | .string, .int _ | .string, .float _ => some (.str value.toText)
  | .bool, .int _ | .bool, .float _ | .bool, .str _ => some (.bool value.toBool)
  | _, _ => none

def conversionOrder : List TypeName := [.int, .float, .string, .bool]

/-- The value under which a declaration with the given alternatives accepts a value. Without
alternatives everything is accepted. -/
def coerce? (value : Value) (types : List TypeName) : Option Value :=
  if types.isEmpty || types.any value.hasType then some value
  else
    match value with
    | .int number =>
      if types.contains .float then some (.float (Binary64.ofInt64 number))
      else (conversionOrder.filter types.contains).findSome? value.convert?
    | _ => (conversionOrder.filter types.contains).findSome? value.convert?

end PhpScript.Value
