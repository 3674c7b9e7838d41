import PhpScript.Number.FloatFormat
import PhpScript.Number.Numeric
import PhpScript.TypeName
import PhpScript.Value.Key

/-!
# Values

Values convert into each other freely; the conversions here are total and silent. `Value.void` is
what a function without a returned value hands back. It behaves like null and is told apart only
where a declared type asks for it.
-/

namespace PhpScript

/-- Values; `void` is what is left without one. -/
inductive Value where
  | void
  | null
  | bool (value : Bool)
  | int (value : Int64)
  | float (value : Float)
  | str (value : String)
  | array (elements : Table Key Value)

instance : Inhabited Value := ⟨.null⟩

def Key.toValue : Key → Value
  | .int index => .int index
  | .str name => .str name

def Numeric.toValue : Numeric → Value
  | .int value => .int value
  | .float value => .float value

namespace Value

def ofFlag (flag : Bool) : Int64 := if flag then 1 else 0

def isNull : Value → Bool
  | .void | .null => true
  | _ => false

def isScalar : Value → Bool
  | .bool _ | .int _ | .float _ | .str _ => true
  | _ => false

def isArray : Value → Bool
  | .array _ => true
  | _ => false

def toBool : Value → Bool
  | .void | .null => false
  | .bool value => value
  | .int value => value ≠ 0
  | .float value => !Binary64.isZero value
  | .str value => !(value = "" || value = "0")
  | .array elements => !elements.isEmpty

/-- A value as a number, without reports. -/
def toNumeric : Value → Numeric
  | .void | .null => .int 0
  | .bool value => .int (ofFlag value)
  | .int value => .int value
  | .float value => .float value
  | .str value => Numeric.leading value
  | .array elements => .int (ofFlag (!elements.isEmpty))

def toInt (value : Value) : Int64 := value.toNumeric.toInt64

def toFloat (value : Value) : Float := value.toNumeric.toFloat

def toText : Value → String
  | .void | .null => ""
  | .bool value => if value then "1" else ""
  | .int value => Integer.render value
  | .float value => FloatText.shown value
  | .str value => value
  | .array _ => "Array"

def toTable : Value → Table Key Value
  | .array elements => elements
  | .void | .null => Table.empty
  | scalar => Table.ofValues [scalar]

def type : Value → TypeName
  | .void => .void
  | .null => .null
  | .bool _ => .bool
  | .int _ => .int
  | .float _ => .float
  | .str _ => .string
  | .array _ => .array

def typeOrNull (value : Value) : TypeName :=
  if value.isNull then .null else value.type

def longTypeName : Value → String
  | .void | .null => "NULL"
  | .bool _ => "boolean"
  | .int _ => "integer"
  | .float _ => "double"
  | .str _ => "string"
  | .array _ => "array"

def orNull : Value → Value
  | .void => .null
  | value => value

mutual

/-- Same type and same value; arrays agree in their keys, in the order of these, and in their
elements. -/
def identical : Value → Value → Bool
  | .bool left, .bool right => left = right
  | .int left, .int right => left = right
  | .float left, .float right => Binary64.equals left right
  | .str left, .str right => left = right
  | .array ⟨left⟩, .array ⟨right⟩ => identicalEntries left right
  | left, right => left.isNull && right.isNull

def identicalEntries : List (Key × Value) → List (Key × Value) → Bool
  | [], [] => true
  | (leftKey, left) :: leftRest, (rightKey, right) :: rightRest =>
    leftKey = rightKey && left.identical right && identicalEntries leftRest rightRest
  | _, _ => false

end

end Value

end PhpScript
