import PhpScript.Value.Basic

/-!
# Comparison of values

Truth values and null compare by truth, except that null against a text is the empty text; a number
against a numeric text compares as a number, against any other text as a text; an array is greater
than everything else, and of two arrays the longer one. Some values cannot be ordered at all.
-/

namespace PhpScript.Value

/-- What of a value matters when it is compared with a value of another type. -/
inductive Comparand where
  | null
  | bool
  | number (value : Numeric)
  | text (value : String)
  | array

def comparand : Value → Comparand
  | .void | .null => .null
  | .bool _ => .bool
  | .int value => .number (.int value)
  | .float value => .number (.float value)
  | .str value => .text value
  | .array _ => .array

def compareNumberText (number : Numeric) (text : String) : Option Ordering :=
  match Numeric.parse? text with
  | some other => number.compare? other
  | none => some (compare number.toValue.toText text)

def compareTexts (left right : String) : Option Ordering :=
  match Numeric.parse? left, Numeric.parse? right with
  | some leftNumber, some rightNumber => leftNumber.compare? rightNumber
  | _, _ => some (compare left right)

/-- The order of two values that are not both arrays. -/
def compareFlat (left right : Value) : Option Ordering :=
  match left.comparand, right.comparand with
  | .null, .null => some .eq
  | .null, .text text => some (compare "" text)
  | .text text, .null => some (compare text "")
  | .null, _ | _, .null | .bool, _ | _, .bool => some (compare left.toBool right.toBool)
  | .text leftText, .text rightText => compareTexts leftText rightText
  | .number leftNumber, .number rightNumber => leftNumber.compare? rightNumber
  | .number number, .text text => compareNumberText number text
  | .text text, .number number => (compareNumberText number text).map Ordering.swap
  | .array, _ => some .gt
  | _, .array => some .lt

mutual

/-- How two values compare; none if they do not. -/
def compare? : Value → Value → Option Ordering
  | .array ⟨left⟩, .array ⟨right⟩ =>
    match compare left.length right.length with
    | .eq => compareEntries left right
    | order => some order
  | left, right => compareFlat left right

/-- Arrays of one size compare by the left keys. -/
def compareEntries : List (Key × Value) → List (Key × Value) → Option Ordering
  | [], _ => some .eq
  | (key, left) :: rest, right =>
    match Table.lookup key right with
    | none => none
    | some other =>
      match left.compare? other with
      | some .eq => compareEntries rest right
      | order => order

end

mutual

/-- Equality after conversion; arrays are equal when they have the same keys, in any order, with
equal elements. -/
def looselyEqual : Value → Value → Bool
  | .array ⟨left⟩, .array ⟨right⟩ => left.length = right.length && looselyContained left right
  | left, right => compareFlat left right == some .eq

/-- The right entries have the left keys and equal values. -/
def looselyContained : List (Key × Value) → List (Key × Value) → Bool
  | [], _ => true
  | (key, left) :: rest, right =>
    (match Table.lookup key right with
    | none => false
    | some other => left.looselyEqual other) && looselyContained rest right

end

def spaceship (left right : Value) : Int64 :=
  match left.compare? right with
  | some .lt => -1
  | some .eq => 0
  | some .gt | none => 1

end PhpScript.Value
