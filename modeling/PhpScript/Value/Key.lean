import PhpScript.Table
import PhpScript.Number.Integer

/-!
# Array keys

A text that is the decimal notation of a script integer is never used as a text key: `Key.ofString`
makes the integer key of it, so every element has one key however its subscript is spelled.
-/

namespace PhpScript

/-- A key of an array. -/
inductive Key where
  | int (index : Int64)
  | str (name : String)
deriving DecidableEq

namespace Key

/-- The digits of a positive number without leading zero: the first digit is from one to nine. -/
def isPlainNumeral (digits : List Char) : Bool :=
  match digits with
  | [] => false
  | first :: rest => '1' ≤ first && first ≤ '9' && rest.all Char.isDigit

/-- The integer of which a text is the notation. -/
def integer? (text : String) : Option Int64 :=
  match text.toList with
  | ['0'] => some 0
  | '-' :: digits =>
    if isPlainNumeral digits then Integer.fit? (-(Integer.ofDigits digits : Int)) else none
  | digits =>
    if isPlainNumeral digits then Integer.fit? (Integer.ofDigits digits) else none

def ofString (text : String) : Key :=
  match integer? text with
  | some index => .int index
  | none => .str text

def render : Key → String
  | .int index => Integer.render index
  | .str name => name

end Key

namespace Table

variable {α : Type}

/-- One past the largest index, at least zero. -/
def nextIndex (table : Table Key α) : Int :=
  table.entries.foldl
    (fun next entry =>
      match entry.1 with
      | .int index => max next (index.toInt + 1)
      | .str _ => next)
    0

/-- The key under which an appended element is stored. There is none when the largest integer is
taken. -/
def nextKey? (table : Table Key α) : Option Key := (Integer.fit? table.nextIndex).map Key.int

def push? (table : Table Key α) (value : α) : Option (Table Key α) :=
  table.nextKey?.map fun key => table.insert key value

/-- The table that holds some values under the keys 0, 1, 2 and so on, as far as there are such
keys. -/
def ofValues (values : List α) : Table Key α :=
  ⟨values.zipIdx.filterMap fun (value, index) =>
    (Integer.fit? index).map fun key => (.int key, value)⟩

end Table

end PhpScript
