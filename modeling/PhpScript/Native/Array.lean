import PhpScript.Signature
import PhpScript.Value.Compare
import PhpScript.Value.Path

/-!
# Native functions on arrays

The two functions in `ReferenceFunction` change the array that they are given: they also compute
what is to be stored in the variable that was passed.
-/

namespace PhpScript

/-- Functions on arrays. -/
inductive ArrayFunction where
  | keyExists | keyFirst | keyLast | keys | sum | values | count | contains
deriving DecidableEq

namespace ArrayFunction

def names : List (String × ArrayFunction) :=
  [("array_key_exists", .keyExists), ("key_exists", .keyExists), ("array_key_first", .keyFirst),
    ("array_key_last", .keyLast), ("array_keys", .keys), ("array_sum", .sum),
    ("array_values", .values), ("count", .count), ("sizeof", .count), ("in_array", .contains)]

def ofArray (function : String) : Signature := ⟨function, [.required "$array" [.array]]⟩

def signature : ArrayFunction → Signature
  | .keyExists =>
    ⟨"array_key_exists", [.required "$key" [.string, .int, .float, .bool, .null],
      .required "$array" [.array]]⟩
  | .keyFirst => ofArray "array_key_first"
  | .keyLast => ofArray "array_key_last"
  | .keys =>
    ⟨"array_keys", [.required "$array" [.array], .optional "$filter_value" [.mixed] .null,
      .optional "$strict" [.bool] (.bool false)]⟩
  | .sum => ofArray "array_sum"
  | .values => ofArray "array_values"
  | .count => ⟨"count", [.required "$value" [.array], .optional "$mode" [.int] (.int 0)]⟩
  | .contains =>
    ⟨"in_array", [.required "$needle" [.mixed], .required "$haystack" [.array],
      .optional "$strict" [.bool] (.bool false)]⟩

def elements : Value → Table Key Value
  | .array table => table
  | _ => Table.empty

def keyValue (key : Option Key) : Value := (key.map Key.toValue).getD .null

def isMatch (strict : Bool) (wanted value : Value) : Bool :=
  if strict then value.identical wanted else value.looselyEqual wanted

mutual

/-- The elements of an array and of those inside. -/
def deepCount : Value → Nat
  | .array ⟨entries⟩ => deepCountEntries entries
  | _ => 0

def deepCountEntries : List (Key × Value) → Nat
  | [] => 0
  | (_, element) :: rest => 1 + deepCount element + deepCountEntries rest

end

def sumFrom (total : Numeric) : List Value → Checked Numeric
  | [] => return total
  | value :: rest => do
    if value.isArray then
      Checked.warn .sumOfArray
      sumFrom total rest
    else sumFrom (total.add value.toNumeric) rest

/-- The result of a function for arguments that its signature has bound; `given` is the number of
arguments in the call. -/
def apply (function : ArrayFunction) (given : Nat) (arguments : List Value) : Checked Value := do
  match function, arguments with
  | .keyExists, [key, array] =>
    let key ← MonadExcept.ofExcept (Key.ofValue key)
    return .bool ((elements array).contains key)
  | .keyFirst, [array] => return keyValue (elements array).keys.head?
  | .keyLast, [array] => return keyValue (elements array).keys.getLast?
  | .keys, [array, wanted, strict] =>
    let chosen := (elements array).entries.filter fun (_, value) =>
      given < 2 || isMatch strict.toBool wanted value
    return .array (Table.ofValues (chosen.map fun (key, _) => key.toValue))
  | .sum, [array] => return (← sumFrom (.int 0) (elements array).values).toValue
  | .values, [array] => return .array (Table.ofValues (elements array).values)
  | .count, [array, mode] =>
    let size := if mode.toInt = 1 then deepCount array else (elements array).size
    return .int (Int64.ofNat size)
  | .contains, [wanted, array, strict] =>
    return .bool ((elements array).values.any (isMatch strict.toBool wanted))
  | _, _ => return .null

end ArrayFunction

/-- Functions that change the array in a place. -/
inductive ReferenceFunction where
  | pop | push
deriving DecidableEq

namespace ReferenceFunction

def names : List (String × ReferenceFunction) := [("array_pop", .pop), ("array_push", .push)]

def signature : ReferenceFunction → Signature
  | .pop => ⟨"array_pop", [.required "$array" [.array]]⟩
  | .push => ⟨"array_push", [.required "$array" [.array], .variadic "$values" [.mixed]]⟩

/-- Append values; none if an index is missing for one. -/
def pushAll? (table : Table Key Value) : List Value → Option (Table Key Value)
  | [] => some table
  | value :: rest => (table.push? value).bind (pushAll? · rest)

def popLast (table : Table Key Value) : Value × Table Key Value :=
  match table.entries.getLast? with
  | none => (.null, table)
  | some (key, value) => (value, table.erase key)

/-- The result of a function for arguments that its signature has bound, and what is to be stored
in the variable. -/
def apply (function : ReferenceFunction) (arguments : List Value) :
    Checked (Value × Option Value) := do
  match function, arguments with
  | .pop, [array] =>
    let (value, rest) := popLast (ArrayFunction.elements array)
    return (value, some (.array rest))
  | .push, [array, values] =>
    match pushAll? (ArrayFunction.elements array) (ArrayFunction.elements values).values with
    | some table => return (.int (Int64.ofNat table.size), some (.array table))
    | none =>
      Checked.warn .nextElementOccupied
      return (.bool false, none)
  | _, _ => return (.null, none)

end ReferenceFunction

end PhpScript
