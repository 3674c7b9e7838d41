import PhpScript.Problem
import PhpScript.Value.Coercion

/-!
# Signatures of native functions

Binding a list of arguments checks their number and types, fills in defaults, and collects the
arguments behind a variadic parameter in an array, so that the function gets one value for each
parameter.
-/

namespace PhpScript

/-- A parameter of a native function. Its name is written with the dollar sign. -/
structure Parameter where
  name : String
  types : List TypeName
  fallback : Option Value := none
  isVariadic : Bool := false

namespace Parameter

def required (name : String) (types : List TypeName) : Parameter := { name, types }

/-- A parameter with a default. A default of null is accepted as an argument too. -/
def optional (name : String) (types : List TypeName) (fallback : Value) : Parameter :=
  let admitsNull := types.contains .null || types.contains .mixed
  { name
    types := if fallback.isNull && !admitsNull then types ++ [.null] else types
    fallback }

def variadic (name : String) (types : List TypeName) : Parameter :=
  { name, types, isVariadic := true }

def isRequired (parameter : Parameter) : Bool :=
  parameter.fallback.isNone && !parameter.isVariadic

end Parameter

/-- The values of the arguments that are left for a variadic parameter, given how an argument at a
position is accepted. They become the elements of an array: the element at `index` needs a key. -/
def acceptRemaining (accept : Nat → Value → Except Problem Value) (position index : Nat) :
    List Value → Except Problem (List Value)
  | [] => .ok []
  | argument :: rest => do
    let value ← accept position argument
    if (Integer.fit? index).isNone then throw .nextElementOccupied
    let values ← acceptRemaining accept (position + 1) (index + 1) rest
    return value :: values

/-- What a native function takes. -/
structure Signature where
  function : String
  parameters : List Parameter

namespace Signature

def requiredCount (signature : Signature) : Nat :=
  (signature.parameters.takeWhile Parameter.isRequired).length

def isVariadic (signature : Signature) : Bool :=
  signature.parameters.getLast?.any Parameter.isVariadic

/-- What a wrong count of arguments is reported as. -/
def countProblem (signature : Signature) (given : Nat) : Problem :=
  let required := signature.requiredCount
  let most := signature.parameters.length
  if given < required then
    let bound := if required = most && !signature.isVariadic then .exactly else .atLeast
    .argumentCount signature.function bound required given
  else
    .argumentCount signature.function (if required = most then .exactly else .atMost) most given

/-- The value of an argument for a parameter; `position` counts from one. -/
def accept (signature : Signature) (parameter : Parameter) (position : Nat) (argument : Value) :
    Except Problem Value :=
  match argument.coerce? parameter.types with
  | some value => .ok value
  | none =>
    .error (.argumentType signature.function position parameter.name
      (TypeName.renderUnion parameter.types) argument.type)

def acceptAll (signature : Signature) (parameter : Parameter) (position : Nat)
    (arguments : List Value) : Except Problem (List Value) :=
  acceptRemaining (signature.accept parameter) position 0 arguments

/-- The values of parameters in turn, from a position on. -/
def acceptFrom (signature : Signature) (position : Nat) :
    List Parameter → List Value → Except Problem (List Value)
  | [], _ => .ok []
  | parameter :: parameters, arguments =>
    if parameter.isVariadic then do
      let values ← signature.acceptAll parameter position arguments
      return [.array (Table.ofValues values)]
    else
      match arguments with
      | argument :: rest => do
        let value ← signature.accept parameter position argument
        let values ← signature.acceptFrom (position + 1) parameters rest
        return value :: values
      | [] => do
        let values ← signature.acceptFrom (position + 1) parameters []
        return parameter.fallback.getD .void :: values

/-- The values of all parameters for a call. -/
def bind (signature : Signature) (arguments : List Value) : Except Problem (List Value) :=
  let given := arguments.length
  if given < signature.requiredCount
      || (!signature.isVariadic && signature.parameters.length < given) then
    .error (signature.countProblem given)
  else signature.acceptFrom 1 signature.parameters arguments

/-- Values for a fixed number of slots. -/
def bindExactly (signature : Signature) (slots : Nat) (arguments : List Value) :
    Except Problem (List Value) := do
  let values ← signature.bind arguments
  if values.length = slots then return values
  else throw (.slotCount signature.function values.length slots)

end Signature

end PhpScript
