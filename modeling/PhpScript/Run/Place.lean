import PhpScript.Run.Machine

/-!
# Places

A place is a variable with the subscripts behind it, all of them evaluated.
-/

namespace PhpScript

/-- A variable and the subscripts applied to it. An absent subscript stands for the next free
index. -/
structure Place where
  name : String
  keys : List (Option Value) := []
  span : Span

namespace Place

def keysOr (problem : Problem) (place : Place) : Except Problem (List Value) :=
  place.keys.mapM fun key => key.elim (.error problem) .ok

def readKeys (place : Place) : Run (List Value) := Run.ofExcept (place.keysOr .readAppend)

/-- Read behind a value, reports included. -/
def follow (place : Place) (root : Value) (keys : List Value) : Run Value := do
  match (root.readPath keys).outcome with
  | (problems, .ok value) =>
    Run.warnAll problems place.span
    return value
  | (_, .error problem) => Run.fail problem

/-- Read a place, with reports. -/
def load (place : Place) : Run Value := do
  let keys ← place.readKeys
  match (← get).scopes.lookup place.name with
  | some root => place.follow root keys
  | none =>
    Run.warn (.undefinedVariable place.name) place.span
    place.follow .null keys

/-- Read a place without reports. -/
def quiet? (place : Place) : Run (Option Value) := do
  let keys ← place.readKeys
  return ((← get).scopes.lookup place.name).bind (·.quietPath? keys)

/-- Store a value in a place. A store that fails may have changed the variable already. -/
def store (place : Place) (value : Value) : Run Unit := do
  if place.keys.isEmpty then Run.modifyScopes (·.store place.name value)
  else
    let root ← modifyGet fun machine =>
      let (root, scopes) := machine.scopes.take place.name
      (root.getD .null, { machine with scopes })
    let written := Value.writePath value root place.keys
    Run.modifyScopes (·.store place.name written.slot)
    Run.warnAll written.warnings place.span
    match written.failure with
    | some problem => Run.fail problem
    | none => return

/-- Remove what is in a place. -/
def unset (place : Place) : Run Unit := do
  if place.keys.isEmpty then Run.modifyScopes (·.unset place.name)
  else
    let keys ← Run.ofExcept (place.keysOr .unsetAppend)
    match (← get).scopes.lookup place.name with
    | none => return
    | some root =>
      let changed ← Run.ofExcept (root.unsetPath keys)
      Run.modifyScopes (·.store place.name changed)

end Place

end PhpScript
