import PhpScript.Native.Basic
import PhpScript.Source.SourceFile
import PhpScript.Syntax.Basic
import PhpScript.Text.Lowercase

/-!
# Scopes

A call has a scope of its own inside the global scope. The superglobals and the names that it has
imported belong to the surrounding scope. Names of functions are compared without regard to case.
-/

namespace PhpScript

/-- The variables of a call, and the names it imports. -/
structure LocalScope where
  function : String
  bindings : Table String Value := Table.empty
  imports : List String := []

/-- A function that was declared, with the file that was current then: its calls run in that file.
A table of its own for the files, by the numbers of the declarations, would need a fallback for
numbers without a file; but a function is only ever entered together with its file. -/
structure DeclaredFunction where
  declaration : UserFunction
  file : SourceFile

/-- What is found everywhere. -/
structure GlobalScope where
  bindings : Table String Value := Table.empty
  constants : Table String Value := Table.empty
  functions : Table String DeclaredFunction := Table.empty
  natives : Table String Native := Table.empty

namespace GlobalScope

def register (scope : GlobalScope) (name : String) (native : Native) : GlobalScope :=
  { scope with natives := scope.natives.insert (Text.lowercase name) native }

def native? (scope : GlobalScope) (name : String) : Option Native :=
  scope.natives.get? (Text.lowercase name)

def function? (scope : GlobalScope) (name : String) : Option DeclaredFunction :=
  scope.functions.get? (Text.lowercase name)

def functionExists (scope : GlobalScope) (name : String) : Bool :=
  (scope.native? name).isSome || (scope.function? name).isSome

/-- Declare a function whose name is free. -/
def declareFunction (scope : GlobalScope) (function : DeclaredFunction) :
    Except Problem GlobalScope :=
  let name := function.declaration.name.node
  if scope.functionExists name then .error (.cannotRedeclare name)
  else .ok { scope with functions := scope.functions.insert (Text.lowercase name) function }

def constant? (scope : GlobalScope) (name : String) : Option Value := scope.constants.get? name

def declareConstant (scope : GlobalScope) (name : String) (value : Value) :
    Except Problem GlobalScope :=
  if scope.constants.contains name then .error (.constantDefined name)
  else .ok { scope with constants := scope.constants.insert name value }

end GlobalScope

def superglobals : List String :=
  ["_GET", "_POST", "_COOKIE", "_REQUEST", "_ENV", "_SERVER", "_FILES"]

namespace LocalScope

/-- A name is handed on to the scope outside. -/
def delegates (scope : LocalScope) (name : String) : Bool :=
  superglobals.contains name || scope.imports.contains name

end LocalScope

/-- The scopes in view: those of calls, the innermost first, and the global scope. -/
structure Scopes where
  locals : List LocalScope := []
  root : GlobalScope := {}

namespace Scopes

/-- Look in the innermost scope that does not hand the name on. -/
def lookupIn (name : String) (root : GlobalScope) : List LocalScope → Option Value
  | [] => root.bindings.get? name
  | scope :: outer =>
    if scope.delegates name then lookupIn name root outer else scope.bindings.get? name

def lookup (scopes : Scopes) (name : String) : Option Value :=
  lookupIn name scopes.root scopes.locals

def isDefined (scopes : Scopes) (name : String) : Bool := (scopes.lookup name).isSome

def storeIn (name : String) (value : Value) (root : GlobalScope) : List LocalScope → Scopes
  | [] => ⟨[], { root with bindings := root.bindings.insert name value }⟩
  | scope :: outer =>
    if scope.delegates name then
      let changed := storeIn name value root outer
      ⟨scope :: changed.locals, changed.root⟩
    else ⟨{ scope with bindings := scope.bindings.insert name value } :: outer, root⟩

def store (scopes : Scopes) (name : String) (value : Value) : Scopes :=
  storeIn name value scopes.root scopes.locals

/-- The value of a variable, and the scopes in which null stands in its place, so that the value is
held nowhere else. Where there is no variable, nothing changes. -/
def take (scopes : Scopes) (name : String) : Option Value × Scopes :=
  match scopes.lookup name with
  | some value => (some value, scopes.store name .null)
  | none => (none, scopes)

/-- Remove a variable that is seen through some local scopes. Of an imported name only the import
is removed. -/
def unsetIn (name : String) (root : GlobalScope) : List LocalScope → Scopes
  | [] => ⟨[], { root with bindings := root.bindings.erase name }⟩
  | scope :: outer =>
    if scope.imports.contains name then
      ⟨{ scope with imports := scope.imports.filter (· ≠ name) } :: outer, root⟩
    else if scope.delegates name then
      let changed := unsetIn name root outer
      ⟨scope :: changed.locals, changed.root⟩
    else ⟨{ scope with bindings := scope.bindings.erase name } :: outer, root⟩

def unset (scopes : Scopes) (name : String) : Scopes := unsetIn name scopes.root scopes.locals

/-- Make a name stand for a variable of the surrounding scope. In the global scope this changes
nothing. -/
def importName (scopes : Scopes) (name : String) : Scopes :=
  match scopes.locals with
  | [] => scopes
  | scope :: outer =>
    let imports := if scope.imports.contains name then scope.imports else name :: scope.imports
    { scopes with locals := { scope with imports } :: outer }

def isGlobal (scopes : Scopes) : Bool := scopes.locals.isEmpty

def function? (scopes : Scopes) : Option String := scopes.locals.head?.map (·.function)

end Scopes

end PhpScript
