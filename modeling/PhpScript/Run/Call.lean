import PhpScript.Run.Evaluator
import PhpScript.Run.Native

/-!
# Calls

A call evaluates its arguments from the first to the last and then runs the function. A native
function that changes its first argument is given the place of it: the place is read before the
other arguments are evaluated and written after the call.
-/

namespace PhpScript.Evaluator

variable (self : Evaluator)

/-- Give the parameters of a function their values in the scope of the call. Parameters without an
argument take their defaults, which see the parameters before them. -/
def bindParameters (function : String) (position : Nat) :
    List ParameterDecl → List Value → Run Unit
  | [], _ => return
  | parameter :: parameters, arguments => do
    if parameter.isVariadic then
      let values ← Run.ofExcept (parameter.acceptAll function position arguments)
      Run.modifyScopes (·.store parameter.variableName (.array (Table.ofValues values)))
      bindParameters function (position + 1) parameters []
    else
      match arguments with
      | argument :: rest =>
        let value ← Run.ofExcept (parameter.accept function position argument)
        Run.modifyScopes (·.store parameter.variableName value)
        bindParameters function (position + 1) parameters rest
      | [] =>
        let value ←
          match parameter.fallback with
          | some expression => self.expression expression
          | none => pure .null
        Run.modifyScopes (·.store parameter.variableName value)
        bindParameters function (position + 1) parameters []

/-- Bind parameters and run the body in a new scope. -/
def runFunction (function : UserFunction) (arguments : List Value) : Run Flow :=
  Run.inCall function.name.node do
    self.bindParameters function.name.node 1 function.parameters arguments
    Run.inBody (self.block function.body)

/-- Count the arguments, run the function and check what it returns. -/
def runDeclared (function : DeclaredFunction) (arguments : List Value) : Run Value := do
  if arguments.length < function.declaration.requiredCount then
    Run.fail (function.declaration.countProblem arguments.length)
  else
    let flow ← Run.inFile function.file (self.runFunction function.declaration arguments)
    let value :=
      match flow with
      | .ret value => value
      | _ => .void
    Run.ofExcept (function.declaration.checkReturn value)

/-- Run a function unless too many bodies are open. -/
def callDeclared (function : DeclaredFunction) (arguments : List Value) : Run Value := do
  let machine ← get
  if machine.settings.nestingLimit ≤ machine.depth then
    Run.fail (.nestingLimit machine.settings.nestingLimit)
  else self.runDeclared function arguments

/-- Call the function that a name stands for. -/
def callFunction (name : String) (span : Span) (arguments : List Value) : Run Value := do
  let root := (← get).scopes.root
  match root.native? name with
  | some native => return (← native.call span arguments).1
  | none =>
    match root.function? name with
    | some function => self.function function arguments
    | none => Run.fail (.undefinedFunction name)

/-- Call a native function that changes its first argument in place. -/
def callOnPlace (native : Native) (name : String) (span : Span) (first : Located Expr)
    (rest : List (Located Expr)) : Run Value := do
  if !first.node.isPlace then Run.fail (.notByReference name)
  else
    let place ← self.place first
    let current := (← place.quiet?).getD .null
    let others ← self.values rest
    let (result, changed) ← native.call span (current :: others)
    match changed with
    | some value =>
      place.store value
      return result
    | none => return result

/-- Call by a name, arguments first. -/
def callNamed (name : String) (span : Span) (arguments : List (Located Expr)) : Run Value := do
  match (← get).scopes.root.native? name, arguments with
  | some (.reference function), first :: rest =>
    self.callOnPlace (.reference function) name span first rest
  | _, _ =>
    let values ← self.values arguments
    self.callFunction name span values

def call (callee : Callee Expr) (span : Span) (arguments : List (Located Expr)) : Run Value := do
  match callee with
  | .name name => self.callNamed name span arguments
  | .dynamic expression =>
    match ← self.expression expression with
    | .str name => self.callNamed name span arguments
    | _ => Run.fail .notCallable

end PhpScript.Evaluator
