import PhpScript.Run.Machine

/-!
# Declared functions

How functions are declared, and how the arguments and the result of a call are checked against the
declaration.
-/

namespace PhpScript

mutual

/-- The functions that a statement declares ahead of its run. -/
def Stmt.topFunctions : Stmt → List UserFunction
  | .function declaration => [declaration]
  | .block body => Stmt.topFunctionsOf body
  | _ => []

def Stmt.topFunctionsOf : List (Located Stmt) → List UserFunction
  | [] => []
  | ⟨statement, _⟩ :: rest => statement.topFunctions ++ Stmt.topFunctionsOf rest

end

namespace FunctionDecl

variable {σ : Type}

def countProblem (function : FunctionDecl σ) (given : Nat) : Problem :=
  let required := function.requiredCount
  let bound :=
    if required = function.parameters.length && !function.isVariadic then .exactly else .atLeast
  .tooFewArguments function.name.node given bound required

/-- The result of a call whose body ended with a value. Without a declared type an absent value is
null; a declaration that nothing is returned makes every value null. -/
def checkReturn (function : FunctionDecl σ) (value : Value) : Except Problem Value :=
  match function.returnType with
  | none => .ok value.orNull
  | some hint =>
    if hint.types.contains .void then .ok .null
    else
      match value with
      | .void => .error (.returnMissing function.name.node hint.render)
      | _ =>
        match value.coerce? hint.types with
        | some result => .ok result
        | none => .error (.returnType function.name.node hint.render value.type)

end FunctionDecl

namespace ParameterDecl

def variableName (parameter : ParameterDecl) : String :=
  String.ofList (parameter.name.node.toList.dropWhile (· = '$'))

/-- What a parameter takes for an argument. -/
def accept (parameter : ParameterDecl) (function : String) (position : Nat) (argument : Value) :
    Except Problem Value :=
  match parameter.type with
  | none => .ok argument
  | some hint =>
    match argument.coerce? hint.types with
    | some value => .ok value
    | none =>
      .error (.argumentType function position parameter.name.node hint.render argument.type)

def acceptAll (parameter : ParameterDecl) (function : String) (position : Nat)
    (arguments : List Value) : Except Problem (List Value) :=
  acceptRemaining (parameter.accept function) position 0 arguments

end ParameterDecl

namespace Run

/-- Declare a function, once. -/
def declareFunction (declaration : UserFunction) : Run Unit := do
  if (← get).declared.contains declaration.id then return
  modify fun machine => { machine with declared := declaration.id :: machine.declared }
  let machine ← get
  let root ← ofExcept (machine.scopes.root.declareFunction ⟨declaration, machine.file⟩)
  modifyScopes fun scopes => { scopes with root }

/-- Declare functions ahead of a run. -/
def hoist (statements : List (Located Stmt)) : Run Unit :=
  (Stmt.topFunctionsOf statements).forM declareFunction

end Run

end PhpScript
