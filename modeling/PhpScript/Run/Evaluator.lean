import PhpScript.Run.Function
import PhpScript.Run.Place

/-!
# Evaluators

What code does is defined in steps that hand the parts of a construct to an evaluator; the evaluator
of a bound on the depth of steps uses the one of the next smaller bound.
-/

namespace PhpScript

/-- How parts of the code are run, and how many passes a loop has. -/
structure Evaluator where
  passes : Nat
  expression : Located Expr → Run Value
  statement : Located Stmt → Run Flow
  function : DeclaredFunction → List Value → Run Value

namespace Evaluator

variable (self : Evaluator)

def values : List (Located Expr) → Run (List Value)
  | [] => return []
  | expression :: rest => do
    let value ← self.expression expression
    let others ← values rest
    return value :: others

def text (expression : Located Expr) : Run String := do
  let value ← self.expression expression
  Run.stringify expression.span value

def variableName (span : Span) : VariableName Expr → Run String
  | .simple name => return name
  | .dynamic expression => do
    let value ← self.expression expression
    Run.stringify span value

/-- The place that an expression denotes. -/
def placeAt (span : Span) : Expr → Run Place
  | .variable name => return { name := ← self.variableName span name, span }
  | .subscript ⟨base, baseSpan⟩ index => do
    let place ← placeAt baseSpan base
    match index with
    | some index =>
      let key ← self.expression index
      return { place with keys := place.keys ++ [some key] }
    | none => return { place with keys := place.keys ++ [none] }
  | _ => Run.fail .assignToExpression

def place (target : Located Expr) : Run Place := self.placeAt target.span target.node

/-- The value of an operand that may be missing. A missing variable or subscript gives nothing, and
other operands are evaluated without reports. -/
def quietAt? (span : Span) (operand : Expr) : Run (Option Value) := do
  if operand.isPlace then
    let place ← self.placeAt span operand
    place.quiet?
  else
    match operand with
    | .subscript ⟨base, baseSpan⟩ (some index) =>
      let container ← quietAt? baseSpan base
      let key ← self.expression index
      return container.bind (·.quietPath? [key])
    | operand => return some (← Run.silently (self.expression ⟨operand, span⟩))

def quiet? (operand : Located Expr) : Run (Option Value) := self.quietAt? operand.span operand.node

/-- A value that is there and not null. -/
def present? (operand : Located Expr) : Run (Option Value) :=
  return (← self.quiet? operand).filter fun value => !value.isNull

/-- Statements in turn, until one leaves them. -/
def block : List (Located Stmt) → Run Flow
  | [] => return .normal
  | statement :: rest => do
    match ← self.statement statement with
    | .normal => block rest
    | flow => return flow

/-- Functions are declared before statements run. -/
def program (program : Program) : Run Flow :=
  Run.inFile ⟨program.filename, program.lines⟩ do
    Run.hoist program.statements
    Run.outsideLoops (self.block program.statements)

end Evaluator

end PhpScript
