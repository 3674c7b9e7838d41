import PhpScript.Run.Call
import PhpScript.Run.Include

/-!
# Expressions

Parts are evaluated from left to right, a place before the value that is stored in it.
-/

namespace PhpScript.Evaluator

variable (self : Evaluator)

/-- The parts of a text literal, joined. -/
def interpolate (collected : String) : List (StringPart Expr) → Run String
  | [] => return collected
  | .text text :: rest => interpolate (collected ++ text) rest
  | .code expression :: rest => do
    let text ← self.text expression
    interpolate (collected ++ text) rest

def arrayLiteral (collected : Table Key Value) : List (ArrayItem Expr) → Run Value
  | [] => return .array collected
  | item :: rest => do
    match item.key with
    | some expression =>
      let key ← Run.ofExcept (Key.ofValue (← self.expression expression))
      let value ← self.expression item.value
      arrayLiteral (collected.insert key value) rest
    | none =>
      let value ← self.expression item.value
      match collected.push? value with
      | some longer => arrayLiteral longer rest
      | none =>
        Run.warn .nextElementOccupied item.value.span
        arrayLiteral collected rest

def loadPlace (expression : Located Expr) : Run Value := do
  let place ← self.place expression
  place.load

def subscript (span : Span) (base : Located Expr) (index : Option (Located Expr)) : Run Value := do
  match index with
  | none => Run.fail .readAppend
  | some index =>
    let container ← self.expression base
    let key ← self.expression index
    Run.check span (container.readOffset key)

def constant (name : String) : Run Value := do
  match (← get).scopes.root.constant? name with
  | some value => return value
  | none => Run.fail (.undefinedConstant name)

def magic (span : Span) (constant : MagicConstant) : Run Value := do
  let machine ← get
  match constant with
  | .line => return .int (Int64.ofNat (machine.file.lines.line span.start))
  | .file => return .str machine.file.name
  | .directory =>
    let directory := (Files.Path.parent? machine.file.name).getD ""
    return .str (if directory.isEmpty then "." else directory)
  | .function => return .str (machine.scopes.function?.getD "")

/-- The place comes before the value, and the store last. -/
def assign (target value : Located Expr) : Run Value := do
  let place ← self.place target
  let result ← self.expression value
  place.store result
  return result

def compoundAssign (span : Span) (operator : BinaryOperator) (target value : Located Expr) :
    Run Value := do
  let place ← self.place target
  let current ← place.load
  let operand ← self.expression value
  let result ← Run.check span (Value.binary operator current operand)
  place.store result
  return result

def coalesceAssign (target value : Located Expr) : Run Value := do
  match ← self.present? target with
  | some current => return current
  | none => self.assign target value

def ternary (condition : Located Expr) (consequent : Option (Located Expr))
    (alternative : Located Expr) : Run Value := do
  let value ← self.expression condition
  if value.toBool then
    match consequent with
    | some expression => self.expression expression
    | none => return value
  else self.expression alternative

def coalesce (left right : Located Expr) : Run Value := do
  match ← self.present? left with
  | some value => return value
  | none => self.expression right

/-- An operator on two operands. The second operand of a conjunction or disjunction is evaluated
only if the first one leaves the result open. -/
def binary (span : Span) (left : Located Expr) (operator : BinaryOperator)
    (right : Located Expr) : Run Value := do
  let first ← self.expression left
  match operator with
  | .and =>
    if first.toBool then return .bool (← self.expression right).toBool else return .bool false
  | .or =>
    if first.toBool then return .bool true else return .bool (← self.expression right).toBool
  | operator =>
    let second ← self.expression right
    Run.check span (Value.binary operator first second)

def unary (span : Span) (operator : UnaryOperator) (operand : Located Expr) : Run Value := do
  let value ← self.expression operand
  Run.check span (Value.unary operator value)

def cast (span : Span) (type : CastType) (operand : Located Expr) : Run Value := do
  let value ← self.expression operand
  match type with
  | .int => return .int value.toInt
  | .float => return .float value.toFloat
  | .string => return .str (← Run.stringify span value)
  | .bool => return .bool value.toBool
  | .array => return .array value.toTable

/-- Count a place up or down, for the value before or after. -/
def step (operator : StepOperator) (before : Bool) (target : Located Expr) : Run Value := do
  let place ← self.place target
  let old ← place.load
  let new ← Run.check target.span (Value.step operator old)
  place.store new
  return if before then new else old

def printValue (operand : Located Expr) : Run Value := do
  let text ← self.text operand
  Run.print text
  return .int 1

/-- All operands are there. -/
def isset : List (Located Expr) → Run Value
  | [] => return .bool true
  | target :: rest => do
    match ← self.present? target with
    | some _ => isset rest
    | none => return .bool false

def isEmpty (target : Located Expr) : Run Value :=
  return .bool (!(← self.quiet? target).any Value.toBool)

def exit (argument : Option (Located Expr)) : Run Value := do
  match argument with
  | none => throw (.exit 0)
  | some expression =>
    match ← self.expression expression with
    | .int code => throw (.exit code)
    | value =>
      let text ← Run.stringify expression.span value
      Run.print text
      throw (.exit 0)

/-- An expression, its parts left to the evaluator. -/
def expressionStep (expression : Located Expr) : Run Value :=
  let span := expression.span
  match expression.node with
  | .null => return .null
  | .bool value => return .bool value
  | .int value => return .int value
  | .float value => return .float value
  | .str value => return .str value
  | .interpolated parts => return .str (← self.interpolate "" parts)
  | .array items => self.arrayLiteral Table.empty items
  | .variable _ => self.loadPlace expression
  | .subscript base index =>
    if expression.node.isPlace then self.loadPlace expression else self.subscript span base index
  | .constant name => constant name
  | .magic constant => magic span constant
  | .call callee arguments => self.call callee span arguments
  | .assign target value => self.assign target value
  | .compoundAssign operator target value => self.compoundAssign span operator target value
  | .coalesceAssign target value => self.coalesceAssign target value
  | .ternary condition consequent alternative => self.ternary condition consequent alternative
  | .coalesce left right => self.coalesce left right
  | .binary left operator right => self.binary span left operator right
  | .unary operator operand => self.unary span operator operand
  | .cast type operand => self.cast span type operand
  | .step operator before target => self.step operator before target
  | .silence operand => Run.silently (self.expression operand)
  | .print operand => self.printValue operand
  | .isset targets => self.isset targets
  | .empty target => self.isEmpty target
  | .exit argument => self.exit argument
  | .evaluate code => self.evaluateText span code
  | .includeFile mode path => self.includeFile mode path

end PhpScript.Evaluator
