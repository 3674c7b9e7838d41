import PhpScript.Severity
import PhpScript.Syntax.Operator
import PhpScript.Value.Basic

/-!
# Problems

What can go wrong while a script runs. Fatal problems end the script, the others are reported in its
output and the script goes on.
-/

namespace PhpScript

/-- How a count is bounded. -/
inductive CountBound where
  | exactly | atLeast | atMost
deriving DecidableEq

namespace CountBound

def render : CountBound → String
  | .exactly => "exactly"
  | .atLeast => "at least"
  | .atMost => "at most"

end CountBound

/-- What goes wrong when scripts run. -/
inductive Problem where
  -- array keys and offsets
  | illegalOffsetType
  | nextElementOccupied
  | undefinedKey (key : Key)
  | offsetOnString (type : TypeName)
  | stringOffsetCast
  | uninitializedStringOffset (index : Int64)
  | offsetOnValue (type : TypeName)
  | falseToArray
  | scalarAsArray
  | stringOffsetAsArray
  | appendToString
  | emptyStringOffset
  | firstByteOnly
  | illegalStringOffset (index : Int64)
  | unsetStringOffset
  | memoryExhausted (requested : Nat)
  -- operators
  | unsupportedOperands (left : TypeName) (operator : BinaryOperator) (right : TypeName)
  | nonNumericValue
  | arrayToString
  | divisionByZero
  | moduloByZero
  | negativeShift
  | bitwiseNot (type : TypeName)
  | stepArray (step : StepOperator)
  -- names
  | undefinedVariable (name : String)
  | undefinedConstant (name : String)
  | constantDefined (name : String)
  | undefinedFunction (name : String)
  | cannotRedeclare (name : String)
  -- calls
  | notCallable
  | notByReference (function : String)
  | nestingLimit (limit : Nat)
  | tooFewArguments (function : String) (given : Nat) (bound : CountBound) (required : Nat)
  | argumentType (function : String) (position : Nat) (parameter : String) (types : String)
      (given : TypeName)
  | returnMissing (function : String) (types : String)
  | returnType (function : String) (types : String) (given : TypeName)
  | argumentCount (function : String) (bound : CountBound) (expected given : Nat)
  | slotCount (function : String) (parameters slots : Nat)
  -- statements and places
  | assignToExpression
  | unsetExpression
  | readAppend
  | unsetAppend
  | notInLoop (jump : LoopJump)
  | tooManyLevels (jump : LoopJump) (levels : Nat)
  | foreachSubject (type : TypeName)
  -- other source texts
  | malformed (message : String)
  | emptyPath
  | openStream (mode : IncludeMode) (path reason : String)
  | openForInclusion (mode : IncludeMode) (path : String)
  | openRequired (path : String)
  -- native functions
  | negativeRepetition
  | hexOddLength
  | hexInvalid
  | implodePieces (type : TypeName)
  | sumOfArray
  | noCandidates (function : String)
  | quotientOutOfRange
  | noBuffer (function failure remedy : String)

namespace Problem

/-- How many bytes a text may grow to. -/
def memoryLimit : Nat := 128 * 1024 * 1024

def includePath : String := "."

def severity : Problem → Severity
  | .nextElementOccupied | .undefinedKey _ | .stringOffsetCast | .uninitializedStringOffset _
  | .offsetOnValue _ | .firstByteOnly | .illegalStringOffset _ | .nonNumericValue
  | .arrayToString | .undefinedVariable _ | .constantDefined _ | .foreachSubject _
  | .openStream .. | .openForInclusion .. | .hexOddLength | .hexInvalid | .sumOfArray => .warning
  | .falseToArray => .deprecated
  | .noBuffer .. => .notice
  | .malformed _ => .parse
  | _ => .error

def isFatal (problem : Problem) : Bool := problem.severity.isFatal

def quoteKey : Key → String
  | .int index => Integer.render index
  | .str name => "\"" ++ name ++ "\""

def arguments (count : Nat) : String := if count = 1 then "argument" else "arguments"

def message : Problem → String
  | .illegalOffsetType => "Uncaught TypeError: Illegal offset type"
  | .nextElementOccupied =>
    "Cannot add element to the array as the next element is already occupied"
  | .undefinedKey key => s!"Undefined array key {quoteKey key}"
  | .offsetOnString type =>
    s!"Uncaught TypeError: Cannot access offset of type {type.render} on string"
  | .stringOffsetCast => "String offset cast occurred"
  | .uninitializedStringOffset index => s!"Uninitialized string offset {Integer.render index}"
  | .offsetOnValue type => s!"Trying to access array offset on value of type {type.render}"
  | .falseToArray => "Automatic conversion of false to array is deprecated"
  | .scalarAsArray => "Uncaught Error: Cannot use a scalar value as an array"
  | .stringOffsetAsArray => "Uncaught Error: Cannot use string offset as an array"
  | .appendToString => "Uncaught Error: [] operator not supported for strings"
  | .emptyStringOffset => "Uncaught Error: Cannot assign an empty string to a string offset"
  | .firstByteOnly => "Only the first byte will be assigned to the string offset"
  | .illegalStringOffset index => s!"Illegal string offset {Integer.render index}"
  | .unsetStringOffset => "Uncaught Error: Cannot unset string offsets"
  | .memoryExhausted requested =>
    s!"Allowed memory size of {memoryLimit} bytes exhausted (tried to allocate {requested} bytes)"
  | .unsupportedOperands left operator right =>
    s!"Uncaught TypeError: Unsupported operand types: {left.render} {operator.symbol} "
      ++ right.render
  | .nonNumericValue => "A non-numeric value encountered"
  | .arrayToString => "Array to string conversion"
  | .divisionByZero => "Uncaught DivisionByZeroError: Division by zero"
  | .moduloByZero => "Uncaught DivisionByZeroError: Modulo by zero"
  | .negativeShift => "Uncaught ArithmeticError: Bit shift by negative number"
  | .bitwiseNot type => s!"Uncaught TypeError: Cannot perform bitwise not on {type.render}"
  | .stepArray step => s!"Uncaught TypeError: Cannot {step.verb} array"
  | .undefinedVariable name => s!"Undefined variable ${name}"
  | .undefinedConstant name => s!"Uncaught Error: Undefined constant \"{name}\""
  | .constantDefined name => s!"Constant {name} already defined"
  | .undefinedFunction name => s!"Uncaught Error: Call to undefined function {name}()"
  | .cannotRedeclare name => s!"Cannot redeclare {name}()"
  | .notCallable => "Uncaught Error: Value not callable"
  | .notByReference function =>
    s!"Uncaught Error: {function}(): Argument #1 ($array) could not be passed by reference"
  | .nestingLimit limit => s!"Maximum function nesting level of '{limit}' reached, aborting!"
  | .tooFewArguments function given bound required =>
    s!"Uncaught ArgumentCountError: Too few arguments to function {function}(), {given} passed "
      ++ s!"and {bound.render} {required} expected"
  | .argumentType function position parameter types given =>
    s!"Uncaught TypeError: {function}(): Argument #{position} ({parameter}) must be of type "
      ++ s!"{types}, {given.render} given"
  | .returnMissing function types =>
    s!"Uncaught TypeError: {function}(): Return value must be of type {types}, none returned"
  | .returnType function types given =>
    s!"Uncaught TypeError: {function}(): Return value must be of type {types}, "
      ++ s!"{given.render} returned"
  | .argumentCount function bound expected given =>
    s!"Uncaught ArgumentCountError: {function}() expects {bound.render} {expected} "
      ++ s!"{arguments expected}, {given} given"
  | .slotCount function parameters slots =>
    s!"{function}() binds {parameters} parameters into {slots} slots"
  | .assignToExpression => "Cannot assign to the result of an expression"
  | .unsetExpression => "Cannot unset the result of an expression"
  | .readAppend => "Uncaught Error: Cannot use [] for reading"
  | .unsetAppend => "Uncaught Error: Cannot use [] for unsetting"
  | .notInLoop jump => s!"'{jump.keyword}' not in the 'loop' or 'switch' context"
  | .tooManyLevels jump levels =>
    let unit := if levels = 1 then "level" else "levels"
    s!"Cannot '{jump.keyword}' {levels} {unit}"
  | .foreachSubject type =>
    s!"foreach() argument must be of type array|object, {type.render} given"
  | .malformed message => message
  | .emptyPath => "Uncaught ValueError: Path cannot be empty"
  | .openStream mode path reason => s!"{mode.keyword}({path}): Failed to open stream: {reason}"
  | .openForInclusion mode path =>
    s!"{mode.keyword}(): Failed opening '{path}' for inclusion (include_path='{includePath}')"
  | .openRequired path =>
    s!"Uncaught Error: Failed opening required '{path}' (include_path='{includePath}')"
  | .negativeRepetition =>
    "Uncaught ValueError: str_repeat(): Argument #2 ($times) must be greater than or equal to 0"
  | .hexOddLength => "hex2bin(): Hexadecimal input string must have an even length"
  | .hexInvalid => "hex2bin(): Input string must be hexadecimal string"
  | .implodePieces type =>
    s!"Uncaught TypeError: implode(): Argument #1 ($pieces) must be of type array, "
      ++ s!"{type.render} given"
  | .sumOfArray => "array_sum(): Addition is not supported on type array"
  | .noCandidates function =>
    s!"Uncaught ValueError: {function}(): Argument #1 ($value) must contain at least one element"
  | .quotientOutOfRange =>
    "Uncaught ArithmeticError: Division of PHP_INT_MIN by -1 is not an integer"
  | .noBuffer function failure remedy =>
    s!"{function}(): Failed to {failure} buffer. No buffer to {remedy}"

def diagnostic (problem : Problem) : Diagnostic := ⟨problem.severity, problem.message⟩

end Problem

/-- A computation on values: it can report problems and go on, and it can fail with one. The state
is the list of problems reported so far. -/
abbrev Checked := EStateM Problem (List Problem)

namespace Checked

/-- Report a problem and go on. -/
def warn (problem : Problem) : Checked Unit := modify (· ++ [problem])

/-- What is reported, and the end. -/
def outcome {α : Type} (computation : Checked α) : List Problem × Except Problem α :=
  match computation [] with
  | .ok value problems => (problems, .ok value)
  | .error problem problems => (problems, .error problem)

end Checked

end PhpScript
