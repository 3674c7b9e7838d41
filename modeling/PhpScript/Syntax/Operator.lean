/-!
# Operators and other fixed vocabulary of programs

Each enumeration comes with the spelling that diagnostics use.
-/

namespace PhpScript

/-- Operators on two operands. -/
inductive BinaryOperator where
  | add | sub | mul | div | mod | pow | concat
  | bitAnd | bitOr | bitXor | shiftLeft | shiftRight
  | and | or | xor
  | equal | notEqual | identical | notIdentical
  | less | lessEqual | greater | greaterEqual | spaceship
deriving DecidableEq

namespace BinaryOperator

def symbol : BinaryOperator → String
  | .add => "+"
  | .sub => "-"
  | .mul => "*"
  | .div => "/"
  | .mod => "%"
  | .pow => "**"
  | .concat => "."
  | .bitAnd => "&"
  | .bitOr => "|"
  | .bitXor => "^"
  | .shiftLeft => "<<"
  | .shiftRight => ">>"
  | .and => "&&"
  | .or => "||"
  | .xor => "xor"
  | .equal => "=="
  | .notEqual => "!="
  | .identical => "==="
  | .notIdentical => "!=="
  | .less => "<"
  | .lessEqual => "<="
  | .greater => ">"
  | .greaterEqual => ">="
  | .spaceship => "<=>"

def isLogical : BinaryOperator → Bool
  | .and | .or | .xor => true
  | _ => false

def isComparison : BinaryOperator → Bool
  | .equal | .notEqual | .identical | .notIdentical => true
  | .less | .lessEqual | .greater | .greaterEqual | .spaceship => true
  | _ => false

end BinaryOperator

/-- Operators on one operand. -/
inductive UnaryOperator where
  | plus | neg | bitNot | not
deriving DecidableEq

/-- Operators that count a place up or down. -/
inductive StepOperator where
  | increment | decrement
deriving DecidableEq

namespace StepOperator

def verb : StepOperator → String
  | .increment => "increment"
  | .decrement => "decrement"

end StepOperator

/-- What values are cast to. -/
inductive CastType where
  | int | float | string | bool | array
deriving DecidableEq

/-- Constants that depend on their place. -/
inductive MagicConstant where
  | line | file | directory | function
deriving DecidableEq

/-- How a file is pulled in. -/
structure IncludeMode where
  required : Bool
  once : Bool
deriving DecidableEq

namespace IncludeMode

def keyword (mode : IncludeMode) : String :=
  (if mode.required then "require" else "include") ++ (if mode.once then "_once" else "")

end IncludeMode

/-- Out of a loop, or to its next pass. -/
inductive LoopJump where
  | leave | next
deriving DecidableEq

namespace LoopJump

def keyword : LoopJump → String
  | .leave => "break"
  | .next => "continue"

end LoopJump

end PhpScript
