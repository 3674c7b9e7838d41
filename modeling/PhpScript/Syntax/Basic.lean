import PhpScript.Source.Lines
import PhpScript.Source.Span
import PhpScript.Syntax.Operator
import PhpScript.TypeName

/-!
# Programs

The tree that a program is read into. What holds expressions or statements of its own, such as an
array element or a branch, is a type with a parameter for them.
-/

namespace PhpScript

/-- The name of a variable, plain or computed. -/
inductive VariableName (ε : Type) where
  | simple (name : String)
  | dynamic (expression : Located ε)

/-- A part of a text literal. -/
inductive StringPart (ε : Type) where
  | text (text : String)
  | code (expression : Located ε)

/-- An element of an array literal. -/
structure ArrayItem (ε : Type) where
  key : Option (Located ε)
  value : Located ε

/-- What is called, by its name or a computed one. -/
inductive Callee (ε : Type) where
  | name (name : String)
  | dynamic (expression : Located ε)

inductive Expr where
  | null
  | bool (value : Bool)
  | int (value : Int64)
  | float (value : Float)
  | str (value : String)
  | interpolated (parts : List (StringPart Expr))
  | array (items : List (ArrayItem Expr))
  | variable (name : VariableName Expr)
  /-- A subscript; without an index it stands for the next free one. -/
  | subscript (base : Located Expr) (index : Option (Located Expr))
  | constant (name : String)
  | magic (constant : MagicConstant)
  | call (callee : Callee Expr) (arguments : List (Located Expr))
  | assign (target value : Located Expr)
  | compoundAssign (operator : BinaryOperator) (target value : Located Expr)
  | coalesceAssign (target value : Located Expr)
  /-- A choice; without a consequent the condition itself is the result when it holds. -/
  | ternary (condition : Located Expr) (consequent : Option (Located Expr))
      (alternative : Located Expr)
  | coalesce (left right : Located Expr)
  | binary (left : Located Expr) (operator : BinaryOperator) (right : Located Expr)
  | unary (operator : UnaryOperator) (operand : Located Expr)
  | cast (type : CastType) (operand : Located Expr)
  /-- A step of a variable; `before` says that the operator stands in front, so that the result is
  the new value. -/
  | step (operator : StepOperator) (before : Bool) (target : Located Expr)
  | silence (operand : Located Expr)
  | print (operand : Located Expr)
  | isset (targets : List (Located Expr))
  | empty (target : Located Expr)
  | exit (argument : Option (Located Expr))
  | evaluate (code : Located Expr)
  | includeFile (mode : IncludeMode) (path : Located Expr)

instance : Inhabited Expr := ⟨.null⟩

namespace Expr

def isVariable : Expr → Bool
  | .variable _ | .subscript .. => true
  | _ => false

/-- Values can be stored in it. -/
def isPlace : Expr → Bool
  | .variable _ => true
  | .subscript ⟨base, _⟩ _ => base.isPlace
  | _ => false

end Expr

/-- A body with its condition. -/
structure Branch (σ : Type) where
  condition : Located Expr
  body : Located σ

/-- A loop over the entries of an array. -/
structure ForeachLoop (σ : Type) where
  subject : Located Expr
  key : Option (Located Expr)
  value : Located Expr
  body : Located σ

structure ConstantItem where
  name : Located String
  value : Located Expr

/-- A parameter of a function. -/
structure ParameterDecl where
  name : Located String
  type : Option TypeHint
  fallback : Option (Located Expr)
  isVariadic : Bool

/-- A declared function. The identity tells declarations apart. -/
structure FunctionDecl (σ : Type) where
  id : Nat
  name : Located String
  parameters : List ParameterDecl
  returnType : Option TypeHint
  body : List (Located σ)
  span : Span

namespace FunctionDecl

variable {σ : Type}

/-- How many parameters in front have no default. -/
def requiredCount (function : FunctionDecl σ) : Nat :=
  (function.parameters.takeWhile fun parameter =>
    parameter.fallback.isNone && !parameter.isVariadic).length

def isVariadic (function : FunctionDecl σ) : Bool :=
  function.parameters.getLast?.any ParameterDecl.isVariadic

end FunctionDecl

inductive Stmt where
  | inlineText (text : String)
  | echo (arguments : List (Located Expr))
  | expression (expression : Located Expr)
  | block (body : List (Located Stmt))
  | choice (branches : List (Branch Stmt)) (alternative : Option (Located Stmt))
  | whileLoop (loop : Branch Stmt)
  | doWhileLoop (loop : Branch Stmt)
  | forLoop (start condition step : List (Located Expr)) (body : Located Stmt)
  | foreachLoop (loop : ForeachLoop Stmt)
  | jump (kind : LoopJump) (levels : Nat)
  | ret (value : Option (Located Expr))
  | function (declaration : FunctionDecl Stmt)
  | constants (items : List ConstantItem)
  | globals (names : List (Located String))
  | unset (targets : List (Located Expr))
  | empty

instance : Inhabited Stmt := ⟨.empty⟩

abbrev UserFunction := FunctionDecl Stmt

/-- What is read from a source text. -/
structure Program where
  filename : String
  statements : List (Located Stmt)
  lines : LineTable

end PhpScript
