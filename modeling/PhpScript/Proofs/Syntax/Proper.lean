import PhpScript.Proofs.Syntax.Code

/-!
# Proper code

What the grammar checks where it reads something, and whoever runs a program relies on. Code is
sound if it and everything inside of it is proper. A function takes its number when its body has
ended, so those declared in the parts of a statement stand before its own.
-/

namespace PhpScript

/-- The type has alternatives, and what takes all remaining arguments has no default. -/
structure ParameterDecl.IsWellFormed (parameter : ParameterDecl) : Prop where
  typed : ∀ hint ∈ parameter.type, hint.types ≠ []
  noDefault : parameter.isVariadic = true → parameter.fallback = none

/-- Only the last of some parameters may take all arguments that are left. -/
def ParameterDecl.OnlyLast (parameters : List ParameterDecl) : Prop :=
  ∀ parameter ∈ parameters.dropLast, parameter.isVariadic = false

/-- Parameters and types as a declaration needs them. -/
structure FunctionDecl.IsWellFormed {σ : Type} (function : FunctionDecl σ) : Prop where
  parameters : ∀ parameter ∈ function.parameters, parameter.IsWellFormed
  onlyLast : ParameterDecl.OnlyLast function.parameters
  returned : ∀ hint ∈ function.returnType, hint.types ≠ []

namespace Expr

/-- What is checked of an expression where it is read. -/
def IsProper : Expr → Prop
  | .isset targets => targets ≠ []
  | .assign target _ | .compoundAssign _ target _ | .coalesceAssign target _ | .step _ _ target =>
    target.node.isVariable = true
  | _ => True

/-- Proper code with proper parts. -/
inductive IsSound : Expr → Prop
  | intro {code : Expr} (own : code.IsProper) (parts : ∀ part ∈ code.parts, IsSound part.node) :
      IsSound code

theorem IsSound.of_parts_eq_nil {code : Expr} (own : code.IsProper) (none : code.parts = []) :
    code.IsSound :=
  .intro own (by simp [none])

/-- A variable with subscripts and arguments behind it. -/
inductive IsLed : Expr → Prop
  | variable (name : VariableName Expr) : IsLed (.variable name)
  | subscript {base : Located Expr} (led : IsLed base.node) (index : Option (Located Expr)) :
      IsLed (.subscript base index)
  | call {callee : Located Expr} (led : IsLed callee.node) (isVariable : callee.node.isVariable)
      (arguments : List (Located Expr)) : IsLed (.call (.dynamic callee) arguments)

/-- What is read where each element of an array is to be stored: something led by a variable, or a
step or an assignment behind it. -/
inductive IsTarget : Expr → Prop
  | led {code : Expr} (led : code.IsLed) : IsTarget code
  | step {operand : Located Expr} (led : operand.node.IsLed) (operator : StepOperator) :
      IsTarget (.step operator false operand)
  | assign {operand : Located Expr} (led : operand.node.IsLed) (value : Located Expr) :
      IsTarget (.assign operand value)
  | compoundAssign {operand : Located Expr} (led : operand.node.IsLed) (operator : BinaryOperator)
      (value : Located Expr) : IsTarget (.compoundAssign operator operand value)
  | coalesceAssign {operand : Located Expr} (led : operand.node.IsLed) (value : Located Expr) :
      IsTarget (.coalesceAssign operand value)

end Expr

namespace Stmt

/-- What is checked of a statement where it is read. -/
def IsProper : Stmt → Prop
  | .jump _ levels => 1 ≤ levels
  | .choice branches _ => branches ≠ []
  | .unset targets => ∀ target ∈ targets, target.node.isVariable = true
  | .function declaration =>
    ParameterDecl.OnlyLast declaration.parameters ∧
      ∀ parameter ∈ declaration.parameters, parameter.isVariadic = true →
        parameter.fallback = none
  | _ => True

/-- What a loop stores in. -/
def targets : Stmt → List (Located Expr)
  | .foreachLoop loop => loop.key.toList ++ [loop.value]
  | _ => []

/-- Proper code with proper parts and targets. -/
inductive IsSound : Stmt → Prop
  | intro {statement : Stmt} (own : statement.IsProper)
      (expressions : ∀ code ∈ statement.expressions, code.node.IsSound)
      (parts : ∀ part ∈ statement.parts, IsSound part.node)
      (targets : ∀ target ∈ statement.targets, target.node.IsTarget) : IsSound statement

theorem IsSound.isProper_of_within {inner outer : Stmt} (sound : outer.IsSound)
    (within : inner.Within outer) : inner.IsProper := by
  induction within with
  | whole =>
    cases sound with
    | intro own => exact own
  | part member _ ih =>
    cases sound with
    | intro _ _ parts _ => exact ih (parts _ member)

end Stmt

namespace Code

def IsProper : Code → Prop
  | .expression code => code.node.IsProper
  | .statement code => code.node.IsProper

def IsSound : Code → Prop
  | .expression code => code.node.IsSound
  | .statement code => code.node.IsSound

theorem IsSound.isProper {code : Code} (sound : code.IsSound) : code.IsProper := by
  cases code with
  | expression code =>
    cases sound with
    | intro own _ => exact own
  | statement code =>
    cases sound with
    | intro own => exact own

theorem IsSound.of_mem_parts {outer part : Code} (sound : outer.IsSound)
    (member : part ∈ outer.parts) : part.IsSound := by
  cases outer with
  | expression code =>
    cases sound with
    | intro _ parts =>
      rcases List.mem_map.mp member with ⟨inner, isPart, rfl⟩
      exact parts inner isPart
  | statement code =>
    cases sound with
    | intro _ expressions parts _ =>
      rcases List.mem_append.mp member with isExpression | isStatement
      · rcases List.mem_map.mp isExpression with ⟨inner, isPart, rfl⟩
        exact expressions inner isPart
      · rcases List.mem_map.mp isStatement with ⟨inner, isPart, rfl⟩
        exact parts inner isPart

theorem IsSound.of_within {inner outer : Code} (sound : outer.IsSound)
    (within : inner.Within outer) : inner.IsSound := by
  induction within with
  | refl => exact sound
  | tail _ isPart ih => exact ih.of_mem_parts isPart

end Code

namespace Stmt

/-! ## Declarations in a statement -/

theorem sizeOf_node_lt (part : Located Stmt) : sizeOf part.node < sizeOf part := by
  rcases part with ⟨node, span⟩
  simp only [Located.mk.sizeOf_spec]
  omega

variable {statement : Stmt} {body : Located Stmt} {declaration : UserFunction}

theorem sizeOf_lt_of_loopBody? (isLoop : statement.loopBody? = some body) :
    sizeOf body < sizeOf statement := by
  cases statement with
  | whileLoop loop | doWhileLoop loop | foreachLoop loop =>
    cases isLoop
    cases loop
    simp
    omega
  | forLoop start condition step body =>
    cases isLoop
    rw [forLoop.sizeOf_spec]
    omega
  | _ => cases isLoop

theorem sizeOf_lt_of_mem_parts {part : Located Stmt} (member : part ∈ statement.parts) :
    sizeOf part < sizeOf statement := by
  cases statement with
  | block body =>
    have isLess := List.sizeOf_lt_of_mem member
    simp only [parts, block.sizeOf_spec] at isLess ⊢
    omega
  | choice branches alternative =>
    simp only [parts, List.mem_append, List.mem_map, Option.mem_toList] at member
    rcases member with ⟨⟨condition, body⟩, isBranch, rfl⟩ | rfl
    · have isLess := List.sizeOf_lt_of_mem isBranch
      simp only [Branch.mk.sizeOf_spec, choice.sizeOf_spec] at isLess ⊢
      omega
    · simp only [choice.sizeOf_spec, Option.some.sizeOf_spec]
      omega
  | function declaration =>
    have isLess := List.sizeOf_lt_of_mem member
    cases declaration
    simp only [parts, function.sizeOf_spec, FunctionDecl.mk.sizeOf_spec] at isLess ⊢
    omega
  | whileLoop loop | doWhileLoop loop | foreachLoop loop =>
    rw [List.mem_singleton.mp member]
    exact sizeOf_lt_of_loopBody? rfl
  | forLoop start condition step body =>
    rw [List.mem_singleton.mp member]
    exact sizeOf_lt_of_loopBody? rfl
  | _ => exact absurd member List.not_mem_nil

def declaration? : Stmt → Option UserFunction
  | .function declaration => some declaration
  | _ => none

/-- The functions declared inside of a statement. -/
def declarations (statement : Stmt) : List UserFunction :=
  (statement.parts.attach.flatMap fun part => part.val.node.declarations) ++
    statement.declaration?.toList
termination_by sizeOf statement
decreasing_by exact Nat.lt_trans (sizeOf_node_lt _) (sizeOf_lt_of_mem_parts part.property)

def declarationsOf (statements : List (Located Stmt)) : List UserFunction :=
  statements.flatMap fun statement => statement.node.declarations

theorem declarations_eq (statement : Stmt) :
    statement.declarations = declarationsOf statement.parts ++ statement.declaration?.toList := by
  have direct := List.flatMap_map Subtype.val (fun part : Located Stmt => part.node.declarations)
    (l := statement.parts.attach)
  rw [List.attach_map_subtype_val] at direct
  rw [declarations, declarationsOf, direct]

theorem declarations_choice (branches : List (Branch Stmt)) (alternative : Option (Located Stmt)) :
    (Stmt.choice branches alternative).declarations =
      declarationsOf (branches.map Branch.body ++ alternative.toList) := by
  rw [declarations_eq]
  exact List.append_nil _

theorem mem_declarations_of_within {outer : Stmt}
    (within : (Stmt.function declaration).Within outer) : declaration ∈ outer.declarations := by
  induction within with
  | whole =>
    rw [declarations_eq]
    exact List.mem_append_right _ (List.mem_singleton_self _)
  | part member _ ih =>
    rw [declarations_eq]
    exact List.mem_append_left _ (List.mem_flatMap.mpr ⟨_, member, ih⟩)

theorem exists_within_of_mem_declarations {outer : Stmt} (member : declaration ∈ outer.declarations)
    (place : Span) :
    ∃ span, Code.Within (.statement ⟨.function declaration, span⟩) (.statement ⟨outer, place⟩) := by
  induction outer using declarations.induct generalizing place with
  | case1 outer ih =>
    rw [declarations_eq, List.mem_append] at member
    rcases member with inPart | isOwn
    · rcases List.mem_flatMap.mp inPart with ⟨part, isPart, inside⟩
      rcases ih ⟨part, isPart⟩ inside part.span with ⟨span, within⟩
      refine ⟨span, within.trans (Code.within_of_mem (List.mem_append_right _ ?_))⟩
      exact List.mem_map_of_mem isPart
    · cases outer with
      | function own =>
        rw [List.mem_singleton.mp isOwn]
        exact ⟨place, .refl⟩
      | _ => exact absurd isOwn List.not_mem_nil

end Stmt

namespace Program

/-- The functions declared in a program, in the order of their ends. -/
def declarations (program : Program) : List UserFunction :=
  Stmt.declarationsOf program.statements

theorem mem_declarations_iff {program : Program} {declaration : UserFunction} :
    declaration ∈ program.declarations ↔ program.Declares declaration := by
  constructor
  · intro member
    rcases List.mem_flatMap.mp member with ⟨top, isTop, inside⟩
    rcases Stmt.exists_within_of_mem_declarations inside top.span with ⟨span, within⟩
    exact ⟨span, top, isTop, within⟩
  · rintro ⟨span, held⟩
    rcases contains_of_holds held with ⟨top, isTop, within⟩
    exact List.mem_flatMap.mpr ⟨top, isTop, Stmt.mem_declarations_of_within within⟩

end Program

end PhpScript
