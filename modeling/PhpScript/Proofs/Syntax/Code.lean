import Mathlib.Logic.Relation
import PhpScript.Proofs.Syntax.Parts
import PhpScript.Run.Function

/-!
# Code inside code

Expressions and statements are the pieces of code that are performed one by one. What stands inside
a piece of code, directly or at any depth, belongs to the same text; this holds also of the
defaults and the body of a declared function.
-/

namespace PhpScript

/-- A piece of code. -/
inductive Code where
  | expression (code : Located Expr)
  | statement (code : Located Stmt)

namespace VariableName

def parts : VariableName Expr → List (Located Expr)
  | .simple _ => []
  | .dynamic code => [code]

end VariableName

namespace Callee

def parts : Callee Expr → List (Located Expr)
  | .name _ => []
  | .dynamic code => [code]

end Callee

namespace StringPart

def parts : StringPart Expr → List (Located Expr)
  | .text _ => []
  | .code expression => [expression]

end StringPart

namespace Expr

/-- The operands of an expression. -/
def parts : Expr → List (Located Expr)
  | .null | .bool _ | .int _ | .float _ | .str _ | .constant _ | .magic _ => []
  | .interpolated parts => parts.flatMap StringPart.parts
  | .array items => items.flatMap fun item => item.key.toList ++ [item.value]
  | .variable name => name.parts
  | .subscript base index => base :: index.toList
  | .call callee arguments => callee.parts ++ arguments
  | .assign target value | .compoundAssign _ target value | .coalesceAssign target value =>
    [target, value]
  | .ternary condition consequent alternative =>
    [condition] ++ consequent.toList ++ [alternative]
  | .coalesce left right | .binary left _ right => [left, right]
  | .unary _ operand | .cast _ operand | .step _ _ operand | .silence operand | .print operand
  | .empty operand | .evaluate operand | .includeFile _ operand => [operand]
  | .isset targets => targets
  | .exit argument => argument.toList

/-- Code from outside is run. -/
def isForeign : Expr → Bool
  | .evaluate _ | .includeFile _ _ => true
  | _ => false

def isCall : Expr → Bool
  | .call _ _ => true
  | _ => false

end Expr

namespace Stmt

def expressions : Stmt → List (Located Expr)
  | .inlineText _ | .block _ | .jump _ _ | .globals _ | .empty => []
  | .echo arguments => arguments
  | .expression code => [code]
  | .choice branches _ => branches.map Branch.condition
  | .whileLoop loop | .doWhileLoop loop => [loop.condition]
  | .forLoop start condition step _ => start ++ condition ++ step
  | .foreachLoop loop => [loop.subject] ++ loop.key.toList ++ [loop.value]
  | .ret value => value.toList
  | .function declaration => declaration.parameters.filterMap ParameterDecl.fallback
  | .constants items => items.map ConstantItem.value
  | .unset targets => targets

end Stmt

namespace Code

def parts : Code → List Code
  | .expression code => code.node.parts.map .expression
  | .statement code =>
    code.node.expressions.map .expression ++ code.node.parts.map .statement

/-- Code that is a part of other code, at any depth. -/
def Within (inner outer : Code) : Prop :=
  Relation.ReflTransGen (fun outer part => part ∈ outer.parts) outer inner

theorem Within.trans {inner middle outer : Code} (first : inner.Within middle)
    (second : middle.Within outer) : inner.Within outer :=
  Relation.ReflTransGen.trans second first

theorem exists_expression_of_within {part : Code} {code : Located Expr}
    (within : part.Within (.expression code)) : ∃ own, part = .expression own := by
  induction within with
  | refl => exact ⟨code, rfl⟩
  | tail _ member ih =>
    rcases ih with ⟨own, rfl⟩
    rcases List.mem_map.mp member with ⟨inner, _, rfl⟩
    exact ⟨inner, rfl⟩

theorem within_of_mem {inner outer : Code} (member : inner ∈ outer.parts) : inner.Within outer :=
  .single member

end Code

namespace Program

/-- Code stands in a program. -/
def Holds (program : Program) (code : Code) : Prop :=
  ∃ top ∈ program.statements, code.Within (.statement top)

/-- A function is declared in a program. -/
def Declares (program : Program) (declaration : UserFunction) : Prop :=
  ∃ span, program.Holds (.statement ⟨.function declaration, span⟩)

variable {program : Program} {declaration : UserFunction} {statement : Located Stmt}

theorem holds_of_mem (member : statement ∈ program.statements) :
    program.Holds (.statement statement) :=
  ⟨statement, member, .refl⟩

theorem Holds.of_within {inner outer : Code} (held : program.Holds outer)
    (within : inner.Within outer) : program.Holds inner := by
  rcases held with ⟨top, member, outerWithin⟩
  exact ⟨top, member, within.trans outerWithin⟩

theorem contains_of_holds (held : program.Holds (.statement statement)) :
    program.Contains statement.node := by
  rcases held with ⟨top, member, within⟩
  generalize shape : Code.statement statement = code at within
  induction within generalizing statement with
  | refl =>
    cases shape
    exact contains_of_mem member
  | @tail outer _ _ part ih =>
    subst shape
    cases outer with
    | expression code =>
      rcases List.mem_map.mp part with ⟨_, _, isExpression⟩
      cases isExpression
    | statement code =>
      refine (ih rfl).of_part ?_
      simpa [Code.parts] using part

theorem Declares.holds_body (declares : program.Declares declaration)
    (member : statement ∈ declaration.body) : program.Holds (.statement statement) := by
  rcases declares with ⟨span, held⟩
  refine held.of_within (Code.within_of_mem (List.mem_append_right _ ?_))
  exact List.mem_map_of_mem member

theorem Declares.holds_fallback {parameter : ParameterDecl} {code : Located Expr}
    (declares : program.Declares declaration) (member : parameter ∈ declaration.parameters)
    (isFallback : parameter.fallback = some code) : program.Holds (.expression code) := by
  rcases declares with ⟨span, held⟩
  refine held.of_within (Code.within_of_mem (List.mem_append_left _ (List.mem_map_of_mem ?_)))
  exact List.mem_filterMap.mpr ⟨parameter, member, isFallback⟩

mutual

theorem within_of_mem_topFunctions (node : Stmt) (place : Span)
    (member : declaration ∈ node.topFunctions) :
    ∃ span, Code.Within (.statement ⟨.function declaration, span⟩) (.statement ⟨node, place⟩) := by
  match node with
  | .function own =>
    have same : declaration = own := by simpa [Stmt.topFunctions] using member
    exact ⟨place, same ▸ .refl⟩
  | .block body =>
    rw [Stmt.topFunctions] at member
    rcases exists_mem_within_of_topFunctionsOf body member with ⟨part, partMember, span, within⟩
    refine ⟨span, within.trans (Code.within_of_mem (List.mem_append_right _ ?_))⟩
    exact List.mem_map_of_mem partMember
  | .inlineText _ | .echo _ | .expression _ | .choice _ _ | .whileLoop _ | .doWhileLoop _
  | .forLoop _ _ _ _ | .foreachLoop _ | .jump _ _ | .ret _ | .constants _ | .globals _ | .unset _
  | .empty => simp [Stmt.topFunctions] at member

theorem exists_mem_within_of_topFunctionsOf (statements : List (Located Stmt))
    (member : declaration ∈ Stmt.topFunctionsOf statements) :
    ∃ top ∈ statements, ∃ span,
      Code.Within (.statement ⟨.function declaration, span⟩) (.statement top) := by
  match statements with
  | [] => simp [Stmt.topFunctionsOf] at member
  | ⟨node, place⟩ :: rest =>
    rw [Stmt.topFunctionsOf, List.mem_append] at member
    rcases member with inFirst | inRest
    · exact ⟨_, List.mem_cons_self, within_of_mem_topFunctions node place inFirst⟩
    · rcases exists_mem_within_of_topFunctionsOf rest inRest with ⟨top, topMember, within⟩
      exact ⟨top, List.mem_cons_of_mem _ topMember, within⟩

end

theorem declares_of_mem_topFunctionsOf {declaration : UserFunction}
    (member : declaration ∈ Stmt.topFunctionsOf program.statements) :
    program.Declares declaration := by
  rcases exists_mem_within_of_topFunctionsOf _ member with ⟨top, topMember, span, within⟩
  exact ⟨span, top, topMember, within⟩

end Program

end PhpScript
