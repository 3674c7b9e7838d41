import PhpScript.Syntax.Program

/-!
# Statements inside statements

Which statements a statement holds, directly and at any depth. The body of a declared function
counts as a part of the statement that declares it, so that whatever a program can ever run of its
own text is a part of it.
-/

namespace PhpScript

namespace Stmt

/-- The statements inside of a statement. -/
def parts : Stmt → List (Located Stmt)
  | .block body => body
  | .choice branches alternative => branches.map Branch.body ++ alternative.toList
  | .whileLoop loop => [loop.body]
  | .doWhileLoop loop => [loop.body]
  | .forLoop _ _ _ body => [body]
  | .foreachLoop loop => [loop.body]
  | .function declaration => declaration.body
  | _ => []

def loopBody? : Stmt → Option (Located Stmt)
  | .whileLoop loop => some loop.body
  | .doWhileLoop loop => some loop.body
  | .forLoop _ _ _ body => some body
  | .foreachLoop loop => some loop.body
  | _ => none

theorem mem_parts_of_loopBody? {statement : Stmt} {body : Located Stmt}
    (isLoop : statement.loopBody? = some body) : body ∈ statement.parts := by
  cases statement <;> cases isLoop <;> exact List.mem_singleton_self _

/-- A statement inside of another, at any depth. -/
inductive Within : Stmt → Stmt → Prop
  | whole (statement : Stmt) : Within statement statement
  | part {inner outer : Stmt} {part : Located Stmt} (member : part ∈ outer.parts)
      (within : Within inner part.node) : Within inner outer

theorem Within.trans {inner middle outer : Stmt} (first : inner.Within middle)
    (second : middle.Within outer) : inner.Within outer := by
  induction second with
  | whole => exact first
  | part member _ ih => exact .part member ih

end Stmt

namespace Program

def Contains (program : Program) (statement : Stmt) : Prop :=
  ∃ top ∈ program.statements, statement.Within top.node

theorem Contains.of_part {program : Program} {outer : Stmt} {part : Located Stmt}
    (contained : program.Contains outer) (member : part ∈ outer.parts) :
    program.Contains part.node := by
  rcases contained with ⟨top, topMember, within⟩
  exact ⟨top, topMember, Stmt.Within.trans (.part member (.whole part.node)) within⟩

theorem contains_of_mem {program : Program} {statement : Located Stmt}
    (member : statement ∈ program.statements) : program.Contains statement.node :=
  ⟨statement, member, .whole statement.node⟩

end Program

end PhpScript
