import PhpScript.Proofs.Syntax.Bare

/-!
# Headings

A choice and the loops `while`, `for` and `foreach` begin with a heading, which ends where the body
begins. Such a statement is read as its heading and then, in whichever form it stands, its body.
-/

namespace PhpScript

/-- The statements with a body in two forms. -/
inductive HeadingKind where
  | choice | whileLoop | forLoop | foreachLoop
deriving DecidableEq

namespace HeadingKind

def keyword : HeadingKind → Keyword
  | .choice => .kwIf
  | .whileLoop => .kwWhile
  | .forLoop => .kwFor
  | .foreachLoop => .kwForeach

def close : HeadingKind → Keyword
  | .choice => .kwEndIf
  | .whileLoop => .kwEndWhile
  | .forLoop => .kwEndFor
  | .foreachLoop => .kwEndForeach

end HeadingKind

/-- What stands in front of a body. -/
inductive Heading : HeadingKind → Type where
  | choice (condition : Located Expr) : Heading .choice
  | whileLoop (condition : Located Expr) : Heading .whileLoop
  | forLoop (start condition step : List (Located Expr)) : Heading .forLoop
  | foreachLoop (subject : Located Expr) (key : Option (Located Expr)) (value : Located Expr) :
      Heading .foreachLoop

namespace Heading

variable {kind : HeadingKind}

/-- A heading with its body. -/
def statement : Heading kind → Located Stmt → Stmt
  | .choice condition, body => .choice [⟨condition, body⟩] none
  | .whileLoop condition, body => .whileLoop ⟨condition, body⟩
  | .forLoop start condition step, body => .forLoop start condition step body
  | .foreachLoop subject key value, body => .foreachLoop ⟨subject, key, value, body⟩

def bare : Heading kind → Heading kind
  | .choice condition => .choice (Expr.bareAt condition)
  | .whileLoop condition => .whileLoop (Expr.bareAt condition)
  | .forLoop start condition step =>
    .forLoop (start.map Expr.bareAt) (condition.map Expr.bareAt) (step.map Expr.bareAt)
  | .foreachLoop subject key value =>
    .foreachLoop (Expr.bareAt subject) (key.map Expr.bareAt) (Expr.bareAt value)

theorem bare_statement (heading : Heading kind) (body : Located Stmt) :
    (heading.statement body).bare = heading.bare.statement (Stmt.bareAt body) := by
  cases heading <;> simp [statement, bare, Stmt.bare, Stmt.bareBranch]

theorem bare_statement_eq {heading other : Heading kind} {body bodyOther : Located Stmt}
    (sameHeading : other.bare = heading.bare) (sameBody : bodyOther.node.bare = body.node.bare) :
    (other.statement bodyOther).bare = (heading.statement body).bare := by
  rw [bare_statement, bare_statement, sameHeading, Stmt.bareAt_eq_iff.mpr sameBody]

end Heading

namespace Grammar

variable {kind : HeadingKind}

/-- Read a heading. -/
def heading (self : Grammar) : (kind : HeadingKind) → Parser (Heading kind)
  | .choice => do
    Parser.expect Keyword.kwIf
    let condition ← self.parenthesized
    return .choice condition
  | .whileLoop => do
    Parser.expect Keyword.kwWhile
    let condition ← self.parenthesized
    return .whileLoop condition
  | .forLoop => do
    Parser.expect Keyword.kwFor
    Parser.expect Symbol.leftParen
    let start ← self.forPart .semicolon
    let condition ← self.forPart .semicolon
    let step ← self.forPart .rightParen
    return .forLoop start condition step
  | .foreachLoop => do
    Parser.expect Keyword.kwForeach
    Parser.expect Symbol.leftParen
    let subject ← self.expression
    Parser.expect Keyword.kwAs
    let first ← self.foreachTarget
    if ← Parser.eat Symbol.fatArrow then
      let value ← self.foreachTarget
      Parser.expect Symbol.rightParen
      return .foreachLoop subject (some first) value
    Parser.expect Symbol.rightParen
    return .foreachLoop subject none first

/-- What follows the condition of a choice: the body in either form and the other branches. -/
def choiceRest (self : Grammar) (condition : Located Expr) : Parser Stmt := do
  if ← Parser.eat Symbol.colon then
    let ends : List Terminal := [Keyword.kwElseIf, Keyword.kwElse, Keyword.kwEndIf]
    let first ← self.bodyUpTo ends
    let statement ← self.otherBranches (fun isLast => do
      Parser.expect Symbol.colon
      self.bodyUpTo (if isLast then [Keyword.kwEndIf] else ends)) ⟨condition, first⟩
    Parser.expect Keyword.kwEndIf
    endStatement
    return statement
  let first ← self.statement
  self.otherBranches (fun _ => self.statement) ⟨condition, first⟩

/-- Read the body behind a heading. -/
def afterHeading (self : Grammar) : Heading kind → Parser Stmt
  | .choice condition => self.choiceRest condition
  | heading => do
    let body ← self.loopBody kind.close
    return heading.statement body

theorem keywordStatement_eq (self : Grammar) (kind : HeadingKind) :
    self.keywordStatement kind.keyword = self.heading kind >>= self.afterHeading := by
  have pushes (found : Bool) (first second : Parser (Heading kind)) :
      (if found = true then first else second) >>= self.afterHeading =
        if found = true then first >>= self.afterHeading else second >>= self.afterHeading := by
    cases found <;> rfl
  cases kind <;> simp only [heading, bind_assoc, pure_bind, pushes] <;> rfl

end Grammar

end PhpScript
