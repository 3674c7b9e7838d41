import PhpScript.Syntax.Expression

/-!
# Grammar of statements

Statements are told apart by their first token. The bodies of branches and loops are a single
statement, or after a colon any number of statements up to a closing word.
-/

namespace PhpScript.Grammar

variable (self : Grammar)

def endStatement : Parser Unit := Parser.expect Symbol.semicolon

def expressions : Parser (List (Located Expr)) := do
  Parser.separated (self.bound + 1) self.expression

def statementsPass (ends : List Terminal) (statements : List (Located Stmt)) :
    Parser (Parser.Pass (List (Located Stmt))) := do
  match ← Parser.peek with
  | none => Parser.expected ((ends.getLast?.map Terminal.quoted).getD "\"\"")
  | some token =>
    if ends.any (·.accepts token) then return .done statements
    else return .more ((← self.statement) :: statements)

/-- Statements up to a token that ends them. -/
def statementsUpTo (ends : List Terminal) : Parser (List (Located Stmt)) := do
  let statements ← Parser.iterate (self.statementsPass ends) (self.bound + 1) []
  return statements.reverse

def blockRest : Parser (List (Located Stmt)) := do
  let statements ← self.statementsUpTo [Symbol.rightBrace]
  Parser.advance
  return statements

def bodyUpTo (ends : List Terminal) : Parser (Located Stmt) := do
  let start ← Parser.here
  let statements ← self.statementsUpTo ends
  Parser.locate start (.block statements)

/-- The body of a loop in either form. -/
def loopBody (close : Keyword) : Parser (Located Stmt) := do
  if ← Parser.eat Symbol.colon then
    let body ← self.bodyUpTo [close]
    Parser.expect close
    endStatement
    return body
  self.statement

/-- One more branch of a choice, or the alternative. Each body is read by `body`, which is told
whether only the end of the choice may follow it. -/
def branchPass (body : Bool → Parser (Located Stmt)) :
    List (Branch Stmt) × Option (Located Stmt) →
      Parser (Parser.Pass (List (Branch Stmt) × Option (Located Stmt)))
  | (branches, _) => do
    if ← Parser.eat Keyword.kwElseIf then
      let condition ← self.parenthesized
      let branch : Branch Stmt := ⟨condition, ← body false⟩
      return .more (branch :: branches, none)
    if ← Parser.eat Keyword.kwElse then
      return .done (branches, some (← body true))
    return .done (branches, none)

def otherBranches (body : Bool → Parser (Located Stmt)) (first : Branch Stmt) : Parser Stmt := do
  let (branches, alternative) ←
    Parser.iterate (self.branchPass body) (self.bound + 1) ([first], none)
  return .choice branches.reverse alternative

def choiceStatement : Parser Stmt := do
  Parser.expect Keyword.kwIf
  let condition ← self.parenthesized
  if ← Parser.eat Symbol.colon then
    let ends : List Terminal := [Keyword.kwElseIf, Keyword.kwElse, Keyword.kwEndIf]
    let first ← self.bodyUpTo ends
    let statement ← self.otherBranches (fun isLast => do
      Parser.expect Symbol.colon
      self.bodyUpTo (if isLast then [Keyword.kwEndIf] else ends)) ⟨condition, first⟩
    Parser.expect Keyword.kwEndIf
    endStatement
    return statement
  let first ← self.statement
  self.otherBranches (fun _ => self.statement) ⟨condition, first⟩

def whileStatement : Parser Stmt := do
  Parser.expect Keyword.kwWhile
  let condition ← self.parenthesized
  let body ← self.loopBody .kwEndWhile
  return .whileLoop ⟨condition, body⟩

def doWhileStatement : Parser Stmt := do
  Parser.expect Keyword.kwDo
  let body ← self.statement
  Parser.expect Keyword.kwWhile
  let condition ← self.parenthesized
  endStatement
  return .doWhileLoop ⟨condition, body⟩

def forPart (close : Symbol) : Parser (List (Located Expr)) := do
  let part ← do
    if ← Parser.check close then pure []
    else self.expressions
  Parser.expect close
  return part

def forStatement : Parser Stmt := do
  Parser.expect Keyword.kwFor
  Parser.expect Symbol.leftParen
  let start ← self.forPart .semicolon
  let condition ← self.forPart .semicolon
  let step ← self.forPart .rightParen
  let body ← self.loopBody .kwEndFor
  return .forLoop start condition step body

/-- Only the first token is checked here. -/
def foreachTarget : Parser (Located Expr) := do
  match ← Parser.peek with
  | some (.variable _) | some (.symbol .dollar) => self.suffixed
  | _ => Parser.expected "variable"

def foreachStatement : Parser Stmt := do
  Parser.expect Keyword.kwForeach
  Parser.expect Symbol.leftParen
  let subject ← self.expression
  Parser.expect Keyword.kwAs
  let first ← self.foreachTarget
  let (key, value) ← do
    if ← Parser.eat Symbol.fatArrow then pure (some first, ← self.foreachTarget)
    else pure (none, first)
  Parser.expect Symbol.rightParen
  let body ← self.loopBody .kwEndForeach
  return .foreachLoop ⟨subject, key, value, body⟩

/-- `break` or `continue` with the number of loops that it concerns, which is one if left out. -/
def jumpStatement (kind : LoopJump) : Parser Stmt := do
  Parser.advance
  let levels ← do
    match ← Parser.peek with
    | some (.number (.int value)) => do
      let span ← Parser.here
      Parser.advance
      let levels := value.toInt
      if levels < 1 || 4294967296 ≤ levels then Parser.failAt span (.loopLevel kind)
      pure levels.toNat
    | _ => pure 1
  endStatement
  return .jump kind levels

def returnStatement : Parser Stmt := do
  Parser.advance
  let value ← do
    if (← Parser.check Symbol.semicolon) || (← Parser.atEnd) then pure none
    else pure (some (← self.expression))
  endStatement
  return .ret value

def name : Parser (Located String) := do
  match ← Parser.peek with
  | some (.identifier name) => do
    let span ← Parser.here
    Parser.advance
    return ⟨name, span⟩
  | _ => Parser.expected "identifier"

def variableName : Parser (Located String) := do
  match ← Parser.peek with
  | some (.variable name) => do
    let span ← Parser.here
    Parser.advance
    return ⟨name, span⟩
  | _ => Parser.expected "variable"

def typeName : Parser TypeName := do
  match ← Parser.peek with
  | some (.identifier name) => do
    Parser.advance
    return .ofString (Text.asciiLower name)
  | some (.keyword .kwArray) => do
    Parser.advance
    return .array
  | _ => Parser.expected "type"

def typePass (types : List TypeName) : Parser (Parser.Pass (List TypeName)) := do
  if ← Parser.eat Symbol.pipe then return .more ((← typeName) :: types)
  return .done types

/-- A declared type. A question mark in front admits null too. -/
def typeHint (bound : Nat) : Parser TypeHint := do
  let isNullable ← Parser.eat Symbol.question
  let first ← typeName
  let types ← Parser.iterate typePass bound [first]
  return ⟨types.reverse ++ if isNullable then [.null] else []⟩

def parameter : Parser ParameterDecl := do
  let type ← do
    match ← Parser.peek with
    | some (.variable _) | some (.symbol .ellipsis) => pure none
    | _ => pure (some (← typeHint (self.bound + 1)))
  let isVariadic ← Parser.eat Symbol.ellipsis
  let ⟨name, span⟩ ← variableName
  let fallback ← do
    if ← Parser.eat Symbol.assign then
      if isVariadic then Parser.failAt span .variadicDefault
      pure (some (← self.expression))
    else pure none
  return ⟨⟨"$" ++ name, span⟩, type, fallback, isVariadic⟩

def freshId : Parser Nat :=
  modifyGet fun state => (state.nextId, { state with nextId := state.nextId + 1 })

/-- A function. Its identity is taken when its body has ended. -/
def functionDeclaration : Parser UserFunction := do
  let start ← Parser.here
  Parser.expect Keyword.kwFunction
  let name ← name
  Parser.expect Symbol.leftParen
  let parameters ← Parser.separatedUpTo (self.bound + 1) Symbol.rightParen self.parameter
  match parameters.dropLast.reverse.find? (·.isVariadic) with
  | some early => Parser.failAt early.name.span .variadicNotLast
  | none => pure ()
  let returnType ← do
    if ← Parser.eat Symbol.colon then pure (some (← typeHint (self.bound + 1)))
    else pure none
  Parser.expect Symbol.leftBrace
  let body ← self.blockRest
  let id ← freshId
  return { id, name, parameters, returnType, body, span := ← Parser.spanFrom start }

def constantItem : Parser ConstantItem := do
  let name ← name
  Parser.expect Symbol.assign
  return ⟨name, ← self.expression⟩

def constantsStatement : Parser Stmt := do
  Parser.advance
  let items ← Parser.separated (self.bound + 1) self.constantItem
  endStatement
  return .constants items

def globalsStatement : Parser Stmt := do
  Parser.advance
  let names ← Parser.separated (self.bound + 1) variableName
  endStatement
  return .globals names

def unsetStatement : Parser Stmt := do
  Parser.advance
  let targets ← self.arguments
  match targets.find? (!·.node.isVariable) with
  | some target => Parser.failAt target.span .unsetExpression
  | none => pure ()
  endStatement
  return .unset targets

def echoStatement : Parser Stmt := do
  Parser.advance
  let arguments ← self.expressions
  endStatement
  return .echo arguments

def expressionStatement : Parser Stmt := do
  let expression ← self.expressionStep
  endStatement
  return .expression expression

def keywordStatement : Keyword → Parser Stmt
  | .kwEcho => self.echoStatement
  | .kwIf => self.choiceStatement
  | .kwWhile => self.whileStatement
  | .kwDo => self.doWhileStatement
  | .kwFor => self.forStatement
  | .kwForeach => self.foreachStatement
  | .kwBreak => jumpStatement .leave
  | .kwContinue => jumpStatement .next
  | .kwReturn => self.returnStatement
  | .kwConst => self.constantsStatement
  | .kwGlobal => self.globalsStatement
  | .kwUnset => self.unsetStatement
  | .kwFunction => do
    match ← Parser.peekAt 1 with
    | some (.identifier _) => return .function (← self.functionDeclaration)
    | _ => self.expressionStatement
  | _ => self.expressionStatement

/-- A statement. -/
def statementStep : Parser (Located Stmt) := do
  let start ← Parser.here
  let statement ← do
    match ← Parser.peek with
    | none => Parser.unexpected
    | some (.inlineText text) => do
      Parser.advance
      pure (.inlineText text)
    | some .openEcho => self.echoStatement
    | some (.symbol .leftBrace) => do
      Parser.advance
      pure (.block (← self.blockRest))
    | some (.symbol .semicolon) => do
      Parser.advance
      pure .empty
    | some (.keyword word) => self.keywordStatement word
    | some _ => self.expressionStatement
  Parser.locate start statement

end PhpScript.Grammar
