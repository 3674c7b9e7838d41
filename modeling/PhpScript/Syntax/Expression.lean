import PhpScript.Syntax.Interpolation
import PhpScript.Syntax.Parser
import PhpScript.Token.Section

/-!
# Grammar of expressions

Operators by precedence, the loosest first: `or`, `xor`, `and`, the choice `? :`, `??`, the binary
levels from `||` down to multiplication, prefix operators, `**`. Assignment is recognised right
behind its target. `self` stands for the grammar as it applies to what is nested inside, and is used
only after a token was taken.
-/

namespace PhpScript

/-- How nested parts are parsed. -/
structure Grammar where
  /-- More than the number of tokens that nested parts can take. -/
  bound : Nat
  expression : Parser (Located Expr)
  /-- An expression without `or`, `xor` and `and` outside parentheses. -/
  choice : Parser (Located Expr)
  coalesce : Parser (Located Expr)
  unary : Parser (Located Expr)
  dynamicVariable : Parser (Located Expr)
  statement : Parser (Located Stmt)

namespace Grammar

def joined (left : Located Expr) (operator : BinaryOperator) (right : Located Expr) :
    Located Expr :=
  ⟨.binary left operator right, left.span.merge right.span⟩

/-- One more operator with its right operand. -/
def operatorPass (operator? : Token → Option BinaryOperator) (operand : Parser (Located Expr))
    (left : Located Expr) : Parser (Parser.Pass (Located Expr)) := do
  match (← Parser.peek).bind operator? with
  | none => return .done left
  | some operator => do
    Parser.advance
    let right ← operand
    return .more (joined left operator right)

/-- Operands joined from the left. -/
def leftAssociative (bound : Nat) (operator? : Token → Option BinaryOperator)
    (operand : Parser (Located Expr)) : Parser (Located Expr) := do
  let first ← operand
  Parser.iterate (operatorPass operator? operand) bound first

/-- Operators that are words, the loosest first. -/
def wordLevels : List (Token → Option BinaryOperator) :=
  [ fun token => if token.isKeyword .kwOr then some .or else none,
    fun token => if token.isKeyword .kwXor then some .xor else none,
    fun token => if token.isKeyword .kwAnd then some .and else none ]

/-- Operators that are symbols, the loosest first. -/
def symbolLevels : List (Symbol → Option BinaryOperator) :=
  [ fun | .pipePipe => some .or | _ => none,
    fun | .ampAmp => some .and | _ => none,
    fun | .pipe => some .bitOr | _ => none,
    fun | .caret => some .bitXor | _ => none,
    fun | .amp => some .bitAnd | _ => none,
    fun
      | .equalEqual => some .equal
      | .notEqual => some .notEqual
      | .identical => some .identical
      | .notIdentical => some .notIdentical
      | .spaceship => some .spaceship
      | _ => none,
    fun
      | .less => some .less
      | .lessEqual => some .lessEqual
      | .greater => some .greater
      | .greaterEqual => some .greaterEqual
      | _ => none,
    fun | .dot => some .concat | _ => none,
    fun | .shl => some .shiftLeft | .shr => some .shiftRight | _ => none,
    fun | .plus => some .add | .minus => some .sub | _ => none,
    fun | .star => some .mul | .slash => some .div | .percent => some .mod | _ => none ]

def onSymbols (level : Symbol → Option BinaryOperator) : Token → Option BinaryOperator
  | .symbol mark => level mark
  | _ => none

/-- Operands joined by levels of operators, the loosest first. -/
def levels (bound : Nat) (operand : Parser (Located Expr)) :
    List (Token → Option BinaryOperator) → Parser (Located Expr)
  | [] => operand
  | level :: tighter => leftAssociative bound level (levels bound operand tighter)

/-- What an assignment does. -/
inductive Assignment where
  | plain
  | compound (operator : BinaryOperator)
  | coalesce

def assignment? : Symbol → Option Assignment
  | .assign => some .plain
  | .coalesceAssign => some .coalesce
  | .plusAssign => some (.compound .add)
  | .minusAssign => some (.compound .sub)
  | .starAssign => some (.compound .mul)
  | .slashAssign => some (.compound .div)
  | .dotAssign => some (.compound .concat)
  | .percentAssign => some (.compound .mod)
  | .powAssign => some (.compound .pow)
  | .ampAssign => some (.compound .bitAnd)
  | .pipeAssign => some (.compound .bitOr)
  | .caretAssign => some (.compound .bitXor)
  | .shlAssign => some (.compound .shiftLeft)
  | .shrAssign => some (.compound .shiftRight)
  | _ => none

def unaryOperator? : Token → Option UnaryOperator
  | .symbol .bang => some .not
  | .symbol .minus => some .neg
  | .symbol .plus => some .plus
  | .symbol .tilde => some .bitNot
  | _ => none

def stepOperator? : Token → Option StepOperator
  | .symbol .inc => some .increment
  | .symbol .dec => some .decrement
  | _ => none

def includeMode? : Token → Option IncludeMode
  | .keyword .kwInclude => some ⟨false, false⟩
  | .keyword .kwIncludeOnce => some ⟨false, true⟩
  | .keyword .kwRequire => some ⟨true, false⟩
  | .keyword .kwRequireOnce => some ⟨true, true⟩
  | _ => none

def castType? : Token → Option CastType
  | .keyword .kwArray => some .array
  | .identifier name =>
    match Text.asciiLower name with
    | "int" | "integer" => some .int
    | "float" | "double" | "real" => some .float
    | "string" | "binary" => some .string
    | "bool" | "boolean" => some .bool
    | _ => none
  | _ => none

/-- The cast that comes next. -/
def castAhead : Parser (Option CastType) := do
  let first ← Parser.peek
  let third ← Parser.peekAt 2
  if first.any (·.isSymbol .leftParen) && third.any (·.isSymbol .rightParen) then
    return (← Parser.peekAt 1).bind castType?
  return none

def reservedName? (name : String) : Option Expr :=
  match Text.asciiLower name with
  | "true" => some (.bool true)
  | "false" => some (.bool false)
  | "null" => some .null
  | "__line__" => some (.magic .line)
  | "__file__" => some (.magic .file)
  | "__dir__" => some (.magic .directory)
  | "__function__" => some (.magic .function)
  | _ => none

variable (self : Grammar)

def parenthesized : Parser (Located Expr) := do
  Parser.expect Symbol.leftParen
  let inner ← self.expression
  Parser.expect Symbol.rightParen
  return inner

def arguments : Parser (List (Located Expr)) := do
  Parser.expect Symbol.leftParen
  Parser.separatedUpTo (self.bound + 1) Symbol.rightParen self.expression

def arrayItem : Parser (ArrayItem Expr) := do
  let first ← self.expression
  if ← Parser.eat Symbol.fatArrow then return ⟨some first, ← self.expression⟩
  return ⟨none, first⟩

def arrayItems (close : Symbol) : Parser Expr := do
  let items ← Parser.separatedUpTo (self.bound + 1) close self.arrayItem
  return .array items

/-- Code inside a text literal, from tokens of its own. -/
def embedded (code : String) (offset : Nat) : Parser (Located Expr) := do
  match Token.scanFragment code offset with
  | .error fault => throw (.fault fault)
  | .ok tokens => do
    let outer ← get
    let stop := offset + Text.byteLength code
    set { outer with tokens, previousStop := 0, endSpan := ⟨stop, stop⟩ }
    let expression ← self.expression
    unless ← Parser.atEnd do Parser.unexpected
    modify fun inner => { outer with nextId := inner.nextId }
    return expression

def segmentPart : Segment → Parser (StringPart Expr)
  | .text text => return .text text
  | .variable expression => return .code expression
  | .variableNamed code offset span => do
    let name ← self.embedded code offset
    return .code ⟨.variable (.dynamic name), span⟩
  | .code code offset => do
    let expression ← self.embedded code offset
    return .code expression

/-- A text literal with code in it. -/
def interpolation (raw : String) (offset : Nat) : Parser Expr := do
  let (segments, unclosed) := Segment.split raw offset
  let parts ← segments.mapM self.segmentPart
  match unclosed with
  | some brace => Parser.failAt ⟨brace, offset + Text.byteLength raw⟩ .unclosedBrace
  | none =>
    match parts with
    | [] => return .str ""
    | [.text text] => return .str text
    | parts => return .interpolated parts

def named (name : String) : Parser Expr := do
  if ← Parser.check Symbol.leftParen then return .call (.name name) (← self.arguments)
  return (reservedName? name).getD (.constant name)

/-- A variable whose name is computed: `$$name`, `$$$name` or `${expression}`. -/
def dynamicVariableStep : Parser (Located Expr) := do
  let start ← Parser.here
  Parser.expect Symbol.dollar
  let name ← do
    if ← Parser.eat Symbol.leftBrace then
      let inner ← self.expression
      Parser.expect Symbol.rightBrace
      pure inner
    else
      match ← Parser.peek with
      | some (.variable name) => do
        let span ← Parser.here
        Parser.advance
        pure ⟨.variable (.simple name), span⟩
      | some (.symbol .dollar) => self.dynamicVariable
      | _ => Parser.expected "variable"
  Parser.locate start (.variable (.dynamic name))

def exitArgument : Parser (Option (Located Expr)) := do
  if ← Parser.eat Symbol.leftParen then
    if ← Parser.eat Symbol.rightParen then return none
    let code ← self.expression
    Parser.expect Symbol.rightParen
    return some code
  return none

def keywordOperand (start : Span) (word : Keyword) : Parser Expr := do
  match word with
  | .kwArray => do
    Parser.advance
    Parser.expect Symbol.leftParen
    self.arrayItems .rightParen
  | .kwIsset => do
    Parser.advance
    let targets ← self.arguments
    if targets.isEmpty then Parser.failAt (← Parser.spanFrom start) .issetNothing
    return .isset targets
  | .kwEmpty => do
    Parser.advance
    return .empty (← self.parenthesized)
  | .kwEval => do
    Parser.advance
    return .evaluate (← self.parenthesized)
  | .kwExit | .kwDie => do
    Parser.advance
    return .exit (← self.exitArgument)
  | _ => Parser.unexpected

/-- An operand without operators. -/
def primary : Parser (Located Expr) := do
  let start ← Parser.here
  let token ← Parser.peek
  match token with
  | some (.symbol .dollar) => self.dynamicVariableStep
  | _ => do
    let node ←
      match token with
      | some (.number (.int value)) => do
        Parser.advance
        pure (.int value)
      | some (.number (.float value)) => do
        Parser.advance
        pure (.float value)
      | some (.singleQuoted text) => do
        Parser.advance
        pure (.str text)
      | some (.doubleQuoted raw) => do
        Parser.advance
        self.interpolation raw (start.start + 1)
      | some (.variable name) => do
        Parser.advance
        pure (.variable (.simple name))
      | some (.identifier name) => do
        Parser.advance
        self.named name
      | some (.symbol .leftBracket) => do
        Parser.advance
        self.arrayItems .rightBracket
      | some (.symbol .leftParen) => do
        Parser.advance
        let inner ← self.expression
        Parser.expect Symbol.rightParen
        pure inner.node
      | some (.keyword word) => self.keywordOperand start word
      | _ => Parser.unexpected
    Parser.locate start node

/-- A subscript or a call behind an operand. -/
def suffixPass (start : Span) (operand : Located Expr) : Parser (Parser.Pass (Located Expr)) := do
  if ← Parser.eat Symbol.leftBracket then
    let index ← do
      if ← Parser.check Symbol.rightBracket then pure none
      else pure (some (← self.expression))
    Parser.expect Symbol.rightBracket
    return .more (← Parser.locate start (.subscript operand index))
  if operand.node.isVariable then
    if ← Parser.check Symbol.leftParen then
      let arguments ← self.arguments
      return .more (← Parser.locate start (.call (.dynamic operand) arguments))
  return .done operand

/-- An operand with what may stand behind it: subscripts, arguments, and behind a variable a step
or an assignment. -/
def suffixed : Parser (Located Expr) := do
  let start ← Parser.here
  let first ← self.primary
  let operand ← Parser.iterate (self.suffixPass start) (self.bound + 1) first
  if !operand.node.isVariable then return operand
  let next ← Parser.peek
  match next.bind stepOperator? with
  | some operator => do
    Parser.advance
    Parser.locate start (.step operator false operand)
  | none =>
    match next with
    | some (.symbol mark) =>
      match assignment? mark with
      | none => return operand
      | some kind => do
        Parser.advance
        let value ← self.choice
        Parser.locate start
          (match kind with
          | .plain => .assign operand value
          | .compound operator => .compoundAssign operator operand value
          | .coalesce => .coalesceAssign operand value)
    | _ => return operand

def power : Parser (Located Expr) := do
  let base ← self.suffixed
  if ← Parser.eat Symbol.pow then return joined base .pow (← self.unary)
  return base

/-- An operand with what stands in front of it. -/
def unaryStep : Parser (Located Expr) := do
  let start ← Parser.here
  match ← Parser.peek with
  | none => Parser.unexpected
  | some token =>
    match unaryOperator? token with
    | some operator => do
      Parser.advance
      let operand ← self.unary
      Parser.locate start (.unary operator operand)
    | none => do
      match ← castAhead with
      | some type => do
        Parser.advance
        Parser.advance
        Parser.advance
        let operand ← self.unary
        Parser.locate start (.cast type operand)
      | none =>
        match stepOperator? token, includeMode? token, token with
        | some operator, _, _ => do
          Parser.advance
          let target ← self.unary
          if !target.node.isVariable then Parser.failAt target.span .stepExpression
          Parser.locate start (.step operator true target)
        | _, some mode, _ => do
          Parser.advance
          let path ← self.choice
          Parser.locate start (.includeFile mode path)
        | _, _, .symbol .atSign => do
          Parser.advance
          let operand ← self.unary
          Parser.locate start (.silence operand)
        | _, _, .keyword .kwPrint => do
          Parser.advance
          let operand ← self.choice
          Parser.locate start (.print operand)
        | _, _, _ => self.power

def binary : Parser (Located Expr) :=
  levels (self.bound + 1) self.unaryStep (symbolLevels.map onSymbols)

def coalesceStep : Parser (Located Expr) := do
  let left ← self.binary
  if ← Parser.eat Symbol.coalesce then
    let right ← self.coalesce
    return ⟨.coalesce left right, left.span.merge right.span⟩
  return left

/-- One more choice behind a condition. -/
def choicePass (condition : Located Expr) : Parser (Parser.Pass (Located Expr)) := do
  if ← Parser.eat Symbol.question then
    let consequent ← do
      if ← Parser.eat Symbol.colon then pure none
      else
        let consequent ← self.choice
        Parser.expect Symbol.colon
        pure (some consequent)
    let alternative ← self.coalesceStep
    return .more
      ⟨.ternary condition consequent alternative, condition.span.merge alternative.span⟩
  return .done condition

def choiceStep : Parser (Located Expr) := do
  let first ← self.coalesceStep
  Parser.iterate self.choicePass (self.bound + 1) first

/-- A whole expression. -/
def expressionStep : Parser (Located Expr) :=
  levels (self.bound + 1) self.choiceStep wordLevels

end Grammar

end PhpScript
