import PhpScript.Syntax.Statement

/-!
# Reading programs

A nested part lies behind a token that its parent took, so no text nests deeper than its tokens are
many, where a text literal counts for its characters because code can stand inside it.
-/

namespace PhpScript

/-- Nothing can be parsed. -/
def Grammar.exhausted : Grammar where
  bound := 0
  expression := throw .exhausted
  choice := throw .exhausted
  coalesce := throw .exhausted
  unary := throw .exhausted
  dynamicVariable := throw .exhausted
  statement := throw .exhausted

/-- Code nested up to a depth can be parsed. -/
def Grammar.ofDepth : Nat → Grammar
  | 0 => Grammar.exhausted
  | depth + 1 =>
    { bound := depth
      expression := fun state => (Grammar.ofDepth depth).expressionStep state
      choice := fun state => (Grammar.ofDepth depth).choiceStep state
      coalesce := fun state => (Grammar.ofDepth depth).coalesceStep state
      unary := fun state => (Grammar.ofDepth depth).unaryStep state
      dynamicVariable := fun state => (Grammar.ofDepth depth).dynamicVariableStep state
      statement := fun state => (Grammar.ofDepth depth).statementStep state }

/-- How deep a token can be nested in what it stands for. -/
def Token.weight : Token → Nat
  | .doubleQuoted raw => raw.length + 2
  | _ => 1

/-- A depth that no program made of some tokens reaches. -/
def Token.totalWeight (tokens : List (Located Token)) : Nat :=
  tokens.foldl (fun total token => total + token.node.weight) 2

def Grammar.programPass (self : Grammar) (statements : List (Located Stmt)) :
    Parser (Parser.Pass (List (Located Stmt))) := do
  if ← Parser.atEnd then return .done statements
  return .more ((← self.statement) :: statements)

/-- Statements up to the end of the tokens. -/
def Grammar.program (self : Grammar) : Parser (List (Located Stmt)) := do
  let statements ← Parser.iterate self.programPass self.bound []
  return statements.reverse

namespace Program

/-- Read a program from the tokens of a source text. Declarations are numbered from `nextId` on;
the result gives the next number. -/
def ofTokens (filename source : String) (nextId : Nat) (tokens : List (Located Token)) :
    Except Stop Program × Nat :=
  let stop := Text.byteLength source
  let state : ParserState := { tokens, endSpan := ⟨stop, stop⟩, nextId }
  match (Grammar.ofDepth (Token.totalWeight tokens + 1)).program state with
  | .ok statements state => (.ok ⟨filename, statements, .ofText source⟩, state.nextId)
  | .error stop state => (.error stop, state.nextId)

end Program

/-- How a source text is to be read: with code sections in it, or as code from the start. -/
inductive SourceKind where
  | sections | code
deriving DecidableEq

namespace Program

/-- A program from a text, its functions numbered on. -/
def read (kind : SourceKind) (filename source : String) (nextId : Nat) :
    Except Stop Program × Nat :=
  let tokens :=
    match kind with
    | .sections => Token.scan source
    | .code => Token.scanCode source
  match tokens with
  | .error fault => (.error (.fault fault), nextId)
  | .ok tokens => ofTokens filename source nextId tokens

end Program

end PhpScript
