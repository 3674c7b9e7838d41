import PhpScript.Source.Fault

/-!
# Reading from a list of tokens

A `Parser` reads something from the tokens in front of it, or stops with a fault. The grammar refers
to itself only after a token was taken, so the number of such references is bounded by the tokens; a
parser that is run with a smaller bound says so by `Stop.exhausted`.
-/

namespace PhpScript

/-- Why a parser stops. -/
inductive Stop where
  | fault (fault : Located Fault)
  | exhausted

/-- What is left to read, and what has to be remembered of what was read. -/
structure ParserState where
  tokens : List (Located Token)
  previousStop : Nat := 0
  endSpan : Span
  nextId : Nat

/-- A parser of tokens. -/
abbrev Parser := EStateM Stop ParserState

/-- A token that has one spelling. -/
inductive Terminal where
  | word (keyword : Keyword)
  | mark (symbol : Symbol)

instance : Coe Keyword Terminal := ⟨.word⟩

instance : Coe Symbol Terminal := ⟨.mark⟩

namespace Terminal

def accepts (terminal : Terminal) (token : Token) : Bool :=
  match terminal with
  | .word keyword => token.isKeyword keyword
  | .mark symbol => token.isSymbol symbol

def quoted : Terminal → String
  | .word keyword => "\"" ++ keyword.spelling ++ "\""
  | .mark symbol => "\"" ++ symbol.spelling ++ "\""

end Terminal

namespace Parser

variable {α : Type}

def peek : Parser (Option Token) := return (← get).tokens.head?.map (·.node)

def peekAt (distance : Nat) : Parser (Option Token) :=
  return (← get).tokens[distance]?.map (·.node)

def here : Parser Span := do
  let state ← get
  return (state.tokens.head?.map (·.span)).getD state.endSpan

def atEnd : Parser Bool := return (← get).tokens.isEmpty

def advance : Parser Unit :=
  modify fun state =>
    match state.tokens with
    | [] => state
    | token :: rest => { state with tokens := rest, previousStop := token.span.stop }

def failAt (span : Span) (fault : Fault) : Parser α := throw (.fault ⟨fault, span⟩)

def unexpected : Parser α := do failAt (← here) (.unexpected (← peek))

def expected (what : String) : Parser α := do failAt (← here) (.expected (← peek) what)

def check (terminal : Terminal) : Parser Bool := return (← peek).any terminal.accepts

/-- Take the next token if it is the one. -/
def eat (terminal : Terminal) : Parser Bool := do
  let found ← check terminal
  if found then advance
  return found

/-- Take the next token, which must be the one. -/
def expect (terminal : Terminal) : Parser Unit := do
  unless ← eat terminal do expected terminal.quoted

/-- From a start to the end of the last token taken. -/
def spanFrom (start : Span) : Parser Span :=
  return ⟨start.start, max (← get).previousStop start.start⟩

def locate (start : Span) (node : α) : Parser (Located α) := return ⟨node, ← spanFrom start⟩

/-- What a pass of a loop leads to. -/
inductive Pass (α : Type) where
  | more (result : α)
  | done (result : α)

/-- Passes of a loop, up to a bound. -/
def iterate (pass : α → Parser (Pass α)) : Nat → α → Parser α
  | 0, _ => throw .exhausted
  | bound + 1, result => do
    match ← pass result with
    | .done result => return result
    | .more result => iterate pass bound result

def separatedPass (element : Parser α) (elements : List α) : Parser (Pass (List α)) := do
  let next ← element
  if ← eat Symbol.comma then return .more (next :: elements)
  return .done (next :: elements)

def separatedUpToPass (close : Terminal) (element : Parser α) (elements : List α) :
    Parser (Pass (List α)) := do
  if ← check close then return .done elements
  separatedPass element elements

/-- Elements with commas between them up to a closing token, which is taken. A comma may stand
behind the last element. -/
def separatedUpTo (bound : Nat) (close : Terminal) (element : Parser α) : Parser (List α) := do
  let elements ← iterate (separatedUpToPass close element) bound []
  expect close
  return elements.reverse

/-- One or more elements with commas between them. -/
def separated (bound : Nat) (element : Parser α) : Parser (List α) := do
  let elements ← iterate (separatedPass element) bound []
  return elements.reverse

end Parser

end PhpScript
