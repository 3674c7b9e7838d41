import PhpScript.Token.Basic
import PhpScript.Text.Bytes

/-!
# Lexemes

What stands at the head of a piece of code, by the longest match. A lexeme takes one character at
least.
-/

namespace PhpScript

/-- What stands at the head of some code. -/
inductive Lexeme where
  | blank
  | token (token : Token)
  | closeTag
  /-- Characters that begin no token, or a token that is malformed or not finished. -/
  | unexpected
  | unterminatedComment

namespace Lexeme

def isBlank (character : Char) : Bool :=
  character = ' ' || character = '\t' || character = '\n' || character = '\r' ||
    character = '\x0c'

def isNameStart (character : Char) : Bool := character.isAlpha || character = '_'

def isNamePart (character : Char) : Bool := character.isAlphanum || character = '_'

def isOctalDigit (character : Char) : Bool := '0' ≤ character && character ≤ '7'

def isBinaryDigit (character : Char) : Bool := character = '0' || character = '1'

def isHexDigit (character : Char) : Bool :=
  character.isDigit || ('a' ≤ character && character ≤ 'f') ||
    ('A' ≤ character && character ≤ 'F')

def digitValue (character : Char) : Nat :=
  if character.isDigit then character.toNat - '0'.toNat
  else if character.isLower then character.toNat - 'a'.toNat + 10
  else character.toNat - 'A'.toNat + 10

def lineCommentLength : List Char → Nat
  | [] => 0
  | '\n' :: _ => 0
  | '?' :: '>' :: _ => 0
  | _ :: rest => lineCommentLength rest + 1

def blockCommentLength? : List Char → Option Nat
  | [] => none
  | '*' :: '/' :: _ => some 2
  | _ :: rest => (blockCommentLength? rest).map (· + 1)

/-- The body of a quoted literal behind its opening quote. A backslash protects the character after
it. Besides the body it gives back how many characters of the text belong to the literal: up to the
closing quote if there is one, else all of them but a lone backslash at the end. What was read so
far is in `body`, the last character first. -/
def takeQuoted (quote : Char) (body : List Char) (length : Nat) :
    List Char → Option (List Char) × Nat
  | [] => (none, length)
  | ['\\'] => (none, length)
  | '\\' :: escaped :: rest => takeQuoted quote (escaped :: '\\' :: body) (length + 2) rest
  | character :: rest =>
    if character = quote then (some body.reverse, length + 1)
    else takeQuoted quote (character :: body) (length + 1) rest

/-- What the body of a literal in single quotes stands for: a backslash protects a quote and a
backslash, and is itself before anything else. -/
def unescapeSingle : List Char → List Char
  | [] => []
  | '\\' :: '\'' :: rest => '\'' :: unescapeSingle rest
  | '\\' :: '\\' :: rest => '\\' :: unescapeSingle rest
  | character :: rest => character :: unescapeSingle rest

/-- Digits, with an underscore or none between two. -/
def takeGroups (isDigit : Char → Bool) : List Char → List Char × List Char
  | [] => ([], [])
  | '_' :: digit :: rest =>
    if isDigit digit then
      let (digits, after) := takeGroups isDigit rest
      (digit :: digits, after)
    else ([], '_' :: digit :: rest)
  | character :: rest =>
    if isDigit character then
      let (digits, after) := takeGroups isDigit rest
      (character :: digits, after)
    else ([], character :: rest)

def takeNumber (isDigit : Char → Bool) : List Char → List Char × List Char
  | [] => ([], [])
  | character :: rest =>
    if isDigit character then takeGroups isDigit (character :: rest)
    else ([], character :: rest)

def floatInBase (base : Nat) (digits : List Char) : Float :=
  let factor := Binary64.ofInt base
  digits.foldl (fun value digit => value * factor + Binary64.ofInt (digitValue digit)) 0

/-- The number of digits in a base: exact while it is an integer in range, otherwise a float. -/
def numberInBase (base : Nat) (digits : List Char) : Numeric :=
  let exact : Int :=
    digits.foldl (fun value digit => base * value + digitValue digit) (0 : Nat)
  match Integer.fit? exact with
  | some value => .int value
  | none => .float (floatInBase base digits)

/-- The number of digits, octal behind a zero. -/
def plainInteger? (digits : List Char) : Option Numeric :=
  match digits with
  | '0' :: first :: rest =>
    if (first :: rest).all isOctalDigit then some (numberInBase 8 (first :: rest)) else none
  | _ => some (Numeral.toNumeric false ⟨digits, none, none⟩)

/-- The number of decimal digits with a point behind them and the letter of an exponent behind that,
but no exponent. It is a float, and a leading zero means octal all the same. -/
def pointedInteger? (digits : List Char) : Option Numeric :=
  match digits with
  | '0' :: first :: rest =>
    if (first :: rest).all isOctalDigit then some (.float (floatInBase 8 (first :: rest)))
    else none
  | _ => some (.float (Numeral.toFloat false ⟨digits, none, none⟩))

/-- A number behind the mark of its base. -/
def takeBased? : List Char → Option (Numeric × List Char)
  | '0' :: letter :: rest =>
    let base? : Option (Nat × (Char → Bool)) :=
      match letter with
      | 'x' | 'X' => some (16, isHexDigit)
      | 'o' | 'O' => some (8, isOctalDigit)
      | 'b' | 'B' => some (2, isBinaryDigit)
      | _ => none
    match base? with
    | none => none
    | some (base, isDigit) =>
      match takeNumber isDigit rest with
      | ([], _) => none
      | (digits, after) => some (numberInBase base digits, after)
  | _ => none

/-- A number literal, and what follows it: the longest text that matches the pattern of a literal,
as lexer generators choose. A numeral with a point or an exponent is a float; an octal one without
is malformed when it has a digit eight or nine. Two quirks belong to the generated lexer, which
backs out of a longer pattern: an underscore that no digit follows is swallowed (`1_`), and where a
point and the letter of an exponent have no exponent behind them, a leading zero means octal
(`010.e` is the float eight, `08.e` is malformed). -/
def takeNumeral (text : List Char) : Option Numeric × List Char :=
  match takeBased? text with
  | some (number, after) => (some number, after)
  | none =>
    let (whole, afterWhole) := takeNumber Char.isDigit text
    let (fraction, afterFraction) : Option (List Char) × List Char :=
      match afterWhole with
      | '.' :: rest =>
        let (digits, after) := takeNumber Char.isDigit rest
        (some digits, after)
      | rest => (none, rest)
    let (exponent, after) := Numeral.takeExponent afterFraction
    if fraction = some [] && exponent.isNone
        && afterFraction.head?.any Numeral.isExponentMark then
      (pointedInteger? whole, after)
    else if fraction.isSome || exponent.isSome then
      (some (.float (Numeral.toFloat false ⟨whole, fraction, exponent⟩)), after)
    else
      let after :=
        match afterWhole with
        | '_' :: rest => rest
        | rest => rest
      (plainInteger? whole, after)

/-- The longest symbol at the head. -/
def takeSymbol? (text : List Char) : Option (Symbol × Nat) :=
  [3, 2, 1].findSome? fun length =>
    let piece := text.take length
    if piece.length = length then
      (Symbol.ofSpelling? (String.ofList piece)).map (·, length)
    else none

/-- The characters at the head of a text that can belong to one number literal: letters, digits and
underscores, a point if `mayPoint`, and a sign directly behind the letter of an exponent, which is
what `mayBeSigned` says of the first character. -/
def takeNumberParts (mayPoint mayBeSigned : Bool) : List Char → List Char
  | [] => []
  | character :: rest =>
    if isNamePart character then
      character :: takeNumberParts mayPoint (Numeral.isExponentMark character) rest
    else if mayPoint && character = '.' then character :: takeNumberParts false false rest
    else if mayBeSigned && (character = '+' || character = '-') then
      character :: takeNumberParts mayPoint false rest
    else []

def readNumber (text : List Char) : Lexeme × Nat :=
  let candidate := takeNumberParts true false text
  let (number, after) := takeNumeral candidate
  let lexeme := number.elim .unexpected fun value => .token (.number value)
  (lexeme, candidate.length - after.length)

def readWord (text : List Char) : Lexeme × Nat :=
  let characters := text.takeWhile isNamePart
  let name := String.ofList characters
  let token :=
    match Keyword.ofSpelling? (Text.asciiLower name) with
    | some keyword => .keyword keyword
    | none => .identifier name
  (.token token, characters.length)

def readQuoted (quote : Char) (rest : List Char) : Lexeme × Nat :=
  match takeQuoted quote [] 0 rest with
  | (none, length) => (.unexpected, length + 1)
  | (some body, length) =>
    let token :=
      if quote = '\'' then .singleQuoted (String.ofList (unescapeSingle body))
      else .doubleQuoted (String.ofList body)
    (.token token, length + 1)

def readSymbol (text : List Char) : Lexeme × Nat :=
  match takeSymbol? text with
  | some (symbol, length) => (.token (.symbol symbol), length)
  | none => (.unexpected, 1)

/-- The lexeme at the head, and its length. -/
def read (character : Char) (rest : List Char) : Lexeme × Nat :=
  let text := character :: rest
  if isBlank character then (.blank, (rest.takeWhile isBlank).length + 1)
  else if isNameStart character then readWord text
  else if character.isDigit then readNumber text
  else if character = '\'' || character = '"' then readQuoted character rest
  else
    match character, rest with
    | '#', _ => (.blank, lineCommentLength rest + 1)
    | '/', '/' :: after => (.blank, lineCommentLength after + 2)
    | '/', '*' :: after =>
      match blockCommentLength? after with
      | some length => (.blank, length + 2)
      | none => (.unterminatedComment, 2)
    | '?', '>' :: _ => (.closeTag, 2)
    | '.', digit :: _ => if digit.isDigit then readNumber text else readSymbol text
    | '$', first :: _ =>
      if isNameStart first then
        let characters := rest.takeWhile isNamePart
        (.token (.variable (String.ofList characters)), characters.length + 1)
      else readSymbol text
    | _, _ => readSymbol text

end Lexeme

end PhpScript
