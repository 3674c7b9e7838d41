import PhpScript.Source.Fault
import PhpScript.Syntax.Basic
import PhpScript.Token.Lexeme

/-!
# Text literals with variables

The body of a literal in double quotes is cut into segments: text, in which escapes are resolved;
variables, possibly with one subscript; and pieces of code between braces. Escapes can spell single
bytes, so text is put together as bytes first.
-/

namespace PhpScript

/-- A segment of a text between double quotes. -/
inductive Segment where
  | text (text : String)
  | variable (expression : Located Expr)
  | variableNamed (code : String) (offset : Nat) (span : Span)
  | code (code : String) (offset : Nat)

namespace Segment

def isNameStart (character : Char) : Bool :=
  character.isAlpha || character = '_' || 0x80 ≤ character.toNat

def isNamePart (character : Char) : Bool := isNameStart character || character.isDigit

/-- Where a search for a closing brace is: outside quotes, or inside some, where a backslash
protects the next character. -/
inductive Quoting where
  | outside
  | inside (quote : Char) (isProtected : Bool)

/-- The characters up to the brace that closes an open one. Braces inside quotes do not count. What
was passed so far is in `passed`, the last character first; `depth` counts the braces opened in
it. -/
def takeBraced? (passed : List Char) (depth : Nat) (quoting : Quoting) :
    List Char → Option (List Char)
  | [] => none
  | character :: rest =>
    match quoting with
    | .inside quote true => takeBraced? (character :: passed) depth (.inside quote false) rest
    | .inside quote false =>
      let quoting :=
        if character = quote then .outside else .inside quote (character = '\\')
      takeBraced? (character :: passed) depth quoting rest
    | .outside =>
      match character with
      | '\'' | '"' =>
        takeBraced? (character :: passed) depth (.inside character false) rest
      | '{' => takeBraced? (character :: passed) (depth + 1) .outside rest
      | '}' =>
        if depth = 0 then some passed.reverse
        else takeBraced? (character :: passed) (depth - 1) .outside rest
      | _ => takeBraced? (character :: passed) depth .outside rest

/-- The value of hexadecimal digits, which may have a plus sign in front. -/
def hexValue? (digits : List Char) : Option Nat :=
  let unsigned :=
    match digits with
    | '+' :: rest => rest
    | rest => rest
  if unsigned.isEmpty || !unsigned.all Lexeme.isHexDigit then none
  else some (unsigned.foldl (fun value digit => 16 * value + Lexeme.digitValue digit) 0)

def character? (code : Nat) : Option Char :=
  if code < 0xd800 || (0xdfff < code && code < 0x110000) then some (Char.ofNat code) else none

def simpleEscape? : Char → Option UInt8
  | 'n' => some 0x0a
  | 't' => some 0x09
  | 'r' => some 0x0d
  | 'v' => some 0x0b
  | 'e' => some 0x1b
  | 'f' => some 0x0c
  | '\\' => some 0x5c
  | '$' => some 0x24
  | '"' => some 0x22
  | _ => none

/-- What the characters after a backslash stand for, and how many of them belong to the escape. An
unknown escape is a backslash. -/
def unescape (rest : List Char) : List UInt8 × Nat :=
  let verbatim : List UInt8 × Nat := ([0x5c], 0)
  match rest with
  | [] => verbatim
  | next :: after =>
    match simpleEscape? next with
    | some byte => ([byte], 1)
    | none =>
      if Lexeme.isOctalDigit next then
        let digits := (rest.take 3).takeWhile Lexeme.isOctalDigit
        let value := digits.foldl (fun value digit => 8 * value + Lexeme.digitValue digit) 0
        ([UInt8.ofNat value], digits.length)
      else if next = 'x' then
        match (after.take 2).takeWhile Lexeme.isHexDigit with
        | [] => verbatim
        | digits =>
          let value :=
            digits.foldl (fun value digit => 16 * value + Lexeme.digitValue digit) 0
          ([UInt8.ofNat value], digits.length + 1)
      else if next = 'u' then
        match after with
        | '{' :: braced =>
          let digits := braced.takeWhile (· ≠ '}')
          if (braced.drop digits.length).isEmpty then verbatim
          else
            match (hexValue? digits).bind character? with
            | some character => (String.utf8EncodeChar character, digits.length + 3)
            | none => verbatim
        | _ => verbatim
      else verbatim

/-- The key of a subscript inside a literal: a variable, an integer or a bare word. Given with the
number of characters that it takes. -/
def subscriptKey? : List Char → Option (Expr × Nat)
  | '$' :: first :: rest =>
    if isNameStart first then
      let name := (first :: rest).takeWhile isNamePart
      some (.variable (.simple (String.ofList name)), name.length + 1)
    else none
  | first :: rest =>
    if first.isDigit || first = '-' then
      let digits := first :: rest.takeWhile Char.isDigit
      some (.str (String.ofList digits), digits.length)
    else if isNameStart first then
      let name := (first :: rest).takeWhile isNamePart
      some (.str (String.ofList name), name.length)
    else none
  | [] => none

/-- A variable behind its dollar sign, with a subscript if one follows. The offset is that of the
dollar sign. Given with the number of characters behind the dollar sign. -/
def takeVariable (offset : Nat) (rest : List Char) : Located Expr × Nat :=
  let name := rest.takeWhile isNamePart
  let nameStop := offset + 1 + Text.encodedSize name
  let plain : Located Expr := ⟨.variable (.simple (String.ofList name)), ⟨offset, nameStop⟩⟩
  match rest.drop name.length with
  | '[' :: bracketed =>
    match subscriptKey? bracketed with
    | some (key, length) =>
      match bracketed.drop length with
      | ']' :: _ =>
        let keyStart := nameStop + 1
        let keyStop := keyStart + Text.encodedSize (bracketed.take length)
        let index : Located Expr := ⟨key, ⟨keyStart, keyStop⟩⟩
        (⟨.subscript plain (some index), ⟨offset, keyStop + 1⟩⟩,
          name.length + length + 2)
      | _ => (plain, name.length)
    | none => (plain, name.length)
  | _ => (plain, name.length)

inductive Piece where
  | bytes (bytes : List UInt8)
  | segment (segment : Segment)
  /-- A brace, the given number of bytes further on, that is not closed. -/
  | unclosed (distance : Nat)

/-- The piece at the head of a text that begins with a character at an offset, and how many
characters of the rest belong to it. -/
def piece (offset : Nat) (character : Char) (rest : List Char) : Piece × Nat :=
  match character, rest with
  | '\\', _ =>
    let (bytes, length) := unescape rest
    (.bytes bytes, length)
  | '$', '{' :: braced =>
    match takeBraced? [] 0 .outside braced with
    | none => (.unclosed 1, 0)
    | some inner =>
      let span : Span := ⟨offset, offset + Text.encodedSize inner + 3⟩
      let code := String.ofList inner
      let segment :=
        if !inner.isEmpty && inner.all isNamePart then
          .variable ⟨.variable (.simple code), span⟩
        else .variableNamed code (offset + 2) span
      (.segment segment, inner.length + 2)
  | '$', first :: _ =>
    if isNameStart first then
      let (expression, length) := takeVariable offset rest
      (.segment (.variable expression), length)
    else (.bytes [0x24], 0)
  | '{', '$' :: _ =>
    match takeBraced? [] 0 .outside rest with
    | none => (.unclosed 0, 0)
    | some inner => (.segment (.code (String.ofList inner) (offset + 1)), inner.length + 1)
  | other, _ => (.bytes (String.utf8EncodeChar other), 0)

def collectText (bytes : List UInt8) (segments : List Segment) : List Segment :=
  if bytes.isEmpty then segments else .text (Text.ofBytes bytes.reverse) :: segments

/-- Cut a text into segments, after passing over `skip` characters that belong to what was read
last. Segments and bytes are collected with the last one first. The second result is the offset of
a brace that is not closed; there the cutting ends. -/
def splitOnto (segments : List Segment) (bytes : List UInt8) (offset : Nat) (skip : Nat) :
    List Char → List Segment × Option Nat
  | [] => ((collectText bytes segments).reverse, none)
  | character :: rest =>
    let next := offset + character.utf8Size
    match skip with
    | skip + 1 => splitOnto segments bytes next skip rest
    | 0 =>
      match piece offset character rest with
      | (.bytes more, length) => splitOnto segments (more.reverse ++ bytes) next length rest
      | (.segment segment, length) =>
        splitOnto (segment :: collectText bytes segments) [] next length rest
      | (.unclosed distance, _) => (segments.reverse, some (offset + distance))

/-- The segments of a text, and a brace that is left open. -/
def split (raw : String) (offset : Nat) : List Segment × Option Nat :=
  splitOnto [] [] offset 0 raw.toList

end Segment

end PhpScript
