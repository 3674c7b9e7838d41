import PhpScript.Source.Fault
import PhpScript.Text.Whitespace
import PhpScript.Token.Lexeme

/-!
# Tokens of a source text

A code section begins with `<?php` before white space, or with `<?=`, and goes on to `?>`, which
ends a statement too and takes a newline directly behind it along. `Token.scanFragment` cuts a piece
of code that stands somewhere in a longer text.
-/

namespace PhpScript.Token

/-- How code is opened. -/
inductive OpenTag where
  | code | echo
deriving DecidableEq

def OpenTag.length : OpenTag → Nat
  | .code => 5
  | .echo => 3

def openTag? : List Char → Option OpenTag
  | '<' :: '?' :: '=' :: _ => some .echo
  | '<' :: '?' :: first :: second :: third :: rest =>
    if [first, second, third].map Char.toLower = ['p', 'h', 'p'] then
      match rest with
      | [] => some .code
      | next :: _ => if Text.isWhitespace next then some .code else none
    else none
  | _ => none

/-- Where in a source text the scan is. Inline text is collected with the last character first. -/
inductive Mode where
  | code
  | fragment
  | inlineText (start : Nat) (collected : List Char)

def collectInline (start stop : Nat) (collected : List Char) (tokens : List (Located Token)) :
    List (Located Token) :=
  if collected.isEmpty then tokens
  else ⟨.inlineText (String.ofList collected.reverse), ⟨start, stop⟩⟩ :: tokens

def newlineLength : List Char → Nat
  | '\r' :: '\n' :: _ => 2
  | '\n' :: _ => 1
  | _ => 0

/-- Scan a text from an offset on, after passing over `skip` characters that belong to what was
read last. The tokens found so far are given with the last one first. -/
def scanOnto (tokens : List (Located Token)) (offset : Nat) (mode : Mode) (skip : Nat) :
    List Char → Except (Located Fault) (List (Located Token))
  | [] =>
    match mode with
    | .inlineText start collected =>
      .ok (collectInline start offset collected tokens).reverse
    | .code | .fragment => .ok tokens.reverse
  | character :: rest =>
    let next := offset + character.utf8Size
    match skip with
    | skip + 1 => scanOnto tokens next mode skip rest
    | 0 =>
      match mode with
      | .inlineText start collected =>
        match openTag? (character :: rest) with
        | none => scanOnto tokens next (.inlineText start (character :: collected)) 0 rest
        | some tag =>
          let tokens := collectInline start offset collected tokens
          let tokens :=
            if tag = .echo then ⟨.openEcho, ⟨offset, offset + tag.length⟩⟩ :: tokens
            else tokens
          scanOnto tokens next .code (tag.length - 1) rest
      | .code | .fragment =>
        let (lexeme, length) := Lexeme.read character rest
        let slice := character :: rest.take (length - 1)
        let span : Span := ⟨offset, offset + Text.encodedSize slice⟩
        let unexpected := ⟨.unexpectedText (String.ofList slice), span⟩
        match lexeme with
        | .blank => scanOnto tokens next mode (length - 1) rest
        | .token token => scanOnto (⟨token, span⟩ :: tokens) next mode (length - 1) rest
        | .unexpected => .error unexpected
        | .unterminatedComment => .error ⟨.unterminatedComment, span⟩
        | .closeTag =>
          match mode with
          | .fragment => .error unexpected
          | _ =>
            let newline := newlineLength (rest.drop 1)
            scanOnto (⟨.symbol .semicolon, span⟩ :: tokens) next
              (.inlineText (span.stop + newline) []) (length - 1 + newline) rest

/-- The tokens of a text with sections of code. -/
def scan (source : String) : Except (Located Fault) (List (Located Token)) :=
  scanOnto [] 0 (.inlineText 0 []) 0 source.toList

/-- The tokens of a text that is code. -/
def scanCode (source : String) : Except (Located Fault) (List (Located Token)) :=
  scanOnto [] 0 .code 0 source.toList

/-- The tokens of code that begins at an offset. -/
def scanFragment (code : String) (offset : Nat) : Except (Located Fault) (List (Located Token)) :=
  scanOnto [] offset .fragment 0 code.toList

end PhpScript.Token
