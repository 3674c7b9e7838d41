import PhpScript.Text.GraphemeExtend
import PhpScript.Text.Unprintable

/-!
# Quoted text

What would not show, or would be mistaken for the end of the text, is written with a backslash.
-/

namespace PhpScript.Text

/-- The half-width sound marks, which extend the character before them but take a cell of their
own. -/
def isSoundMark (character : Char) : Bool :=
  character.toNat = 0xff9e || character.toNat = 0xff9f

def isPlain (character : Char) : Bool :=
  if character.toNat < 0x7f then 0x20 ≤ character.toNat
  else
    (isSoundMark character || !inRuns graphemeExtend character)
      && !inRuns unprintable character

def hexadecimal (number : Nat) : String := String.ofList (Nat.toDigits 16 number)

def escape (character : Char) : String :=
  match character with
  | '\x00' => "\\0"
  | '\t' => "\\t"
  | '\r' => "\\r"
  | '\n' => "\\n"
  | '"' => "\\\""
  | '\\' => "\\\\"
  | _ =>
    if isPlain character then character.toString
    else "\\u\x7b" ++ hexadecimal character.toNat ++ "\x7d"

def quoted (text : String) : String :=
  "\"" ++ String.join (text.toList.map escape) ++ "\""

end PhpScript.Text
