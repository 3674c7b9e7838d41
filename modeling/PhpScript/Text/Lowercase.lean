import PhpScript.Text.CaseContext
import PhpScript.Text.LowercaseRuns

/-!
# Lower case

The lower case of a text is that of its characters, except for the capital sigma, which has another
form at the end of a word.
-/

namespace PhpScript.Text

def LowercaseRun.image? (run : LowercaseRun) (code : Nat) : Option Nat :=
  if run.first ≤ code && code ≤ run.last && (code - run.first) % run.stride = 0 then
    some (code + run.distance).toNat
  else none

def lowercaseCharacter (character : Char) : List Char :=
  if character.toNat < 0x80 then [character.toLower]
  else if character = 'İ' then ['i', '\u0307']
  else
    match lowercaseRuns.findSome? (·.image? character.toNat) with
    | some code => [Char.ofNat code]
    | none => [character]

def startsCased (text : List Char) : Bool :=
  match text.dropWhile isCaseIgnorable with
  | [] => false
  | character :: _ => inRuns cased character

def lowercaseAfter (before : List Char) : List Char → List Char
  | [] => []
  | character :: rest =>
    let lowered :=
      if character = 'Σ' then
        if startsCased before && !startsCased rest then ['ς'] else ['σ']
      else lowercaseCharacter character
    lowered ++ lowercaseAfter (character :: before) rest

def lowercase (text : String) : String := String.ofList (lowercaseAfter [] text.toList)

end PhpScript.Text
