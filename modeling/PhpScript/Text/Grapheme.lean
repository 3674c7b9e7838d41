import PhpScript.Text.GraphemeBreak
import PhpScript.Text.GraphemeExtend

/-!
# Grapheme clusters

What a reader takes for one character can be several: a letter with its marks, a syllable, a flag, a
picture put together from others.
-/

namespace PhpScript.Text

inductive BreakClass where
  | carriageReturn | lineFeed | control | extend | joiner | spacing | prepended | regional
  | pictograph
  | leading | vowel | trailing | openSyllable | closedSyllable
  | other
deriving DecidableEq

def isModifier (character : Char) : Bool :=
  0x1f3fb ≤ character.toNat && character.toNat ≤ 0x1f3ff

def isRegional (character : Char) : Bool :=
  0x1f1e6 ≤ character.toNat && character.toNat ≤ 0x1f1ff

def syllableClass? (character : Char) : Option BreakClass :=
  let code := character.toNat
  if 0xac00 ≤ code && code ≤ 0xd7a3 then
    some (if (code - 0xac00) % 28 = 0 then .openSyllable else .closedSyllable)
  else none

def wideBreakClass (character : Char) : BreakClass :=
  if character = '\u200d' then .joiner
  else if inRuns breakControl character then .control
  else if isModifier character || inRuns graphemeExtend character then .extend
  else if isRegional character then .regional
  else if inRuns spacingMark character then .spacing
  else if inRuns prepended character then .prepended
  else if inRuns pictograph character then .pictograph
  else if inRuns hangulLeading character then .leading
  else if inRuns hangulVowel character then .vowel
  else if inRuns hangulTrailing character then .trailing
  else (syllableClass? character).getD .other

def breakClass (character : Char) : BreakClass :=
  match character with
  | '\r' => .carriageReturn
  | '\n' => .lineFeed
  | _ =>
    if 0x80 ≤ character.toNat then wideBreakClass character
    else if character.toNat < 0x20 || character.toNat = 0x7f then .control
    else .other

/-- Whether some characters, the last one first, end in a pictograph with nothing but extending
characters behind it. -/
def endsInPictograph (before : List Char) : Bool :=
  (before.dropWhile (breakClass · = .extend)).head?.any (breakClass · = .pictograph)

def isConjunctPart (character : Char) : Bool :=
  character ≠ '\u200c' && (breakClass character = .extend || breakClass character = .joiner)

/-- Whether some characters, the last one first, end in a consonant and signs behind it that link it
to the next one. -/
def endsLinked (before : List Char) : Bool :=
  let signs := before.takeWhile isConjunctPart
  signs.any (inRuns conjunctLinker)
    && (before.drop signs.length).head?.any (inRuns conjunctConsonant)

/-- Whether a character belongs to the cluster that ends some characters, which are given with the
last one first. -/
def joins (before : List Char) (next : Char) : Bool :=
  match before with
  | [] => false
  | last :: earlier =>
    match breakClass last, breakClass next with
    | .carriageReturn, .lineFeed => true
    | .carriageReturn, _ | .lineFeed, _ | .control, _ => false
    | _, .carriageReturn | _, .lineFeed | _, .control => false
    | _, .extend | _, .joiner | _, .spacing => true
    | .prepended, _ => true
    | .leading, .leading | .leading, .vowel | .leading, .openSyllable
    | .leading, .closedSyllable => true
    | .openSyllable, .vowel | .openSyllable, .trailing => true
    | .vowel, .vowel | .vowel, .trailing => true
    | .closedSyllable, .trailing | .trailing, .trailing => true
    | .joiner, .pictograph => endsInPictograph earlier
    | .regional, .regional => (earlier.takeWhile isRegional).length % 2 = 0
    | _, _ => inRuns conjunctConsonant next && endsLinked before

/-- Cut a text into clusters. The clusters found, the current one and all characters passed are
given with the last one first. -/
def clustersOnto (found : List (List Char)) (current before : List Char) :
    List Char → List (List Char)
  | [] => (if current.isEmpty then found else current.reverse :: found).reverse
  | next :: rest =>
    if current.isEmpty || joins before next then
      clustersOnto found (next :: current) (next :: before) rest
    else clustersOnto (current.reverse :: found) [next] (next :: before) rest

def clusters (text : List Char) : List (List Char) := clustersOnto [] [] [] text

end PhpScript.Text
