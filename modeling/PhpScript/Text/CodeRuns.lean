/-!
# Runs of code points

A property of characters is a table of the lengths of runs of code points that have it or have it
not.
-/

namespace PhpScript.Text

/-- Lengths of runs of code points, by turns without and with a property. -/
abbrev CodeRuns := List Nat

/-- Whether a code point has a property, if the first of some runs begins with code point zero. The
flag says whether this run has the property. -/
def isInside (hasProperty : Bool) : CodeRuns → Nat → Bool
  | [], _ => false
  | length :: rest, code =>
    if code < length then hasProperty else isInside (!hasProperty) rest (code - length)

def inRuns (runs : CodeRuns) (character : Char) : Bool := isInside false runs character.toNat

end PhpScript.Text
