import PhpScript.Text.Bytes
import PhpScript.Text.Grapheme

/-!
# Backspaces

A backspace in a typed line takes back the cluster before it.
-/

namespace PhpScript.Text

def backspace : Char := '\x08'

/-- Drop whole characters of a number of bytes from the head; none when the number ends inside a
character. -/
def dropBytes? : Nat → List Char → Option (List Char)
  | 0, characters => some characters
  | _ + 1, [] => none
  | count + 1, character :: rest =>
    if character.utf8Size ≤ count + 1 then dropBytes? (count + 1 - character.utf8Size) rest
    else none

/-- Carry out the backspaces among some clusters. What is kept of the line stands with its last
character first, and so do the sizes of the clusters that can be taken back. Of a size its last byte
is known only. -/
def settleOnto (kept : List Char) (sizes : List Nat) : List (List Char) → Option (List Char)
  | [] => some kept.reverse
  | cluster :: rest =>
    if cluster = [backspace] then
      match sizes with
      | [] => settleOnto kept [] rest
      | size :: sizes => do settleOnto (← dropBytes? size kept) sizes rest
    else
      settleOnto (cluster.reverse ++ kept) (encodedSize cluster % 256 :: sizes) rest

/-- A line with its backspaces carried out. There is none when the last byte of the size of a long
cluster does not lead to the end of a character. -/
def settleBackspaces? (line : List Char) : Option (List Char) :=
  if line.contains backspace then settleOnto [] [] (clusters line) else some line

end PhpScript.Text
