/-!
# Lines of a source text

Diagnostics name places by line and column, both counted from one, columns in bytes.
-/

namespace PhpScript

/-- A place in a source text, counted from one. -/
structure Position where
  line : Nat
  column : Nat
deriving DecidableEq

/-- The offsets at which the lines of a source text begin, in the order of the text. The table of no
text is empty. -/
structure LineTable where
  starts : List Nat := []
deriving Inhabited

namespace LineTable

/-- The offsets just after the newlines of some characters that begin at `offset`; those found so
far are in `found`, the last one first. -/
def startsOnto (found : List Nat) (offset : Nat) : List Char → List Nat
  | [] => found.reverse
  | character :: rest =>
    let next := offset + character.utf8Size
    startsOnto (if character = '\n' then next :: found else found) next rest

/-- The table of a source text, whose first line begins at offset zero. -/
def ofText (source : String) : LineTable := ⟨startsOnto [0] 0 source.toList⟩

/-- The result of a search in a sorted list: the index of the value, or the index at which the value
could be inserted. -/
inductive Lookup where
  | exact (index : Nat)
  | next (index : Nat)
deriving DecidableEq

/-- The same result in a list with one more element in front. -/
def Lookup.shift : Lookup → Lookup
  | .exact index => .exact (index + 1)
  | .next index => .next (index + 1)

/-- Look an offset up among the starts of lines. -/
def search (offset : Nat) : List Nat → Lookup
  | [] => .next 0
  | start :: rest =>
    match compare start offset with
    | .lt => (search offset rest).shift
    | .eq => .exact 0
    | .gt => .next 0

/-- The index of the line that a search ends in. An offset between two starts belongs to the line
that begins at the first of them. -/
def Lookup.line : Lookup → Nat
  | .exact line => line
  | .next line => line - 1

/-- The line and column of a byte offset. Offsets beyond the end count as part of the last line. -/
def position (table : LineTable) (offset : Nat) : Position :=
  let line := (search offset table.starts).line
  let start := table.starts[line]?.getD 0
  ⟨line + 1, offset - start + 1⟩

def line (table : LineTable) (offset : Nat) : Nat := (table.position offset).line

end LineTable

end PhpScript
