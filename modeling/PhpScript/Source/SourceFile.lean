import PhpScript.Source.Lines

/-!
# Named source texts

What has to be known of a source text to name a place in it.
-/

namespace PhpScript

/-- The name and the lines of a source text. -/
structure SourceFile where
  name : String
  lines : LineTable := {}
deriving Inhabited

namespace SourceFile

def place (file : SourceFile) (offset : Nat) : String :=
  let position := file.lines.position offset
  s!"{file.name}:{position.line}:{position.column}"

end SourceFile

end PhpScript
