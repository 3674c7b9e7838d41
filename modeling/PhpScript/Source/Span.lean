/-!
# Places in a source text

Whatever the reader builds from a text carries the span it was read from, so that a diagnostic can
say where it belongs.
-/

namespace PhpScript

/-- A range of byte offsets. -/
structure Span where
  start : Nat
  stop : Nat
deriving DecidableEq, Inhabited

namespace Span

def merge (left right : Span) : Span :=
  ⟨min left.start right.start, max left.stop right.stop⟩

def shift (span : Span) (distance : Nat) : Span :=
  ⟨span.start + distance, span.stop + distance⟩

def render (span : Span) : String := toString span.start ++ ".." ++ toString span.stop

end Span

/-- Something with its place. -/
structure Located (α : Type) where
  node : α
  span : Span
deriving Inhabited

end PhpScript
