/-!
# Output buffers

What a script prints goes to the innermost open buffer, or to the result text when no buffer is
open. Closing or flushing a buffer hands its contents one level down.
-/

namespace PhpScript

/-- The text printed so far, and that of the open buffers. -/
structure OutputBuffers where
  result : String := ""
  stack : List String := []
deriving DecidableEq, Inhabited

namespace OutputBuffers

/-- Print into the innermost buffer. -/
def write (buffers : OutputBuffers) (text : String) : OutputBuffers :=
  match buffers with
  | ⟨result, []⟩ => ⟨result ++ text, []⟩
  | ⟨result, top :: below⟩ => ⟨result, (top ++ text) :: below⟩

def push (buffers : OutputBuffers) : OutputBuffers :=
  { buffers with stack := "" :: buffers.stack }

def level (buffers : OutputBuffers) : Nat := buffers.stack.length

def contents? (buffers : OutputBuffers) : Option String := buffers.stack.head?

/-- Empty the innermost buffer. -/
def clean? (buffers : OutputBuffers) : Option OutputBuffers :=
  match buffers.stack with
  | [] => none
  | _ :: below => some { buffers with stack := "" :: below }

/-- Close the innermost buffer and hand out its text. -/
def pop? (buffers : OutputBuffers) : Option (String × OutputBuffers) :=
  match buffers.stack with
  | [] => none
  | top :: below => some (top, { buffers with stack := below })

/-- Move the contents of the innermost buffer one level down and keep it open, empty. -/
def flush? (buffers : OutputBuffers) : Option OutputBuffers :=
  match buffers with
  | ⟨_, []⟩ => none
  | ⟨result, [contents]⟩ => some ⟨result ++ contents, [""]⟩
  | ⟨result, contents :: next :: below⟩ => some ⟨result, "" :: (next ++ contents) :: below⟩

/-- Flush the innermost buffer, then close it. -/
def endFlush? (buffers : OutputBuffers) : Option OutputBuffers :=
  buffers.flush?.bind fun flushed => flushed.pop?.map (·.2)

/-- Flush and close buffers until none is open, for a number of times at most. -/
def flushUpTo : Nat → OutputBuffers → OutputBuffers
  | 0, buffers => buffers
  | times + 1, buffers =>
    match buffers.endFlush? with
    | some below => flushUpTo times below
    | none => buffers

/-- Flush every open buffer down to the result text. Each turn closes one of them. -/
def flushAll (buffers : OutputBuffers) : OutputBuffers := flushUpTo buffers.level buffers

/-- Flush everything and hand out the result text, of which nothing is left. -/
def takeResult (buffers : OutputBuffers) : String × OutputBuffers :=
  let flushed := buffers.flushAll
  (flushed.result, { flushed with result := "" })

end OutputBuffers

end PhpScript
