import PhpScript.Digest.Block

/-!
# The SHA-1 digest

The schedule of a block is its sixteen words and then words made of four earlier ones.
-/

namespace PhpScript.Digest

namespace Sha1

/-- The words that are mixed. -/
structure State where
  a : UInt32
  b : UInt32
  c : UInt32
  d : UInt32
  e : UInt32

def initial : State := ⟨0x67452301, 0xefcdab89, 0x98badcfe, 0x10325476, 0xc3d2e1f0⟩

def extend : Nat → List UInt32 → List UInt32
  | 0, schedule => schedule
  | count + 1, schedule =>
    let mixed :=
      schedule.getD 2 0 ^^^ schedule.getD 7 0 ^^^ schedule.getD 13 0 ^^^ schedule.getD 15 0
    extend count (rotateLeft mixed 1 :: schedule)

def schedule (block : List UInt32) : List UInt32 := (extend 64 block.reverse).reverse

def mix (round : Nat) (b c d : UInt32) : UInt32 × UInt32 :=
  if round < 20 then ((b &&& c) ||| (~~~b &&& d), 0x5a827999)
  else if round < 40 then (b ^^^ c ^^^ d, 0x6ed9eba1)
  else if round < 60 then ((b &&& c) ||| (b &&& d) ||| (c &&& d), 0x8f1bbcdc)
  else (b ^^^ c ^^^ d, 0xca62c1d6)

def round (state : State) (word : UInt32) (index : Nat) : State :=
  let (mixed, constant) := mix index state.b state.c state.d
  ⟨rotateLeft state.a 5 + mixed + state.e + constant + word, state.a, rotateLeft state.b 30,
    state.c, state.d⟩

def compress (state : State) (block : List UInt32) : State :=
  let last :=
    (schedule block).zipIdx.foldl (fun state (word, index) => round state word index) state
  ⟨state.a + last.a, state.b + last.b, state.c + last.c, state.d + last.d, state.e + last.e⟩

end Sha1

def sha1 (message : List UInt8) : List UInt8 :=
  let state := (blocks .bigEnd message).foldl Sha1.compress Sha1.initial
  wordBytes .bigEnd [state.a, state.b, state.c, state.d, state.e]

end PhpScript.Digest
