/-!
# Blocks of a message

Both digests fill a message up with a single bit, zeros and its length in bits, and read every block
of sixty-four bytes as sixteen words. They differ in the order of bytes in a word.
-/

namespace PhpScript.Digest

/-- Which end of a number comes first. -/
inductive ByteOrder where
  | smallEnd | bigEnd
deriving DecidableEq

def lowBytes : Nat → Nat → List UInt8
  | 0, _ => []
  | count + 1, value => UInt8.ofNat value :: lowBytes count (value / 256)

def numberBytes (order : ByteOrder) (count value : Nat) : List UInt8 :=
  match order with
  | .smallEnd => lowBytes count value
  | .bigEnd => (lowBytes count value).reverse

def word (order : ByteOrder) (bytes : List UInt8) : UInt32 :=
  let ordered :=
    match order with
    | .smallEnd => bytes.reverse
    | .bigEnd => bytes
  UInt32.ofNat (ordered.foldl (fun value byte => 256 * value + byte.toNat) 0)

def padded (order : ByteOrder) (message : List UInt8) : List UInt8 :=
  let length := message.length
  let zeros := (119 - length % 64) % 64
  message ++ 0x80 :: List.replicate zeros 0 ++ numberBytes order 8 (8 * length)

def groups {α : Type} (size : Nat) : Nat → List α → List (List α)
  | 0, _ => []
  | count + 1, elements =>
    if elements.isEmpty then []
    else elements.take size :: groups size count (elements.drop size)

def blocks (order : ByteOrder) (message : List UInt8) : List (List UInt32) :=
  let bytes := padded order message
  (groups 64 bytes.length bytes).map fun block => (groups 4 16 block).map (word order)

def rotateLeft (value : UInt32) (distance : UInt32) : UInt32 :=
  (value <<< distance) ||| (value >>> (32 - distance))

def wordBytes (order : ByteOrder) (words : List UInt32) : List UInt8 :=
  words.flatMap fun value => numberBytes order 4 value.toNat

end PhpScript.Digest
