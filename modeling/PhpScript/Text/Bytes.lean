/-!
# Bytes of a text

Script strings are Unicode texts, but many operations count, cut and change the bytes of their UTF-8
encoding. What comes out need not be a valid encoding any more; `Text.ofBytes` reads it all the
same.
-/

namespace PhpScript.Text

def bytes (text : String) : List UInt8 := text.toByteArray.data.toList

def replacement : Char := '�'

def isContinuation (byte : UInt8) : Bool := 0x80 ≤ byte && byte ≤ 0xbf

/-- The second bytes that may follow the first byte of a three-byte or four-byte character. -/
def isSecond (first second : UInt8) : Bool :=
  match first with
  | 0xe0 => 0xa0 ≤ second && second ≤ 0xbf
  | 0xed => 0x80 ≤ second && second ≤ 0x9f
  | 0xf0 => 0x90 ≤ second && second ≤ 0xbf
  | 0xf4 => 0x80 ≤ second && second ≤ 0x8f
  | _ => isContinuation second

def payload (byte : UInt8) : Nat := byte.toNat % 64

/-- The character at the head of some bytes, and how many bytes it takes after the first one.
An ill-formed piece reads as `replacement` and ends before the first byte that cannot continue
it. -/
def headCharacter (first : UInt8) (rest : List UInt8) : Char × Nat :=
  if first < 0x80 then (Char.ofNat first.toNat, 0)
  else if 0xc2 ≤ first && first ≤ 0xdf then
    match rest with
    | second :: _ =>
      if isContinuation second then (Char.ofNat (first.toNat % 32 * 64 + payload second), 1)
      else (replacement, 0)
    | [] => (replacement, 0)
  else if 0xe0 ≤ first && first ≤ 0xef then
    match rest with
    | second :: third :: _ =>
      if !isSecond first second then (replacement, 0)
      else if isContinuation third then
        (Char.ofNat ((first.toNat % 16 * 64 + payload second) * 64 + payload third), 2)
      else (replacement, 1)
    | [second] => (replacement, if isSecond first second then 1 else 0)
    | [] => (replacement, 0)
  else if 0xf0 ≤ first && first ≤ 0xf4 then
    match rest with
    | second :: third :: fourth :: _ =>
      if !isSecond first second then (replacement, 0)
      else if !isContinuation third then (replacement, 1)
      else if isContinuation fourth then
        (Char.ofNat (((first.toNat % 8 * 64 + payload second) * 64 + payload third) * 64 +
          payload fourth), 3)
      else (replacement, 2)
    | [second, third] =>
      (replacement,
        if !isSecond first second then 0 else if isContinuation third then 2 else 1)
    | [second] => (replacement, if isSecond first second then 1 else 0)
    | [] => (replacement, 0)
  else (replacement, 0)

/-- Read characters one after the other, after passing over `skip` bytes. The characters read so
far are in `read`, the last one first. -/
def decodeOnto (read : List Char) : Nat → List UInt8 → List Char
  | _, [] => read.reverse
  | skip + 1, _ :: rest => decodeOnto read skip rest
  | 0, first :: rest =>
    let (character, more) := headCharacter first rest
    decodeOnto (character :: read) more rest

def ofBytes? (encoded : List UInt8) : Option String :=
  String.fromUTF8? ⟨encoded.toArray⟩

/-- Text from bytes, replaced where ill-formed. -/
def ofBytes (encoded : List UInt8) : String :=
  (ofBytes? encoded).getD (String.ofList (decodeOnto [] 0 encoded))

def byteLength (text : String) : Nat := text.utf8ByteSize

/-- How many bytes characters take. -/
def encodedSize (characters : List Char) : Nat :=
  characters.foldl (fun size character => size + character.utf8Size) 0

def byteAt? (text : String) (position : Nat) : Option UInt8 := text.toByteArray[position]?

def ofByte (byte : UInt8) : String := ofBytes [byte]

def blanks (count : Nat) : String := "".pushn ' ' count

theorem toList_blanks (count : Nat) : (blanks count).toList = List.replicate count ' ' := by
  induction count with
  | zero => rfl
  | succ count ih =>
    simp only [blanks, String.pushn, Nat.repeat] at ih ⊢
    rw [String.toList_push, ih, List.replicate_succ']

def byteSlice (text : String) (start stop : Nat) : String :=
  ofBytes (((bytes text).take stop).drop start)

def asciiLower (text : String) : String := String.ofList (text.toList.map Char.toLower)

def asciiUpper (text : String) : String := String.ofList (text.toList.map Char.toUpper)

def equalIgnoringCase (left right : String) : Bool := asciiLower left == asciiLower right

end PhpScript.Text
