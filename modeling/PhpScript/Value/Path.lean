import PhpScript.Problem
import PhpScript.Text.Bytes

/-!
# Paths of subscripts

A path is the list of subscripts behind a variable. Writing makes arrays on its way where there is
nothing yet; an absent subscript stands for the next free index. Reads of texts go by byte, and
negative positions count from the end.
-/

namespace PhpScript

/-- The key that a value stands for. -/
def Key.ofValue : Value → Except Problem Key
  | .int index => .ok (.int index)
  | .str text => .ok (.ofString text)
  | .bool flag => .ok (.int (Value.ofFlag flag))
  | .float number => .ok (.int (Binary64.toInt64 number))
  | .void | .null => .ok (.str "")
  | .array _ => .error .illegalOffsetType

namespace Value

/-- The position in a text that a value stands for. -/
def textIndex (key : Value) : Checked Int64 :=
  match key with
  | .int index => return index
  | .str text =>
    match Numeric.parse? text with
    | some (.int index) => return index
    | _ => throw (.offsetOnString .string)
  | .array _ => throw (.offsetOnString .array)
  | other => do
    Checked.warn .stringOffsetCast
    return other.toInt

/-- The byte position of an index in a text of `length` bytes; negative indexes count from the
end. -/
def bytePosition? (index : Int64) (length : Nat) : Option Nat :=
  let position : Int := if index.toInt < 0 then length + index.toInt else index.toInt
  if 0 ≤ position ∧ position < length then some position.toNat else none

def byteAt? (text : String) (index : Int64) : Option Value := do
  let position ← bytePosition? index (Text.byteLength text)
  let byte ← Text.byteAt? text position
  return .str (Text.ofByte byte)

/-- Read one subscript; what is missing is reported. -/
def readOffset (container key : Value) : Checked Value :=
  match container with
  | .array elements => do
    let resolved ← MonadExcept.ofExcept (Key.ofValue key)
    match elements.get? resolved with
    | some element => return element
    | none => do
      Checked.warn (.undefinedKey resolved)
      return .null
  | .str text => do
    let index ← textIndex key
    match byteAt? text index with
    | some byte => return byte
    | none => do
      Checked.warn (.uninitializedStringOffset index)
      return .str ""
  | other => do
    Checked.warn (.offsetOnValue other.typeOrNull)
    return .null

/-- Read subscripts one behind the other. -/
def readPath (root : Value) : List Value → Checked Value
  | [] => return root
  | key :: rest => do
    let inner ← readOffset root key
    readPath inner rest

def quietTextIndex? : Value → Option Int64
  | .int index => some index
  | .str text =>
    match Numeric.parse? text with
    | some (.int index) => some index
    | _ => none
  | .float number => some (Binary64.toInt64 number)
  | .bool flag => some (ofFlag flag)
  | _ => none

/-- Read one subscript, none if it is missing. -/
def quietOffset? (container key : Value) : Option Value :=
  match container with
  | .array elements =>
    match Key.ofValue key with
    | .ok resolved => elements.get? resolved
    | .error _ => none
  | .str text => (quietTextIndex? key).bind (byteAt? text)
  | _ => none

def quietPath? (root : Value) : List Value → Option Value
  | [] => some root
  | key :: rest => (quietOffset? root key).bind (quietPath? · rest)

/-- What a write leaves behind: the new value of the place, the problems reported on the way, and
the problem that stopped it, if any. A write that is stopped may have changed the place already. -/
structure Written where
  slot : Value
  warnings : List Problem := []
  failure : Option Problem := none

namespace Written

def after (warnings : List Problem) (written : Written) : Written :=
  { written with warnings := warnings ++ written.warnings }

def within (wrap : Value → Value) (written : Written) : Written :=
  { written with slot := wrap written.slot }

end Written

/-- Make an array of a value in which an element is about to be stored: nothing and false become
the empty array. -/
def vivify : Value → Value × List Problem
  | .void | .null => (.array Table.empty, [])
  | .bool false => (.array Table.empty, [.falseToArray])
  | other => (other, [])

/-- Replace a byte of a text; the text is filled up with blanks when the position is behind its
end. -/
def replaceByte (text : String) (position : Nat) (byte : UInt8) : String :=
  let length := Text.byteLength text
  if position < length then Text.ofBytes ((Text.bytes text).set position byte)
  else text ++ Text.blanks (position - length) ++ Text.ofByte byte

def writeByte (text : String) (key value : Value) : Checked String := do
  let index ← textIndex key
  let replacement := value.toText
  match Text.byteAt? replacement 0 with
  | none => throw .emptyStringOffset
  | some byte => do
    if 1 < Text.byteLength replacement then Checked.warn .firstByteOnly
    let position : Int :=
      if index.toInt < 0 then Text.byteLength text + index.toInt else index.toInt
    if position < 0 then
      Checked.warn (.illegalStringOffset index)
      return text
    if Problem.memoryLimit ≤ position.toNat then throw (.memoryExhausted (position.toNat + 1))
    return replaceByte text position.toNat byte

/-- Write behind subscripts, where none means to append. -/
def writePath (value : Value) (slot : Value) : List (Option Value) → Written
  | [] => { slot := value }
  | key :: rest =>
    let (container, opened) := vivify slot
    match container with
    | .array elements =>
      let resolved : Except Problem Key :=
        match key with
        | some key => Key.ofValue key
        | none => elements.nextKey?.elim (.error .nextElementOccupied) .ok
      match resolved with
      | .ok key =>
        let inner := writePath value ((elements.get? key).getD .null) rest
        (inner.within (fun element => .array (elements.insert key element))).after opened
      | .error problem =>
        if problem.isFatal then { slot := container, warnings := opened, failure := problem }
        else { slot := container, warnings := opened ++ [problem] }
    | .str text =>
      if !rest.isEmpty then { slot, failure := some .stringOffsetAsArray }
      else
        match key with
        | none => { slot, failure := some .appendToString }
        | some key =>
          match (writeByte text key value).outcome with
          | (warnings, .ok changed) => { slot := .str changed, warnings }
          | (warnings, .error problem) => { slot, warnings, failure := problem }
    | _ => { slot, failure := some .scalarAsArray }

/-- Remove the element behind subscripts. -/
def unsetPath (slot : Value) : List Value → Except Problem Value
  | [] => .ok slot
  | key :: rest =>
    match slot with
    | .array elements =>
      match Key.ofValue key with
      | .error problem => .error problem
      | .ok key =>
        if rest.isEmpty then .ok (.array (elements.erase key))
        else
          match elements.get? key with
          | none => .ok slot
          | some element =>
            match unsetPath element rest with
            | .ok changed => .ok (.array (elements.insert key changed))
            | .error problem => .error problem
    | .str _ => if rest.isEmpty then .error .unsetStringOffset else .ok slot
    | _ => .ok slot

end Value

end PhpScript
