import PhpScript.Text.Bytes
import PhpScript.Text.Whitespace
import PhpScript.Value.Basic

/-!
# Named inputs of a request

A query and the body of a form are lists of names and values, divided by `&` and `=`, in which a
plus sign stands for a blank and other bytes can be escaped. In a cookie header, divided by `;`,
only values have escapes. A name is the place of its value: `list[]` appends to an array and
`map[key]` stores under a key.
-/

namespace PhpScript.Form

def hexDigit? (byte : UInt8) : Option UInt8 :=
  if 0x30 ≤ byte && byte ≤ 0x39 then some (byte - 0x30)
  else if 0x41 ≤ byte && byte ≤ 0x46 then some (byte - 0x37)
  else if 0x61 ≤ byte && byte ≤ 0x66 then some (byte - 0x57)
  else none

/-- Resolve escapes of a percent sign and two digits; any other percent sign stands for itself. -/
def unescape : List UInt8 → List UInt8
  | [] => []
  | 0x25 :: high :: low :: rest =>
    match hexDigit? high, hexDigit? low with
    | some highValue, some lowValue => (16 * highValue + lowValue) :: unescape rest
    | _, _ => 0x25 :: unescape (high :: low :: rest)
  | byte :: rest => byte :: unescape rest

def decode (encoded : List UInt8) : String := Text.ofBytes (unescape encoded)

/-- Escaped text in which plus signs are blanks. -/
def decodeField (encoded : List UInt8) : String :=
  decode (encoded.map fun byte => if byte = 0x2b then 0x20 else byte)

/-- What stands in front of and behind the first divider. -/
def cut {α : Type} [DecidableEq α] (divider : α) (elements : List α) : List α × List α :=
  (elements.takeWhile (· ≠ divider), (elements.dropWhile (· ≠ divider)).drop 1)

def piecesOnto {α : Type} [DecidableEq α] (divider : α) (pieces : List (List α))
    (current : List α) : List α → List (List α)
  | [] => (current.reverse :: pieces).reverse
  | element :: rest =>
    if element = divider then piecesOnto divider (current.reverse :: pieces) [] rest
    else piecesOnto divider pieces (element :: current) rest

def pieces {α : Type} [DecidableEq α] (divider : α) (elements : List α) : List (List α) :=
  piecesOnto divider [] [] elements

/-- The names and values of a query, as decoders of `application/x-www-form-urlencoded` give them:
fields divided by `&`, without empty ones, each cut at its first `=`. Malformed escapes stay, and
bytes that are no text are replaced. -/
def fields (query : String) : List (String × String) :=
  ((pieces 0x26 (Text.bytes query)).filter (!·.isEmpty)).map fun field =>
    let (name, value) := cut 0x3d field
    (decodeField name, decodeField value)

/-- How many brackets a name may have. -/
def nestingLimit : Nat := 64

/-- The keys in brackets at the head of a text, none for empty brackets. There is nothing when
there are more of them than `limit`. -/
def bracketKeys? : Nat → List Char → Option (List (Option Key))
  | limit, '[' :: inner =>
    if inner.contains ']' then
      match limit with
      | 0 => none
      | limit + 1 => do
        let (key, rest) := cut ']' inner
        let keys ← bracketKeys? limit rest
        return (if key.isEmpty then none else some (Key.ofString (String.ofList key))) :: keys
    else some []
  | _, _ => some []

def nameCharacter (character : Char) : Char :=
  if character = ' ' || character = '.' || character = '[' then '_' else character

/-- The keys that a name stands for, none for an append. There is nothing when the name is not
acceptable. A bracket that is not closed is part of the first key. -/
def path? (name : List Char) : Option (List (Option Key)) := do
  let name := name.dropWhile (· = ' ')
  let bracketed := name.dropWhile (· ≠ '[')
  let base := if bracketed.contains ']' then name.takeWhile (· ≠ '[') else name
  if base.isEmpty then none
  let keys ← if bracketed.contains ']' then bracketKeys? nestingLimit bracketed else some []
  return some (Key.ofString (String.ofList (base.map nameCharacter))) :: keys

/-- Store a value at the end of a path. Whatever stands on the way and is no array is replaced by
one. Where no index is left to append under, nothing changes. -/
def store (value : Value) (table : Table Key Value) : List (Option Key) → Table Key Value
  | [] => table
  | key :: rest =>
    match key <|> table.nextKey? with
    | none => table
    | some key =>
      match rest with
      | [] => table.insert key value
      | _ :: _ =>
        let inner :=
          match table.get? key with
          | some (.array elements) => elements
          | _ => Table.empty
        table.insert key (.array (store value inner rest))

def query (text : String) : Table Key Value :=
  (fields text).foldl (fun table (name, value) =>
    match path? name.toList with
    | some path => store (.str value) table path
    | none => table) Table.empty

/-- Escape what the decoding of fields would change. -/
def guardCharacter (character : Char) : List Char :=
  if character = '+' then ['%', '2', 'B']
  else if character = '&' then ['%', '2', '6']
  else [character]

/-- The value of a cookie. It is read as the value of a field without name, but plus signs and
ampersands stand for themselves. -/
def cookieValue (raw : List Char) : String :=
  match fields (String.ofList ('=' :: raw.flatMap guardCharacter)) with
  | (_, value) :: _ => value
  | [] => ""

/-- Add a cookie unless its name is taken. -/
def addCookie (table : Table Key Value) (pair : List Char) : Table Key Value :=
  let (name, value) := cut '=' pair
  match path? (Text.trim name) with
  | none => table
  | some path =>
    let isTaken :=
      match path with
      | [some key] => table.contains key
      | _ => false
    if isTaken then table else store (.str (cookieValue (Text.trim value))) table path

/-- The array of a cookie header. Of several plain cookies with one name the first one counts. -/
def cookies (header : String) : Table Key Value :=
  (pieces ';' header.toList).foldl addCookie Table.empty

end PhpScript.Form
