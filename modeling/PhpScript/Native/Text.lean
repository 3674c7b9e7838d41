import PhpScript.Digest.Md5
import PhpScript.Digest.Sha1
import PhpScript.Signature
import PhpScript.Text.Bytes

/-!
# Native functions on texts

Lengths and positions count bytes, and only letters of the basic alphabet have a case.
-/

namespace PhpScript

/-- Functions on texts. -/
inductive TextFunction where
  | binToHex | chr | hexToBin | implode | lowerFirst | md5 | newlineToBreak | ord | quoteMeta
  | contains | endsWith | repeat | startsWith | length | reverse | lower | upper | sha1 | substring
  | upperFirst
deriving DecidableEq

namespace TextFunction

def names : List (String × TextFunction) :=
  [("bin2hex", .binToHex), ("chr", .chr), ("hex2bin", .hexToBin), ("implode", .implode),
    ("join", .implode), ("lcfirst", .lowerFirst), ("md5", .md5), ("nl2br", .newlineToBreak),
    ("ord", .ord), ("quotemeta", .quoteMeta), ("str_contains", .contains),
    ("str_ends_with", .endsWith), ("str_repeat", .repeat), ("str_starts_with", .startsWith),
    ("strlen", .length), ("strrev", .reverse), ("strtolower", .lower), ("strtoupper", .upper),
    ("sha1", .sha1), ("substr", .substring), ("ucfirst", .upperFirst)]

def ofText (function : String) : Signature := ⟨function, [.required "$string" [.string]]⟩

def ofSearch (function : String) : Signature :=
  ⟨function, [.required "$haystack" [.string], .required "$needle" [.string]]⟩

def ofMessage (function : String) : Signature :=
  ⟨function, [.required "$string" [.string], .optional "$binary" [.bool] (.bool false)]⟩

def signature : TextFunction → Signature
  | .binToHex => ofText "bin2hex"
  | .chr => ⟨"chr", [.required "$codepoint" [.int]]⟩
  | .hexToBin => ofText "hex2bin"
  | .implode =>
    ⟨"implode", [.required "$separator" [.array, .string], .optional "$array" [.array] .null]⟩
  | .lowerFirst => ofText "lcfirst"
  | .md5 => ofMessage "md5"
  | .newlineToBreak =>
    ⟨"nl2br", [.required "$string" [.string], .optional "$use_xhtml" [.bool] (.bool true)]⟩
  | .ord => ⟨"ord", [.required "$character" [.string]]⟩
  | .quoteMeta => ofText "quotemeta"
  | .contains => ofSearch "str_contains"
  | .endsWith => ofSearch "str_ends_with"
  | .repeat => ⟨"str_repeat", [.required "$string" [.string], .required "$times" [.int]]⟩
  | .startsWith => ofSearch "str_starts_with"
  | .length => ofText "strlen"
  | .reverse => ofText "strrev"
  | .lower => ofText "strtolower"
  | .upper => ofText "strtoupper"
  | .sha1 => ofMessage "sha1"
  | .substring =>
    ⟨"substr", [.required "$string" [.string], .required "$offset" [.int],
      .optional "$length" [.int] .null]⟩
  | .upperFirst => ofText "ucfirst"

def toHex (bytes : List UInt8) : String :=
  String.ofList (bytes.flatMap fun byte =>
    [Nat.digitChar (byte.toNat / 16), Nat.digitChar (byte.toNat % 16)])

def hexValue? (character : Char) : Option Nat :=
  let lower := character.toLower
  if lower.isDigit then some (lower.toNat - '0'.toNat)
  else if 'a' ≤ lower && lower ≤ 'f' then some (lower.toNat - 'a'.toNat + 10)
  else none

def ofHex? : List Char → Option (List UInt8)
  | [] => some []
  | [_] => none
  | high :: low :: rest => do
    let highValue ← hexValue? high
    let lowValue ← hexValue? low
    let bytes ← ofHex? rest
    return UInt8.ofNat (16 * highValue + lowValue) :: bytes

def mapFirst (change : Char → Char) (text : String) : String :=
  match text.toList with
  | [] => ""
  | first :: rest => String.ofList (change first :: rest)

def markBreaks (tag : List Char) : List Char → List Char
  | [] => []
  | '\n' :: '\r' :: rest => tag ++ '\n' :: '\r' :: markBreaks tag rest
  | '\r' :: '\n' :: rest => tag ++ '\r' :: '\n' :: markBreaks tag rest
  | character :: rest =>
    if character = '\n' || character = '\r' then tag ++ character :: markBreaks tag rest
    else character :: markBreaks tag rest

def metaCharacters : List Char := ['.', '\\', '+', '*', '?', '[', '^', ']', '$', '(', ')']

def quoteCharacter (character : Char) : List Char :=
  if metaCharacters.contains character then ['\\', character] else [character]

def occurs (needle : List Char) : List Char → Bool
  | [] => needle.isEmpty
  | character :: rest => needle.isPrefixOf (character :: rest) || occurs needle rest

def repeatOnto (collected text : String) : Nat → String
  | 0 => collected
  | times + 1 => repeatOnto (collected ++ text) text times

def repeated (text : String) (times : Int) : Except Problem String :=
  if times < 0 then .error .negativeRepetition
  else
    let size := Text.byteLength text * times.toNat
    if size = 0 then .ok ""
    else if size ≤ Problem.memoryLimit then .ok (repeatOnto "" text times.toNat)
    else .error (.memoryExhausted size)

/-- The bounds of a part of a text of `size` bytes. A negative offset counts from the end, a
negative length leaves bytes at the end out. -/
def partBounds (size : Nat) (offset : Int) (length : Option Int) : Nat × Nat :=
  let start := if offset < 0 then max (size + offset) 0 else min offset size
  let available := size - start
  let taken :=
    match length with
    | none => available
    | some length => if length < 0 then max (available + length) 0 else min length available
  (start.toNat, (start + taken).toNat)

def joined (separator : String) (pieces : List Value) : Checked Value := do
  for piece in pieces do
    if piece.isArray then Checked.warn .arrayToString
  return .str (separator.intercalate (pieces.map Value.toText))

def digestValue (digest : List UInt8) (asBytes : Value) : Value :=
  .str (if asBytes.toBool then Text.ofBytes digest else toHex digest)

def apply (function : TextFunction) (arguments : List Value) : Checked Value := do
  match function, arguments with
  | .binToHex, [text] => return .str (toHex (Text.bytes text.toText))
  | .chr, [code] => return .str (Text.ofByte (UInt8.ofNat (code.toInt.toInt % 256).toNat))
  | .hexToBin, [text] =>
    let digits := text.toText
    if Text.byteLength digits % 2 ≠ 0 then
      Checked.warn .hexOddLength
      return .bool false
    match ofHex? digits.toList with
    | some bytes => return .str (Text.ofBytes bytes)
    | none =>
      Checked.warn .hexInvalid
      return .bool false
  | .implode, [.array pieces, .null] => joined "" pieces.values
  | .implode, [separator, .array pieces] => joined separator.toText pieces.values
  | .implode, [separator, _] => throw (.implodePieces separator.type)
  | .lowerFirst, [text] => return .str (mapFirst Char.toLower text.toText)
  | .md5, [text, asBytes] => return digestValue (Digest.md5 (Text.bytes text.toText)) asBytes
  | .newlineToBreak, [text, closed] =>
    let tag := if closed.toBool then "<br />" else "<br>"
    return .str (String.ofList (markBreaks tag.toList text.toText.toList))
  | .ord, [text] => return .int (Int64.ofNat ((Text.byteAt? text.toText 0).getD 0).toNat)
  | .quoteMeta, [text] => return .str (String.ofList (text.toText.toList.flatMap quoteCharacter))
  | .contains, [text, needle] => return .bool (occurs needle.toText.toList text.toText.toList)
  | .endsWith, [text, needle] =>
    return .bool (needle.toText.toList.isSuffixOf text.toText.toList)
  | .repeat, [text, times] =>
    return .str (← MonadExcept.ofExcept (repeated text.toText times.toInt.toInt))
  | .startsWith, [text, needle] =>
    return .bool (needle.toText.toList.isPrefixOf text.toText.toList)
  | .length, [text] => return .int (Int64.ofNat (Text.byteLength text.toText))
  | .reverse, [text] => return .str (String.ofList text.toText.toList.reverse)
  | .lower, [text] => return .str (Text.asciiLower text.toText)
  | .upper, [text] => return .str (Text.asciiUpper text.toText)
  | .sha1, [text, asBytes] => return digestValue (Digest.sha1 (Text.bytes text.toText)) asBytes
  | .substring, [text, offset, count] =>
    let count := if count.isNull then none else some count.toInt.toInt
    let (start, stop) := partBounds (Text.byteLength text.toText) offset.toInt.toInt count
    return .str (Text.byteSlice text.toText start stop)
  | .upperFirst, [text] => return .str (mapFirst Char.toUpper text.toText)
  | _, _ => return .null

end TextFunction

end PhpScript
