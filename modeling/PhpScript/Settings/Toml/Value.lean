import PhpScript.Number.Numeric

/-!
# Settings texts

Lines with a key, an equals sign and a value, grouped in tables. Readers take what they know from
the head of a text and give the rest, or nothing. Of numbers other than integers, of dates and of
times only the form is checked.
-/

namespace PhpScript

/-- The values that settings use, others by their form only. -/
inductive TomlValue where
  | text (text : String)
  | integer (value : Int64)
  | boolean (value : Bool)
  | other
  | list (elements : List TomlValue)
  /-- A table in braces, or the part of one that came about by a key with points. The latter is
  `isOpen`: other keys with points may go on through it. -/
  | inlineTable (isOpen : Bool) (entries : List (String × TomlValue))

namespace Toml

def isBlank (character : Char) : Bool := character = ' ' || character = '\t'

def skipBlanks (text : List Char) : List Char := text.dropWhile isBlank

def isPrintable (character : Char) : Bool :=
  character = '\t' || (0x20 ≤ character.toNat && character.toNat ≠ 0x7f)

def skipNewline? : List Char → Option (List Char)
  | '\n' :: rest => some rest
  | '\r' :: '\n' :: rest => some rest
  | _ => none

def skipComment (text : List Char) : List Char :=
  match skipBlanks text with
  | '#' :: comment => comment.dropWhile isPrintable
  | rest => rest

/-- Leave out blanks, comments and line breaks; `fuel` bounds the number of lines. -/
def skipLines : Nat → List Char → List Char
  | 0, text => text
  | fuel + 1, text =>
    let rest := skipComment text
    match skipNewline? rest with
    | some next => skipLines fuel next
    | none => rest

/-! ## Quoted texts -/

def hexNumber? (digits : List Char) : Option Nat :=
  digits.foldlM (fun value digit => do
    let lower := digit.toLower
    if lower.isDigit then some (16 * value + (lower.toNat - '0'.toNat))
    else if 'a' ≤ lower && lower ≤ 'f' then some (16 * value + (lower.toNat - 'a'.toNat + 10))
    else none) 0

def takeCodePoint (count : Nat) (text : List Char) : Option (Char × List Char) := do
  let digits := text.take count
  if digits.length < count then none
  let code ← hexNumber? digits
  if code < 0xd800 || (0xdfff < code && code < 0x110000) then
    return (Char.ofNat code, text.drop count)
  else none

def takeEscape : List Char → Option (Char × List Char)
  | 'b' :: rest => some (Char.ofNat 0x08, rest)
  | 't' :: rest => some ('\t', rest)
  | 'n' :: rest => some ('\n', rest)
  | 'f' :: rest => some (Char.ofNat 0x0c, rest)
  | 'r' :: rest => some ('\r', rest)
  | '"' :: rest => some ('"', rest)
  | '\\' :: rest => some ('\\', rest)
  | 'u' :: rest => takeCodePoint 4 rest
  | 'U' :: rest => takeCodePoint 8 rest
  | _ => none

/-- The rest of a text on one line up to its closing quote. What was read is in `read`, the last
character first. Escapes have a meaning only between double quotes. -/
def takeLine (quote : Char) : Nat → List Char → List Char → Option (String × List Char)
  | 0, _, _ => none
  | _, _, [] => none
  | fuel + 1, read, character :: rest =>
    if character = quote then some (String.ofList read.reverse, rest)
    else if character = '\\' && quote = '"' then do
      let (escaped, rest) ← takeEscape rest
      takeLine quote fuel (escaped :: read) rest
    else if isPrintable character then takeLine quote fuel (character :: read) rest
    else none

def isLineEnd (text : List Char) : Bool := (skipNewline? (skipBlanks text)).isSome

def skipSpace : Nat → List Char → List Char
  | 0, text => text
  | fuel + 1, text =>
    match skipNewline? (skipBlanks text) with
    | some next => skipSpace fuel next
    | none => skipBlanks text

/-- The rest of a text on several lines up to its three closing quotes. Two more quotes may stand
directly before them. Between double quotes a backslash at the end of a line joins it with the next
one that is not empty. -/
def takeLines (quote : Char) : Nat → List Char → List Char → Option (String × List Char)
  | 0, _, _ => none
  | _, _, [] => none
  | fuel + 1, read, character :: rest =>
    if character = quote then
      let quotes := (character :: rest).takeWhile (· = quote)
      if quotes.length < 3 then takeLines quote fuel (character :: read) rest
      else
        let inner := min (quotes.length - 3) 2
        some (String.ofList (List.replicate inner quote ++ read).reverse,
          (character :: rest).drop (inner + 3))
    else if character = '\\' && quote = '"' then
      if isLineEnd rest then takeLines quote fuel read (skipSpace fuel rest)
      else do
        let (escaped, rest) ← takeEscape rest
        takeLines quote fuel (escaped :: read) rest
    else
      match skipNewline? (character :: rest) with
      | some next => takeLines quote fuel ('\n' :: read) next
      | none =>
        if isPrintable character then takeLines quote fuel (character :: read) rest else none

def takeQuoted (text : List Char) : Option (String × List Char) :=
  let fuel := text.length + 1
  match text with
  | '"' :: '"' :: '"' :: rest => takeLines '"' fuel [] ((skipNewline? rest).getD rest)
  | '\'' :: '\'' :: '\'' :: rest => takeLines '\'' fuel [] ((skipNewline? rest).getD rest)
  | '"' :: rest => takeLine '"' fuel [] rest
  | '\'' :: rest => takeLine '\'' fuel [] rest
  | _ => none

/-! ## Numbers, dates and times -/

def isDigits (isDigit : Char → Bool) : List Char → Bool
  | [] => false
  | [digit] => isDigit digit
  | digit :: '_' :: rest => isDigit digit && isDigits isDigit rest
  | digit :: rest => isDigit digit && isDigits isDigit rest

def digitsValue (base : Nat) (digits : List Char) : Nat :=
  (digits.filter (· ≠ '_')).foldl (fun value digit =>
    let lower := digit.toLower
    let digitValue :=
      if lower.isDigit then lower.toNat - '0'.toNat else lower.toNat - 'a'.toNat + 10
    base * value + digitValue) 0

def isPlainDigits (digits : List Char) : Bool :=
  isDigits Char.isDigit digits && (digits.head? ≠ some '0' || digits.length = 1)

def unsigned : List Char → List Char
  | '+' :: rest => rest
  | '-' :: rest => rest
  | rest => rest

def integer? (word : List Char) : Option Int :=
  match word with
  | '0' :: 'x' :: digits =>
    let isHex (character : Char) : Bool :=
      character.isDigit || ('a' ≤ character.toLower && character.toLower ≤ 'f')
    if isDigits isHex digits then some (digitsValue 16 digits) else none
  | '0' :: 'o' :: digits =>
    if isDigits (fun digit => '0' ≤ digit && digit ≤ '7') digits then
      some (digitsValue 8 digits)
    else none
  | '0' :: 'b' :: digits =>
    if isDigits (fun digit => digit = '0' || digit = '1') digits then
      some (digitsValue 2 digits)
    else none
  | _ =>
    if isPlainDigits (unsigned word) then
      let value : Int := digitsValue 10 (unsigned word)
      some (if word.head? = some '-' then -value else value)
    else none

def isFloat (word : List Char) : Bool :=
  let body := unsigned word
  if body = "inf".toList || body = "nan".toList then true
  else
    let isMark (character : Char) : Bool := character = 'e' || character = 'E'
    let mantissa := body.takeWhile (!isMark ·)
    let exponent := body.drop mantissa.length
    let whole := mantissa.takeWhile (· ≠ '.')
    let fraction := mantissa.drop whole.length
    isPlainDigits whole && !(fraction.isEmpty && exponent.isEmpty)
      && (fraction.isEmpty || isDigits Char.isDigit (fraction.drop 1))
      && (exponent.isEmpty || isDigits Char.isDigit (unsigned (exponent.drop 1)))

/-- Whether a number with a fraction or an exponent is too large for a float. There is no bound on
negative ones. -/
def overflows (word : List Char) : Bool :=
  let digits := (unsigned word).filter (· ≠ '_')
  word.head? ≠ some '-'
    && (Numeral.take? digits).any fun (numeral, _) => !Binary64.isFinite (numeral.toFloat false)

def takeNumber (count : Nat) (text : List Char) : Option (Nat × List Char) :=
  let digits := text.take count
  if digits.length = count && digits.all Char.isDigit then
    some (digitsValue 10 digits, text.drop count)
  else none

def takeMark (mark : Char) (text : List Char) : Option (List Char) :=
  match text with
  | [] => none
  | character :: rest => if character = mark then some rest else none

def monthLength (year month : Nat) : Nat :=
  if month = 2 then
    if year % 4 = 0 && (year % 100 ≠ 0 || year % 400 = 0) then 29 else 28
  else if month = 4 || month = 6 || month = 9 || month = 11 then 30
  else 31

def skipDate? (text : List Char) : Option (List Char) := do
  let (year, text) ← takeNumber 4 text
  let text ← takeMark '-' text
  let (month, text) ← takeNumber 2 text
  let text ← takeMark '-' text
  let (day, text) ← takeNumber 2 text
  if 1 ≤ month && month ≤ 12 && 1 ≤ day && day ≤ monthLength year month then return text
  else none

def skipTime? (text : List Char) : Option (List Char) := do
  let (hour, text) ← takeNumber 2 text
  let text ← takeMark ':' text
  let (minute, text) ← takeNumber 2 text
  let text ← takeMark ':' text
  let (second, text) ← takeNumber 2 text
  if 24 ≤ hour || 60 ≤ minute || 61 ≤ second then none
  match text with
  | '.' :: digit :: rest => if digit.isDigit then return rest.dropWhile Char.isDigit else none
  | rest => return rest

def skipOffset? (text : List Char) : Option (List Char) :=
  match text with
  | 'Z' :: rest => some rest
  | 'z' :: rest => some rest
  | sign :: rest =>
    if sign = '+' || sign = '-' then do
      let (hour, rest) ← takeNumber 2 rest
      let rest ← takeMark ':' rest
      let (minute, rest) ← takeNumber 2 rest
      if hour < 24 && minute < 60 then return rest else none
    else some text
  | [] => some []

def skipDateTime? (text : List Char) : Option (List Char) :=
  match skipDate? text with
  | none => skipTime? text
  | some rest =>
    match rest with
    | mark :: time =>
      if mark = 'T' || mark = 't' || (mark = ' ' && (time.head?.any Char.isDigit)) then
        (skipTime? time).bind skipOffset?
      else some rest
    | [] => some []

def isWordPart (character : Char) : Bool :=
  character.isAlphanum || character = '_' || character = '+' || character = '-' || character = '.'
    || character = ':'

/-- A value that is a single word. -/
def takeScalar (text : List Char) : Option (TomlValue × List Char) :=
  match skipDateTime? text with
  | some rest => if rest.head?.any isWordPart then none else some (.other, rest)
  | none =>
    let word := text.takeWhile isWordPart
    let rest := text.drop word.length
    if word = "true".toList then some (.boolean true, rest)
    else if word = "false".toList then some (.boolean false, rest)
    else
      match integer? word with
      | some value => (Integer.fit? value).map fun value => (.integer value, rest)
      | none => if isFloat word && !overflows word then some (.other, rest) else none

/-! ## Keys -/

def isBareKeyPart (character : Char) : Bool :=
  character.isAlphanum || character = '_' || character = '-'

def takeKeyPart (text : List Char) : Option (String × List Char) :=
  match text with
  | '"' :: rest => takeLine '"' (text.length + 1) [] rest
  | '\'' :: rest => takeLine '\'' (text.length + 1) [] rest
  | _ =>
    let name := text.takeWhile isBareKeyPart
    if name.isEmpty then none else some (String.ofList name, text.drop name.length)

def depthLimit : Nat := 79

/-- A key with points between its parts, and the blanks behind it; `room` is the number of parts it
may have. -/
def takeKeyParts : Nat → List Char → Option (List String × List Char)
  | 0, _ => none
  | room + 1, text => do
    let (part, rest) ← takeKeyPart (skipBlanks text)
    match skipBlanks rest with
    | '.' :: rest => do
      let (parts, rest) ← takeKeyParts room rest
      return (part :: parts, rest)
    | rest => return ([part], rest)

def takeKey (text : List Char) : Option (List String × List Char) := takeKeyParts depthLimit text

/-! ## Values -/

/-- Put a value under a key of an inline table. Every key has one place only, and a table in braces
is complete. -/
def insertInline (value : TomlValue) :
    List String → List (String × TomlValue) → Option (List (String × TomlValue))
  | [], _ => none
  | [name], entries =>
    if entries.any (·.1 = name) then none else some (entries ++ [(name, value)])
  | name :: rest, entries =>
    match entries.find? (·.1 = name) with
    | none => do
      let inner ← insertInline value rest []
      return entries ++ [(name, .inlineTable true inner)]
    | some (_, .inlineTable true inner) => do
      let inner ← insertInline value rest inner
      return entries.map fun entry =>
        if entry.1 = name then (name, .inlineTable true inner) else entry
    | some _ => none

mutual

/-- A value; `fuel` bounds the number of steps and `room` how deep values are nested. -/
def takeValue (fuel room : Nat) (text : List Char) : Option (TomlValue × List Char) :=
  match fuel with
  | 0 => none
  | fuel + 1 =>
    match text, room with
    | '"' :: _, _ => (takeQuoted text).map fun (found, rest) => (.text found, rest)
    | '\'' :: _, _ => (takeQuoted text).map fun (found, rest) => (.text found, rest)
    | '[' :: _, 0 => none
    | '[' :: rest, room + 1 => takeElements fuel room [] rest
    | '{' :: _, 0 => none
    | '{' :: rest, room + 1 =>
      match skipBlanks rest with
      | '}' :: rest => some (.inlineTable false [], rest)
      | rest => takeEntries fuel room [] rest
    | _, _ => takeScalar text

def takeElements (fuel room : Nat) (elements : List TomlValue) (text : List Char) :
    Option (TomlValue × List Char) :=
  match fuel with
  | 0 => none
  | fuel + 1 =>
    match skipLines fuel text with
    | ']' :: rest => some (.list elements.reverse, rest)
    | text => do
      let (element, rest) ← takeValue fuel room text
      match skipLines fuel rest with
      | ',' :: rest => takeElements fuel room (element :: elements) rest
      | ']' :: rest => some (.list (element :: elements).reverse, rest)
      | _ => none

def takeEntries (fuel room : Nat) (entries : List (String × TomlValue)) (text : List Char) :
    Option (TomlValue × List Char) :=
  match fuel with
  | 0 => none
  | fuel + 1 => do
    let (key, rest) ← takeKey text
    let rest ← takeMark '=' rest
    let (value, rest) ← takeValue fuel room (skipBlanks rest)
    let entries ← insertInline value key entries
    match skipBlanks rest with
    | ',' :: rest => takeEntries fuel room entries rest
    | '}' :: rest => some (.inlineTable false entries, rest)
    | _ => none

end

end Toml

end PhpScript
