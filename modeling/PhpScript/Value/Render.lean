import PhpScript.Text.Bytes
import PhpScript.Value.Basic

/-!
# Listings of values

A dump with types and lengths, an outline for people, and an export that is code for the value.
-/

namespace PhpScript.Value

def openBrace : String := "\x7b"

def closeBrace : String := "\x7d"

def dumpKey : Key → String
  | .int index => "[" ++ Integer.render index ++ "]"
  | .str name => "[\"" ++ name ++ "\"]"

mutual

/-- A value with its type, after a margin of `indent` blanks; the first line has no margin. -/
def dump (indent : Nat) : Value → String
  | .void | .null => "NULL\n"
  | .bool value => (if value then "bool(true)" else "bool(false)") ++ "\n"
  | .int value => "int(" ++ Integer.render value ++ ")\n"
  | .float value => "float(" ++ FloatText.exact value ++ ")\n"
  | .str value => s!"string({Text.byteLength value}) \"{value}\"\n"
  | .array ⟨entries⟩ =>
    s!"array({entries.length}) " ++ openBrace ++ "\n" ++ dumpEntries indent entries
      ++ Text.blanks indent ++ closeBrace ++ "\n"

def dumpEntries (indent : Nat) : List (Key × Value) → String
  | [] => ""
  | (key, element) :: rest =>
    let margin := Text.blanks (indent + 2)
    margin ++ dumpKey key ++ "=>\n" ++ margin ++ dump (indent + 2) element
      ++ dumpEntries indent rest

end

mutual

/-- Values in the form for reading. -/
def outline (indent : Nat) : Value → String
  | .array ⟨entries⟩ =>
    let margin := Text.blanks indent
    "Array\n" ++ margin ++ "(\n" ++ outlineEntries indent entries ++ margin ++ ")\n"
  | scalar => scalar.toText

def outlineEntries (indent : Nat) : List (Key × Value) → String
  | [] => ""
  | (key, element) :: rest =>
    Text.blanks (indent + 4) ++ "[" ++ key.render ++ "] => " ++ outline (indent + 8) element
      ++ "\n" ++ outlineEntries indent rest

end

def exportCharacter (character : Char) : List Char :=
  if character = '\\' || character = '\'' then ['\\', character] else [character]

def exportText (text : String) : String :=
  "'" ++ String.ofList (text.toList.flatMap exportCharacter) ++ "'"

def exportFloat (value : Float) : String :=
  let text := FloatText.exact value
  if text.toList.all fun character => character.isDigit || character = '-' then text ++ ".0"
  else text

def exportKey : Key → String
  | .int index => Integer.render index
  | .str name => exportText name

mutual

/-- Values in the form of code. -/
def exported (indent : Nat) : Value → String
  | .void | .null => "NULL"
  | .bool value => if value then "true" else "false"
  | .int value => Integer.render value
  | .float value => exportFloat value
  | .str value => exportText value
  | .array ⟨entries⟩ =>
    "array (\n" ++ exportedEntries indent entries ++ Text.blanks indent ++ ")"

def exportedEntries (indent : Nat) : List (Key × Value) → String
  | [] => ""
  | (key, element) :: rest =>
    let margin := Text.blanks (indent + 2)
    margin ++ exportKey key ++ " => " ++ (if element.isArray then "\n" ++ margin else "")
      ++ exported (indent + 2) element ++ ",\n" ++ exportedEntries indent rest

end

end PhpScript.Value
