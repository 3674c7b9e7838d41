import PhpScript.Number.FloatFormat

/-!
# Trees of labelled data

The form in which programs are listed for other tools. Fields keep their order.
-/

namespace PhpScript

/-- A tree of data. -/
inductive Json where
  | null
  | bool (value : Bool)
  | int (value : Int)
  | float (value : Float)
  | str (value : String)
  | list (elements : List Json)
  | record (fields : List (String × Json))

namespace Json

def tagged (tag : String) (content : Json) : Json := .record [(tag, content)]

def hexByte (value : Nat) : List Char := [Nat.digitChar (value / 16), Nat.digitChar (value % 16)]

def escape (character : Char) : List Char :=
  match character with
  | '"' => ['\\', '"']
  | '\\' => ['\\', '\\']
  | '\n' => ['\\', 'n']
  | '\r' => ['\\', 'r']
  | '\t' => ['\\', 't']
  | other =>
    if other.toNat = 0x08 then ['\\', 'b']
    else if other.toNat = 0x0c then ['\\', 'f']
    else if other.toNat < 0x20 then '\\' :: 'u' :: '0' :: '0' :: hexByte other.toNat
    else [other]

def quote (text : String) : String :=
  "\"" ++ String.ofList (text.toList.flatMap escape) ++ "\""

def newline (level : Nat) : String := "\n" ++ String.ofList (List.replicate (2 * level) ' ')

mutual

def prettyAt (level : Nat) : Json → String
  | .null => "null"
  | .bool value => if value then "true" else "false"
  | .int value => toString value
  | .float value =>
    if value.isFinite then FloatFormat.interchange.write .shortest value else "null"
  | .str value => quote value
  | .list [] => "[]"
  | .list (first :: rest) =>
    "[" ++ newline (level + 1) ++ prettyAt (level + 1) first
      ++ prettyElements (level + 1) rest ++ newline level ++ "]"
  | .record [] => "\x7b\x7d"
  | .record ((name, first) :: rest) =>
    "\x7b" ++ newline (level + 1) ++ quote name ++ ": " ++ prettyAt (level + 1) first
      ++ prettyFields (level + 1) rest ++ newline level ++ "\x7d"

def prettyElements (level : Nat) : List Json → String
  | [] => ""
  | element :: rest =>
    "," ++ newline level ++ prettyAt level element ++ prettyElements level rest

def prettyFields (level : Nat) : List (String × Json) → String
  | [] => ""
  | (name, field) :: rest =>
    "," ++ newline level ++ quote name ++ ": " ++ prettyAt level field ++ prettyFields level rest

end

def pretty (tree : Json) : String := prettyAt 0 tree

end Json

end PhpScript
