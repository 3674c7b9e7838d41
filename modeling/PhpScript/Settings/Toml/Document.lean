import PhpScript.Settings.Toml.Value

/-!
# Documents of settings

Every key and every table may be defined once only; what counts as a second definition depends on
how a table came about.
-/

namespace PhpScript.Toml

/-- What made a table. -/
inductive Origin where
  | header
  | path
  | key
deriving DecidableEq

/-- What a name stands for. -/
inductive Node where
  | value (value : TomlValue)
  | table (origin : Origin) (entries : List (String × Node))
  | tables (current : List (String × Node)) (others : List (List (String × Node)))

abbrev Entries := List (String × Node)

def place (name : String) (node : Node) (entries : Entries) : Entries :=
  if entries.any (·.1 = name) then
    entries.map fun entry => if entry.1 = name then (name, node) else entry
  else entries ++ [(name, node)]

def find? (name : String) (entries : Entries) : Option Node :=
  (entries.find? (·.1 = name)).map (·.2)

/-- Whether the path of a key with points may go on through a table; `isLast` says that the key
ends in it. -/
def admitsKey (kind : Origin) (isLast : Bool) : Bool :=
  match kind with
  | .key => true
  | .path => !isLast
  | .header => false

/-- Change the table at the end of a path. Tables on the way that do not exist are made with the
given origin. -/
def descend (origin : Origin) (change : Entries → Option Entries) :
    List String → Entries → Option Entries
  | [], entries => change entries
  | name :: rest, entries =>
    match find? name entries with
    | none => do
      let inner ← descend origin change rest []
      return place name (.table origin inner) entries
    | some (.table kind inner) =>
      if origin = .key && !admitsKey kind rest.isEmpty then none
      else do
        let inner ← descend origin change rest inner
        return place name (.table kind inner) entries
    | some (.tables current others) =>
      if origin = .key && rest.isEmpty then none
      else do
        let current ← descend origin change rest current
        return place name (.tables current others) entries
    | some (.value _) => none

def insertValue (key : List String) (value : TomlValue) (entries : Entries) : Option Entries :=
  match key.getLast? with
  | none => none
  | some name =>
    descend .key (fun inner =>
      if inner.any (·.1 = name) then none else some (inner ++ [(name, .value value)]))
      key.dropLast entries

def openTable (path : List String) (entries : Entries) : Option Entries :=
  match path.getLast? with
  | none => none
  | some name =>
    descend .path (fun inner =>
      match find? name inner with
      | none => some (inner ++ [(name, .table .header [])])
      | some (.table .path found) => some (place name (.table .header found) inner)
      | some _ => none) path.dropLast entries

def openListTable (path : List String) (entries : Entries) : Option Entries :=
  match path.getLast? with
  | none => none
  | some name =>
    descend .path (fun inner =>
      match find? name inner with
      | none => some (inner ++ [(name, .tables [] [])])
      | some (.tables current others) =>
        some (place name (.tables [] (current :: others)) inner)
      | some _ => none) path.dropLast entries

def takeStatement (fuel : Nat) (current : List String) (entries : Entries) (text : List Char) :
    Option ((List String × Entries) × List Char) :=
  match text with
  | '[' :: '[' :: rest => do
    let (path, rest) ← takeKey rest
    let rest ← takeMark ']' rest
    let rest ← takeMark ']' rest
    let entries ← openListTable path entries
    return ((path, entries), rest)
  | '[' :: rest => do
    let (path, rest) ← takeKey rest
    let rest ← takeMark ']' rest
    let entries ← openTable path entries
    return ((path, entries), rest)
  | _ => do
    let (key, rest) ← takeKey text
    let rest ← takeMark '=' rest
    let (value, rest) ← takeValue fuel depthLimit (skipBlanks rest)
    let entries ← descend .path (insertValue key value) current entries
    return ((current, entries), rest)

def readLines (current : List String) (entries : Entries) : Nat → List Char → Option Entries
  | 0, _ => none
  | fuel + 1, text =>
    let text := skipLines fuel text
    if text.isEmpty then some entries
    else do
      let ((current, entries), rest) ← takeStatement fuel current entries text
      match skipComment rest with
      | [] => some entries
      | rest => do
        let next ← skipNewline? rest
        readLines current entries fuel next

/-- The entries of a document. -/
def read? (document : String) : Option Entries :=
  let text :=
    match document.toList with
    | [] => []
    | first :: rest => if first.toNat = 0xfeff then rest else first :: rest
  readLines [] [] (2 * text.length + 8) text

end PhpScript.Toml
