/-!
# Paths of files

Empty pieces and single dots name nothing, apart from a dot that stands alone in front.
-/

namespace PhpScript.Files

namespace Path

def isAbsolute (path : String) : Bool := path.toList.head? = some '/'

def piecesOnto (piece : List Char) : List Char → List String
  | [] => [String.ofList piece.reverse]
  | character :: rest =>
    if character = '/' then String.ofList piece.reverse :: piecesOnto [] rest
    else piecesOnto (character :: piece) rest

def pieces (path : List Char) : List String := piecesOnto [] path

def isBlank (piece : String) : Bool := piece.isEmpty || piece = "."

/-- The fixed front of a path, which is the root or a single dot, and what follows. -/
def front : List Char → String × List Char
  | '/' :: body => ("/", body)
  | ['.'] => (".", [])
  | '.' :: '/' :: body => (".", '/' :: body)
  | body => ("", body)

def parent? (path : String) : Option String :=
  let (head, body) := front path.toList
  match (pieces body).reverse.dropWhile isBlank with
  | [] => if head = "." then some "" else none
  | _ :: outer => some (head ++ String.intercalate "/" (outer.dropWhile isBlank).reverse)

/-- A path as seen from a directory. -/
def join (directory path : String) : String :=
  if isAbsolute path then path
  else if directory.isEmpty || directory.toList.getLast? = some '/' then directory ++ path
  else directory ++ "/" ++ path

end Path

end PhpScript.Files
