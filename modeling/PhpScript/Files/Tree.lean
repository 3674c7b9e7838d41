import PhpScript.Files.Basic
import PhpScript.Files.Path
import PhpScript.Text.Bytes

/-!
# Files held in memory

A tree of files with a working directory, from which relative paths start.
-/

namespace PhpScript

/-- Files by the names on the way to them. -/
structure FileTree where
  directory : List String := []
  files : List (List String × List UInt8) := []

namespace FileTree

def nameLimit : Nat := 255

def pathLimit : Nat := 4095

def add (tree : FileTree) (path : String) (contents : List UInt8) : FileTree :=
  let names := (Files.Path.pieces path.toList).filter fun piece => !Files.Path.isBlank piece
  { tree with files := tree.files ++ [(tree.directory ++ names, contents)] }

def file? (tree : FileTree) (way : List String) : Option (List UInt8) :=
  (tree.files.find? fun entry => entry.1 = way).map (·.2)

def hasDirectory (tree : FileTree) (way : List String) : Bool :=
  way.isEmpty || way.isPrefixOf tree.directory
    || tree.files.any fun entry => way.isPrefixOf entry.1 && way ≠ entry.1

def walk (tree : FileTree) (place : List String) : List String → Except FileError (List String)
  | [] => .ok place
  | piece :: rest =>
    if !tree.hasDirectory place then
      .error (if (tree.file? place).isSome then .notDirectory else .notFound)
    else if Files.Path.isBlank piece then tree.walk place rest
    else if piece = ".." then tree.walk place.dropLast rest
    else if nameLimit < piece.utf8ByteSize then .error .nameTooLong
    else
      let inner := place ++ [piece]
      if tree.hasDirectory inner || (tree.file? inner).isSome then tree.walk inner rest
      else .error .notFound

def resolve (tree : FileTree) (path : String) : Except FileError (List String) :=
  if path.isEmpty then .error .notFound
  else if path.toList.contains '\x00' then .error .nulInName
  else if pathLimit < path.utf8ByteSize then .error .nameTooLong
  else
    let start := if Files.Path.isAbsolute path then [] else tree.directory
    tree.walk start (Files.Path.pieces path.toList)

def decode (bytes : List UInt8) : Except FileError String :=
  match Text.ofBytes? bytes with
  | some text => .ok text
  | none => .error .notText

def view (tree : FileTree) (path : String) : FileView :=
  match tree.resolve path with
  | .error error => .absent error
  | .ok way =>
    { isPresent := true
      canonical := some ("/" ++ String.intercalate "/" way)
      contents :=
        match tree.file? way with
        | some bytes => decode bytes
        | none => .error .isDirectory }

def toFileSystem (tree : FileTree) : FileSystem := fun path => some (tree.view path)

end FileTree

end PhpScript
