/-!
# Files as a script sees them

A script asks of a path whether something is there, which file it means whatever the spelling of the
path, and what the file holds. Files do not change while a script runs. A path that nobody has
looked at yet has no view.
-/

namespace PhpScript

/-- Why a file cannot be read. -/
inductive FileError where
  | notFound
  | notDirectory
  | isDirectory
  | nameTooLong
  | nulInName
  | notText
  | other (reason : String)
deriving DecidableEq

namespace FileError

def reason : FileError → String
  | .notFound => "No such file or directory"
  | .notDirectory => "Not a directory"
  | .isDirectory => "Is a directory"
  | .nameTooLong => "File name too long"
  | .nulInName => "file name contained an unexpected NUL byte"
  | .notText => "stream did not contain valid UTF-8"
  | .other reason => reason

def number? : FileError → Option Nat
  | .notFound => some 2
  | .notDirectory => some 20
  | .isDirectory => some 21
  | .nameTooLong => some 36
  | .nulInName | .notText | .other _ => none

def render (error : FileError) : String :=
  match error.number? with
  | some number => s!"{error.reason} (os error {number})"
  | none => error.reason

def streamReason : FileError → String
  | .notFound => FileError.notFound.reason
  | error => error.render

end FileError

/-- What is known of a path. -/
structure FileView where
  isPresent : Bool
  /-- The one spelling of the path that all paths of the file share. -/
  canonical : Option String
  contents : Except FileError String

namespace FileView

def absent (error : FileError) : FileView := ⟨false, none, .error error⟩

end FileView

/-- What is known of each path, none where nobody has looked. -/
abbrev FileSystem := String → Option FileView

end PhpScript
