import PhpScript.Files.Path
import PhpScript.Run.Evaluator

/-!
# Code from outside the program

Files that are pulled in and texts that are evaluated as code run in the scope of the code that asks
for them.
-/

namespace PhpScript

namespace Run

/-- The path that a file name stands for: from the working directory, or else from the directory of
the running code. -/
def resolvePath (filename : String) : Run String := do
  if Files.Path.isAbsolute filename then return filename
  if (← look filename).isPresent then return filename
  match Files.Path.parent? (← get).file.name with
  | some directory =>
    let path := Files.Path.join directory filename
    return if (← look path).isPresent then path else filename
  | none => return filename

/-- A missing file is fatal only if required. -/
def reportUnreadable (mode : IncludeMode) (filename : String) (error : FileError) (span : Span) :
    Run Value := do
  warn (.openStream mode filename error.streamReason) span
  if mode.required then fail (.openRequired filename)
  else
    warn (.openForInclusion mode filename) span
    return .bool false

end Run

namespace Evaluator

variable (self : Evaluator)

/-- Run a text as code of a file that has been pulled in. A file that returns nothing has the value
one. -/
def runFile (path source : String) : Run Value := do
  let program ← Run.read .sections path source
  match ← self.program program with
  | .ret value => return value.orNull
  | _ => return .int 1

/-- Pull in a file by its name. -/
def includeNamed (mode : IncludeMode) (filename : String) (span : Span) : Run Value := do
  let path ← Run.resolvePath filename
  let view ← Run.look path
  let identity := view.canonical.getD path
  if mode.once && (← get).included.contains identity then return .bool true
  else
    match view.contents with
    | .error error => Run.reportUnreadable mode filename error span
    | .ok source =>
      modify fun machine => { machine with included := identity :: machine.included }
      self.runFile path source

def includeFile (mode : IncludeMode) (path : Located Expr) : Run Value := do
  let filename ← self.text path
  if filename.isEmpty then Run.fail .emptyPath else self.includeNamed mode filename path.span

/-- Run a text as code of its own. -/
def evaluateText (span : Span) (code : Located Expr) : Run Value := do
  let source ← self.text code
  let line ← Run.lineOf span
  let name := (← get).file.name
  let program ← Run.read .code s!"{name}({line}) : eval()'d code" source
  match ← self.program program with
  | .ret value => return value.orNull
  | _ => return .null

end Evaluator

end PhpScript
