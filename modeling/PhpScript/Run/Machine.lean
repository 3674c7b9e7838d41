import PhpScript.Files.Basic
import PhpScript.Output
import PhpScript.Predefined
import PhpScript.Syntax.Program

/-!
# Machines

A machine holds everything that running code can see and change. `Run` is a computation on a machine
that can end early: with a fatal problem, by leaving the script, or because something outside is
missing, which is kept apart from the outcomes of scripts.
-/

namespace PhpScript

/-- All that running code sees and changes. -/
structure Machine where
  settings : Settings
  scopes : Scopes
  output : OutputBuffers := {}
  reporting : Int64
  silence : Nat := 0
  depth : Nat := 0
  loopDepth : Nat := 0
  file : SourceFile
  nextId : Nat := 0
  declared : List Nat := []
  included : List String := []
  exitCode : Int64 := 0
  clock : Moment
  files : FileSystem

namespace Machine

/-- A machine before its first script. -/
def start (settings : Settings) (request : Request) (files : FileSystem) (clock : Moment) :
    Machine :=
  { settings
    scopes := { root := Predefined.scope request settings.filename clock }
    reporting := settings.reporting
    file := { name := settings.filename }
    clock
    files }

def print (machine : Machine) (text : String) : Machine :=
  { machine with output := machine.output.write text }

/-- A severity is reported now. -/
def reports (machine : Machine) (severity : Severity) : Bool :=
  machine.silence = 0 && severity.isReported machine.reporting

/-- Print a report, if it is reported now. -/
def warn (machine : Machine) (problem : Problem) (span : Span) : Machine :=
  if machine.reports problem.severity then
    machine.print
      ("\n" ++ problem.diagnostic.render ++ " in " ++ machine.file.place span.start ++ "\n")
  else machine

def warnAll (machine : Machine) (problems : List Problem) (span : Span) : Machine :=
  problems.foldl (fun machine problem => machine.warn problem span) machine

end Machine

/-- Why a run is cut short. -/
inductive Halt where
  | problem (problem : Problem)
  | exit (code : Int64)
  | outOfFuel
  | unread (path : String)

/-- How a statement ends. -/
inductive Flow where
  | normal
  | ret (value : Value)
  | jump (kind : LoopJump) (levels : Nat)

/-- A computation on a machine. -/
abbrev Run := EStateM Halt Machine

namespace Run

variable {α : Type}

def fail (problem : Problem) : Run α := throw (.problem problem)

def ofExcept : Except Problem α → Run α
  | .ok value => return value
  | .error problem => fail problem

def print (text : String) : Run Unit := modify fun machine => machine.print text

def warn (problem : Problem) (span : Span) : Run Unit :=
  modify fun machine => machine.warn problem span

def warnAll (problems : List Problem) (span : Span) : Run Unit :=
  modify fun machine => machine.warnAll problems span

/-- Compute on values; reports come with the place of the code. -/
def check (span : Span) (computation : Checked α) : Run α :=
  let (problems, result) := computation.outcome
  do
    warnAll problems span
    ofExcept result

def stringify (span : Span) (value : Value) : Run String := check span value.stringify

/-- Change the machine for the duration of a computation: `save` keeps what `enter` changes, and
`restore` puts it back. -/
def bracket {β : Type} (save : Machine → β) (enter : Machine → Machine)
    (restore : β → Machine → Machine) (body : Run α) : Run α := fun before =>
  let saved := save before
  match body (enter before) with
  | .ok value after => .ok value (restore saved after)
  | .error halt after => .error halt (restore saved after)

/-- Run code of another source. -/
def inFile (file : SourceFile) (body : Run α) : Run α :=
  bracket (·.file) (fun machine => { machine with file })
    (fun saved machine => { machine with file := saved }) body

/-- Change a machine on the way in and out. -/
def between (enter leave : Machine → Machine) (body : Run α) : Run α :=
  bracket (fun _ => ()) enter (fun _ => leave) body

def inLoop (body : Run α) : Run α :=
  between (fun machine => { machine with loopDepth := machine.loopDepth + 1 })
    (fun machine => { machine with loopDepth := machine.loopDepth - 1 }) body

def outsideLoops (body : Run α) : Run α :=
  bracket (·.loopDepth) (fun machine => { machine with loopDepth := 0 })
    (fun saved machine => { machine with loopDepth := saved }) body

def silently (body : Run α) : Run α :=
  between (fun machine => { machine with silence := machine.silence + 1 })
    (fun machine => { machine with silence := machine.silence - 1 }) body

def inBody (body : Run α) : Run α :=
  between (fun machine => { machine with depth := machine.depth + 1 })
    (fun machine => { machine with depth := machine.depth - 1 }) (outsideLoops body)

/-- Run in a scope of its own. -/
def inCall (function : String) (body : Run α) : Run α :=
  bracket (·.scopes.locals)
    (fun machine => { machine with scopes := { machine.scopes with locals := [{ function }] } })
    (fun saved machine => { machine with scopes := { machine.scopes with locals := saved } }) body

/-- The present moment. The clock goes on with every reading. -/
def now : Run Moment :=
  modifyGet fun machine => (machine.clock, { machine with clock := machine.clock.next })

def look (path : String) : Run FileView := do
  match (← get).files path with
  | some view => return view
  | none => throw (.unread path)

def modifyScopes (change : Scopes → Scopes) : Run Unit :=
  modify fun machine => { machine with scopes := change machine.scopes }

/-- Give a constant its value. A constant that has one keeps it, which is reported; the result says
whether the constant was new. -/
def declareConstant (name : String) (value : Value) (span : Span) : Run Bool := do
  match (← get).scopes.root.declareConstant name value with
  | .ok root =>
    modifyScopes fun scopes => { scopes with root }
    return true
  | .error problem =>
    warn problem span
    return false

def lineOf (span : Span) : Run Nat := return (← get).file.lines.line span.start

/-- Read a program, with fresh numbers for its functions. -/
def read (kind : SourceKind) (filename source : String) : Run Program := do
  let (result, nextId) := Program.read kind filename source (← get).nextId
  modify fun machine => { machine with nextId }
  match result with
  | .ok program => return program
  | .error .exhausted => throw .outOfFuel
  | .error (.fault fault) =>
    let place := (SourceFile.mk filename (.ofText source)).place fault.span.start
    fail (.malformed (fault.node.message ++ " in " ++ place))

end Run

end PhpScript
