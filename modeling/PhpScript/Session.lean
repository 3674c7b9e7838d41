import PhpScript.Run.Statement

/-!
# Sessions

Scripts that are run one after the other on one machine. Variables, constants and functions stay
from one script to the next; open calls, loops and silenced reports do not.
-/

namespace PhpScript

/-- How a script ends. -/
inductive Ending where
  | finished
  | failed (problem : Problem)
  | outOfFuel
  | unread (path : String)

/-- What a script prints, and how it ends. -/
structure Outcome where
  output : String
  ending : Ending

/-- A machine at the start of a program: nothing is open, and the code of the program runs. -/
def Machine.atStart (machine : Machine) (program : Program) : Machine :=
  { machine with
    file := ⟨program.filename, program.lines⟩
    depth := 0
    loopDepth := 0
    silence := 0
    exitCode := 0 }

/-- A program from its start, functions first. -/
def Evaluator.script (self : Evaluator) (program : Program) : Run Flow := do
  modify fun machine => machine.atStart program
  Run.hoist program.statements
  self.block program.statements

namespace Run

/-- No script nests as deep. -/
def ampleDepth : Nat := Nat.pow 2 60

def compile (source : String) : Run Program := do
  read .sections (← get).settings.filename source

end Run

namespace Machine

def failureCode : Int64 := 255

/-- How a run ended, and the machine with its exit code. -/
def conclude : EStateM.Result Halt Machine Flow → Ending × Machine
  | .ok _ machine => (.finished, machine)
  | .error (.exit code) machine => (.finished, { machine with exitCode := code })
  | .error (.problem problem) machine =>
    (.failed problem, { machine with exitCode := failureCode })
  | .error .outOfFuel machine => (.outOfFuel, machine)
  | .error (.unread path) machine => (.unread path, machine)

def run (machine : Machine) (depth : Nat) (program : Program) : Ending × Machine :=
  conclude ((Evaluator.ofDepth depth).script program machine)

def takeOutput (machine : Machine) : String × Machine :=
  let (text, output) := machine.output.takeResult
  (text, { machine with output })

/-- Read and run a text, and take its output. -/
def process (machine : Machine) (depth : Nat) (source : String) : Outcome × Machine :=
  let script : Run Flow := do
    let program ← Run.compile source
    (Evaluator.ofDepth depth).script program
  let (ending, machine) := conclude (script machine)
  let (output, machine) := machine.takeOutput
  (⟨output, ending⟩, machine)

def call (machine : Machine) (depth : Nat) (name : String) (arguments : List Value) :
    EStateM.Result Halt Machine Value :=
  (Evaluator.ofDepth depth).callFunction name ⟨0, 0⟩ arguments machine

def shown? (machine : Machine) (problem : Problem) : Option String :=
  problem.diagnostic.shown? machine.reporting

end Machine

end PhpScript
