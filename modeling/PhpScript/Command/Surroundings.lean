import PhpScript.Session

/-!
# Surroundings

Files may have to be looked at before a command can be carried out; then the command asks for a path
and is started again when it is known.
-/

namespace PhpScript

/-- What a command finds around it. -/
structure Surroundings where
  environment : List (String × String) := []
  files : FileSystem
  clock : Moment

/-- A file at which nobody has looked yet. -/
structure Unread where
  path : String
deriving DecidableEq

namespace Surroundings

def lookup? (surroundings : Surroundings) (name : String) : Option String :=
  (surroundings.environment.find? fun entry => entry.1 = name).map (·.2)

def contents (surroundings : Surroundings) (path : String) :
    Except Unread (Except FileError String) :=
  match surroundings.files path with
  | some view => .ok view.contents
  | none => .error ⟨path⟩

def machine (surroundings : Surroundings) (settings : Settings) (request : Request) : Machine :=
  .start settings { request with environment := surroundings.environment } surroundings.files
    surroundings.clock

end Surroundings

namespace Outcome

def text (outcome : Outcome) (machine : Machine) : String :=
  match outcome.ending with
  | .failed problem =>
    match machine.shown? problem with
    | some message => outcome.output ++ "\n" ++ message ++ "\n"
    | none => outcome.output
  | _ => outcome.output

end Outcome

namespace Machine

def perform (machine : Machine) (source : String) : Except Unread (String × Machine) :=
  let (outcome, machine) := machine.process Run.ampleDepth source
  match outcome.ending with
  | .unread path => .error ⟨path⟩
  | _ => .ok (outcome.text machine, machine)

end Machine

end PhpScript
