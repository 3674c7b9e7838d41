import PhpScript.Command.Surroundings
import PhpScript.Text.Backspace

/-!
# The shell

Every line is a script of its own on one machine, so that variables, constants and functions stay.
Lines that begin with a colon are commands to the shell itself.
-/

namespace PhpScript.Shell

def filename : String := "php shell code"

def banner : String :=
  "phpi interactive shell (PHP " ++ Predefined.version ++ ")\n"
    ++ "Type :help for help, :quit to exit.\n\n"

def help : String :=
  "Commands:\n"
    ++ "  :help, :h, :?   Show this help\n"
    ++ "  :quit, :q       Exit the shell\n"
    ++ "  :clear          Clear the screen\n"
    ++ "  :reset          Forget all variables, constants and functions\n"
    ++ "\n"
    ++ "Any other line runs as PHP code, e.g.\n"
    ++ "  $x = [1, 2, 3]; echo count($x)\n"
    ++ "  function twice($n) \x7b return $n * 2; \x7d\n"
    ++ "  var_dump(twice(21))\n"

def farewell : String := "Goodbye!\n"

def rigidTerminals : List String := ["dumb", "cons25", "emacs"]

/-- What the shell shows when it wants a line. It does so only if the environment names a terminal
on which a line cannot be edited. -/
def prompt (surroundings : Surroundings) : String :=
  match surroundings.lookup? "TERM" with
  | some terminal =>
    if rigidTerminals.any (Text.equalIgnoringCase terminal) then "php > " else ""
  | none => ""

def clearScreen : String := "\x1b[2J\x1b[1;1H"

def machine (surroundings : Surroundings) : Machine :=
  surroundings.machine { Settings.development with filename } {}

/-- The script that a line stands for. A semicolon at its end can be left out. -/
def script (line : String) : String :=
  match line.toList.getLast? with
  | some ';' | some '\x7d' => "<?php " ++ line
  | _ => "<?php " ++ line ++ ";"

/-- What comes of a line. -/
inductive Reply where
  | answer (text : String) (machine : Machine)
  | farewell
  | breakdown
  | unread (path : String)

def closed (text : String) : String :=
  if text.isEmpty || text.toList.getLast? = some '\n' then text else text ++ "\n"

def command (surroundings : Surroundings) (machine : Machine) (name : String) : Reply :=
  if [":quit", ":q", ":exit"].contains name then .farewell
  else if [":help", ":h", ":?"].contains name then .answer help machine
  else if name = ":clear" then .answer clearScreen machine
  else if name = ":reset" then .answer "" (Shell.machine surroundings)
  else .answer ("Unknown command: " ++ name ++ "\nType :help for help.\n") machine

def replyTrimmed (surroundings : Surroundings) (machine : Machine) (line : List Char) : Reply :=
  match line with
  | [] => .answer "" machine
  | ':' :: _ => command surroundings machine (String.ofList line)
  | _ =>
    match machine.perform (script (String.ofList line)) with
    | .ok (text, machine) => .answer (closed text) machine
    | .error unread => .unread unread.path

/-- What comes of a line as it was typed. -/
def reply (surroundings : Surroundings) (machine : Machine) (line : String) : Reply :=
  match Text.settleBackspaces? line.toList with
  | some settled => replyTrimmed surroundings machine (Text.trim settled)
  | none => .breakdown

/-- All that a shell shows. -/
structure Transcript where
  shown : String
  isBroken : Bool := false

def transcriptFrom (surroundings : Surroundings) (shown : String) (machine : Machine) :
    List String → Except Unread Transcript
  | [] => .ok { shown := shown ++ prompt surroundings ++ farewell }
  | line :: rest =>
    let shown := shown ++ prompt surroundings
    match reply surroundings machine line with
    | .answer text machine => transcriptFrom surroundings (shown ++ text) machine rest
    | .farewell => .ok { shown := shown ++ farewell }
    | .breakdown => .ok { shown, isBroken := true }
    | .unread path => .error ⟨path⟩

def dropReturn : List Char → List Char
  | '\r' :: line => line
  | line => line

def linesOnto (line : List Char) : List Char → List String
  | [] => if line.isEmpty then [] else [String.ofList line.reverse]
  | '\n' :: rest => String.ofList (dropReturn line).reverse :: linesOnto [] rest
  | character :: rest => linesOnto (character :: line) rest

def lines (input : String) : List String := linesOnto [] input.toList

def transcript (surroundings : Surroundings) (input : String) : Except Unread Transcript :=
  transcriptFrom surroundings banner (machine surroundings) (lines input)

end PhpScript.Shell
