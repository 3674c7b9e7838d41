import PhpScript.Command.Arguments
import PhpScript.Command.Shell
import PhpScript.Syntax.Dump

/-!
# Commands

What can be asked for on the command line, and what comes of it, as a function of the surroundings
and of the text on standard input.
-/

namespace PhpScript

/-- How a script is to be run. -/
structure RunOptions where
  file : Option String := none
  settings : Option String := none
  production : Bool := false
  query : String := ""
  body : String := ""
  cookie : String := ""
  arguments : List String := []
deriving DecidableEq

/-- What is asked for. -/
inductive Command where
  | run (options : RunOptions)
  | tokens (path : String)
  | parse (path : String)
  | shell
deriving DecidableEq

/-- What a command prints, and its exit code. -/
structure Report where
  output : String := ""
  complaint : Option String := none
  code : Nat := 0
deriving DecidableEq

namespace Report

def failure (reason : String) : Report := { complaint := some ("Error: " ++ reason), code := 1 }

end Report

namespace Command

def versionLine : String := "phpi 0.1.0\n"

def usage : String :=
  "Tree-walking interpreter with PHP semantics\n\n"
    ++ "Usage: phpi [OPTIONS] [ARGS]...\n"
    ++ "       phpi <COMMAND>\n\n"
    ++ "Commands:\n"
    ++ "  run     Run a script (stdin when no file is given)\n"
    ++ "  parse   Parse and dump AST (debug)\n"
    ++ "  tokens  Tokenize and dump tokens (debug)\n"
    ++ "  repl    Start the interactive shell\n"
    ++ "  help    Print this message\n"

def helpOption : CommandOption := { name := "help", letter := some 'h', kind := .help }

def plainForm : CommandForm where
  options :=
    [{ name := "file", letter := some 'f', kind := .path }, helpOption,
      { name := "version", letter := some 'V', kind := .version }]
  hasArguments := true

def runForm : CommandForm where
  options :=
    [{ name := "config", kind := .path }, { name := "prod", kind := .flag },
      { name := "query", kind := .value }, { name := "post", kind := .value },
      { name := "cookie", kind := .value }, helpOption]
  hasFile := true
  hasArguments := true

def fileForm : CommandForm where
  options := [helpOption]
  hasFile := true

def bareForm : CommandForm where
  options := [helpOption]

def runOptions (given : Given) : RunOptions where
  file := given.file
  settings := given.value? "config"
  production := given.has "prod"
  query := (given.value? "query").getD ""
  body := (given.value? "post").getD ""
  cookie := (given.value? "cookie").getD ""
  arguments := given.arguments

def onFile (command : String → Command) (arguments : List String) : Except Refusal Command := do
  match (← fileForm.read arguments).file with
  | some path => return command path
  | none => throw (.usage .missingFile)

def names : List String := ["run", "parse", "tokens", "repl", "help"]

/-- What comes of asking for help on some topics. One command can be a topic, and commands have no
topics below them. -/
def help : List String → Refusal
  | [] => .help
  | topic :: rest =>
    if names.contains topic then rest.head?.elim .help (.usage <| .unknownCommand ·)
    else .usage (.unknownCommand topic)

/-- The command that arguments ask for. -/
def ofArguments (arguments : List String) : Except Refusal Command := do
  match arguments with
  | "run" :: rest => return .run (runOptions (← runForm.read rest))
  | "parse" :: rest => onFile .parse rest
  | "tokens" :: rest => onFile .tokens rest
  | "repl" :: rest =>
    let _ ← bareForm.read rest
    return .shell
  | "help" :: topics => throw (help topics)
  | _ =>
    let given ← plainForm.read arguments
    return .run { file := given.value? "file", arguments := given.arguments }

def refuse : Refusal → Report
  | .usage error => { complaint := some ("error: " ++ error.message), code := 2 }
  | .help => { output := usage }
  | .version => { output := versionLine }

def inputName : String := "Standard input code"

/-- The name and the text of a script. -/
def source (surroundings : Surroundings) (input : Except FileError String) (file : Option String) :
    Except Unread (Except FileError (String × String)) := do
  match file with
  | some path => return (← surroundings.contents path).map fun text => (text, path)
  | none => return input.map fun text => (text, inputName)

def settings (surroundings : Surroundings) (options : RunOptions) :
    Except Unread (Except LoadError Settings) := do
  let loaded ←
    match options.settings with
    | none => pure (.ok Settings.development)
    | some path =>
      match ← surroundings.contents path with
      | .ok text => pure (Settings.ofText text)
      | .error error => pure (.error (.file error.render))
  return loaded.map fun settings =>
    if options.production then { settings with reporting := Settings.production.reporting }
    else settings

def exitByte (code : Int64) : Nat := (code &&& 255).toInt.toNat

def runScript (surroundings : Surroundings) (input : Except FileError String)
    (options : RunOptions) : Except Unread Report := do
  match ← source surroundings input options.file with
  | .error error => return .failure error.render
  | .ok (text, filename) =>
    match ← settings surroundings options with
    | .error error => return .failure error.render
    | .ok settings =>
      let request : Request :=
        { arguments := options.arguments
          query := options.query
          body := options.body
          cookie := options.cookie }
      let machine := surroundings.machine { settings with filename } request
      let (output, machine) ← machine.perform text
      return { output, code := exitByte machine.exitCode }

def showFile (surroundings : Surroundings) (path : String)
    (render : String → Except (Located Fault) String) : Except Unread Report := do
  match ← surroundings.contents path with
  | .error error => return .failure error.render
  | .ok text =>
    match render text with
    | .ok output => return { output }
    | .error fault => return .failure (LoadError.ofFault fault).render

def tokenLines (text : String) : Except (Located Fault) String := do
  let tokens ← Token.scan text
  return String.join (tokens.map fun token =>
    token.node.listing ++ " @ " ++ token.span.render ++ "\n")

def treeText (filename text : String) : Except (Located Fault) String :=
  match (Program.read .sections filename text 0).1 with
  | .ok program => .ok (program.toJson.pretty ++ "\n")
  | .error (.fault fault) => .error fault
  | .error .exhausted => .ok ""

def breakdown : Nat := 101

def execute (surroundings : Surroundings) (input : Except FileError String) :
    Command → Except Unread Report
  | .run options => runScript surroundings input options
  | .tokens path => showFile surroundings path tokenLines
  | .parse path => showFile surroundings path (treeText path)
  | .shell =>
    match input with
    | .ok text => do
      let transcript ← Shell.transcript surroundings text
      let code := if transcript.isBroken then breakdown else 0
      return { output := transcript.shown, code }
    | .error error => return .failure error.render

def perform (surroundings : Surroundings) (input : Except FileError String)
    (arguments : List String) : Except Unread Report :=
  match ofArguments arguments with
  | .ok command => command.execute surroundings input
  | .error refusal => .ok (refuse refusal)

end Command

end PhpScript
