/-!
# Arguments of commands

A command accepts options, possibly the path of a file, and possibly arguments that it hands on.
These start with the first one that is neither an option nor the path; from there on nothing is an
option any more. Two hyphens alone end the options too.
-/

namespace PhpScript

/-- What an option is for. -/
inductive OptionKind where
  | flag
  | value
  | path
  | help
  | version
deriving DecidableEq

namespace OptionKind

def takesValue : OptionKind → Bool
  | .value | .path => true
  | .flag | .help | .version => false

end OptionKind

/-- An option, which is written with two hyphens and its name, or with one hyphen and a letter. -/
structure CommandOption where
  name : String
  letter : Option Char := none
  kind : OptionKind
deriving DecidableEq

/-- Why arguments are refused. -/
inductive UsageError where
  | unknownOption (argument : String)
  | unexpectedArgument (argument : String)
  | unexpectedValue (name : String)
  | missingValue (name : String)
  | emptyValue (name : String)
  | repeatedOption (name : String)
  | missingFile
  | unknownCommand (name : String)
deriving DecidableEq

namespace UsageError

def message : UsageError → String
  | .unknownOption argument | .unexpectedArgument argument =>
    "unexpected argument '" ++ argument ++ "' found"
  | .unexpectedValue name => "unexpected value for '--" ++ name ++ "' found; no more were expected"
  | .missingValue name => "a value is required for '--" ++ name ++ "' but none was supplied"
  | .emptyValue name => "a value is required for '" ++ name ++ "' but none was supplied"
  | .repeatedOption name => "the argument '--" ++ name ++ "' cannot be used multiple times"
  | .missingFile => "the following required arguments were not provided: <FILE>"
  | .unknownCommand name => "unrecognized subcommand '" ++ name ++ "'"

end UsageError

/-- Why no command comes of the arguments. -/
inductive Refusal where
  | usage (error : UsageError)
  | help
  | version
deriving DecidableEq

/-- What was read of the arguments. -/
structure Given where
  options : List (String × String) := []
  file : Option String := none
  arguments : List String := []
deriving DecidableEq

namespace Given

def value? (given : Given) (name : String) : Option String :=
  (given.options.find? fun option => option.1 = name).map (·.2)

def has (given : Given) (name : String) : Bool := (given.value? name).isSome

def add (given : Given) (option : CommandOption) (value : String) : Except Refusal Given :=
  if option.kind = .path && value.isEmpty then .error (.usage (.emptyValue option.name))
  else if given.has option.name then .error (.usage (.repeatedOption option.name))
  else .ok { given with options := given.options ++ [(option.name, value)] }

end Given

/-- What a command takes. -/
structure CommandForm where
  options : List CommandOption
  hasFile : Bool := false
  hasArguments : Bool := false

namespace CommandForm

def named? (form : CommandForm) (name : String) : Option CommandOption :=
  form.options.find? fun option => option.name = name

def lettered? (form : CommandForm) (letter : Char) : Option CommandOption :=
  form.options.find? fun option => option.letter = some letter

def handsOn (form : CommandForm) (given : Given) : Bool :=
  form.hasArguments && !(form.hasFile && given.file.isNone)

def takeRest (form : CommandForm) (given : Given) (arguments : List String) :
    Except Refusal Given :=
  match arguments with
  | [] => .ok given
  | argument :: rest =>
    if form.hasFile && given.file.isNone then
      if argument.isEmpty then .error (.usage (.emptyValue "FILE"))
      else if form.hasArguments || rest.isEmpty then
        .ok { given with file := some argument, arguments := rest }
      else .error (.usage (.unexpectedArgument (rest.headD "")))
    else if form.hasArguments then .ok { given with arguments }
    else .error (.usage (.unexpectedArgument argument))

inductive Shape where
  | option (option : CommandOption) (value : Option String)
  | hyphened
  | divider
  | plain

def splitValue (text : List Char) : String × Option String :=
  match text.dropWhile (· ≠ '=') with
  | [] => (String.ofList text, none)
  | _ :: value => (String.ofList (text.takeWhile (· ≠ '=')), some (String.ofList value))

def attached : List Char → Option String
  | [] => none
  | '=' :: value => some (String.ofList value)
  | value => some (String.ofList value)

/-- What an argument is by its spelling. Letters that would be handed on make an option only if all
of them are letters of options. -/
def shape (form : CommandForm) (given : Given) (argument : String) : Shape :=
  match argument.toList with
  | ['-', '-'] => .divider
  | '-' :: '-' :: text =>
    let (name, value) := splitValue text
    match form.named? name with
    | some option => .option option value
    | none => .hyphened
  | '-' :: letter :: text =>
    if form.handsOn given
        && (letter :: text).any (fun other => (form.lettered? other).isNone) then
      .hyphened
    else
      match form.lettered? letter with
      | some option => .option option (if option.kind.takesValue then attached text else none)
      | none => .hyphened
  | _ => .plain

def takePlain (form : CommandForm) (given : Given) (argument : String) : Except Refusal Given :=
  if argument.isEmpty then .error (.usage (.emptyValue "FILE"))
  else if form.hasFile && given.file.isNone then .ok { given with file := some argument }
  else .error (.usage (.unexpectedArgument argument))

/-- Read arguments; `pending` is an option that still needs its value. -/
def readFrom (form : CommandForm) (given : Given) (pending : Option CommandOption) :
    List String → Except Refusal Given
  | [] =>
    match pending with
    | some option => .error (.usage (.missingValue option.name))
    | none => .ok given
  | argument :: rest =>
    match form.shape given argument, pending with
    | .option .., some option | .divider, some option =>
      .error (.usage (.missingValue option.name))
    | .divider, none => form.takeRest given rest
    | .option option value, none =>
      match option.kind, value with
      | .value, some value | .path, some value => do
        form.readFrom (← given.add option value) none rest
      | .value, none | .path, none => form.readFrom given (some option) rest
      | _, some _ => .error (.usage (.unexpectedValue option.name))
      | .help, none => .error .help
      | .version, none => .error .version
      | .flag, none => do form.readFrom (← given.add option "") none rest
    | .hyphened, some option =>
      if form.handsOn given then do form.readFrom (← given.add option argument) none rest
      else .error (.usage (.unknownOption argument))
    | .plain, some option => do form.readFrom (← given.add option argument) none rest
    | .hyphened, none =>
      if form.handsOn given then .ok { given with arguments := argument :: rest }
      else .error (.usage (.unknownOption argument))
    | .plain, none =>
      if form.handsOn given then .ok { given with arguments := argument :: rest }
      else do form.readFrom (← form.takePlain given argument) none rest

def read (form : CommandForm) (arguments : List String) : Except Refusal Given :=
  form.readFrom {} none arguments

end CommandForm

end PhpScript
