import PhpScript.Command.Basic
import Std.Time.DateTime.Timestamp

/-!
# The program

The command line around `Command`: it reads the environment, the clock, standard input and the files
that a command asks for.
-/

namespace PhpScript

namespace CommandLine

def fileError : IO.Error → FileError
  | .noFileOrDirectory .. => .notFound
  | .noSuchThing .. => .notFound
  | .inappropriateType _ code _ => if code = 21 then .isDirectory else .notDirectory
  | error => .other (toString error)

def decode (bytes : ByteArray) : Except FileError String :=
  match Text.ofBytes? bytes.toList with
  | some text => .ok text
  | none => .error .notText

def look (path : String) : IO FileView := do
  if path.toList.contains '\x00' then return .absent .nulInName
  let canonical ← try pure (some (← IO.FS.realPath path).toString) catch _ => pure none
  let contents ← try pure (decode (← IO.FS.readBinFile path)) catch error =>
    pure (.error (fileError error))
  return { isPresent := canonical.isSome, canonical, contents }

def knownFiles (known : List (String × FileView)) : FileSystem := fun path =>
  (known.find? fun entry => entry.1 = path).map (·.2)

def environmentEntry (entry : String) : Option (String × String) :=
  match entry.toList.dropWhile (· ≠ '=') with
  | _ :: value => some (String.ofList (entry.toList.takeWhile (· ≠ '=')), String.ofList value)
  | [] => none

def environment : IO (List (String × String)) := do
  try
    let bytes ← IO.FS.readBinFile "/proc/self/environ"
    let entries := (Text.ofBytes bytes.toList).splitOn "\x00"
    return entries.filterMap environmentEntry
  catch _ => return []

def now : IO Moment := do
  let nanoseconds := (← Std.Time.Timestamp.now).toNanosecondsSinceUnixEpoch.val
  return ⟨nanoseconds / 1000000000, (nanoseconds % 1000000000).toNat / 1000⟩

def surroundings (known : List (String × FileView)) : IO Surroundings :=
  return { environment := ← environment, files := knownFiles known, clock := ← now }

partial def readAll (stream : IO.FS.Stream) (read : ByteArray) : IO ByteArray := do
  let chunk ← stream.read 65536
  if chunk.isEmpty then return read else readAll stream (read ++ chunk)

partial def settle (known : List (String × FileView)) (input : Except FileError String)
    (command : Command) : IO Report := do
  match command.execute (← surroundings known) input with
  | .ok report => return report
  | .error unread => settle ((unread.path, ← look unread.path) :: known) input command

partial def reply (known : List (String × FileView)) (machine : Machine) (line : String) :
    IO Shell.Reply := do
  let machine := { machine with files := knownFiles known }
  match Shell.reply (← surroundings known) machine line with
  | .unread path => reply ((path, ← look path) :: known) machine line
  | answer => return answer

partial def converse (input output : IO.FS.Stream) (prompt : String) (machine : Machine) :
    IO UInt32 := do
  output.putStr prompt
  output.flush
  let line ← input.getLine
  if line.isEmpty then
    output.putStr Shell.farewell
    return 0
  else
    match ← reply [] machine (String.join (Shell.lines line)) with
    | .answer text machine =>
      output.putStr text
      converse input output prompt machine
    | .breakdown => return UInt32.ofNat Command.breakdown
    | _ =>
      output.putStr Shell.farewell
      return 0

def write (report : Report) : IO UInt32 := do
  let output ← IO.getStdout
  output.putStr report.output
  output.flush
  match report.complaint with
  | some line => (← IO.getStderr).putStrLn line
  | none => pure ()
  return UInt32.ofNat report.code

def inputOf (command : Command) : IO (Except FileError String) := do
  match command with
  | .run { file := none, .. } => return decode (← readAll (← IO.getStdin) ByteArray.empty)
  | _ => return .ok ""

def perform (command : Command) : IO UInt32 := do
  if command = .shell then
    let output ← IO.getStdout
    output.putStr Shell.banner
    let surroundings ← surroundings []
    converse (← IO.getStdin) output (Shell.prompt surroundings) (Shell.machine surroundings)
  else
    let input ← inputOf command
    write (← settle [] input command)

end CommandLine

end PhpScript

def main (arguments : List String) : IO UInt32 :=
  match PhpScript.Command.ofArguments arguments with
  | .ok command => PhpScript.CommandLine.perform command
  | .error refusal => PhpScript.CommandLine.write (PhpScript.Command.refuse refusal)
