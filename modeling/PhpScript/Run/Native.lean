import PhpScript.Run.Machine
import PhpScript.Value.Render

/-!
# Calls of native functions

What the native functions do that use or change the state of a run, and how arguments are bound to
the signature of any native function.
-/

namespace PhpScript

namespace OutputFunction

/-- Change the output buffers. Without an open buffer the function reports what it failed at and
what it lacked, and the result is false. -/
def onBuffer (span : Span) (function failure remedy : String)
    (change : OutputBuffers → Option OutputBuffers) : Run Value := do
  match change (← get).output with
  | some output =>
    modify fun machine => { machine with output }
    return .bool true
  | none =>
    Run.warn (.noBuffer function failure remedy) span
    return .bool false

def list (text : String) (handOut : Value) (printed : Value) : Run Value := do
  if handOut.toBool then return .str text
  Run.print text
  return printed

def apply (function : OutputFunction) (span : Span) (arguments : List Value) : Run Value := do
  match function, arguments with
  | .outline, [value, handOut] => list (value.outline 0) handOut (.bool true)
  | .dump, [value, others] =>
    Run.print (String.join ((value :: others.toTable.values).map (Value.dump 0)))
    return .null
  | .export, [value, handOut] => list (value.exported 0) handOut .null
  | .start, _ =>
    modify fun machine => { machine with output := machine.output.push }
    return .bool true
  | .clean, _ => onBuffer span "ob_clean" "delete" "delete" OutputBuffers.clean?
  | .endClean, _ =>
    onBuffer span "ob_end_clean" "delete" "delete" fun buffers => buffers.pop?.map (·.2)
  | .endFlush, _ =>
    onBuffer span "ob_end_flush" "delete and flush" "delete or flush" OutputBuffers.endFlush?
  | .flush, _ => onBuffer span "ob_flush" "flush" "flush" OutputBuffers.flush?
  | .getClean, _ =>
    match (← get).output.pop? with
    | some (contents, output) =>
      modify fun machine => { machine with output }
      return .str contents
    | none => return .bool false
  | .getContents, _ =>
    match (← get).output.contents? with
    | some contents => return .str contents
    | none => return .bool false
  | .getFlush, _ =>
    let contents := (← get).output.contents?
    let closed ← onBuffer span "ob_get_flush" "delete and flush" "delete or flush"
      OutputBuffers.endFlush?
    match contents with
    | some contents => return .str contents
    | none => return closed
  | .level, _ => return .int (Int64.ofNat (← get).output.level)
  | _, _ => return .null

end OutputFunction

namespace NameFunction

def apply (function : NameFunction) (span : Span) (arguments : List Value) : Run Value := do
  let root := (← get).scopes.root
  match function, arguments with
  | .constant, [named] =>
    match root.constant? named.toText with
    | some value => return value
    | none => Run.fail (.undefinedConstant named.toText)
  | .define, [named, value, _] => return .bool (← Run.declareConstant named.toText value span)
  | .isDefined, [named] => return .bool (root.constant? named.toText).isSome
  | .functionExists, [named] => return .bool (root.functionExists named.toText)
  | .isCallable, [.str named] => return .bool (root.functionExists named)
  | .isCallable, _ => return .bool false
  | _, _ => return .null

end NameFunction

namespace OptionFunction

def reportingOption : String := "error_reporting"

def extensions : List String := ["core", "date", "standard"]

def setReporting (level : Int64) : Run Int64 :=
  modifyGet fun machine => (machine.reporting, { machine with reporting := level })

def apply (function : OptionFunction) (arguments : List Value) : Run Value := do
  match function, arguments with
  | .errorReporting, [.null] => return .int (← get).reporting
  | .errorReporting, [level] => return .int (← setReporting level.toInt)
  | .environment, [named, _] =>
    match (← get).scopes.root.bindings.get? "_ENV", named with
    | some (.array entries), .null => return .array entries
    | some (.array entries), _ =>
      return (entries.get? (.ofString named.toText)).getD (.bool false)
    | _, _ => return .bool false
  | .getOption, [option] =>
    if option.toText = reportingOption then return .str (Integer.render (← get).reporting)
    else return .bool false
  | .setOption, [option, value] =>
    if option.toText = reportingOption then
      return .str (Integer.render (← setReporting value.toInt))
    else return .bool false
  | .version, [.null] => return .str Predefined.version
  | .version, [extension] =>
    if extensions.any (Text.equalIgnoringCase extension.toText) then
      return .str Predefined.version
    else return .bool false
  | _, _ => return .null

end OptionFunction

namespace Native

/-- What a native function gives, and what it stores in the place. -/
def call (native : Native) (span : Span) (arguments : List Value) :
    Run (Value × Option Value) := do
  let values ← Run.ofExcept (native.signature.bind arguments)
  match native with
  | .text function => return (← Run.check span (function.apply values), none)
  | .array function => return (← Run.check span (function.apply arguments.length values), none)
  | .reference function => Run.check span (function.apply values)
  | .math function => return (← Run.check span (function.apply values), none)
  | .type function => return (← Run.check span (function.apply values), none)
  | .time function => return (function.apply (← Run.now) values, none)
  | .output function => return (← function.apply span values, none)
  | .name function => return (← function.apply span values, none)
  | .option function => return (← function.apply values, none)

end Native

end PhpScript
