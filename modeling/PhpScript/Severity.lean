/-!
# Severities

A severity has a bit in the reporting mask and a label, and is fatal or lets the script go on.
-/

namespace PhpScript

/-- How bad a problem is. -/
inductive Severity where
  | error | warning | parse | notice
  | coreError | coreWarning
  | compileError | compileWarning
  | userError | userWarning | userNotice
  | strict | recoverableError
  | deprecated | userDeprecated
deriving DecidableEq

namespace Severity

def all : List Severity :=
  [.error, .warning, .parse, .notice, .coreError, .coreWarning, .compileError, .compileWarning,
    .userError, .userWarning, .userNotice, .strict, .recoverableError, .deprecated,
    .userDeprecated]

def bit : Severity → Nat
  | .error => 0
  | .warning => 1
  | .parse => 2
  | .notice => 3
  | .coreError => 4
  | .coreWarning => 5
  | .compileError => 6
  | .compileWarning => 7
  | .userError => 8
  | .userWarning => 9
  | .userNotice => 10
  | .strict => 11
  | .recoverableError => 12
  | .deprecated => 13
  | .userDeprecated => 14

def level (severity : Severity) : Int64 := Int64.ofNat (Nat.pow 2 severity.bit)

def everything : Int64 := 32767

def isFatal : Severity → Bool
  | .error | .parse | .coreError | .compileError | .userError | .recoverableError => true
  | _ => false

def label : Severity → String
  | .warning | .coreWarning | .compileWarning | .userWarning => "Warning"
  | .notice | .userNotice => "Notice"
  | .parse => "Parse error"
  | .deprecated | .userDeprecated => "Deprecated"
  | .strict => "Strict Standards"
  | .error | .coreError | .compileError | .userError | .recoverableError => "Fatal error"

def constantName : Severity → String
  | .error => "E_ERROR"
  | .warning => "E_WARNING"
  | .parse => "E_PARSE"
  | .notice => "E_NOTICE"
  | .coreError => "E_CORE_ERROR"
  | .coreWarning => "E_CORE_WARNING"
  | .compileError => "E_COMPILE_ERROR"
  | .compileWarning => "E_COMPILE_WARNING"
  | .userError => "E_USER_ERROR"
  | .userWarning => "E_USER_WARNING"
  | .userNotice => "E_USER_NOTICE"
  | .strict => "E_STRICT"
  | .recoverableError => "E_RECOVERABLE_ERROR"
  | .deprecated => "E_DEPRECATED"
  | .userDeprecated => "E_USER_DEPRECATED"

def isReported (severity : Severity) (mask : Int64) : Bool := mask &&& severity.level ≠ 0

end Severity

/-- A problem as it is reported. -/
structure Diagnostic where
  severity : Severity
  message : String
deriving DecidableEq

namespace Diagnostic

def render (diagnostic : Diagnostic) : String :=
  diagnostic.severity.label ++ ": " ++ diagnostic.message

def shown? (diagnostic : Diagnostic) (mask : Int64) : Option String :=
  if diagnostic.severity.isReported mask then some diagnostic.render else none

end Diagnostic

end PhpScript
