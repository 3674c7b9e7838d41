import PhpScript.Settings.Toml.Document
import PhpScript.Severity
import PhpScript.Source.LoadError

/-!
# Settings

What can be set from outside: which diagnostics are reported, the name of the script, and how deep
calls may nest.
-/

namespace PhpScript

/-- What can be set for scripts. -/
structure Settings where
  reporting : Int64 := Severity.everything
  filename : String := ""
  nestingLimit : Nat := 1000
deriving DecidableEq, Inhabited

namespace Settings

def development : Settings := {}

def production : Settings := { reporting := 0 }

def adopt? (settings : Settings) (entry : String × Toml.Node) : Option Settings :=
  match entry with
  | ("error_reporting", node) =>
    match node with
    | .value (.integer level) => some { settings with reporting := level }
    | _ => none
  | ("filename", node) =>
    match node with
    | .value (.text filename) => some { settings with filename }
    | _ => none
  | ("max_nesting_level", node) =>
    match node with
    | .value (.integer limit) =>
      if limit.toInt < 0 then none else some { settings with nestingLimit := limit.toInt.toNat }
    | _ => none
  | _ => some settings

def ofText? (text : String) : Option Settings := do
  let entries ← Toml.read? text
  entries.foldlM adopt? development

def ofText (text : String) : Except LoadError Settings :=
  match ofText? text with
  | some settings => .ok settings
  | none => .error (.settings "the settings cannot be understood")

end Settings

end PhpScript
