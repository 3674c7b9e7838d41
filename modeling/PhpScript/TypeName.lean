/-!
# Type names

A name without a meaning of its own is kept as it is written; no value has such a type.
-/

namespace PhpScript

/-- A type by its name. -/
inductive TypeName where
  | mixed | null | void
  | bool | false | true
  | int | float | string
  | array | iterable | callable
  | other (name : String)
deriving DecidableEq, Inhabited

namespace TypeName

def render : TypeName → String
  | .mixed => "mixed"
  | .null => "null"
  | .void => "void"
  | .bool => "bool"
  | .false => "false"
  | .true => "true"
  | .int => "int"
  | .float => "float"
  | .string => "string"
  | .array => "array"
  | .iterable => "iterable"
  | .callable => "callable"
  | .other name => name

def known : List TypeName :=
  [.mixed, .null, .void, .bool, .false, .true, .int, .float, .string, .array, .iterable, .callable]

def ofString (name : String) : TypeName :=
  (known.find? (fun type => type.render = name)).getD (.other name)

def renderUnion (types : List TypeName) : String :=
  "|".intercalate (types.map render)

end TypeName

/-- A declared type: any of some. -/
structure TypeHint where
  types : List TypeName
deriving DecidableEq, Inhabited

namespace TypeHint

/-- The spelling of a declared type: a single type or null has a question mark in front. -/
def render (hint : TypeHint) : String :=
  match hint.types with
  | [single, .null] =>
    if single = .mixed then TypeName.renderUnion hint.types else "?" ++ single.render
  | types => TypeName.renderUnion types

end TypeHint

end PhpScript
