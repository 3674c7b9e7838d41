import PhpScript.Native.Array
import PhpScript.Native.Math
import PhpScript.Native.Text
import PhpScript.Native.Time
import PhpScript.Native.Type

/-!
# Native functions

The families on texts, arrays, numbers, types and times only compute; those declared here also use
or change the state of a run.
-/

namespace PhpScript

/-- Functions that print or manage output buffers. -/
inductive OutputFunction where
  | outline | dump | export | start | clean | endClean | endFlush | flush | getClean | getContents
  | getFlush | level
deriving DecidableEq

namespace OutputFunction

def names : List (String × OutputFunction) :=
  [("print_r", .outline), ("var_dump", .dump), ("var_export", .export), ("ob_start", .start),
    ("ob_clean", .clean), ("ob_end_clean", .endClean), ("ob_end_flush", .endFlush),
    ("ob_flush", .flush), ("ob_get_clean", .getClean), ("ob_get_contents", .getContents),
    ("ob_get_flush", .getFlush), ("ob_get_level", .level)]

def ofListing (function : String) : Signature :=
  ⟨function, [.required "$value" [.mixed], .optional "$return" [.bool] (.bool false)]⟩

def signature : OutputFunction → Signature
  | .outline => ofListing "print_r"
  | .dump => ⟨"var_dump", [.required "$value" [.mixed], .variadic "$values" [.mixed]]⟩
  | .export => ofListing "var_export"
  | .start => ⟨"ob_start", []⟩
  | .clean => ⟨"ob_clean", []⟩
  | .endClean => ⟨"ob_end_clean", []⟩
  | .endFlush => ⟨"ob_end_flush", []⟩
  | .flush => ⟨"ob_flush", []⟩
  | .getClean => ⟨"ob_get_clean", []⟩
  | .getContents => ⟨"ob_get_contents", []⟩
  | .getFlush => ⟨"ob_get_flush", []⟩
  | .level => ⟨"ob_get_level", []⟩

end OutputFunction

/-- Functions on the names of constants and functions. -/
inductive NameFunction where
  | constant | define | isDefined | functionExists | isCallable
deriving DecidableEq

namespace NameFunction

def names : List (String × NameFunction) :=
  [("constant", .constant), ("define", .define), ("defined", .isDefined),
    ("function_exists", .functionExists), ("is_callable", .isCallable)]

def signature : NameFunction → Signature
  | .constant => ⟨"constant", [.required "$name" [.string]]⟩
  | .define =>
    ⟨"define", [.required "$constant_name" [.string], .required "$value" [.mixed],
      .optional "$case_insensitive" [.bool] (.bool false)]⟩
  | .isDefined => ⟨"defined", [.required "$constant_name" [.string]]⟩
  | .functionExists => ⟨"function_exists", [.required "$function" [.string]]⟩
  | .isCallable => ⟨"is_callable", [.required "$value" [.mixed]]⟩

end NameFunction

/-- Functions on settings and the environment. -/
inductive OptionFunction where
  | errorReporting | environment | getOption | setOption | version
deriving DecidableEq

namespace OptionFunction

def names : List (String × OptionFunction) :=
  [("error_reporting", .errorReporting), ("getenv", .environment), ("ini_get", .getOption),
    ("ini_set", .setOption), ("phpversion", .version)]

def signature : OptionFunction → Signature
  | .errorReporting => ⟨"error_reporting", [.optional "$error_level" [.int] .null]⟩
  | .environment =>
    ⟨"getenv", [.optional "$name" [.string] .null,
      .optional "$local_only" [.bool] (.bool false)]⟩
  | .getOption => ⟨"ini_get", [.required "$option" [.string]]⟩
  | .setOption =>
    ⟨"ini_set", [.required "$option" [.string],
      .required "$value" [.string, .int, .float, .bool, .null]]⟩
  | .version => ⟨"phpversion", [.optional "$extension" [.string] .null]⟩

end OptionFunction

/-- The native functions, by family. -/
inductive Native where
  | text (function : TextFunction)
  | array (function : ArrayFunction)
  | reference (function : ReferenceFunction)
  | math (function : MathFunction)
  | type (function : TypeFunction)
  | output (function : OutputFunction)
  | name (function : NameFunction)
  | option (function : OptionFunction)
  | time (function : TimeFunction)
deriving DecidableEq

namespace Native

def family {α : Type} (wrap : α → Native) (members : List (String × α)) : List (String × Native) :=
  members.map fun member => (member.1, wrap member.2)

/-- The native functions by their names. -/
def names : List (String × Native) :=
  family .array ArrayFunction.names ++ family .reference ReferenceFunction.names
    ++ family .time TimeFunction.names ++ family .math MathFunction.names
    ++ family .name NameFunction.names ++ family .option OptionFunction.names
    ++ family .output OutputFunction.names ++ family .text TextFunction.names
    ++ family .type TypeFunction.names

def signature : Native → Signature
  | .text function => function.signature
  | .array function => function.signature
  | .reference function => function.signature
  | .math function => function.signature
  | .type function => function.signature
  | .output function => function.signature
  | .name function => function.signature
  | .option function => function.signature
  | .time function => function.signature

end Native

end PhpScript
