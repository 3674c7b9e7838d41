import PhpScript.Source.Fault

/-!
# Reasons not to start

What keeps a script from being run at all.
-/

namespace PhpScript

/-- Why nothing comes of a text or file. -/
inductive LoadError where
  | lexical (message : String) (span : Span)
  | grammatical (message : String) (span : Span)
  | file (message : String)
  | settings (message : String)

namespace LoadError

def ofFault (fault : Located Fault) : LoadError :=
  if fault.node.isLexical then .lexical fault.node.message fault.span
  else .grammatical fault.node.message fault.span

def span? : LoadError → Option Span
  | .lexical _ span | .grammatical _ span => some span
  | .file _ | .settings _ => none

def message : LoadError → String
  | .lexical message _ | .grammatical message _ => message
  | .file message | .settings message => message

def render : LoadError → String
  | .lexical message span => s!"Lexer error at {span.render}: {message}"
  | .grammatical message span => s!"Parser error at {span.render}: {message}"
  | .file message => "IO error: " ++ message
  | .settings message => "Config error: " ++ message

end LoadError

end PhpScript
