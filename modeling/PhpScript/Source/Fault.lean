import PhpScript.Source.Span
import PhpScript.Syntax.Operator
import PhpScript.Token.Basic

/-!
# Faults of a source text

Why a source text is not a program: a piece that is no token, or tokens that do not follow the
grammar.
-/

namespace PhpScript

/-- Why a text is refused. -/
inductive Fault where
  | unexpectedText (slice : String)
  | unterminatedComment
  | unexpected (found : Option Token)
  | expected (found : Option Token) (what : String)
  | loopLevel (jump : LoopJump)
  | variadicNotLast
  | variadicDefault
  | unsetExpression
  | stepExpression
  | issetNothing
  | unclosedBrace

namespace Fault

def isLexical : Fault → Bool
  | .unexpectedText _ | .unterminatedComment => true
  | _ => false

def describe : Token → String
  | .variable name => "variable \"$" ++ name ++ "\""
  | .identifier name => "identifier \"" ++ name ++ "\""
  | .number (.int value) => "integer \"" ++ Integer.render value ++ "\""
  | .number (.float value) =>
    "floating-point number \"" ++ FloatFormat.plain.write .shortest value ++ "\""
  | .singleQuoted text => "single-quoted string \"" ++ text ++ "\""
  | .doubleQuoted raw => "double-quoted string \"" ++ raw ++ "\""
  | .inlineText _ => "inline html"
  | other => "token \"" ++ other.render ++ "\""

def describeFound (found : Option Token) : String := (found.map describe).getD "end of file"

def message : Fault → String
  | .unexpectedText slice => "unexpected character: " ++ Text.quoted slice
  | .unterminatedComment => "Unterminated comment"
  | .unexpected found => "syntax error, unexpected " ++ describeFound found
  | .expected found what =>
    "syntax error, unexpected " ++ describeFound found ++ ", expecting " ++ what
  | .loopLevel jump => "'" ++ jump.keyword ++ "' operator accepts only positive integers"
  | .variadicNotLast => "Only the last parameter can be variadic"
  | .variadicDefault => "Variadic parameter cannot have a default value"
  | .unsetExpression => "Cannot use unset() on the result of an expression"
  | .stepExpression => "Cannot increment/decrement the result of an expression"
  | .issetNothing => "syntax error, isset() expects at least one argument"
  | .unclosedBrace => "syntax error, unexpected end of string, expecting \"\x7d\""

end Fault

end PhpScript
