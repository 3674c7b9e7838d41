import PhpScript.Number.FloatFormat
import PhpScript.Number.Numeric
import PhpScript.Text.Quoted

/-!
# Tokens

The smallest pieces of a program that mean something. Each has a label, which listings use, and a
spelling, which messages use.
-/

namespace PhpScript

/-- Words with a meaning of their own. -/
inductive Keyword where
  | kwAnd | kwArray | kwAs | kwBreak | kwConst | kwContinue | kwDie | kwDo | kwEcho | kwElse
  | kwElseIf | kwEmpty | kwEndFor | kwEndForeach | kwEndIf | kwEndWhile | kwEval | kwExit | kwFor
  | kwForeach | kwFunction | kwGlobal | kwIf | kwInclude | kwIncludeOnce | kwIsset | kwOr
  | kwPrint | kwRequire | kwRequireOnce | kwReturn | kwUnset | kwWhile | kwXor
deriving DecidableEq

namespace Keyword

def all : List Keyword :=
  [.kwAnd, .kwArray, .kwAs, .kwBreak, .kwConst, .kwContinue, .kwDie, .kwDo, .kwEcho, .kwElse,
    .kwElseIf, .kwEmpty, .kwEndFor, .kwEndForeach, .kwEndIf, .kwEndWhile, .kwEval, .kwExit,
    .kwFor, .kwForeach, .kwFunction, .kwGlobal, .kwIf, .kwInclude, .kwIncludeOnce, .kwIsset,
    .kwOr, .kwPrint, .kwRequire, .kwRequireOnce, .kwReturn, .kwUnset, .kwWhile, .kwXor]

def spelling : Keyword → String
  | .kwAnd => "and"
  | .kwArray => "array"
  | .kwAs => "as"
  | .kwBreak => "break"
  | .kwConst => "const"
  | .kwContinue => "continue"
  | .kwDie => "die"
  | .kwDo => "do"
  | .kwEcho => "echo"
  | .kwElse => "else"
  | .kwElseIf => "elseif"
  | .kwEmpty => "empty"
  | .kwEndFor => "endfor"
  | .kwEndForeach => "endforeach"
  | .kwEndIf => "endif"
  | .kwEndWhile => "endwhile"
  | .kwEval => "eval"
  | .kwExit => "exit"
  | .kwFor => "for"
  | .kwForeach => "foreach"
  | .kwFunction => "function"
  | .kwGlobal => "global"
  | .kwIf => "if"
  | .kwInclude => "include"
  | .kwIncludeOnce => "include_once"
  | .kwIsset => "isset"
  | .kwOr => "or"
  | .kwPrint => "print"
  | .kwRequire => "require"
  | .kwRequireOnce => "require_once"
  | .kwReturn => "return"
  | .kwUnset => "unset"
  | .kwWhile => "while"
  | .kwXor => "xor"

def label : Keyword → String
  | .kwAnd => "LogicalAnd"
  | .kwArray => "Array"
  | .kwAs => "As"
  | .kwBreak => "Break"
  | .kwConst => "Const"
  | .kwContinue => "Continue"
  | .kwDie => "Die"
  | .kwDo => "Do"
  | .kwEcho => "Echo"
  | .kwElse => "Else"
  | .kwElseIf => "ElseIf"
  | .kwEmpty => "Empty"
  | .kwEndFor => "EndFor"
  | .kwEndForeach => "EndForeach"
  | .kwEndIf => "EndIf"
  | .kwEndWhile => "EndWhile"
  | .kwEval => "Eval"
  | .kwExit => "Exit"
  | .kwFor => "For"
  | .kwForeach => "Foreach"
  | .kwFunction => "Function"
  | .kwGlobal => "Global"
  | .kwIf => "If"
  | .kwInclude => "Include"
  | .kwIncludeOnce => "IncludeOnce"
  | .kwIsset => "Isset"
  | .kwOr => "LogicalOr"
  | .kwPrint => "Print"
  | .kwRequire => "Require"
  | .kwRequireOnce => "RequireOnce"
  | .kwReturn => "Return"
  | .kwUnset => "Unset"
  | .kwWhile => "While"
  | .kwXor => "LogicalXor"

def ofSpelling? (word : String) : Option Keyword :=
  all.find? (fun keyword => keyword.spelling = word)

end Keyword

/-- Marks with a meaning of their own. -/
inductive Symbol where
  | assign | plusAssign | minusAssign | starAssign | slashAssign | dotAssign | percentAssign
  | powAssign | ampAssign | pipeAssign | caretAssign | shlAssign | shrAssign | coalesceAssign
  | plus | minus | star | slash | percent | pow | dot | inc | dec | amp | pipe | caret | tilde
  | shl | shr | ampAmp | pipePipe | bang | equalEqual | notEqual | identical | notIdentical
  | less | lessEqual | greater | greaterEqual | spaceship | coalesce | question | colon | atSign
  | dollar | fatArrow | ellipsis | leftParen | rightParen | leftBracket | rightBracket
  | leftBrace | rightBrace | comma | semicolon
deriving DecidableEq

namespace Symbol

def all : List Symbol :=
  [.assign, .plusAssign, .minusAssign, .starAssign, .slashAssign, .dotAssign, .percentAssign,
    .powAssign, .ampAssign, .pipeAssign, .caretAssign, .shlAssign, .shrAssign, .coalesceAssign,
    .plus, .minus, .star, .slash, .percent, .pow, .dot, .inc, .dec, .amp, .pipe, .caret, .tilde,
    .shl, .shr, .ampAmp, .pipePipe, .bang, .equalEqual, .notEqual, .identical, .notIdentical,
    .less, .lessEqual, .greater, .greaterEqual, .spaceship, .coalesce, .question, .colon,
    .atSign, .dollar, .fatArrow, .ellipsis, .leftParen, .rightParen, .leftBracket, .rightBracket,
    .leftBrace, .rightBrace, .comma, .semicolon]

def spelling : Symbol → String
  | .assign => "="
  | .plusAssign => "+="
  | .minusAssign => "-="
  | .starAssign => "*="
  | .slashAssign => "/="
  | .dotAssign => ".="
  | .percentAssign => "%="
  | .powAssign => "**="
  | .ampAssign => "&="
  | .pipeAssign => "|="
  | .caretAssign => "^="
  | .shlAssign => "<<="
  | .shrAssign => ">>="
  | .coalesceAssign => "??="
  | .plus => "+"
  | .minus => "-"
  | .star => "*"
  | .slash => "/"
  | .percent => "%"
  | .pow => "**"
  | .dot => "."
  | .inc => "++"
  | .dec => "--"
  | .amp => "&"
  | .pipe => "|"
  | .caret => "^"
  | .tilde => "~"
  | .shl => "<<"
  | .shr => ">>"
  | .ampAmp => "&&"
  | .pipePipe => "||"
  | .bang => "!"
  | .equalEqual => "=="
  | .notEqual => "!="
  | .identical => "==="
  | .notIdentical => "!=="
  | .less => "<"
  | .lessEqual => "<="
  | .greater => ">"
  | .greaterEqual => ">="
  | .spaceship => "<=>"
  | .coalesce => "??"
  | .question => "?"
  | .colon => ":"
  | .atSign => "@"
  | .dollar => "$"
  | .fatArrow => "=>"
  | .ellipsis => "..."
  | .leftParen => "("
  | .rightParen => ")"
  | .leftBracket => "["
  | .rightBracket => "]"
  | .leftBrace => "\x7b"
  | .rightBrace => "\x7d"
  | .comma => ","
  | .semicolon => ";"

def label : Symbol → String
  | .assign => "Assign"
  | .plusAssign => "PlusAssign"
  | .minusAssign => "MinusAssign"
  | .starAssign => "StarAssign"
  | .slashAssign => "SlashAssign"
  | .dotAssign => "DotAssign"
  | .percentAssign => "PercentAssign"
  | .powAssign => "PowAssign"
  | .ampAssign => "AmpAssign"
  | .pipeAssign => "PipeAssign"
  | .caretAssign => "CaretAssign"
  | .shlAssign => "ShlAssign"
  | .shrAssign => "ShrAssign"
  | .coalesceAssign => "CoalesceAssign"
  | .plus => "Plus"
  | .minus => "Minus"
  | .star => "Star"
  | .slash => "Slash"
  | .percent => "Percent"
  | .pow => "Pow"
  | .dot => "Dot"
  | .inc => "Inc"
  | .dec => "Dec"
  | .amp => "Amp"
  | .pipe => "Pipe"
  | .caret => "Caret"
  | .tilde => "Tilde"
  | .shl => "Shl"
  | .shr => "Shr"
  | .ampAmp => "AmpAmp"
  | .pipePipe => "PipePipe"
  | .bang => "Bang"
  | .equalEqual => "EqEq"
  | .notEqual => "NotEq"
  | .identical => "EqEqEq"
  | .notIdentical => "NotEqEq"
  | .less => "Lt"
  | .lessEqual => "Le"
  | .greater => "Gt"
  | .greaterEqual => "Ge"
  | .spaceship => "Spaceship"
  | .coalesce => "Coalesce"
  | .question => "Question"
  | .colon => "Colon"
  | .atSign => "At"
  | .dollar => "Dollar"
  | .fatArrow => "FatArrow"
  | .ellipsis => "Ellipsis"
  | .leftParen => "LParen"
  | .rightParen => "RParen"
  | .leftBracket => "LBracket"
  | .rightBracket => "RBracket"
  | .leftBrace => "LBrace"
  | .rightBrace => "RBrace"
  | .comma => "Comma"
  | .semicolon => "Semicolon"

/-- The symbol with a spelling. Inequality has two of them. -/
def ofSpelling? (text : String) : Option Symbol :=
  if text = "<>" then some .notEqual else all.find? (fun symbol => symbol.spelling = text)

end Symbol

/-- A token. The text of a quoted literal in single quotes is the one it stands for; in double
quotes it is kept as it was written, because it may hold variables. -/
inductive Token where
  | inlineText (text : String)
  | openEcho
  | keyword (word : Keyword)
  | symbol (mark : Symbol)
  | number (value : Numeric)
  | singleQuoted (text : String)
  | doubleQuoted (raw : String)
  | variable (name : String)
  | identifier (name : String)

namespace Token

def isKeyword (token : Token) (word : Keyword) : Bool :=
  match token with
  | .keyword found => found = word
  | _ => false

def isSymbol (token : Token) (mark : Symbol) : Bool :=
  match token with
  | .symbol found => found = mark
  | _ => false

def label : Token → String
  | .inlineText _ => "InlineHtml"
  | .openEcho => "OpenTagEcho"
  | .keyword word => word.label
  | .symbol mark => mark.label
  | .number _ => "Number"
  | .singleQuoted _ => "SingleQuoted"
  | .doubleQuoted _ => "DoubleQuoted"
  | .variable _ => "Variable"
  | .identifier _ => "Ident"

def render : Token → String
  | .inlineText _ => "inline html"
  | .openEcho => "<?="
  | .keyword word => word.spelling
  | .symbol mark => mark.spelling
  | .number (.int value) => Integer.render value
  | .number (.float value) => FloatFormat.plain.write .shortest value
  | .singleQuoted text => "'" ++ text ++ "'"
  | .doubleQuoted raw => "\"" ++ raw ++ "\""
  | .variable name => "$" ++ name
  | .identifier name => name

def listing (token : Token) : String :=
  let holding := fun content : String => token.label ++ "(" ++ content ++ ")"
  match token with
  | .inlineText text | .singleQuoted text | .doubleQuoted text => holding (Text.quoted text)
  | .variable name | .identifier name => holding (Text.quoted name)
  | .number (.int value) => holding ("Int(" ++ Integer.render value ++ ")")
  | .number (.float value) =>
    holding ("Float(" ++ FloatFormat.listing.write .shortest value ++ ")")
  | .openEcho | .keyword _ | .symbol _ => token.label

end Token

end PhpScript
