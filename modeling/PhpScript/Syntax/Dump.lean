import PhpScript.Json
import PhpScript.Syntax.Basic

/-!
# Listing of programs

A case without content is listed as its name, a case with content as a record with the name as its
only field.
-/

namespace PhpScript

def Span.toJson (span : Span) : Json :=
  .record [("start", .int span.start), ("end", .int span.stop)]

def Json.located (node : Json) (span : Span) : Json :=
  .record [("node", node), ("span", span.toJson)]

def Json.locatedText (text : Located String) : Json := .located (.str text.node) text.span

def BinaryOperator.label : BinaryOperator → String
  | .add => "Add"
  | .sub => "Sub"
  | .mul => "Mul"
  | .div => "Div"
  | .mod => "Mod"
  | .pow => "Pow"
  | .concat => "Concat"
  | .bitAnd => "BitAnd"
  | .bitOr => "BitOr"
  | .bitXor => "BitXor"
  | .shiftLeft => "Shl"
  | .shiftRight => "Shr"
  | .and => "And"
  | .or => "Or"
  | .xor => "Xor"
  | .equal => "Eq"
  | .notEqual => "Ne"
  | .identical => "Identical"
  | .notIdentical => "NotIdentical"
  | .less => "Lt"
  | .lessEqual => "Le"
  | .greater => "Gt"
  | .greaterEqual => "Ge"
  | .spaceship => "Spaceship"

def BinaryOperator.all : List BinaryOperator :=
  [.add, .sub, .mul, .div, .mod, .pow, .concat, .bitAnd, .bitOr, .bitXor, .shiftLeft, .shiftRight,
    .and, .or, .xor, .equal, .notEqual, .identical, .notIdentical, .less, .lessEqual, .greater,
    .greaterEqual, .spaceship]

def BinaryOperator.ofLabel? (label : String) : Option BinaryOperator :=
  BinaryOperator.all.find? (·.label = label)

def UnaryOperator.label : UnaryOperator → String
  | .plus => "Plus"
  | .neg => "Neg"
  | .bitNot => "BitNot"
  | .not => "Not"

def StepOperator.label : StepOperator → String
  | .increment => "Inc"
  | .decrement => "Dec"

def CastType.label : CastType → String
  | .int => "Int"
  | .float => "Float"
  | .string => "String"
  | .bool => "Bool"
  | .array => "Array"

def MagicConstant.label : MagicConstant → String
  | .line => "Line"
  | .file => "File"
  | .directory => "Dir"
  | .function => "Function"

def IncludeMode.label (mode : IncludeMode) : String :=
  (if mode.required then "Require" else "Include") ++ (if mode.once then "Once" else "")

def IncludeMode.all : List IncludeMode :=
  [⟨false, false⟩, ⟨false, true⟩, ⟨true, false⟩, ⟨true, true⟩]

def IncludeMode.ofLabel? (label : String) : Option IncludeMode :=
  IncludeMode.all.find? (·.label = label)

namespace Expr

mutual

/-- An expression as data. -/
def toJson : Expr → Json
  | .null => .str "Null"
  | .bool value => .tagged "Bool" (.bool value)
  | .int value => .tagged "Int" (.int value.toInt)
  | .float value => .tagged "Float" (.float value)
  | .str value => .tagged "Str" (.str value)
  | .interpolated parts => .tagged "Interpolated" (.list (partsToJson parts))
  | .array items => .tagged "Array" (.list (itemsToJson items))
  | .variable (.simple name) => .tagged "Variable" (.tagged "Simple" (.str name))
  | .variable (.dynamic expression) =>
    .tagged "Variable" (.tagged "Dynamic" (locatedToJson expression))
  | .subscript base index =>
    .tagged "Subscript"
      (.record [("base", locatedToJson base), ("index", optionToJson index)])
  | .constant name => .tagged "Const" (.str name)
  | .magic kind => .tagged "Magic" (.str kind.label)
  | .call (.name name) arguments =>
    .tagged "Call"
      (.record [("callee", .tagged "Name" (.str name)), ("args", .list (listToJson arguments))])
  | .call (.dynamic expression) arguments =>
    .tagged "Call"
      (.record [("callee", .tagged "Dynamic" (locatedToJson expression)),
        ("args", .list (listToJson arguments))])
  | .assign target value =>
    .tagged "Assign"
      (.record [("target", locatedToJson target), ("value", locatedToJson value)])
  | .compoundAssign operator target value =>
    .tagged "CompoundAssign"
      (.record [("op", .str operator.label), ("target", locatedToJson target),
        ("value", locatedToJson value)])
  | .coalesceAssign target value =>
    .tagged "CoalesceAssign"
      (.record [("target", locatedToJson target), ("value", locatedToJson value)])
  | .ternary condition consequent alternative =>
    .tagged "Ternary"
      (.record [("cond", locatedToJson condition), ("then_branch", optionToJson consequent),
        ("else_branch", locatedToJson alternative)])
  | .coalesce left right =>
    .tagged "Coalesce" (.record [("left", locatedToJson left), ("right", locatedToJson right)])
  | .binary left operator right =>
    .tagged "Binary"
      (.record [("left", locatedToJson left), ("op", .str operator.label),
        ("right", locatedToJson right)])
  | .unary operator operand =>
    .tagged "Unary" (.record [("op", .str operator.label), ("expr", locatedToJson operand)])
  | .cast type operand =>
    .tagged "Cast" (.record [("ty", .str type.label), ("expr", locatedToJson operand)])
  | .step operator before target =>
    .tagged "IncDec"
      (.record [("op", .str operator.label), ("prefix", .bool before),
        ("target", locatedToJson target)])
  | .silence operand => .tagged "Silence" (locatedToJson operand)
  | .print operand => .tagged "Print" (locatedToJson operand)
  | .isset targets => .tagged "Isset" (.list (listToJson targets))
  | .empty target => .tagged "Empty" (locatedToJson target)
  | .exit argument => .tagged "Exit" (optionToJson argument)
  | .evaluate code => .tagged "Eval" (locatedToJson code)
  | .includeFile mode path =>
    .tagged "Include" (.record [("kind", .str mode.label), ("path", locatedToJson path)])

def locatedToJson : Located Expr → Json
  | ⟨expression, span⟩ => .located (toJson expression) span

def optionToJson : Option (Located Expr) → Json
  | none => .null
  | some expression => locatedToJson expression

def listToJson : List (Located Expr) → List Json
  | [] => []
  | expression :: rest => locatedToJson expression :: listToJson rest

def partToJson : StringPart Expr → Json
  | .text text => .tagged "Lit" (.str text)
  | .code expression => .tagged "Expr" (locatedToJson expression)

def partsToJson : List (StringPart Expr) → List Json
  | [] => []
  | part :: rest => partToJson part :: partsToJson rest

def itemToJson : ArrayItem Expr → Json
  | ⟨key, value⟩ => .record [("key", optionToJson key), ("value", locatedToJson value)]

def itemsToJson : List (ArrayItem Expr) → List Json
  | [] => []
  | item :: rest => itemToJson item :: itemsToJson rest

end

end Expr

def TypeHint.toJson (hint : TypeHint) : Json :=
  .record [("types", .list (hint.types.map (.str ·.render)))]

def TypeHint.optionToJson (hint : Option TypeHint) : Json := (hint.map TypeHint.toJson).getD .null

def ParameterDecl.toJson (parameter : ParameterDecl) : Json :=
  .record [("name", .locatedText parameter.name),
    ("ty", TypeHint.optionToJson parameter.type),
    ("default", Expr.optionToJson parameter.fallback),
    ("variadic", .bool parameter.isVariadic)]

def ConstantItem.toJson (item : ConstantItem) : Json :=
  .record [("name", .locatedText item.name), ("value", Expr.locatedToJson item.value)]

def LoopJump.label : LoopJump → String
  | .leave => "Break"
  | .next => "Continue"

namespace Stmt

mutual

/-- A statement as data. -/
def toJson : Stmt → Json
  | .inlineText text => .tagged "InlineHtml" (.str text)
  | .echo arguments => .tagged "Echo" (.list (Expr.listToJson arguments))
  | .expression inner => .tagged "Expr" (Expr.locatedToJson inner)
  | .block body => .tagged "Block" (.list (listToJson body))
  | .choice branches alternative =>
    .tagged "If"
      (.record [("branches", .list (branchesToJson branches)),
        ("else_branch", optionToJson alternative)])
  | .whileLoop loop => .tagged "While" (branchToJson loop)
  | .doWhileLoop loop => .tagged "DoWhile" (branchToJson loop)
  | .forLoop start condition step body =>
    .tagged "For"
      (.record [("init", .list (Expr.listToJson start)),
        ("cond", .list (Expr.listToJson condition)),
        ("step", .list (Expr.listToJson step)), ("body", locatedToJson body)])
  | .foreachLoop ⟨subject, key, value, body⟩ =>
    .tagged "Foreach"
      (.record [("subject", Expr.locatedToJson subject), ("key", Expr.optionToJson key),
        ("value", Expr.locatedToJson value), ("body", locatedToJson body)])
  | .jump kind levels => .tagged kind.label (.int levels)
  | .ret value => .tagged "Return" (Expr.optionToJson value)
  | .function ⟨id, name, parameters, returnType, body, span⟩ =>
    .tagged "FunctionDef"
      (.record [("id", .int id), ("name", .locatedText name),
        ("params", .list (parameters.map ParameterDecl.toJson)),
        ("ret_ty", TypeHint.optionToJson returnType), ("body", .list (listToJson body)),
        ("span", span.toJson)])
  | .constants items => .tagged "Const" (.list (items.map ConstantItem.toJson))
  | .globals names => .tagged "Global" (.list (names.map Json.locatedText))
  | .unset targets => .tagged "Unset" (.list (Expr.listToJson targets))
  | .empty => .str "Empty"

def locatedToJson : Located Stmt → Json
  | ⟨statement, span⟩ => .located (toJson statement) span

def optionToJson : Option (Located Stmt) → Json
  | none => .null
  | some statement => locatedToJson statement

def listToJson : List (Located Stmt) → List Json
  | [] => []
  | statement :: rest => locatedToJson statement :: listToJson rest

def branchToJson : Branch Stmt → Json
  | ⟨condition, body⟩ =>
    .record [("cond", Expr.locatedToJson condition), ("body", locatedToJson body)]

def branchesToJson : List (Branch Stmt) → List Json
  | [] => []
  | branch :: rest => branchToJson branch :: branchesToJson rest

end

end Stmt

def Program.toJson (program : Program) : Json :=
  .record [("filename", .str program.filename),
    ("statements", .list (Stmt.listToJson program.statements))]

end PhpScript
