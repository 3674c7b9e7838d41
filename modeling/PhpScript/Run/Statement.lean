import PhpScript.Run.Expression

/-!
# Statements

A jump out of a loop carries the number of loops that it still has to leave; each loop on its way
takes one off.
-/

namespace PhpScript

namespace Flow

/-- What a loop does after a pass of its body: nothing means that it goes on. -/
def afterPass : Flow → Option Flow
  | .normal => none
  | .ret value => some (.ret value)
  | .jump kind levels =>
    if levels = 1 then
      match kind with
      | .next => none
      | .leave => some .normal
    else some (.jump kind (levels - 1))

end Flow

namespace Run

/-- A jump may leave only open loops. -/
def checkJump (kind : LoopJump) (levels : Nat) : Run Unit := do
  let depth := (← get).loopDepth
  if depth = 0 then fail (.notInLoop kind)
  else if depth < levels then fail (.tooManyLevels kind levels)

/-- The next pass, unless one ends the loop. -/
def proceed (flow : Flow) (next : Run Flow) : Run Flow :=
  match flow.afterPass with
  | some ending => return ending
  | none => next

end Run

namespace Evaluator

variable (self : Evaluator)

def echo : List (Located Expr) → Run Unit
  | [] => return
  | expression :: rest => do
    let text ← self.text expression
    Run.print text
    echo rest

def evaluateAll : List (Located Expr) → Run Unit
  | [] => return
  | expression :: rest => do
    let _ ← self.expression expression
    evaluateAll rest

def lastHolds (decision : Bool) : List (Located Expr) → Run Bool
  | [] => return decision
  | condition :: rest => do
    let value ← self.expression condition
    lastHolds value.toBool rest

def choice (alternative : Option (Located Stmt)) : List (Branch Stmt) → Run Flow
  | [] =>
    match alternative with
    | some body => self.statement body
    | none => return .normal
  | branch :: rest => do
    let value ← self.expression branch.condition
    if value.toBool then self.statement branch.body else choice alternative rest

def whilePasses (loop : Branch Stmt) : Nat → Run Flow
  | 0 => throw .outOfFuel
  | passes + 1 => do
    let value ← self.expression loop.condition
    if value.toBool then
      let flow ← self.statement loop.body
      Run.proceed flow (whilePasses loop passes)
    else return .normal

def doWhilePasses (loop : Branch Stmt) : Nat → Run Flow
  | 0 => throw .outOfFuel
  | passes + 1 => do
    let flow ← self.statement loop.body
    Run.proceed flow do
      let value ← self.expression loop.condition
      if value.toBool then doWhilePasses loop passes else return .normal

def forPasses (condition step : List (Located Expr)) (body : Located Stmt) : Nat → Run Flow
  | 0 => throw .outOfFuel
  | passes + 1 => do
    if ← self.lastHolds true condition then
      let flow ← self.statement body
      Run.proceed flow do
        self.evaluateAll step
        forPasses condition step body passes
    else return .normal

def storeIn (target : Located Expr) (value : Value) : Run Unit := do
  let place ← self.place target
  place.store value

/-- One pass for each entry. -/
def foreachPasses (loop : ForeachLoop Stmt) : List (Key × Value) → Run Flow
  | [] => return .normal
  | (key, value) :: rest => do
    match loop.key with
    | some target => self.storeIn target key.toValue
    | none => pure ()
    self.storeIn loop.value value
    let flow ← self.statement loop.body
    Run.proceed flow (foreachPasses loop rest)

def foreachLoop (loop : ForeachLoop Stmt) : Run Flow := do
  match ← self.expression loop.subject with
  | .array elements => Run.inLoop (self.foreachPasses loop elements.entries)
  | other =>
    Run.warn (.foreachSubject other.type) loop.subject.span
    return .normal

def forLoop (start condition step : List (Located Expr)) (body : Located Stmt) : Run Flow := do
  self.evaluateAll start
  Run.inLoop (self.forPasses condition step body self.passes)

def returnStatement (value : Option (Located Expr)) : Run Flow := do
  match value with
  | some expression => return .ret (← self.expression expression)
  | none => return .ret .void

def declareConstants : List ConstantItem → Run Unit
  | [] => return
  | item :: rest => do
    let value ← self.expression item.value
    let _ ← Run.declareConstant item.name.node value item.name.span
    declareConstants rest

def unsetAll : List (Located Expr) → Run Unit
  | [] => return
  | target :: rest => do
    if target.node.isPlace then
      let place ← self.place target
      place.unset
      unsetAll rest
    else Run.fail .unsetExpression

def importNames (names : List (Located String)) : Run Unit :=
  names.forM fun name =>
    Run.modifyScopes (·.importName (String.ofList (name.node.toList.dropWhile (· = '$'))))

def andGoOn (action : Run Unit) : Run Flow := do
  action
  return .normal

/-- A statement, its parts left to the evaluator. -/
def statementStep (statement : Located Stmt) : Run Flow :=
  match statement.node with
  | .inlineText text => andGoOn (Run.print text)
  | .echo arguments => andGoOn (self.echo arguments)
  | .expression expression => do
    let _ ← self.expression expression
    return .normal
  | .block body => self.block body
  | .choice branches alternative => self.choice alternative branches
  | .whileLoop loop => Run.inLoop (self.whilePasses loop self.passes)
  | .doWhileLoop loop => Run.inLoop (self.doWhilePasses loop self.passes)
  | .forLoop start condition step body => self.forLoop start condition step body
  | .foreachLoop loop => self.foreachLoop loop
  | .jump kind levels => do
    Run.checkJump kind levels
    return .jump kind levels
  | .ret value => self.returnStatement value
  | .function declaration => andGoOn (Run.declareFunction declaration)
  | .constants items => andGoOn (self.declareConstants items)
  | .globals names => andGoOn (importNames names)
  | .unset targets => andGoOn (self.unsetAll targets)
  | .empty => return .normal

end Evaluator

/-- Nothing can be run. -/
def Evaluator.exhausted : Evaluator where
  passes := 0
  expression := fun _ => throw .outOfFuel
  statement := fun _ => throw .outOfFuel
  function := fun _ _ => throw .outOfFuel

/-- Code nested up to a depth can be run. -/
def Evaluator.ofDepth : Nat → Evaluator
  | 0 => Evaluator.exhausted
  | depth + 1 =>
    { passes := depth
      expression := fun expression machine =>
        (Evaluator.ofDepth depth).expressionStep expression machine
      statement := fun statement machine =>
        (Evaluator.ofDepth depth).statementStep statement machine
      function := fun function arguments machine =>
        (Evaluator.ofDepth depth).callDeclared function arguments machine }

end PhpScript
