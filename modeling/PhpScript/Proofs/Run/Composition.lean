import PhpScript.Proofs.Run.Effect
import PhpScript.Proofs.Syntax.Code
import PhpScript.Session

/-!
# How steps are composed

A step of the evaluator is put together from effects, from parts of the code that are handed to the
evaluator, from computations one after the other, and from computations in changed surroundings that
are put back. `ComposedWithin` says this, with rules for what may be changed, performed and switched
to; here it is shown of every construct of the language. An invariant of running code is then proved
by one induction with a case for each way of composition.

Calls of declared functions also open a scope and a body, so they are left out here.
-/

namespace PhpScript

/-- A part of the code that an evaluator can be asked to perform. -/
inductive Task where
  | expression (code : Located Expr)
  | statement (code : Located Stmt)
  /-- A call of a declared function with arguments that have been evaluated. -/
  | call (function : DeclaredFunction) (arguments : List Value)

namespace Task

/-- What performing a part gives. -/
@[reducible]
def Result : Task → Type
  | .expression _ => Value
  | .statement _ => Flow
  | .call _ _ => Value

/-- One step of a part, with its own parts left to an evaluator. -/
def step (self : Evaluator) : (task : Task) → Run task.Result
  | .expression code => self.expressionStep code
  | .statement code => self.statementStep code
  | .call function arguments => self.callDeclared function arguments

/-- The names that a part itself imports into the scope in view. -/
def Imports (task : Task) (name : String) : Prop :=
  ∃ names span imported, task = .statement ⟨.globals names, span⟩ ∧ imported ∈ names ∧
    name = String.ofList (imported.node.toList.dropWhile (· = '$'))

end Task

namespace Evaluator

/-- Hand a part to an evaluator. -/
def perform (self : Evaluator) : (task : Task) → Run task.Result
  | .expression code => self.expression code
  | .statement code => self.statement code
  | .call function arguments => self.function function arguments

theorem perform_zero (task : Task) (machine : Machine) :
    (ofDepth 0).perform task machine = .error .outOfFuel machine := by
  cases task <;> rfl

theorem perform_succ (depth : Nat) (task : Task) (machine : Machine) :
    (ofDepth (depth + 1)).perform task machine = task.step (ofDepth depth) machine := by
  cases task <;> rfl

theorem machineAfter_perform_succ (depth : Nat) (task : Task) (machine : Machine) :
    ((ofDepth (depth + 1)).perform task).machineAfter machine =
      (task.step (ofDepth depth)).machineAfter machine := by
  simp only [Run.machineAfter, perform_succ]

end Evaluator

/-- The surroundings of running code that are changed for a while and put back. -/
inductive Surrounding where
  | silence
  | loop
  | noLoops
  | file (source : SourceFile)

namespace Surrounding

variable {α : Type}

/-- Run a computation in changed surroundings. -/
def around : Surrounding → Run α → Run α
  | .silence, body => Run.silently body
  | .loop, body => Run.inLoop body
  | .noLoops, body => Run.outsideLoops body
  | .file source, body => Run.inFile source body

def enter (machine : Machine) : Surrounding → Machine
  | .silence => { machine with silence := machine.silence + 1 }
  | .loop => { machine with loopDepth := machine.loopDepth + 1 }
  | .noLoops => { machine with loopDepth := 0 }
  | .file source => { machine with file := source }

def leave (before after : Machine) : Surrounding → Machine
  | .silence => { after with silence := after.silence - 1 }
  | .loop => { after with loopDepth := after.loopDepth - 1 }
  | .noLoops => { after with loopDepth := before.loopDepth }
  | .file _ => { after with file := before.file }

theorem around_eq_bracket (surrounding : Surrounding) (body : Run α) :
    surrounding.around body = Run.bracket id surrounding.enter surrounding.leave body := by
  cases surrounding <;> rfl

theorem machineAfter_around (surrounding : Surrounding) (body : Run α) (machine : Machine) :
    (surrounding.around body).machineAfter machine =
      surrounding.leave machine (body.machineAfter (surrounding.enter machine)) := by
  rw [around_eq_bracket, Run.machineAfter_bracket, id_eq]

end Surrounding

/-- What a computation may do by itself, besides what the parts do that it performs. -/
structure Rules extends Powers where
  performs : Code → Prop
  calls : Prop
  /-- The source texts to which it may switch. -/
  switches : SourceFile → Prop

namespace Rules

@[reducible]
def within (powers : Powers) : Rules where
  toPowers := powers
  performs _ := True
  calls := True
  switches _ := True

def allows (rules : Rules) : Task → Prop
  | .expression code => rules.performs (.expression code)
  | .statement code => rules.performs (.statement code)
  | .call _ _ => rules.calls

def surrounds (rules : Rules) : Surrounding → Prop
  | .file source => rules.switches source
  | .silence | .loop | .noLoops => True

/-- A piece of code may be performed, and whatever stands inside of it. -/
def Admits (rules : Rules) (code : Code) : Prop :=
  ∀ part : Code, part.Within code → rules.performs part

/-- All code may be performed, and all sources switched to. -/
structure IsOpen (rules : Rules) : Prop where
  performs : ∀ code, rules.performs code
  declares : ∀ function, rules.declares function
  switches : ∀ source, rules.switches source

variable {rules : Rules}

theorem IsOpen.admits (isOpen : rules.IsOpen) (code : Code) : rules.Admits code :=
  fun part _ => isOpen.performs part

namespace Admits

theorem performs {code : Code} (admits : rules.Admits code) : rules.performs code :=
  admits code .refl

theorem of_mem {part outer : Code} (admits : rules.Admits outer) (member : part ∈ outer.parts) :
    rules.Admits part :=
  fun inner within => admits inner (within.trans (Code.within_of_mem member))

theorem inExpression {outer part : Located Expr} (admits : rules.Admits (.expression outer))
    (member : part ∈ outer.node.parts) : rules.Admits (.expression part) :=
  admits.of_mem (List.mem_map_of_mem member)

theorem inStatement {outer : Located Stmt} {part : Located Expr}
    (admits : rules.Admits (.statement outer)) (member : part ∈ outer.node.expressions) :
    rules.Admits (.expression part) :=
  admits.of_mem (List.mem_append_left _ (List.mem_map_of_mem member))

theorem statement {outer part : Located Stmt} (admits : rules.Admits (.statement outer))
    (member : part ∈ outer.node.parts) : rules.Admits (.statement part) :=
  admits.of_mem (List.mem_append_right _ (List.mem_map_of_mem member))

end Admits

def AdmitsAll (rules : Rules) (expressions : List (Located Expr)) : Prop :=
  ∀ code ∈ expressions, rules.Admits (.expression code)

def expressions : Rules where
  imports _ := False
  declares _ := False
  pulls _ := False
  performs code := ∃ own, code = .expression own
  calls := False
  switches _ := False

theorem admits_expressions (code : Located Expr) : expressions.Admits (.expression code) :=
  fun _ within => Code.exists_expression_of_within within

end Rules

def noImports : String → Prop := fun _ => False

namespace Evaluator

theorem placeAt_of_not_isPlace (self : Evaluator) (span : Span) (target : Expr)
    (noPlace : target.isPlace = false) :
    self.placeAt span target = Run.fail .assignToExpression := by
  fun_induction Expr.isPlace target generalizing span with
  | case1 name => cases noPlace
  | case2 base baseSpan index ih =>
    simp only [placeAt, ih baseSpan noPlace]
    rfl
  | case3 target noVariable noSubscript =>
    unfold placeAt
    split
    · exact (noVariable _ rfl).elim
    · exact (noSubscript _ _ _ rfl).elim
    · rfl

/-- A computation that uses an evaluator only in the ways that running code has, and that keeps to
some rules. -/
inductive ComposedWithin (rules : Rules) : {α : Type} → (Evaluator → Run α) → Prop
  | effect {α : Type} {run : Run α} (allowed : run.HasEffect rules.toPowers) :
      ComposedWithin rules fun _ => run
  | perform (task : Task) (allowed : rules.allows task) :
      ComposedWithin rules fun self => self.perform task
  | bind {α β : Type} {run : Evaluator → Run α} {next : α → Evaluator → Run β}
      (first : ComposedWithin rules run) (second : ∀ value, ComposedWithin rules (next value)) :
      ComposedWithin rules fun self => run self >>= fun value => next value self
  | around {α : Type} {body : Evaluator → Run α} (surrounding : Surrounding)
      (allowed : rules.surrounds surrounding) (composed : ComposedWithin rules body) :
      ComposedWithin rules fun self => surrounding.around (body self)
  /-- The number of passes is all that is used of an evaluator besides its performing of parts. -/
  | passes {α : Type} {run : Nat → Evaluator → Run α}
      (composed : ∀ passes, ComposedWithin rules (run passes)) :
      ComposedWithin rules fun self => run self.passes self

abbrev Composed (powers : Powers) {α : Type} (run : Evaluator → Run α) : Prop :=
  ComposedWithin (.within powers) run

namespace ComposedWithin

variable {α : Type} {rules : Rules} {code : Located Expr}
  {expressions arguments : List (Located Expr)}

theorem composed {imports : String → Prop} {run : Evaluator → Run α}
    (within : ComposedWithin rules run) (admitted : ∀ name, rules.imports name → imports name) :
    Composed imports run := by
  induction within with
  | effect effect => exact .effect (effect.mono admitted (fun _ _ => trivial) fun _ _ => trivial)
  | perform task => exact .perform task (by cases task <;> trivial)
  | bind _ _ ihFirst ihSecond => exact .bind ihFirst ihSecond
  | around surrounding _ _ ih => exact .around surrounding (by cases surrounding <;> trivial) ih
  | passes _ ih => exact .passes ih

theorem expression (admits : rules.Admits (.expression code)) :
    ComposedWithin rules fun self => self.expression code :=
  .perform (.expression code) admits.performs

theorem statement {code : Located Stmt} (admits : rules.Admits (.statement code)) :
    ComposedWithin rules fun self => self.statement code :=
  .perform (.statement code) admits.performs

theorem pure (value : α) : ComposedWithin rules fun _ => Pure.pure value :=
  .effect (.pure value)

theorem fail (problem : Problem) : ComposedWithin rules fun _ => (Run.fail problem : Run α) :=
  .effect (.fail problem)

theorem throw (halt : Halt) : ComposedWithin rules fun _ => (MonadExcept.throw halt : Run α) :=
  .effect (.throw halt)

theorem get : ComposedWithin rules fun _ => (MonadState.get : Run Machine) :=
  .effect .get

/-! ## Lists of expressions, places and blocks -/

theorem values (admits : rules.AdmitsAll expressions) :
    ComposedWithin rules fun self => self.values expressions := by
  induction expressions with
  | nil => exact .pure []
  | cons first rest ih =>
    rcases List.forall_mem_cons.mp admits with ⟨own, others⟩
    exact .bind (.expression own) fun _ => .bind (ih others) fun _ => .pure _

theorem text (admits : rules.Admits (.expression code)) :
    ComposedWithin rules fun self => self.text code :=
  .bind (.expression admits) fun value => .effect (.stringify code.span value)

theorem variableName (span : Span) {name : VariableName Expr}
    (admits : rules.AdmitsAll name.parts) :
    ComposedWithin rules fun self => self.variableName span name := by
  cases name with
  | simple name => exact .pure name
  | dynamic code =>
    have own := admits code List.mem_cons_self
    exact .bind (.expression own) fun value => .effect (.stringify span value)

theorem placeAt (span : Span) (target : Expr) (admits : rules.Admits (.expression ⟨target, span⟩)) :
    ComposedWithin rules fun self => self.placeAt span target := by
  cases isPlace : target.isPlace with
  | false =>
    simp only [placeAt_of_not_isPlace _ span target isPlace]
    exact .fail _
  | true =>
    match target with
    | .variable name =>
      exact .bind (.variableName span fun _ => admits.inExpression) fun _ => .pure _
    | .subscript ⟨base, baseSpan⟩ index =>
      have inBase := admits.inExpression List.mem_cons_self
      refine .bind (placeAt baseSpan base inBase) fun _ => ?_
      cases index with
      | none => exact .pure _
      | some index =>
        have inIndex : rules.Admits (.expression index) :=
          admits.inExpression (List.mem_cons_of_mem _ List.mem_cons_self)
        exact .bind (.expression inIndex) fun _ => .pure _

theorem place (admits : rules.Admits (.expression code)) :
    ComposedWithin rules fun self => self.place code :=
  .placeAt code.span code.node admits

theorem quietAt? (span : Span) (operand : Expr)
    (admits : rules.Admits (.expression ⟨operand, span⟩)) :
    ComposedWithin rules fun self => self.quietAt? span operand := by
  unfold Evaluator.quietAt?
  split
  · exact .bind (.placeAt span operand admits) fun place => .effect place.hasEffect_quiet?
  · split
    · rename_i base baseSpan index _
      have inBase := admits.inExpression List.mem_cons_self
      have inIndex : rules.Admits (.expression index) :=
        admits.inExpression (List.mem_cons_of_mem _ List.mem_cons_self)
      exact .bind (quietAt? baseSpan base inBase) fun _ =>
        .bind (.expression inIndex) fun _ => .pure _
    · exact .bind (.around .silence trivial (.expression admits)) fun _ => .pure _
termination_by operand

theorem quiet? (admits : rules.Admits (.expression code)) :
    ComposedWithin rules fun self => self.quiet? code :=
  .quietAt? code.span code.node admits

theorem present? (admits : rules.Admits (.expression code)) :
    ComposedWithin rules fun self => self.present? code :=
  .bind (.quiet? admits) fun _ => .pure _

theorem block {statements : List (Located Stmt)}
    (performs : ∀ statement ∈ statements, rules.performs (.statement statement)) :
    ComposedWithin rules fun self => self.block statements := by
  induction statements with
  | nil => exact .pure Flow.normal
  | cons statement rest ih =>
    rcases List.forall_mem_cons.mp performs with ⟨own, others⟩
    refine .bind (.perform (.statement statement) own) fun flow => ?_
    cases flow with
    | normal => exact ih others
    | ret value => exact .pure _
    | jump kind levels => exact .pure _

theorem program (isOpen : rules.IsOpen) (program : Program) :
    ComposedWithin rules fun self => self.program program :=
  .around (.file _) (isOpen.switches _)
    (.bind (.effect (.hoist_of_declares fun _ _ => isOpen.declares _)) fun _ =>
      .around .noLoops trivial (.block fun _ _ => isOpen.performs _))

/-! ## Calls -/

theorem bindParameters (function : String) (position : Nat) {parameters : List ParameterDecl}
    (arguments : List Value)
    (admits : rules.AdmitsAll (parameters.filterMap ParameterDecl.fallback)) :
    ComposedWithin rules fun self =>
      self.bindParameters function position parameters arguments := by
  induction parameters generalizing position arguments with
  | nil => exact .pure ()
  | cons parameter rest ih =>
    have others : rules.AdmitsAll (rest.filterMap ParameterDecl.fallback) := by
      intro code member
      apply admits
      rw [List.filterMap_cons]
      split
      · exact member
      · exact List.mem_cons_of_mem _ member
    simp only [Evaluator.bindParameters]
    split
    · exact .bind (.effect (.ofExcept _)) fun _ =>
        .bind (.effect (.store _ _)) fun _ => ih _ _ others
    · cases arguments with
      | cons argument later =>
        exact .bind (.effect (.ofExcept _)) fun _ =>
          .bind (.effect (.store _ _)) fun _ => ih _ _ others
      | nil =>
        dsimp only
        cases fallback : parameter.fallback with
        | some code =>
          have own := admits code (by simp [fallback])
          exact .bind (.expression own) fun _ =>
            .bind (.effect (.store _ _)) fun _ => ih _ _ others
        | none =>
          exact .bind (.pure _) fun _ => .bind (.effect (.store _ _)) fun _ => ih _ _ others

theorem callFunction (name : String) (span : Span) (arguments : List Value) (calls : rules.calls) :
    ComposedWithin rules fun self => self.callFunction name span arguments := by
  refine .bind .get fun machine => ?_
  dsimp only
  cases machine.scopes.root.native? name with
  | some native => exact .bind (.effect (native.hasEffect_call span arguments)) fun _ => .pure _
  | none =>
    dsimp only
    cases machine.scopes.root.function? name with
    | some function => exact .perform (.call function arguments) calls
    | none => exact .fail _

theorem callOnPlace (native : Native) (name : String) (span : Span) {first : Located Expr}
    {rest : List (Located Expr)} (admits : rules.AdmitsAll (first :: rest)) :
    ComposedWithin rules fun self => self.callOnPlace native name span first rest := by
  rcases List.forall_mem_cons.mp admits with ⟨inFirst, inRest⟩
  simp only [Evaluator.callOnPlace]
  split
  · exact .fail _
  · refine .bind (.place inFirst) fun place => .bind (.effect place.hasEffect_quiet?) fun _ => ?_
    refine .bind (.values inRest) fun _ => .bind (.effect (native.hasEffect_call span _)) ?_
    rintro ⟨result, changed⟩
    cases changed with
    | some value => exact .bind (.effect (place.hasEffect_store value)) fun _ => .pure _
    | none => exact .pure _

theorem callNamed (name : String) (span : Span) (admits : rules.AdmitsAll arguments)
    (calls : rules.calls) :
    ComposedWithin rules fun self => self.callNamed name span arguments := by
  refine .bind .get fun machine => ?_
  split
  · exact .callOnPlace _ name span admits
  · exact .bind (.values admits) fun values => .callFunction name span values calls

theorem call {callee : Callee Expr} (span : Span) (inCallee : rules.AdmitsAll callee.parts)
    (inArguments : rules.AdmitsAll arguments) (calls : rules.calls) :
    ComposedWithin rules fun self => self.call callee span arguments := by
  cases callee with
  | name name => exact .callNamed name span inArguments calls
  | dynamic code =>
    refine .bind (.expression (inCallee code List.mem_cons_self)) fun value => ?_
    split
    · exact .callNamed _ span inArguments calls
    · exact .fail _

/-! ## Code from outside the program -/

theorem runFile (isOpen : rules.IsOpen) (path source : String) :
    ComposedWithin rules fun self => self.runFile path source := by
  refine .bind (.effect (.read .sections path source)) fun program => ?_
  refine .bind (.program isOpen program) fun flow => ?_
  split <;> exact .pure _

theorem includeNamed (isOpen : rules.IsOpen) (pulls : ∀ path, rules.pulls path)
    (mode : IncludeMode) (filename : String) (span : Span) :
    ComposedWithin rules fun self => self.includeNamed mode filename span := by
  refine .bind (.effect (.resolvePath filename)) fun path => ?_
  refine .bind (.effect (.look path)) fun view => .bind .get fun machine => ?_
  split
  · exact .pure _
  · split
    · exact .effect (.reportUnreadable mode filename _ span)
    · exact .bind (.effect (.modifying fun _ => .single (.pullIn _ (pulls _)))) fun _ =>
        .runFile isOpen path _

theorem includeFile (isOpen : rules.IsOpen) (pulls : ∀ path, rules.pulls path)
    (mode : IncludeMode) (path : Located Expr) :
    ComposedWithin rules fun self => self.includeFile mode path := by
  refine .bind (.text (isOpen.admits _)) fun filename => ?_
  split
  · exact .fail _
  · exact .includeNamed isOpen pulls mode filename path.span

theorem evaluateText (isOpen : rules.IsOpen) (span : Span) (code : Located Expr) :
    ComposedWithin rules fun self => self.evaluateText span code := by
  refine .bind (.text (isOpen.admits _)) fun source =>
    .bind (.effect (.lineOf span)) fun line => ?_
  refine .bind .get fun machine => .bind (.effect (.read .code _ source)) fun program => ?_
  refine .bind (.program isOpen program) fun flow => ?_
  split <;> exact .pure _

/-! ## Expressions -/

theorem interpolate (collected : String) {parts : List (StringPart Expr)}
    (admits : rules.AdmitsAll (parts.flatMap StringPart.parts)) :
    ComposedWithin rules fun self => self.interpolate collected parts := by
  induction parts generalizing collected with
  | nil => exact .pure collected
  | cons part rest ih =>
    rcases List.forall_mem_append.mp admits with ⟨own, others⟩
    cases part with
    | text text => exact ih _ others
    | code code => exact .bind (.text (own code List.mem_cons_self)) fun _ => ih _ others

theorem arrayLiteral (collected : Table Key Value) {items : List (ArrayItem Expr)}
    (admits : rules.AdmitsAll (Expr.array items).parts) :
    ComposedWithin rules fun self => self.arrayLiteral collected items := by
  induction items generalizing collected with
  | nil => exact .pure _
  | cons item rest ih =>
    rcases List.forall_mem_append.mp admits with ⟨own, others⟩
    have inValue := own item.value (by simp)
    simp only [Evaluator.arrayLiteral]
    split
    · rename_i key isKey
      have inKey := own key (by simp [isKey])
      exact .bind (.expression inKey) fun _ => .bind (.effect (.ofExcept _)) fun _ =>
        .bind (.expression inValue) fun _ => ih _ others
    · refine .bind (.expression inValue) fun value => ?_
      split
      · exact ih _ others
      · exact .bind (.effect (.warn _ _)) fun _ => ih _ others

theorem loadPlace (admits : rules.Admits (.expression code)) :
    ComposedWithin rules fun self => self.loadPlace code :=
  .bind (.place admits) fun place => .effect place.hasEffect_load

theorem subscript (span : Span) {base : Located Expr} {index : Option (Located Expr)}
    (admits : rules.AdmitsAll (base :: index.toList)) :
    ComposedWithin rules fun self => self.subscript span base index := by
  cases index with
  | none => exact .fail _
  | some index =>
    have inBase := admits base List.mem_cons_self
    have inIndex := admits index (List.mem_cons_of_mem _ List.mem_cons_self)
    exact .bind (.expression inBase) fun _ => .bind (.expression inIndex) fun _ =>
      .effect (.check span _)

theorem constant (name : String) : ComposedWithin rules fun _ => Evaluator.constant name := by
  refine .bind .get fun machine => ?_
  split
  · exact .pure _
  · exact .fail _

theorem magic (span : Span) (constant : MagicConstant) :
    ComposedWithin rules fun _ => Evaluator.magic span constant := by
  refine .bind .get fun machine => ?_
  cases constant <;> exact .pure _

section Operands

variable {target value : Located Expr} (admits : rules.AdmitsAll [target, value])
include admits

theorem assign : ComposedWithin rules fun self => self.assign target value :=
  .bind (.place (admits target (by simp))) fun place =>
    .bind (.expression (admits value (by simp))) fun result =>
      .bind (.effect (place.hasEffect_store result)) fun _ => .pure result

theorem compoundAssign (span : Span) (operator : BinaryOperator) :
    ComposedWithin rules fun self => self.compoundAssign span operator target value :=
  .bind (.place (admits target (by simp))) fun place => .bind (.effect place.hasEffect_load)
    fun _ => .bind (.expression (admits value (by simp))) fun _ =>
      .bind (.effect (.check span _)) fun result =>
        .bind (.effect (place.hasEffect_store result)) fun _ => .pure result

theorem coalesceAssign : ComposedWithin rules fun self => self.coalesceAssign target value := by
  refine .bind (.present? (admits target (by simp))) fun current => ?_
  split
  · exact .pure _
  · exact .assign admits

theorem coalesce : ComposedWithin rules fun self => self.coalesce target value := by
  refine .bind (.present? (admits target (by simp))) fun current => ?_
  split
  · exact .pure _
  · exact .expression (admits value (by simp))

theorem binary (span : Span) (operator : BinaryOperator) :
    ComposedWithin rules fun self => self.binary span target operator value := by
  refine .bind (.expression (admits target (by simp))) fun first => ?_
  split
  · split
    · exact .bind (.expression (admits value (by simp))) fun _ => .pure _
    · exact .pure _
  · split
    · exact .pure _
    · exact .bind (.expression (admits value (by simp))) fun _ => .pure _
  · exact .bind (.expression (admits value (by simp))) fun _ => .effect (.check span _)

end Operands

theorem ternary {condition : Located Expr} {consequent : Option (Located Expr)}
    {alternative : Located Expr}
    (admits : rules.AdmitsAll (Expr.ternary condition consequent alternative).parts) :
    ComposedWithin rules fun self => self.ternary condition consequent alternative := by
  refine .bind (.expression (admits condition (by simp [Expr.parts]))) fun value => ?_
  split
  · split
    · exact .expression (admits _ (by simp [Expr.parts]))
    · exact .pure _
  · exact .expression (admits alternative (by simp [Expr.parts]))

theorem cast (span : Span) (type : CastType) (admits : rules.Admits (.expression code)) :
    ComposedWithin rules fun self => self.cast span type code := by
  refine .bind (.expression admits) fun value => ?_
  cases type with
  | string => exact .bind (.effect (.stringify span value)) fun _ => .pure _
  | int => exact .pure _
  | float => exact .pure _
  | bool => exact .pure _
  | array => exact .pure _

theorem step (operator : StepOperator) (before : Bool) (admits : rules.Admits (.expression code)) :
    ComposedWithin rules fun self => self.step operator before code :=
  .bind (.place admits) fun place => .bind (.effect place.hasEffect_load) fun _ =>
    .bind (.effect (.check code.span _)) fun new =>
      .bind (.effect (place.hasEffect_store new)) fun _ => .pure _

theorem isset (admits : rules.AdmitsAll expressions) :
    ComposedWithin rules fun self => self.isset expressions := by
  induction expressions with
  | nil => exact .pure _
  | cons target rest ih =>
    rcases List.forall_mem_cons.mp admits with ⟨own, others⟩
    refine .bind (.present? own) fun value => ?_
    split
    · exact ih others
    · exact .pure _

theorem exit {argument : Option (Located Expr)} (admits : rules.AdmitsAll argument.toList) :
    ComposedWithin rules fun self => self.exit argument := by
  cases argument with
  | none => exact .throw _
  | some code =>
    refine .bind (.expression (admits code List.mem_cons_self)) fun value => ?_
    split
    · exact .throw _
    · exact .bind (.effect (.stringify code.span _)) fun text =>
        .bind (.effect (.print text)) fun _ => .throw _

/-- An expression performs only what stands inside of it, unless it calls a function or runs code
from outside the program. -/
theorem expressionStep (admits : rules.Admits (.expression code))
    (calls : code.node.isCall = true → rules.calls)
    (foreign : code.node.isForeign = true → rules.IsOpen)
    (pulls : ∀ mode operand, code.node = .includeFile mode operand → ∀ path, rules.pulls path) :
    ComposedWithin rules fun self => self.expressionStep code := by
  obtain ⟨node, span⟩ := code
  have inside : rules.AdmitsAll node.parts := fun _ => admits.inExpression
  match node with
  | .null => exact .pure _
  | .bool value => exact .pure _
  | .int value => exact .pure _
  | .float value => exact .pure _
  | .str value => exact .pure _
  | .interpolated parts => exact .bind (.interpolate "" inside) fun _ => .pure _
  | .array items => exact .arrayLiteral _ inside
  | .variable name => exact .loadPlace admits
  | .subscript base index =>
    simp only [Evaluator.expressionStep]
    split
    · exact .loadPlace admits
    · exact .subscript span inside
  | .constant name => exact .constant name
  | .magic constant => exact .magic span constant
  | .call callee arguments =>
    rcases List.forall_mem_append.mp inside with ⟨inCallee, inArguments⟩
    exact .call span inCallee inArguments (calls rfl)
  | .assign target value => exact .assign inside
  | .compoundAssign operator target value => exact .compoundAssign inside span operator
  | .coalesceAssign target value => exact .coalesceAssign inside
  | .ternary condition consequent alternative => exact .ternary inside
  | .coalesce left right => exact .coalesce inside
  | .binary left operator right => exact .binary inside span operator
  | .unary operator operand =>
    exact .bind (.expression (inside operand List.mem_cons_self)) fun _ =>
      .effect (.check span _)
  | .cast type operand => exact .cast span type (inside operand List.mem_cons_self)
  | .step operator before target => exact .step operator before (inside target List.mem_cons_self)
  | .silence operand =>
    exact .around .silence trivial (.expression (inside operand List.mem_cons_self))
  | .print operand =>
    exact .bind (.text (inside operand List.mem_cons_self)) fun text =>
      .bind (.effect (.print text)) fun _ => .pure _
  | .isset targets => exact .isset inside
  | .empty target => exact .bind (.quiet? (inside target List.mem_cons_self)) fun _ => .pure _
  | .exit argument => exact .exit inside
  | .evaluate code => exact .evaluateText (foreign rfl) span code
  | .includeFile mode path => exact .includeFile (foreign rfl) (pulls mode path rfl) mode path

/-! ## Statements -/

theorem echo (admits : rules.AdmitsAll expressions) :
    ComposedWithin rules fun self => self.echo expressions := by
  induction expressions with
  | nil => exact .pure ()
  | cons argument rest ih =>
    rcases List.forall_mem_cons.mp admits with ⟨own, others⟩
    exact .bind (.text own) fun text => .bind (.effect (.print text)) fun _ => ih others

theorem evaluateAll (admits : rules.AdmitsAll expressions) :
    ComposedWithin rules fun self => self.evaluateAll expressions := by
  induction expressions with
  | nil => exact .pure ()
  | cons first rest ih =>
    rcases List.forall_mem_cons.mp admits with ⟨own, others⟩
    exact .bind (.expression own) fun _ => ih others

theorem lastHolds (decision : Bool) (admits : rules.AdmitsAll expressions) :
    ComposedWithin rules fun self => self.lastHolds decision expressions := by
  induction expressions generalizing decision with
  | nil => exact .pure decision
  | cons condition rest ih =>
    rcases List.forall_mem_cons.mp admits with ⟨own, others⟩
    exact .bind (.expression own) fun _ => ih _ others

theorem choice {alternative : Option (Located Stmt)} {branches : List (Branch Stmt)}
    (conditions : ∀ branch ∈ branches, rules.Admits (.expression branch.condition))
    (bodies : ∀ branch ∈ branches, rules.Admits (.statement branch.body))
    (otherwise : ∀ body ∈ alternative, rules.Admits (.statement body)) :
    ComposedWithin rules fun self => self.choice alternative branches := by
  induction branches with
  | nil =>
    cases alternative with
    | some body => exact .statement (otherwise body rfl)
    | none => exact .pure Flow.normal
  | cons branch rest ih =>
    rcases List.forall_mem_cons.mp conditions with ⟨inCondition, otherConditions⟩
    rcases List.forall_mem_cons.mp bodies with ⟨inBody, otherBodies⟩
    refine .bind (.expression inCondition) fun value => ?_
    split
    · exact .statement inBody
    · exact ih otherConditions otherBodies

theorem proceed (flow : Flow) {next : Evaluator → Run Flow}
    (composed : ComposedWithin rules next) :
    ComposedWithin rules fun self => Run.proceed flow (next self) := by
  simp only [Run.proceed]
  cases flow.afterPass with
  | some ending => exact .pure ending
  | none => exact composed

section Loops

variable {loop : Branch Stmt} (inCondition : rules.Admits (.expression loop.condition))
  (inBody : rules.Admits (.statement loop.body))
include inCondition inBody

theorem whilePasses (passes : Nat) :
    ComposedWithin rules fun self => self.whilePasses loop passes := by
  induction passes with
  | zero => exact .throw _
  | succ passes ih =>
    refine .bind (.expression inCondition) fun value => ?_
    split
    · exact .bind (.statement inBody) fun flow => .proceed flow ih
    · exact .pure Flow.normal

theorem doWhilePasses (passes : Nat) :
    ComposedWithin rules fun self => self.doWhilePasses loop passes := by
  induction passes with
  | zero => exact .throw _
  | succ passes ih =>
    refine .bind (.statement inBody) fun flow => .proceed flow ?_
    refine .bind (.expression inCondition) fun value => ?_
    split
    · exact ih
    · exact .pure Flow.normal

end Loops

variable {condition step : List (Located Expr)} {body : Located Stmt} {loop : ForeachLoop Stmt}

theorem forPasses (inCondition : rules.AdmitsAll condition) (inStep : rules.AdmitsAll step)
    (inBody : rules.Admits (.statement body)) (passes : Nat) :
    ComposedWithin rules fun self => self.forPasses condition step body passes := by
  induction passes with
  | zero => exact .throw _
  | succ passes ih =>
    refine .bind (.lastHolds true inCondition) fun holds => ?_
    split
    · exact .bind (.statement inBody) fun flow =>
        .proceed flow (.bind (.evaluateAll inStep) fun _ => ih)
    · exact .pure Flow.normal

theorem forLoop {start : List (Located Expr)} (inStart : rules.AdmitsAll start)
    (inCondition : rules.AdmitsAll condition) (inStep : rules.AdmitsAll step)
    (inBody : rules.Admits (.statement body)) :
    ComposedWithin rules fun self => self.forLoop start condition step body :=
  .bind (.evaluateAll inStart) fun _ =>
    .around .loop trivial (.passes fun passes => .forPasses inCondition inStep inBody passes)

theorem storeIn (admits : rules.Admits (.expression code)) (value : Value) :
    ComposedWithin rules fun self => self.storeIn code value :=
  .bind (.place admits) fun place => .effect (place.hasEffect_store value)

theorem foreachPasses (inKey : rules.AdmitsAll loop.key.toList)
    (inValue : rules.Admits (.expression loop.value)) (inBody : rules.Admits (.statement loop.body))
    (elements : List (Key × Value)) :
    ComposedWithin rules fun self => self.foreachPasses loop elements := by
  induction elements with
  | nil => exact .pure Flow.normal
  | cons element rest ih =>
    obtain ⟨key, value⟩ := element
    have pass : ComposedWithin rules fun self =>
        self.storeIn loop.value value >>= fun _ => self.statement loop.body >>= fun flow =>
          Run.proceed flow (self.foreachPasses loop rest) :=
      .bind (.storeIn inValue value) fun _ =>
        .bind (.statement inBody) fun flow => .proceed flow ih
    simp only [Evaluator.foreachPasses]
    split
    · rename_i target isKey
      have inTarget := inKey target (by simp [isKey])
      exact .bind (.storeIn inTarget key.toValue) fun _ => pass
    · exact pass

theorem foreachLoop (inSubject : rules.Admits (.expression loop.subject))
    (inKey : rules.AdmitsAll loop.key.toList) (inValue : rules.Admits (.expression loop.value))
    (inBody : rules.Admits (.statement loop.body)) :
    ComposedWithin rules fun self => self.foreachLoop loop := by
  refine .bind (.expression inSubject) fun subject => ?_
  split
  · exact .around .loop trivial (.foreachPasses inKey inValue inBody _)
  · exact .bind (.effect (.warn _ _)) fun _ => .pure Flow.normal

theorem returnStatement {value : Option (Located Expr)} (admits : rules.AdmitsAll value.toList) :
    ComposedWithin rules fun self => self.returnStatement value := by
  cases value with
  | some code => exact .bind (.expression (admits code List.mem_cons_self)) fun _ => .pure _
  | none => exact .pure _

theorem declareConstants {items : List ConstantItem}
    (admits : rules.AdmitsAll (items.map ConstantItem.value)) :
    ComposedWithin rules fun self => self.declareConstants items := by
  induction items with
  | nil => exact .pure ()
  | cons item rest ih =>
    rcases List.forall_mem_cons.mp admits with ⟨own, others⟩
    exact .bind (.expression own) fun _ =>
      .bind (.effect (.declareConstant _ _ _)) fun _ => ih others

theorem unsetAll (admits : rules.AdmitsAll expressions) :
    ComposedWithin rules fun self => self.unsetAll expressions := by
  induction expressions with
  | nil => exact .pure ()
  | cons target rest ih =>
    rcases List.forall_mem_cons.mp admits with ⟨own, others⟩
    simp only [Evaluator.unsetAll]
    split
    · exact .bind (.place own) fun place =>
        .bind (.effect place.hasEffect_unset) fun _ => ih others
    · exact .fail _

theorem checkJump (kind : LoopJump) (levels : Nat) :
    ComposedWithin rules fun _ => Run.checkJump kind levels := by
  refine .bind .get fun machine => ?_
  dsimp only
  split
  · exact .fail _
  · split
    · exact .fail _
    · exact .pure ()

theorem andGoOn {action : Evaluator → Run Unit} (composed : ComposedWithin rules action) :
    ComposedWithin rules fun self => Evaluator.andGoOn (action self) :=
  .bind composed fun _ => .pure Flow.normal

theorem statementStep {code : Located Stmt} (admits : rules.Admits (.statement code))
    (imports : ∀ name, (Task.statement code).Imports name → rules.imports name)
    (declares : ∀ declaration, code.node = .function declaration → rules.declares declaration) :
    ComposedWithin rules fun self => self.statementStep code := by
  obtain ⟨node, span⟩ := code
  have inside : rules.AdmitsAll node.expressions := fun _ => admits.inStatement
  have parts : ∀ part ∈ node.parts, rules.Admits (.statement part) := fun _ => admits.statement
  match node with
  | .inlineText text => exact .andGoOn (.effect (.print text))
  | .echo arguments => exact .andGoOn (.echo inside)
  | .expression code =>
    exact .bind (.expression (inside code List.mem_cons_self)) fun _ => .pure Flow.normal
  | .block body => exact .block fun part member => (parts part member).performs
  | .choice branches alternative =>
    refine .choice (fun branch member => ?_) (fun branch member => ?_) fun body member => ?_
    · exact inside _ (List.mem_map_of_mem member)
    · exact parts _ (List.mem_append_left _ (List.mem_map_of_mem member))
    · exact parts _ (List.mem_append_right _ (Option.mem_toList.mpr member))
  | .whileLoop loop =>
    exact .around .loop trivial (.passes fun passes =>
      .whilePasses (inside _ List.mem_cons_self) (parts _ List.mem_cons_self) passes)
  | .doWhileLoop loop =>
    exact .around .loop trivial (.passes fun passes =>
      .doWhilePasses (inside _ List.mem_cons_self) (parts _ List.mem_cons_self) passes)
  | .forLoop start condition step body =>
    rcases List.forall_mem_append.mp inside with ⟨inFront, inStep⟩
    rcases List.forall_mem_append.mp inFront with ⟨inStart, inCondition⟩
    exact .forLoop inStart inCondition inStep (parts body List.mem_cons_self)
  | .foreachLoop loop =>
    rcases List.forall_mem_append.mp inside with ⟨inFront, inValue⟩
    rcases List.forall_mem_append.mp inFront with ⟨inSubject, inKey⟩
    exact .foreachLoop (inSubject _ List.mem_cons_self) inKey (inValue _ List.mem_cons_self)
      (parts _ List.mem_cons_self)
  | .jump kind levels => exact .bind (.checkJump kind levels) fun _ => .pure _
  | .ret value => exact .returnStatement inside
  | .function declaration =>
    exact .andGoOn (.effect (.declareFunction declaration (declares declaration rfl)))
  | .constants items => exact .andGoOn (.declareConstants inside)
  | .globals names =>
    refine .andGoOn (.effect (.forM fun imported member => .importName _ (imports _ ?_)))
    exact ⟨names, span, imported, rfl, member, rfl⟩
  | .unset targets => exact .andGoOn (.unsetAll inside)
  | .empty => exact .pure Flow.normal

end ComposedWithin

namespace Composed

variable {α : Type} {imports : String → Prop} {powers : Powers}

theorem isOpen_within (declares : ∀ function, powers.declares function) :
    (Rules.within powers).IsOpen :=
  ⟨fun _ => trivial, declares, fun _ => trivial⟩

theorem admits (code : Code) : (Rules.within powers).Admits code := fun _ _ => trivial

theorem mono {allowed : String → Prop} {run : Evaluator → Run α} (composed : Composed imports run)
    (admitted : ∀ name, imports name → allowed name) : Composed allowed run :=
  ComposedWithin.composed composed admitted

theorem block (statements : List (Located Stmt)) :
    Composed powers fun self => self.block statements :=
  ComposedWithin.block fun _ _ => trivial

theorem bindParameters (function : String) (position : Nat) (parameters : List ParameterDecl)
    (arguments : List Value) :
    Composed powers fun self => self.bindParameters function position parameters arguments :=
  ComposedWithin.bindParameters function position arguments fun _ _ => admits _

theorem callFunction (name : String) (span : Span) (arguments : List Value) :
    Composed powers fun self => self.callFunction name span arguments :=
  ComposedWithin.callFunction name span arguments trivial

theorem expressionStep_of_pulls {code : Located Expr}
    (declares : ∀ function, powers.declares function)
    (pulls : ∀ mode operand, code.node = .includeFile mode operand → ∀ path, powers.pulls path) :
    Composed powers fun self => self.expressionStep code :=
  ComposedWithin.expressionStep (admits _) (fun _ => trivial) (fun _ => isOpen_within declares)
    pulls

theorem expressionStep (code : Located Expr) :
    Composed imports fun self => self.expressionStep code :=
  expressionStep_of_pulls (fun _ => trivial) fun _ _ _ _ => trivial

theorem statementStep (code : Located Stmt) :
    Composed (Task.statement code).Imports fun self => self.statementStep code :=
  ComposedWithin.statementStep (admits _) (fun _ own => own) fun _ _ => trivial

end Composed

end Evaluator

end PhpScript
