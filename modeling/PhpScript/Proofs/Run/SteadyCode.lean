import PhpScript.Proofs.Run.Agreement

/-!
# Every construct is steady

The steps of expressions, statements and calls of declared functions are steady computations. Only a
call can break this: by passing too many arguments, and by asking for what was reported. Its rule
therefore needs to know that the call is one of those that are made.
-/

namespace PhpScript

variable {calls : String → List Value → Prop}

namespace Flow

theorem regular_ret {value : Value} (regular : value.Regular) : (Flow.ret value).Regular := by
  simp only [Flow.Regular, regular.orNull]
  exact regular

theorem Regular.afterPass {flow ending : Flow} (regular : flow.Regular)
    (ends : flow.afterPass = some ending) : ending.Regular := by
  cases flow with
  | normal => cases ends
  | ret value =>
    cases ends
    exact regular
  | jump kind levels =>
    simp only [Flow.afterPass] at ends
    split at ends
    · cases kind <;> cases ends
      trivial
    · cases ends
      trivial

end Flow

namespace Evaluator

/-- A computation is steady on all machines, as far as its parts are. -/
def Steady {α : Type} (calls : String → List Value → Prop) (holds : α → Prop)
    (run : Evaluator → Run α) : Prop :=
  ∀ self machine, SteadyFrom calls holds run self machine

namespace Steady

variable {α β : Type} {holds : α → Prop} {post : β → Prop}

theorem effect {run : Run α} (steady : run.Steady calls holds) : Steady calls holds fun _ => run :=
  fun _ _ => .effect steady

theorem pure {value : α} (valid : holds value) :
    Steady calls holds fun _ => (Pure.pure value : Run α) :=
  .effect (.pure valid)

theorem fail {problem : Problem} (fatal : problem.isFatal = true) :
    Steady calls holds fun _ => (Run.fail problem : Run α) :=
  .effect (.fail fun _ => fatal)

theorem outOfFuel : Steady calls holds fun _ => (MonadExcept.throw Halt.outOfFuel : Run α) :=
  .effect (.throw (by rintro _ _ ⟨⟩))

theorem expression (code : Located Expr) :
    Steady calls Value.Regular fun self => self.expression code :=
  fun _ _ => SteadyFrom.perform (.expression code) fun regular =>
    ⟨regular, by rintro _ _ ⟨⟩⟩

theorem statement (code : Located Stmt) :
    Steady calls Flow.Regular fun self => self.statement code :=
  fun _ _ => SteadyFrom.perform (.statement code) fun regular =>
    ⟨regular, by rintro _ _ ⟨⟩⟩

theorem bind {run : Evaluator → Run α} {next : α → Evaluator → Run β}
    (first : Steady calls holds run)
    (second : ∀ value, holds value → Steady calls post (next value)) :
    Steady calls post (sequence run next) :=
  fun self machine => .bind (first self machine) fun value middle _ valid =>
    second value valid self middle

theorem bind_get {next : Machine → Evaluator → Run α}
    (unreported : ∀ {self machine output reporting setting},
      next (Machine.reportingAs machine output reporting setting) self = next machine self)
    (second : ∀ machine : Machine, machine.Regular → Steady calls holds (next machine)) :
    Steady calls holds fun self => MonadState.get >>= fun machine => next machine self :=
  fun self machine => .bind_get (fun _ _ _ _ => unreported) fun regular =>
    second machine regular self machine

theorem around {body : Evaluator → Run α} (surrounding : Surrounding)
    (inside : Steady calls holds body) :
    Steady calls holds fun self => surrounding.around (body self) := by
  intro self machine
  cases surrounding <;>
    simp only [Surrounding.around, Run.silently, Run.inLoop, Run.outsideLoops, Run.inFile,
      Run.between] <;>
    exact .bracket (fun _ _ _ => rfl) ⟨fun _ _ _ _ => rfl, fun _ => rfl⟩
      (fun _ => ⟨fun _ _ _ _ => rfl, fun _ => rfl⟩) (fun regular => regular)
      (fun _ _ regularAfter => regularAfter) (inside self _)

theorem passes {run : Nat → Evaluator → Run α} (each : ∀ passes, Steady calls holds (run passes)) :
    Steady calls holds fun self => run self.passes self := by
  intro self machine regular parts
  have settled := each self.passes self machine regular parts
  exact ⟨settled.transparent, settled.agree, settled.frames⟩

/-! ## Lists of expressions, places and blocks -/

theorem values (expressions : List (Located Expr)) :
    Steady calls AllRegular fun self => self.values expressions := by
  induction expressions with
  | nil => exact .pure allRegular_nil
  | cons first rest ih =>
    exact .bind (.expression first) fun _ regular => .bind ih fun _ others =>
      .pure (allRegular_cons.mpr ⟨regular, others⟩)

theorem text (code : Located Expr) : Steady calls (fun _ => True) fun self => self.text code :=
  .bind (.expression code) fun value _ => .effect (.stringify code.span value)

theorem variableName (span : Span) (name : VariableName Expr) :
    Steady calls (fun _ => True) fun self => self.variableName span name := by
  cases name with
  | simple name => exact .pure trivial
  | dynamic code => exact .bind (.expression code) fun value _ => .effect (.stringify span value)

theorem placeAt (span : Span) (target : Expr) :
    Steady calls (fun _ => True) fun self => self.placeAt span target := by
  cases isPlace : target.isPlace with
  | false =>
    simp only [placeAt_of_not_isPlace _ span target isPlace]
    exact .fail rfl
  | true =>
    match target with
    | .variable name => exact .bind (.variableName span name) fun _ _ => .pure trivial
    | .subscript ⟨base, baseSpan⟩ index =>
      refine .bind (placeAt baseSpan base) fun _ _ => ?_
      cases index with
      | none => exact .pure trivial
      | some index => exact .bind (.expression index) fun _ _ => .pure trivial

theorem place (target : Located Expr) :
    Steady calls (fun _ => True) fun self => self.place target :=
  .placeAt target.span target.node

theorem quietAt? (span : Span) (operand : Expr) :
    Steady calls FoundRegular fun self => self.quietAt? span operand := by
  unfold Evaluator.quietAt?
  split
  · exact .bind (.placeAt span operand) fun place _ => .effect place.steady_quiet?
  · split
    · rename_i base baseSpan index _
      refine .bind (quietAt? baseSpan base) fun container regular => ?_
      refine .bind (.expression index) fun key _ => .pure fun value found => ?_
      rcases Option.bind_eq_some_iff.mp found with ⟨root, stored, path⟩
      exact Value.regular_of_quietPath? (regular root stored) path
    · refine .bind (.around .silence (.expression _)) fun value regular => .pure ?_
      rintro _ ⟨⟩
      exact regular
termination_by operand

theorem quiet? (operand : Located Expr) :
    Steady calls FoundRegular fun self => self.quiet? operand :=
  .quietAt? operand.span operand.node

theorem present? (operand : Located Expr) :
    Steady calls FoundRegular fun self => self.present? operand := by
  refine .bind (.quiet? operand) fun found regular => .pure fun value kept => ?_
  exact regular value (Option.filter_eq_some_iff.mp kept).1

theorem block (statements : List (Located Stmt)) :
    Steady calls Flow.Regular fun self => self.block statements := by
  induction statements with
  | nil => exact .pure trivial
  | cons statement rest ih =>
    refine .bind (.statement statement) fun flow regular => ?_
    cases flow with
    | normal => exact ih
    | ret value => exact .pure regular
    | jump kind levels => exact .pure regular

theorem program (program : Program) : Steady calls Flow.Regular fun self => self.program program :=
  .around (.file _) (.bind (.effect (.hoist program.statements)) fun _ _ =>
    .around .noLoops (.block program.statements))

/-! ## Code from outside the program -/

theorem runFile (path source : String) :
    Steady calls Value.Regular fun self => self.runFile path source := by
  refine .bind (.effect (.read .sections path source)) fun program _ => ?_
  refine .bind (.program program) fun flow regular => ?_
  split
  · exact .pure regular
  · exact .pure (Value.regular_int 1)

theorem includeNamed (mode : IncludeMode) (filename : String) (span : Span) :
    Steady calls Value.Regular fun self => self.includeNamed mode filename span := by
  refine .bind (.effect (.resolvePath filename)) fun path _ => ?_
  refine .bind (.effect (.look path)) fun view _ => ?_
  refine .bind_get rfl fun machine _ => ?_
  split
  · exact .pure (Value.regular_bool true)
  · split
    · exact .effect (.reportUnreadable mode filename _ span)
    · exact .bind (.effect (.modifying fun _ regular => regular)) fun _ _ => .runFile path _

theorem includeFile (mode : IncludeMode) (path : Located Expr) :
    Steady calls Value.Regular fun self => self.includeFile mode path := by
  refine .bind (.text path) fun filename _ => ?_
  split
  · exact .fail rfl
  · exact .includeNamed mode filename path.span

theorem evaluateText (span : Span) (code : Located Expr) :
    Steady calls Value.Regular fun self => self.evaluateText span code := by
  refine .bind (.text code) fun source _ => .bind (.effect (.lineOf span)) fun line _ => ?_
  refine .bind_get rfl fun machine _ => ?_
  refine .bind (.effect (.read .code _ source)) fun program _ => ?_
  refine .bind (.program program) fun flow regular => ?_
  split
  · exact .pure regular
  · exact .pure Value.regular_null

/-! ## Expressions -/

theorem interpolate (collected : String) (parts : List (StringPart Expr)) :
    Steady calls (fun _ => True) fun self => self.interpolate collected parts := by
  induction parts generalizing collected with
  | nil => exact .pure trivial
  | cons part rest ih =>
    cases part with
    | text text => exact ih _
    | code code => exact .bind (.text code) fun _ _ => ih _

theorem arrayLiteral {collected : Table Key Value} (admitted : collected.Admits RegularEntry)
    (items : List (ArrayItem Expr)) :
    Steady calls Value.Regular fun self => self.arrayLiteral collected items := by
  induction items generalizing collected with
  | nil => exact .pure (Value.regular_array_iff.mpr admitted)
  | cons item rest ih =>
    simp only [Evaluator.arrayLiteral]
    split
    · refine .bind (.expression _) fun subscript _ => ?_
      refine .bind (.effect (.ofFatal (Key.ends_ofValue subscript))) fun key canonical => ?_
      exact .bind (.expression _) fun value regular => ih (admitted.insert ⟨canonical, regular⟩)
    · refine .bind (.expression _) fun value regular => ?_
      split
      · rename_i pushed
        exact ih (admitted.push? (fun _ => ⟨trivial, regular⟩) pushed)
      · exact .bind (.effect (.warn _ _)) fun _ _ => ih admitted

theorem loadPlace (code : Located Expr) :
    Steady calls Value.Regular fun self => self.loadPlace code :=
  .bind (.place code) fun place _ => .effect place.steady_load

theorem subscript (span : Span) (base : Located Expr) (index : Option (Located Expr)) :
    Steady calls Value.Regular fun self => self.subscript span base index := by
  cases index with
  | none => exact .fail rfl
  | some index =>
    exact .bind (.expression base) fun _ regular => .bind (.expression index) fun key _ =>
      .effect (.check span (Value.yields_readOffset regular key))

theorem constant (name : String) : Steady calls Value.Regular fun _ => Evaluator.constant name := by
  refine .bind_get rfl fun machine regular => ?_
  split
  · rename_i found
    exact .pure (regular.root.constants.of_get? found)
  · exact .fail rfl

theorem magic (span : Span) (constant : MagicConstant) :
    Steady calls Value.Regular fun _ => Evaluator.magic span constant := by
  refine .bind_get rfl fun machine _ => ?_
  cases constant <;> exact .pure (by simp)

theorem assign (target value : Located Expr) :
    Steady calls Value.Regular fun self => self.assign target value :=
  .bind (.place target) fun place _ => .bind (.expression value) fun _ regular =>
    .bind (.effect (place.steady_store regular)) fun _ _ => .pure regular

theorem compoundAssign (span : Span) (operator : BinaryOperator) (target value : Located Expr) :
    Steady calls Value.Regular fun self => self.compoundAssign span operator target value :=
  .bind (.place target) fun place _ => .bind (.effect place.steady_load) fun _ current =>
    .bind (.expression value) fun _ operand =>
      .bind (.effect (.check span (Value.yields_binary operator current operand)))
        fun _ regular => .bind (.effect (place.steady_store regular)) fun _ _ => .pure regular

theorem coalesceAssign (target value : Located Expr) :
    Steady calls Value.Regular fun self => self.coalesceAssign target value := by
  refine .bind (.present? target) fun current regular => ?_
  split
  · exact .pure (regular _ rfl)
  · exact .assign target value

theorem ternary (condition : Located Expr) (consequent : Option (Located Expr))
    (alternative : Located Expr) :
    Steady calls Value.Regular fun self => self.ternary condition consequent alternative := by
  refine .bind (.expression condition) fun value regular => ?_
  split
  · split
    · exact .expression _
    · exact .pure regular
  · exact .expression alternative

theorem coalesce (left right : Located Expr) :
    Steady calls Value.Regular fun self => self.coalesce left right := by
  refine .bind (.present? left) fun value regular => ?_
  split
  · exact .pure (regular _ rfl)
  · exact .expression right

theorem binary (span : Span) (left : Located Expr) (operator : BinaryOperator)
    (right : Located Expr) :
    Steady calls Value.Regular fun self => self.binary span left operator right := by
  refine .bind (.expression left) fun first firstRegular => ?_
  split
  · split
    · exact .bind (.expression right) fun _ _ => .pure (Value.regular_bool _)
    · exact .pure (Value.regular_bool _)
  · split
    · exact .pure (Value.regular_bool _)
    · exact .bind (.expression right) fun _ _ => .pure (Value.regular_bool _)
  · exact .bind (.expression right) fun _ secondRegular =>
      .effect (.check span (Value.yields_binary _ firstRegular secondRegular))

theorem unary (span : Span) (operator : UnaryOperator) (operand : Located Expr) :
    Steady calls Value.Regular fun self => self.unary span operator operand :=
  .bind (.expression operand) fun value _ => .effect (.check span (value.yields_unary operator))

theorem cast (span : Span) (type : CastType) (operand : Located Expr) :
    Steady calls Value.Regular fun self => self.cast span type operand := by
  refine .bind (.expression operand) fun value regular => ?_
  cases type with
  | string => exact .bind (.effect (.stringify span value)) fun _ _ => .pure (Value.regular_str _)
  | int => exact .pure (Value.regular_int _)
  | float => exact .pure (Value.regular_float _)
  | bool => exact .pure (Value.regular_bool _)
  | array => exact .pure (Value.regular_array_iff.mpr regular.toTable)

theorem step (operator : StepOperator) (before : Bool) (target : Located Expr) :
    Steady calls Value.Regular fun self => self.step operator before target := by
  refine .bind (.place target) fun place _ =>
    .bind (.effect place.steady_load) fun old oldRegular => ?_
  refine .bind (.effect (.check target.span (old.yields_step operator))) fun new newRegular => ?_
  refine .bind (.effect (place.steady_store newRegular)) fun _ _ => .pure ?_
  split
  · exact newRegular
  · exact oldRegular

theorem isset (targets : List (Located Expr)) :
    Steady calls Value.Regular fun self => self.isset targets := by
  induction targets with
  | nil => exact .pure (Value.regular_bool true)
  | cons target rest ih =>
    refine .bind (.present? target) fun value _ => ?_
    split
    · exact ih
    · exact .pure (Value.regular_bool false)

theorem exit (argument : Option (Located Expr)) :
    Steady calls Value.Regular fun self => self.exit argument := by
  have left : ∀ code, Steady calls Value.Regular fun _ =>
      (MonadExcept.throw (Halt.exit code) : Run Value) :=
    fun code => .effect (.throw (by rintro _ _ ⟨⟩))
  cases argument with
  | none => exact left 0
  | some code =>
    refine .bind (.expression code) fun value _ => ?_
    split
    · exact left _
    · exact .bind (.effect (.stringify code.span _)) fun text _ =>
        .bind (.effect (.print text)) fun _ _ => left 0

/-! ## Statements -/

theorem echo (arguments : List (Located Expr)) :
    Steady calls (fun _ => True) fun self => self.echo arguments := by
  induction arguments with
  | nil => exact .pure trivial
  | cons argument rest ih =>
    exact .bind (.text argument) fun text _ => .bind (.effect (.print text)) fun _ _ => ih

theorem evaluateAll (expressions : List (Located Expr)) :
    Steady calls (fun _ => True) fun self => self.evaluateAll expressions := by
  induction expressions with
  | nil => exact .pure trivial
  | cons first rest ih => exact .bind (.expression first) fun _ _ => ih

theorem lastHolds (decision : Bool) (conditions : List (Located Expr)) :
    Steady calls (fun _ => True) fun self => self.lastHolds decision conditions := by
  induction conditions generalizing decision with
  | nil => exact .pure trivial
  | cons condition rest ih => exact .bind (.expression condition) fun _ _ => ih _

theorem choice (alternative : Option (Located Stmt)) (branches : List (Branch Stmt)) :
    Steady calls Flow.Regular fun self => self.choice alternative branches := by
  induction branches with
  | nil =>
    cases alternative with
    | some body => exact .statement body
    | none => exact .pure trivial
  | cons branch rest ih =>
    refine .bind (.expression branch.condition) fun value _ => ?_
    split
    · exact .statement branch.body
    · exact ih

theorem proceed {flow : Flow} (regular : flow.Regular) {next : Evaluator → Run Flow}
    (steady : Steady calls Flow.Regular next) :
    Steady calls Flow.Regular fun self => Run.proceed flow (next self) := by
  simp only [Run.proceed]
  cases ends : flow.afterPass with
  | some ending => exact .pure (regular.afterPass ends)
  | none => exact steady

theorem whilePasses (loop : Branch Stmt) (passes : Nat) :
    Steady calls Flow.Regular fun self => self.whilePasses loop passes := by
  induction passes with
  | zero => exact .outOfFuel
  | succ passes ih =>
    refine .bind (.expression loop.condition) fun value _ => ?_
    split
    · exact .bind (.statement loop.body) fun _ regular => .proceed regular ih
    · exact .pure trivial

theorem doWhilePasses (loop : Branch Stmt) (passes : Nat) :
    Steady calls Flow.Regular fun self => self.doWhilePasses loop passes := by
  induction passes with
  | zero => exact .outOfFuel
  | succ passes ih =>
    refine .bind (.statement loop.body) fun flow regular => .proceed regular ?_
    refine .bind (.expression loop.condition) fun value _ => ?_
    split
    · exact ih
    · exact .pure trivial

theorem forPasses (condition step : List (Located Expr)) (body : Located Stmt) (passes : Nat) :
    Steady calls Flow.Regular fun self => self.forPasses condition step body passes := by
  induction passes with
  | zero => exact .outOfFuel
  | succ passes ih =>
    refine .bind (.lastHolds true condition) fun goOn _ => ?_
    split
    · exact .bind (.statement body) fun _ regular =>
        .proceed regular (.bind (.evaluateAll step) fun _ _ => ih)
    · exact .pure trivial

theorem storeIn (target : Located Expr) {value : Value} (regular : value.Regular) :
    Steady calls (fun _ => True) fun self => self.storeIn target value :=
  .bind (.place target) fun place _ => .effect (place.steady_store regular)

theorem foreachPasses (loop : ForeachLoop Stmt) {elements : List (Key × Value)}
    (regular : AllRegular (elements.map Prod.snd)) :
    Steady calls Flow.Regular fun self => self.foreachPasses loop elements := by
  induction elements with
  | nil => exact .pure trivial
  | cons element rest ih =>
    rcases element with ⟨key, value⟩
    rcases allRegular_cons.mp regular with ⟨own, others⟩
    have pass : Steady calls Flow.Regular fun self =>
        self.storeIn loop.value value >>= fun _ => self.statement loop.body >>= fun flow =>
          Run.proceed flow (self.foreachPasses loop rest) :=
      .bind (.storeIn loop.value own) fun _ _ =>
        .bind (.statement loop.body) fun _ flowRegular => .proceed flowRegular (ih others)
    simp only [Evaluator.foreachPasses]
    split
    · exact .bind (.storeIn _ (Value.regular_ofKey key)) fun _ _ => pass
    · exact pass

theorem foreachLoop (loop : ForeachLoop Stmt) :
    Steady calls Flow.Regular fun self => self.foreachLoop loop := by
  refine .bind (.expression loop.subject) fun subject regular => ?_
  split
  · rename_i elements
    have values := ArrayFunction.allRegular_values (Value.regular_array_iff.mp regular)
    exact .around .loop (.foreachPasses loop values)
  · exact .bind (.effect (.warn _ _)) fun _ _ => .pure trivial

theorem forLoop (start condition step : List (Located Expr)) (body : Located Stmt) :
    Steady calls Flow.Regular fun self => self.forLoop start condition step body :=
  .bind (.evaluateAll start) fun _ _ =>
    .around .loop (.passes fun passes => .forPasses condition step body passes)

theorem returnStatement (value : Option (Located Expr)) :
    Steady calls Flow.Regular fun self => self.returnStatement value := by
  cases value with
  | some code =>
    exact .bind (.expression code) fun _ regular => .pure (Flow.regular_ret regular)
  | none => exact .pure Value.regular_null

theorem declareConstants (items : List ConstantItem) :
    Steady calls (fun _ => True) fun self => self.declareConstants items := by
  induction items with
  | nil => exact .pure trivial
  | cons item rest ih =>
    exact .bind (.expression item.value) fun _ regular =>
      .bind (.effect (.declareConstant _ regular _)) fun _ _ => ih

theorem unsetAll (targets : List (Located Expr)) :
    Steady calls (fun _ => True) fun self => self.unsetAll targets := by
  induction targets with
  | nil => exact .pure trivial
  | cons target rest ih =>
    simp only [Evaluator.unsetAll]
    split
    · exact .bind (.place target) fun place _ => .bind (.effect place.steady_unset) fun _ _ => ih
    · exact .fail rfl

theorem checkJump (kind : LoopJump) (levels : Nat) :
    Steady calls (fun _ => True) fun _ => Run.checkJump kind levels := by
  refine .bind_get rfl fun machine _ => ?_
  dsimp only
  split
  · exact .fail rfl
  · split
    · exact .fail rfl
    · exact .pure trivial

theorem andGoOn {action : Evaluator → Run Unit} (steady : Steady calls (fun _ => True) action) :
    Steady calls Flow.Regular fun self => Evaluator.andGoOn (action self) :=
  .bind steady fun _ _ => .pure trivial

theorem statementStep (code : Located Stmt) :
    Steady calls Flow.Regular fun self => self.statementStep code := by
  obtain ⟨node, span⟩ := code
  match node with
  | .inlineText text => exact .andGoOn (.effect (.print text))
  | .echo arguments => exact .andGoOn (.echo arguments)
  | .expression code => exact .bind (.expression code) fun _ _ => .pure trivial
  | .block body => exact .block body
  | .choice branches alternative => exact .choice alternative branches
  | .whileLoop loop => exact .around .loop (.passes fun passes => .whilePasses loop passes)
  | .doWhileLoop loop => exact .around .loop (.passes fun passes => .doWhilePasses loop passes)
  | .forLoop start condition step body => exact .forLoop start condition step body
  | .foreachLoop loop => exact .foreachLoop loop
  | .jump kind levels => exact .bind (.checkJump kind levels) fun _ _ => .pure trivial
  | .ret value => exact .returnStatement value
  | .function declaration => exact .andGoOn (.effect (.declareFunction declaration))
  | .constants items => exact .andGoOn (.declareConstants items)
  | .globals names =>
    exact .andGoOn (.effect (.forM fun imported =>
      .modifyScopes fun _ scopes => scopes.importName _))
  | .unset targets => exact .andGoOn (.unsetAll targets)
  | .empty => exact .pure trivial

end Steady

end Evaluator

end PhpScript
