import PhpScript.Proofs.Run.Evolution

/-!
# How deeply calls nest

The limit of the settings is compared with the count of open bodies, which is raised where the body
of a function starts. A call is open before that, while it binds its parameters. So the limit bounds
the open calls only as far as none of them is still binding its parameters. A part directly inside a
call is an expression while the call binds its parameters, and then a statement.
-/

namespace PhpScript

namespace Task

def isExpression : Task → Bool
  | .expression _ => true
  | _ => false

def isStatement : Task → Bool
  | .statement _ => true
  | _ => false

def isCall : Task → Bool
  | .call _ _ => true
  | _ => false

end Task

namespace Frame

/-- The calls that have been entered and have not ended, where some parts are open. The innermost
part is not entered yet. -/
def openCalls (stack : List Frame) : Nat := stack.tail.countP (·.task.isCall)

/-- The open calls with a part of some kind directly inside. -/
def callsAround (inside : Task → Bool) : List Frame → Nat
  | inner :: outer :: rest =>
    callsAround inside (outer :: rest) +
      if outer.task.isCall && inside inner.task then 1 else 0
  | _ => 0

def openBodies (stack : List Frame) : Nat := callsAround Task.isStatement stack

def bindingCalls (stack : List Frame) : Nat := callsAround Task.isExpression stack

variable {inner outer : Frame} {rest : List Frame} {inside : Task → Bool}

theorem openCalls_of_call (isCall : outer.task.isCall = true) :
    openCalls (inner :: outer :: rest) = openCalls (outer :: rest) + 1 := by
  simp only [openCalls, List.tail_cons, List.countP_cons, isCall, if_true]

theorem openCalls_of_not_call (notCall : outer.task.isCall = false) :
    openCalls (inner :: outer :: rest) = openCalls (outer :: rest) := by
  simp [openCalls, notCall]

theorem callsAround_of_call (isCall : outer.task.isCall = true) :
    callsAround inside (inner :: outer :: rest) =
      callsAround inside (outer :: rest) + if inside inner.task then 1 else 0 := by
  simp only [callsAround, isCall, Bool.true_and]

theorem callsAround_of_not_call (notCall : outer.task.isCall = false) :
    callsAround inside (inner :: outer :: rest) = callsAround inside (outer :: rest) := by
  simp [callsAround, notCall]

end Frame

def Evolution.settings : Evolution .all where
  Leads machine after := after.settings = machine.settings
  refl _ := rfl
  trans first second := second.trans first
  change change := by cases change <;> rfl
  surroundings _ _ _ _ := rfl

theorem Evolution.survivesCalls_settings : Evolution.settings.SurvivesCalls where
  body _ _ := rfl
  scope _ leads := leads

structure Machine.SameNesting (before after : Machine) : Prop where
  depth : after.depth = before.depth
  settings : after.settings = before.settings

def Evolution.nesting : Evolution .all where
  Leads := Machine.SameNesting
  refl _ := ⟨rfl, rfl⟩
  trans first second :=
    ⟨second.depth.trans first.depth, second.settings.trans first.settings⟩
  change change := ⟨change.sameContext.depth, Evolution.settings.change change⟩
  surroundings _ _ _ _ := ⟨rfl, rfl⟩

namespace Evaluator

variable {α : Type} {self : Evaluator} {machine : Machine} {outer inner : Frame} {depth : Nat}

theorem settings_perform (depth : Nat) (task : Task) (machine : Machine) :
    (((ofDepth depth).perform task).machineAfter machine).settings = machine.settings :=
  leads_perform Evolution.survivesCalls_settings depth task machine fun _ _ _ _ _ _ => trivial

theorem partsLead_nesting (run : Evaluator → Run α) (depth : Nat) (machine : Machine) :
    PartsLead Evolution.nesting run (ofDepth depth) machine := fun frame _ =>
  ⟨(keepsContext_perform depth frame.task frame.machine).depth,
    settings_perform depth frame.task frame.machine⟩

section Composed

variable {imports : String → Prop} {run : Evaluator → Run α} (composed : Composed imports run)
include composed

theorem Composed.leads_nesting :
    Evolution.nesting.Leads machine ((run (ofDepth depth)).machineAfter machine) ∧
      ∀ frame, Performs run (ofDepth depth) machine frame →
        Evolution.nesting.Leads machine frame.machine :=
  (composed.mono fun _ _ => trivial).respects machine (partsLead_nesting run depth machine)

theorem Composed.sameNesting (performs : Performs run (ofDepth depth) machine inner) :
    machine.SameNesting inner.machine :=
  composed.leads_nesting.2 inner performs

theorem Composed.sameNesting_of_ok {value : α} {after : Machine}
    (ends : run (ofDepth depth) machine = .ok value after) : machine.SameNesting after := by
  rw [← Run.machineAfter_of_ok ends]
  exact composed.leads_nesting.1

end Composed

theorem exists_statement_of_performs_block {statements : List (Located Stmt)}
    (performs : Performs (fun self => self.block statements) self machine inner) :
    ∃ code ∈ statements, inner.task = .statement code := by
  induction statements generalizing machine with
  | nil => exact absurd performs (unaffected_const _).not_performs
  | cons statement rest ih =>
    rcases (performs_bind_iff (.perform (.statement statement))).mp performs with
      early | ⟨flow, middle, _, later⟩
    · rw [(performs_perform_iff (.statement statement)).mp early]
      exact ⟨statement, List.mem_cons_self, rfl⟩
    · cases flow with
      | normal =>
        rcases ih later with ⟨code, member, same⟩
        exact ⟨code, List.mem_cons_of_mem statement member, same⟩
      | ret value => exact absurd later (unaffected_const _).not_performs
      | jump kind levels => exact absurd later (unaffected_const _).not_performs

/-- What a call performs: expressions while it binds its parameters, and then, with one more open
body, statements. A call performs nothing unless there is room for one more body. -/
theorem nesting_of_performs_call {function : DeclaredFunction} {arguments : List Value}
    (performs : Performs (fun self => self.callDeclared function arguments) (ofDepth depth) machine
      inner) :
    machine.depth < machine.settings.nestingLimit ∧
      inner.machine.settings = machine.settings ∧
      ((∃ code, inner.task = .expression code) ∧ inner.machine.depth = machine.depth ∨
        (∃ code, inner.task = .statement code) ∧ inner.machine.depth = machine.depth + 1) := by
  rcases performs_callDeclared_iff.mp performs with ⟨room, _, runs⟩
  refine ⟨room, ?_⟩
  have binding : Composed noImports fun self =>
      self.bindParameters function.declaration.name.node 1 function.declaration.parameters
        arguments := .bindParameters _ _ _ _
  rcases performs_runFunction_iff.mp runs with early | ⟨bound, ends, later⟩
  · have same := binding.sameNesting early
    exact ⟨same.settings, .inl
      ⟨(composed_bindParameters _ _ _ _).exists_code early, same.depth⟩⟩
  · have body : Composed noImports fun self => self.block function.declaration.body :=
      .block function.declaration.body
    have before := binding.sameNesting_of_ok ends
    have inside := body.sameNesting later
    rcases exists_statement_of_performs_block later with ⟨code, _, isStatement⟩
    refine ⟨inside.settings.trans before.settings, .inr ⟨⟨code, isStatement⟩, ?_⟩⟩
    exact inside.depth.trans (congrArg (· + 1) before.depth)

/-! ## Points of a run -/

/-- The stack of open parts at a point of a run, against the machine at this point and the one at
the start: the machine counts the open bodies, each open call is in its body or binds its
parameters, and the limit holds if it did at the start. -/
structure CallsCounted (start : Machine) (frame : Frame) (rest : List Frame) : Prop where
  settings : frame.machine.settings = start.settings
  depth : frame.machine.depth = start.depth + Frame.openBodies (frame :: rest)
  calls : Frame.openCalls (frame :: rest) =
    Frame.openBodies (frame :: rest) + Frame.bindingCalls (frame :: rest)
  limited : start.depth ≤ start.settings.nestingLimit →
    frame.machine.depth ≤ start.settings.nestingLimit

namespace CallsCounted

variable {start : Machine} {rest : List Frame}

theorem of_not_call (counted : CallsCounted start outer rest) (notCall : outer.task.isCall = false)
    (same : outer.machine.SameNesting inner.machine) :
    CallsCounted start inner (outer :: rest) := by
  rcases counted with ⟨settings, bodies, calls, limited⟩
  have sameBodies : Frame.openBodies (inner :: outer :: rest) = Frame.openBodies (outer :: rest) :=
    Frame.callsAround_of_not_call notCall
  have sameBinding :
      Frame.bindingCalls (inner :: outer :: rest) = Frame.bindingCalls (outer :: rest) :=
    Frame.callsAround_of_not_call notCall
  constructor
  · exact same.settings.trans settings
  · rw [same.depth, bodies, sameBodies]
  · rw [Frame.openCalls_of_not_call notCall, calls, sameBodies, sameBinding]
  · rw [same.depth]
    exact limited

theorem of_call (counted : CallsCounted start outer rest) {function : DeclaredFunction}
    {arguments : List Value} (isCall : outer.task = .call function arguments)
    (performs : Performs (fun self => self.callDeclared function arguments) (ofDepth depth)
      outer.machine inner) :
    CallsCounted start inner (outer :: rest) := by
  rcases counted with ⟨settings, bodies, calls, limited⟩
  rcases nesting_of_performs_call performs with ⟨room, sameSettings, inside⟩
  have opened : outer.task.isCall = true := by
    rw [isCall]
    rfl
  have around : ∀ kind, Frame.callsAround kind (inner :: outer :: rest) =
      Frame.callsAround kind (outer :: rest) + if kind inner.task then 1 else 0 :=
    fun kind => Frame.callsAround_of_call opened
  have allCalls : Frame.openCalls (inner :: outer :: rest) = Frame.openCalls (outer :: rest) + 1 :=
    Frame.openCalls_of_call opened
  rcases inside with ⟨⟨code, isExpression⟩, sameDepth⟩ | ⟨⟨code, isStatement⟩, oneMore⟩
  · have sameBodies :
        Frame.openBodies (inner :: outer :: rest) = Frame.openBodies (outer :: rest) := by
      rw [Frame.openBodies, around, isExpression]
      rfl
    have oneBinding :
        Frame.bindingCalls (inner :: outer :: rest) = Frame.bindingCalls (outer :: rest) + 1 := by
      rw [Frame.bindingCalls, around, isExpression]
      rfl
    refine ⟨sameSettings.trans settings, by omega, by omega, fun atStart => ?_⟩
    rw [sameDepth]
    exact limited atStart
  · have oneBody :
        Frame.openBodies (inner :: outer :: rest) = Frame.openBodies (outer :: rest) + 1 := by
      rw [Frame.openBodies, around, isStatement]
      rfl
    have sameBinding :
        Frame.bindingCalls (inner :: outer :: rest) = Frame.bindingCalls (outer :: rest) := by
      rw [Frame.bindingCalls, around, isStatement]
      rfl
    refine ⟨sameSettings.trans settings, by omega, by omega, fun _ => ?_⟩
    rw [oneMore, ← settings]
    exact room

theorem part (counted : CallsCounted start outer rest)
    (performs : Performs (fun self => outer.task.step self) (ofDepth depth) outer.machine inner) :
    CallsCounted start inner (outer :: rest) := by
  obtain ⟨task, machine⟩ := outer
  cases task with
  | expression code =>
    have composed : Composed noImports fun self => self.expressionStep code :=
      .expressionStep code
    exact counted.of_not_call rfl (composed.sameNesting performs)
  | statement code =>
    exact counted.of_not_call rfl ((Composed.statementStep code).sameNesting performs)
  | call function arguments => exact counted.of_call rfl performs

end CallsCounted

theorem callsCounted_of_openParts {level : Nat} {outermost frame : Frame} {rest : List Frame}
    (opened : OpenParts depth outermost level (frame :: rest)) :
    CallsCounted outermost.machine frame rest := by
  generalize shape : frame :: rest = stack at opened
  induction opened generalizing frame rest with
  | outermost =>
    cases shape
    exact ⟨rfl, rfl, rfl, id⟩
  | part _ performs ih =>
    cases shape
    exact (ih rfl).part performs

theorem sameNesting_of_performs_script {program : Program}
    (performs : Performs (fun self => self.script program) (ofDepth depth) machine inner) :
    (machine.atStart program).SameNesting inner.machine := by
  have statements : Composed noImports fun self =>
      Run.hoist program.statements >>= fun _ => self.block program.statements :=
    .bind (.effect (.hoist program.statements)) fun _ => Composed.block program.statements
  exact statements.sameNesting performs

/-- At every point of every run, each open call is in its body or is still binding its parameters,
and no more bodies are open than the limit. A call is refused exactly if that many are open, with
the message of the limit and without performing any part of the function; otherwise the function
runs. -/
theorem open_calls_limited {program : Program} {outermost frame : Frame} {level : Nat}
    {rest : List Frame}
    (starts : Performs (fun self => self.script program) (ofDepth depth) machine outermost)
    (opened : OpenParts depth outermost level (frame :: rest)) :
    let limit := machine.settings.nestingLimit
    let bodies := Frame.openBodies (frame :: rest)
    Frame.openCalls (frame :: rest) = bodies + Frame.bindingCalls (frame :: rest) ∧
    bodies ≤ limit ∧
    (∀ function arguments, frame.task = .call function arguments →
      (∀ self : Evaluator, self.callDeclared function arguments frame.machine =
        if limit ≤ bodies then .error (.problem (.nestingLimit limit)) frame.machine
        else self.runDeclared function arguments frame.machine) ∧
      (limit ≤ bodies → ∀ self inner,
        ¬Performs (fun self => self.callDeclared function arguments) self frame.machine inner)) ∧
    (Problem.nestingLimit limit).message =
      "Maximum function nesting level of '" ++ toString limit ++ "' reached, aborting!" := by
  intro limit bodies
  have start := sameNesting_of_performs_script starts
  rcases callsCounted_of_openParts opened with ⟨settings, depth, calls, limited⟩
  have atStart : outermost.machine.depth = 0 := start.depth
  have sameLimit : outermost.machine.settings.nestingLimit = limit :=
    congrArg Settings.nestingLimit start.settings
  have ownLimit : frame.machine.settings.nestingLimit = limit := by
    rw [settings, sameLimit]
  have counts : frame.machine.depth = bodies := by
    rw [depth, atStart, Nat.zero_add]
  refine ⟨calls, ?_, fun function arguments isCall => ⟨fun self => ?_, ?_⟩, rfl⟩
  · rw [← counts, ← sameLimit]
    exact limited (by rw [atStart]; exact Nat.zero_le _)
  · rw [callDeclared_eq, ownLimit, counts]
  · intro refused self inner performs
    have room := (performs_callDeclared_iff.mp performs).1
    omega

/-- With a limit of one, a call and the call in a default of its parameters are both open. -/
theorem open_calls_limited_default :
    ∃ program machine outermost frame level rest,
      machine.settings.nestingLimit = 1 ∧
      Performs (fun self => self.script program) (ofDepth 6) machine outermost ∧
      OpenParts 6 outermost level (frame :: rest) ∧
      Frame.openCalls (frame :: rest) = 2 ∧ Frame.bindingCalls (frame :: rest) = 1 ∧
      Frame.openBodies (frame :: rest) ≤ 1 := by
  let span : Span := ⟨0, 0⟩
  let file : SourceFile := ⟨"", {}⟩
  let returning : Located Stmt := ⟨.ret none, span⟩
  let callOf (name : String) : Located Expr := ⟨.call (.name name) [], span⟩
  let parameter : ParameterDecl := ⟨⟨"x", span⟩, none, some (callOf "g"), false⟩
  let inner : DeclaredFunction := ⟨⟨0, ⟨"g", span⟩, [], none, [returning], span⟩, file⟩
  let outer : DeclaredFunction := ⟨⟨1, ⟨"f", span⟩, [parameter], none, [returning], span⟩, file⟩
  let start : Located Stmt := ⟨.expression (callOf "f"), span⟩
  let machine : Machine :=
    { settings := { nestingLimit := 1 }
      scopes := { root := { functions := (Table.empty.insert "f" outer).insert "g" inner } }
      reporting := 0
      file
      clock := ⟨0, 0⟩
      files := fun _ => none }
  let binding : Machine := machine.inCall "f"
  let body : Machine := (binding.inCall "g").inBody
  have script : Performs (fun self => self.script ⟨"", [start], {}⟩) (ofDepth 6) machine
      ⟨.statement start, machine⟩ := by
    refine (performs_bind_iff (.const _)).mpr (.inr ⟨(), machine, rfl, ?_⟩)
    refine (performs_bind_iff (.const _)).mpr (.inr ⟨(), machine, rfl, ?_⟩)
    exact ((performs_perform_iff (.statement start)).mpr rfl).bind_first
  have opened : OpenParts 6 ⟨.statement start, machine⟩ 1
      [⟨.statement returning, body⟩, ⟨.call inner [], binding⟩, ⟨.expression (callOf "g"), binding⟩,
        ⟨.call outer [], machine⟩, ⟨.expression (callOf "f"), machine⟩,
        ⟨.statement start, machine⟩] := by
    refine .part (.part (.part (.part (.part .outermost ?_) ?_) ?_) ?_) ?_
    · exact ((performs_perform_iff (.expression (callOf "f"))).mpr rfl).bind_first
    · exact fun halt => ⟨machine, perform_haltingAt_self _ (.call outer []) machine halt⟩
    · refine performs_callDeclared_iff.mpr ⟨Nat.one_pos, Nat.le_refl 0, ?_⟩
      refine performs_runFunction_iff.mpr (.inl ?_)
      exact ((performs_perform_iff (.expression (callOf "g"))).mpr rfl).bind_first
    · exact fun halt => ⟨binding, perform_haltingAt_self _ (.call inner []) binding halt⟩
    · refine performs_callDeclared_iff.mpr ⟨Nat.one_pos, Nat.le_refl 0, ?_⟩
      refine performs_runFunction_iff.mpr (.inr ⟨binding.inCall "g", rfl, ?_⟩)
      exact ((performs_perform_iff (.statement returning)).mpr rfl).bind_first
  rcases open_calls_limited script opened with ⟨_, limited, _⟩
  exact ⟨_, machine, _, _, 1, _, rfl, script, opened, rfl, rfl, limited⟩

end Evaluator

end PhpScript
