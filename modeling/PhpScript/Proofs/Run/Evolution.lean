import PhpScript.Proofs.Run.Performance

/-!
# Relations that running code respects

An `Evolution` is a relation between an earlier and a later machine that holds across every change
which some powers allow, and does not look at the surroundings. What is then left to prove of a
composed computation is that the parts which it performs respect the relation. An evolution that
also survives calls is respected by every run as a whole.
-/

namespace PhpScript

/-- A relation between an earlier and a later machine, across the changes that some powers allow. -/
structure Evolution (powers : Powers) where
  Leads : Machine → Machine → Prop
  refl : ∀ machine, Leads machine machine
  trans : ∀ {machine middle after}, Leads machine middle → Leads middle after →
    Leads machine after
  change : ∀ {machine after}, Machine.Change powers machine after → Leads machine after
  surroundings : ∀ (machine : Machine) silence loopDepth file,
    Leads machine { machine with silence, loopDepth, file }

namespace Evolution

variable {powers : Powers} (evolution : Evolution powers)

theorem changes {machine after : Machine} (changes : Machine.Changes powers machine after) :
    evolution.Leads machine after := by
  induction changes with
  | refl => exact evolution.refl machine
  | tail _ change ih => exact evolution.trans ih (evolution.change change)

theorem enter (surrounding : Surrounding) (machine : Machine) :
    evolution.Leads machine (surrounding.enter machine) := by
  cases surrounding <;> exact evolution.surroundings machine _ _ _

theorem leave (surrounding : Surrounding) (before after : Machine) :
    evolution.Leads after (surrounding.leave before after) := by
  cases surrounding <;> exact evolution.surroundings after _ _ _

end Evolution

namespace Evaluator

variable {α β : Type} {powers : Powers} {evolution : Evolution powers} {self : Evaluator}

/-- The parts that a computation performs respect an evolution. -/
def PartsLead (evolution : Evolution powers) (run : Evaluator → Run α) (self : Evaluator)
    (machine : Machine) : Prop :=
  ∀ frame, Performs run self machine frame →
    evolution.Leads frame.machine ((self.perform frame.task).machineAfter frame.machine)

/-- If its parts respect an evolution, a computation leads from some machine to the one that it
leaves behind and to every machine on which it performs a part. -/
def RespectsFrom (evolution : Evolution powers) (run : Evaluator → Run α) (self : Evaluator)
    (machine : Machine) : Prop :=
  PartsLead evolution run self machine →
    evolution.Leads machine ((run self).machineAfter machine) ∧
      ∀ frame, Performs run self machine frame → evolution.Leads machine frame.machine

namespace RespectsFrom

variable {machine : Machine}

theorem const {run : Run α} (leads : evolution.Leads machine (run.machineAfter machine)) :
    RespectsFrom evolution (fun _ => run) self machine :=
  fun _ => ⟨leads, fun _ performs => absurd performs (unaffected_const run).not_performs⟩

theorem bind {run : Evaluator → Run α} {next : α → Evaluator → Run β}
    (transparent : Transparent run) (first : RespectsFrom evolution run self machine)
    (second : ∀ value middle, run self machine = .ok value middle →
      RespectsFrom evolution (next value) self middle) :
    RespectsFrom evolution (sequence run next) self
      machine := by
  intro parts
  rcases first fun frame performs => parts frame performs.bind_first with ⟨afterFirst, duringFirst⟩
  have later := fun value middle ends => second value middle ends fun frame performs =>
    parts frame ((performs_bind_iff transparent).mpr (.inr ⟨value, middle, ends, performs⟩))
  refine ⟨Run.related_bind evolution.trans afterFirst fun value middle ends =>
    (later value middle ends).1, fun frame performs => ?_⟩
  rcases (performs_bind_iff transparent).mp performs with early | ⟨value, middle, ends, late⟩
  · exact duringFirst frame early
  · rw [Run.machineAfter_of_ok ends] at afterFirst
    exact evolution.trans afterFirst ((later value middle ends).2 frame late)

end RespectsFrom

/-- A computation respects an evolution on all machines. -/
def Respects (evolution : Evolution powers) (run : Evaluator → Run α) (self : Evaluator) : Prop :=
  ∀ machine, RespectsFrom evolution run self machine

namespace Respects

theorem effect {run : Run α} (allowed : run.HasEffect powers) :
    Respects evolution (fun _ => run) self :=
  fun machine => .const (evolution.changes (allowed machine))

theorem perform (task : Task) : Respects evolution (fun self => self.perform task) self := by
  intro machine parts
  refine ⟨parts ⟨task, machine⟩ ((performs_perform_iff task).mpr rfl), fun frame performs => ?_⟩
  rw [(performs_perform_iff task).mp performs]
  exact evolution.refl machine

theorem bind {run : Evaluator → Run α} {next : α → Evaluator → Run β}
    (transparent : Transparent run) (first : Respects evolution run self)
    (second : ∀ value, Respects evolution (next value) self) :
    Respects evolution (sequence run next) self :=
  fun machine => .bind transparent (first machine) fun value middle _ => second value middle

theorem bracket {saved : Type} {save : Machine → saved} {enter : Machine → Machine}
    {restore : saved → Machine → Machine} {body : Evaluator → Run α}
    (enters : ∀ machine, evolution.Leads machine (enter machine))
    (restores : ∀ kept machine, evolution.Leads machine (restore kept machine))
    (inside : Respects evolution body self) :
    Respects evolution (fun self => Run.bracket save enter restore (body self)) self := by
  intro machine parts
  rcases inside (enter machine) fun frame performs =>
    parts frame (performs_bracket_iff.mpr performs) with ⟨after, during⟩
  rw [Run.machineAfter_bracket]
  refine ⟨evolution.trans (evolution.trans (enters machine) after) (restores _ _), ?_⟩
  intro frame performs
  exact evolution.trans (enters machine) (during frame (performs_bracket_iff.mp performs))

theorem around {body : Evaluator → Run α} (surrounding : Surrounding)
    (inside : Respects evolution body self) :
    Respects evolution (fun self => surrounding.around (body self)) self := by
  simp only [surrounding.around_eq_bracket]
  exact .bracket (evolution.enter surrounding) (evolution.leave surrounding) inside

end Respects

theorem ComposedWithin.respects {run : Evaluator → Run α} (composed : Composed powers run) :
    Respects evolution run self := by
  induction composed with
  | effect allowed => exact .effect allowed
  | perform task => exact .perform task
  | bind first _ ihFirst ihSecond => exact .bind first.transparent ihFirst ihSecond
  | around surrounding _ _ ih => exact .around surrounding ih
  | passes _ ih => exact ih self.passes

end Evaluator

/-- An evolution holds across calls: it does not look at the open bodies, and it holds for the
caller if it holds in the scope of the call. -/
structure Evolution.SurvivesCalls {powers : Powers} (evolution : Evolution powers) : Prop where
  body : ∀ (machine : Machine) depth, evolution.Leads machine { machine with depth }
  scope : ∀ {machine inner : Machine} function, evolution.Leads (machine.inCall function) inner →
    evolution.Leads machine
      { inner with scopes := { inner.scopes with locals := machine.scopes.locals } }

namespace Evaluator

variable {powers : Powers} {evolution : Evolution powers} {self : Evaluator}
  {function : UserFunction} {declared : DeclaredFunction} {arguments : List Value}
  {machine : Machine}

theorem leads_inBody (survives : evolution.SurvivesCalls)
    (parts : PartsLead evolution (fun self => self.block function.body) self machine.inBody) :
    evolution.Leads machine ((Run.inBody (self.block function.body)).machineAfter machine) := by
  have body : Composed powers fun self => self.block function.body := .block function.body
  have inside := (body.respects machine.inBody parts).1
  have opened : evolution.Leads machine machine.inBody :=
    evolution.trans (survives.body machine (machine.depth + 1)) (evolution.surroundings _ _ 0 _)
  simp only [Run.inBody, Run.between, Run.outsideLoops, Run.machineAfter_bracket]
  exact evolution.trans (evolution.trans opened inside)
    (evolution.trans (evolution.surroundings _ _ machine.loopDepth _) (survives.body _ _))

theorem exists_inside_runFunction (survives : evolution.SurvivesCalls)
    (parts : PartsLead evolution (fun self => self.runFunction function arguments) self machine) :
    ∃ inner, evolution.Leads (machine.inCall function.name.node) inner ∧
      (self.runFunction function arguments).machineAfter machine =
        { inner with scopes := { inner.scopes with locals := machine.scopes.locals } } := by
  have binding : Composed powers fun self =>
      self.bindParameters function.name.node 1 function.parameters arguments :=
    .bindParameters _ _ _ _
  have bound := (binding.respects (machine.inCall function.name.node) fun frame performs =>
    parts frame (performs_runFunction_iff.mpr (.inl performs))).1
  rw [runFunction, Run.inCall, Run.machineAfter_bracket]
  refine ⟨_, ?_, rfl⟩
  change evolution.Leads _ (Run.machineAfter _ (machine.inCall function.name.node))
  refine Run.related_bind evolution.trans bound fun value middle ends => ?_
  refine leads_inBody survives fun frame performs => ?_
  exact parts frame (performs_runFunction_iff.mpr (.inr ⟨middle, ends, performs⟩))

theorem exists_inside_callDeclared (survives : evolution.SurvivesCalls)
    (parts : PartsLead evolution (fun self => self.callDeclared declared arguments) self machine) :
    (self.callDeclared declared arguments).machineAfter machine = machine ∨
      ∃ inner,
        evolution.Leads
          (Machine.inCall { machine with file := declared.file } declared.declaration.name.node)
          inner ∧
        (self.callDeclared declared arguments).machineAfter machine =
          { inner with
            file := machine.file
            scopes := { inner.scopes with locals := machine.scopes.locals } } := by
  simp only [Run.machineAfter, callDeclared_eq]
  by_cases refused : machine.settings.nestingLimit ≤ machine.depth
  · exact .inl (by simp only [if_pos refused])
  · simp only [if_neg refused]
    by_cases tooFew : arguments.length < declared.declaration.requiredCount
    · exact .inl (by simp only [runDeclared, if_pos tooFew]; rfl)
    · right
      have inside := exists_inside_runFunction survives fun frame performs =>
        parts frame (performs_callDeclared_iff.mpr
          ⟨Nat.not_le.mp refused, Nat.not_lt.mp tooFew, performs⟩)
      rcases inside with ⟨inner, leads, after⟩
      refine ⟨inner, leads, ?_⟩
      change (self.runDeclared declared arguments).machineAfter machine = _
      simp only [runDeclared, if_neg tooFew]
      rw [Run.machineAfter_bind_ofExcept, Run.inFile, Run.machineAfter_bracket, after]

theorem leads_callDeclared (survives : evolution.SurvivesCalls)
    (parts : PartsLead evolution (fun self => self.callDeclared declared arguments) self machine) :
    evolution.Leads machine ((self.callDeclared declared arguments).machineAfter machine) := by
  rcases exists_inside_callDeclared survives parts with unchanged | ⟨inner, leads, after⟩
  · rw [unchanged]
    exact evolution.refl machine
  · rw [after]
    have entered := evolution.surroundings machine machine.silence machine.loopDepth declared.file
    exact evolution.trans (evolution.trans entered (survives.scope _ leads))
      (evolution.surroundings _ _ _ _)

section Perform

variable {imports : String → Prop} {evolution : Evolution imports}

/-- While a part is performed, only some names are imported into scopes. -/
def ImportsOnly (imports : String → Prop) (depth : Nat) (outermost : Frame) : Prop :=
  ∀ level frame rest, OpenParts depth outermost level (frame :: rest) →
    ∀ name, frame.task.Imports name → imports name

theorem ImportsOnly.of_part {depth : Nat} {outer inner : Frame}
    (admitted : ImportsOnly imports (depth + 1) outer)
    (performs : Performs (fun self => outer.task.step self) (ofDepth depth) outer.machine inner) :
    ImportsOnly imports depth inner :=
  fun level frame rest opened => admitted level frame (rest ++ [outer]) (opened.of_part performs)

theorem leads_perform (survives : evolution.SurvivesCalls) (depth : Nat) (task : Task)
    (machine : Machine) (admitted : ImportsOnly imports depth ⟨task, machine⟩) :
    evolution.Leads machine (((ofDepth depth).perform task).machineAfter machine) := by
  induction depth generalizing task machine with
  | zero =>
    rw [Run.machineAfter_of_error (perform_zero task machine)]
    exact evolution.refl machine
  | succ depth ih =>
    have parts : PartsLead evolution (fun self => task.step self) (ofDepth depth) machine :=
      fun inner performs => ih inner.task inner.machine (admitted.of_part performs)
    rw [machineAfter_perform_succ]
    cases task with
    | expression code =>
      have composed : Composed imports fun self => self.expressionStep code :=
        .expressionStep code
      exact (composed.respects machine parts).1
    | statement code =>
      have own := admitted (depth + 1) ⟨.statement code, machine⟩ [] .outermost
      exact (((Composed.statementStep code).mono own).respects machine parts).1
    | call declared arguments => exact leads_callDeclared survives parts

end Perform

end Evaluator

end PhpScript
