import PhpScript.Proofs.Run.Composition

/-!
# The context of running code

The counts of open function bodies, open loops and silencing operators, and the source text of the
running code, are changed in brackets, on every way out. So performing a part of the code leaves
them as they were.

The counts are lowered by one, not put back to a saved value. So this is a property of everything
that runs in between, and is proved for all constructs at once by induction on the depth of the
evaluator.
-/

namespace PhpScript

namespace Machine

/-- The same counts and the same source. -/
structure SameContext (before after : Machine) : Prop where
  depth : after.depth = before.depth
  loopDepth : after.loopDepth = before.loopDepth
  silence : after.silence = before.silence
  file : after.file = before.file

variable {powers : Powers} {machine middle after : Machine}

theorem SameContext.refl (machine : Machine) : machine.SameContext machine :=
  ⟨rfl, rfl, rfl, rfl⟩

theorem SameContext.trans (first : machine.SameContext middle)
    (second : middle.SameContext after) : machine.SameContext after where
  depth := second.depth.trans first.depth
  loopDepth := second.loopDepth.trans first.loopDepth
  silence := second.silence.trans first.silence
  file := second.file.trans first.file

theorem Change.sameContext (change : Change powers machine after) : machine.SameContext after := by
  cases change <;> exact ⟨rfl, rfl, rfl, rfl⟩

theorem Changes.sameContext (changes : Changes powers machine after) :
    machine.SameContext after := by
  induction changes with
  | refl => exact .refl machine
  | tail _ change ih => exact ih.trans change.sameContext

end Machine

theorem Surrounding.sameContext_leave (surrounding : Surrounding) {machine after : Machine}
    (same : (surrounding.enter machine).SameContext after) :
    machine.SameContext (surrounding.leave machine after) := by
  rcases same with ⟨depth, loopDepth, silence, file⟩
  cases surrounding with
  | silence => exact ⟨depth, loopDepth, by simp [leave, silence, enter], file⟩
  | loop => exact ⟨depth, by simp [leave, loopDepth, enter], silence, file⟩
  | noLoops => exact ⟨depth, rfl, silence, file⟩
  | file source => exact ⟨depth, loopDepth, silence, rfl⟩

namespace Run

variable {α β : Type}

/-- A computation leaves the context as it was, however it ends. -/
def KeepsContext (run : Run α) : Prop :=
  ∀ machine : Machine, machine.SameContext (run.machineAfter machine)

theorem HasEffect.keepsContext {powers : Powers} {run : Run α}
    (effect : run.HasEffect powers) : run.KeepsContext :=
  fun machine => (effect machine).sameContext

namespace KeepsContext

theorem bind {run : Run α} {next : α → Run β} (first : run.KeepsContext)
    (second : ∀ value, (next value).KeepsContext) : (run >>= next).KeepsContext :=
  fun machine => related_bind .trans (first machine) fun value middle _ => second value middle

theorem around {body : Run α} (surrounding : Surrounding) (keeps : body.KeepsContext) :
    (surrounding.around body).KeepsContext := by
  intro machine
  rw [Surrounding.machineAfter_around]
  exact surrounding.sameContext_leave (keeps (surrounding.enter machine))

theorem inCall {body : Run α} (function : String) (keeps : body.KeepsContext) :
    (Run.inCall function body).KeepsContext := by
  intro machine
  rw [Run.inCall, machineAfter_bracket]
  rcases keeps { machine with scopes := { machine.scopes with locals := [{ function }] } } with
    ⟨depth, loopDepth, silence, file⟩
  exact ⟨depth, loopDepth, silence, file⟩

theorem inBody {body : Run α} (keeps : body.KeepsContext) : (Run.inBody body).KeepsContext := by
  intro machine
  rw [Run.inBody, between, machineAfter_bracket]
  rcases keeps.around .noLoops { machine with depth := machine.depth + 1 } with
    ⟨depth, loopDepth, silence, file⟩
  refine ⟨?_, loopDepth, silence, file⟩
  change Machine.depth _ - 1 = machine.depth
  have raised : Machine.depth _ = machine.depth + 1 := depth
  exact Nat.sub_eq_of_eq_add raised

end KeepsContext

end Run

namespace Evaluator

variable {α : Type} {self : Evaluator} {rules : Rules} {run : Evaluator → Run α}

theorem ComposedWithin.keepsContext (composed : ComposedWithin rules run)
    (parts : ∀ task, (self.perform task).KeepsContext) : (run self).KeepsContext := by
  induction composed with
  | effect allowed => exact allowed.keepsContext
  | perform task => exact parts task
  | bind _ _ ihFirst ihSecond => exact ihFirst.bind ihSecond
  | around surrounding _ _ ih => exact ih.around surrounding
  | passes _ ih => exact ih self.passes

theorem keepsContext_runFunction (parts : ∀ task, (self.perform task).KeepsContext)
    (function : UserFunction) (arguments : List Value) :
    (self.runFunction function arguments).KeepsContext := by
  have binding : Composed noImports fun self =>
      self.bindParameters function.name.node 1 function.parameters arguments :=
    .bindParameters _ _ _ _
  have body : Composed noImports fun self => self.block function.body := .block function.body
  apply Run.KeepsContext.inCall
  exact (binding.keepsContext parts).bind fun _ => .inBody (body.keepsContext parts)

theorem keepsContext_callDeclared (parts : ∀ task, (self.perform task).KeepsContext)
    (function : DeclaredFunction) (arguments : List Value) :
    (self.callDeclared function arguments).KeepsContext := by
  have quick : ∀ {α : Type} {run : Run α}, run.HasEffect noImports → run.KeepsContext :=
    fun effect => effect.keepsContext
  refine (quick .get).bind fun machine => ?_
  split
  · exact quick (.fail _)
  · simp only [runDeclared]
    split
    · exact quick (.fail _)
    · refine .bind (.around (.file _) (keepsContext_runFunction parts _ _)) fun flow => ?_
      exact quick (.ofExcept _)

theorem keepsContext_perform (depth : Nat) (task : Task) :
    ((ofDepth depth).perform task).KeepsContext := by
  induction depth generalizing task with
  | zero =>
    intro machine
    rw [Run.machineAfter_of_error (perform_zero task machine)]
    exact .refl machine
  | succ depth ih =>
    intro machine
    rw [machineAfter_perform_succ]
    cases task with
    | expression code =>
      have composed : Composed noImports fun self => self.expressionStep code :=
        .expressionStep code
      exact composed.keepsContext ih machine
    | statement code => exact (Composed.statementStep code).keepsContext ih machine
    | call function arguments => exact keepsContext_callDeclared ih function arguments machine

theorem ComposedWithin.keepsContext_ofDepth (composed : ComposedWithin rules run) (depth : Nat) :
    (run (ofDepth depth)).KeepsContext :=
  composed.keepsContext (keepsContext_perform depth)

theorem sameContext_script (depth : Nat) (program : Program) (machine : Machine) :
    (machine.atStart program).SameContext
      (((ofDepth depth).script program).machineAfter machine) := by
  have statements : Composed noImports fun self =>
      Run.hoist program.statements >>= fun _ => self.block program.statements :=
    .bind (.effect (.hoist program.statements)) fun _ => Composed.block program.statements
  exact statements.keepsContext_ofDepth depth (machine.atStart program)

end Evaluator

theorem Machine.sameContext_conclude (run : Run Flow) (machine : Machine) :
    (run.machineAfter machine).SameContext (conclude (run machine)).2 := by
  simp only [Run.machineAfter]
  cases run machine with
  | ok flow after => exact .refl after
  | error halt after => cases halt <;> exact ⟨rfl, rfl, rfl, rfl⟩

namespace Evaluator

/-- Whenever a statement, an expression or a call ends, and however it ends, the open bodies, the
open loops, the silencing operators and the source text in view are what they were; so none of them
is open after a run of a program. -/
theorem context_restored (depth : Nat) (machine : Machine) :
    (∀ statement : Located Stmt,
      machine.SameContext (((ofDepth depth).statement statement).machineAfter machine)) ∧
    (∀ expression : Located Expr,
      machine.SameContext (((ofDepth depth).expression expression).machineAfter machine)) ∧
    (∀ (name : String) (span : Span) (arguments : List Value),
      machine.SameContext
        (((ofDepth depth).callFunction name span arguments).machineAfter machine)) ∧
    ∀ program : Program,
      (machine.run depth program).2.depth = 0 ∧
        (machine.run depth program).2.loopDepth = 0 ∧
        (machine.run depth program).2.silence = 0 := by
  refine ⟨fun statement => ?_, fun expression => ?_, fun name span arguments => ?_,
    fun program => ?_⟩
  · exact keepsContext_perform depth (.statement statement) machine
  · exact keepsContext_perform depth (.expression expression) machine
  · have composed : Composed noImports fun self => self.callFunction name span arguments :=
      .callFunction name span arguments
    exact composed.keepsContext_ofDepth depth machine
  · have same := (sameContext_script depth program machine).trans
      (Machine.sameContext_conclude ((ofDepth depth).script program) machine)
    exact ⟨same.depth, same.loopDepth, same.silence⟩

end Evaluator

end PhpScript
