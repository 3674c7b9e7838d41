import Mathlib.Logic.Basic
import PhpScript.Command.Shell
import PhpScript.Proofs.Run.Evolution

/-!
# The moments of a session

A computation gets from its start to its first part, from the end of a part to the start of the next
one, and from the end of a part to its own end. Together with what is done between scripts these
steps lead through all moments of a session. One part is performed before another if it is still
performed where the computation halts at the second.

A relation that looks only at what belongs to the session, and that every change respects, holds
between any two moments of which one is later.
-/

namespace PhpScript

theorem Halt.exists_ne (halt : Halt) : ∃ other, other ≠ halt := by
  cases halt with
  | outOfFuel => exact ⟨.unread "", Halt.noConfusion⟩
  | problem _ | exit _ | unread _ => exact ⟨.outOfFuel, Halt.noConfusion⟩

namespace Evaluator

variable {α β : Type} {self : Evaluator} {machine : Machine} {frame first second : Frame}

/-- The machine behind a part. -/
def after (self : Evaluator) (frame : Frame) : Machine :=
  (self.perform frame.task).machineAfter frame.machine

/-- One part is performed before another. -/
structure PerformsBefore (run : Evaluator → Run α) (evaluator : Evaluator) (machine : Machine)
    (first second : Frame) : Prop where
  differs : first ≠ second
  earlier : ∀ halt, Performs run (evaluator.haltingAt second halt) machine first
  later : Performs run evaluator machine second

open Classical in
theorem haltingAt_comm (differs : first ≠ second) (halt other : Halt) :
    (self.haltingAt first halt).haltingAt second other =
      (self.haltingAt second other).haltingAt first halt := by
  have apart (frame : Frame) (isSecond : second = frame) : ¬first = frame :=
    fun isFirst => differs (isFirst.trans isSecond.symm)
  unfold haltingAt
  congr 1 <;> funext <;> exact ite_ite_comm _ _ _ _ (apart _)

theorem Unaffected.not_performs_haltingAt {run : Evaluator → Run α} {value : α} {middle : Machine}
    (transparent : Transparent run) (notFirst : Unaffected run self machine first)
    (ends : run self machine = .ok value middle) (differs : first ≠ second) (halt : Halt) :
    ¬Performs run (self.haltingAt second halt) machine first := by
  intro performs
  rcases Halt.exists_ne halt with ⟨other, otherDiffers⟩
  rcases performs other with ⟨_, endsAtFirst⟩
  rw [← haltingAt_comm differs] at endsAtFirst
  rcases transparent (self.haltingAt first other) machine second with atSecond | unaffected
  · rcases atSecond halt with ⟨_, endsAtSecond⟩
    rw [endsAtSecond] at endsAtFirst
    cases endsAtFirst
    exact otherDiffers rfl
  · rw [unaffected, notFirst, ends] at endsAtFirst
    cases endsAtFirst

/-! ## From part to part -/

variable {powers : Powers} {evolution : Evolution powers} {run body : Evaluator → Run α}
  {next : α → Evaluator → Run β} {saved : Type} {save : Machine → saved} {enter : Machine → Machine}
  {restore : saved → Machine → Machine}

/-- If its parts respect an evolution, the end of a part leads to the start of every later one and
to the end of the computation. -/
def Orders (evolution : Evolution powers) (run : Evaluator → Run α) (self : Evaluator) : Prop :=
  ∀ machine, PartsLead evolution run self machine →
    (∀ frame, Performs run self machine frame →
      evolution.Leads (self.after frame) ((run self).machineAfter machine)) ∧
    ∀ first second, PerformsBefore run self machine first second →
      evolution.Leads (self.after first) second.machine

namespace Orders

theorem effect (run : Run α) : Orders evolution (fun _ => run) self :=
  fun _ _ => ⟨fun _ performs => absurd performs (unaffected_const run).not_performs,
    fun _ _ before => absurd before.later (unaffected_const run).not_performs⟩

theorem perform (task : Task) : Orders evolution (fun self => self.perform task) self := by
  refine fun machine _ => ⟨fun frame performs => ?_, fun first second before => ?_⟩
  · rw [(performs_perform_iff task).mp performs]
    exact evolution.refl _
  · have isSecond := (performs_perform_iff task).mp before.later
    have isFirst := (performs_perform_iff task).mp (before.earlier .outOfFuel)
    exact absurd (isFirst.trans isSecond.symm) before.differs

theorem bind (transparent : Transparent run) (firstOrders : Orders evolution run self)
    (secondRespects : ∀ value, Respects evolution (next value) self)
    (secondOrders : ∀ value, Orders evolution (next value) self) :
    Orders evolution (sequence run next) self := by
  intro machine parts
  rcases firstOrders machine fun frame performs => parts frame performs.bind_first with
    ⟨endsFirst, ordersFirst⟩
  -- Where the first computation performs the later part, it performs the earlier one as well.
  have ofFirst : ∀ first second,
      PerformsBefore (sequence run next) self machine
        first second →
      Performs run self machine second → evolution.Leads (self.after first) second.machine := by
    intro first second before performs
    refine ordersFirst first second ⟨before.differs, fun halt => ?_, performs⟩
    rcases performs halt with ⟨_, halted⟩
    exact (performs_bind_iff_of_error transparent halted).mp (before.earlier halt)
  cases ends : run self machine with
  | error halt middle =>
    refine ⟨fun frame performs => ?_, fun first second before => ?_⟩
    · rw [Run.machineAfter_bind_of_error ends, ← Run.machineAfter_of_error ends]
      exact endsFirst frame ((performs_bind_iff_of_error transparent ends).mp performs)
    · exact ofFirst first second before
        ((performs_bind_iff_of_error transparent ends).mp before.later)
  | ok value middle =>
    have laterParts : PartsLead evolution (next value) self middle := fun frame performs =>
      parts frame ((performs_bind_iff_of_ok transparent ends).mpr (.inr performs))
    rcases secondRespects value middle laterParts with ⟨afterSecond, duringSecond⟩
    rcases secondOrders value middle laterParts with ⟨endsSecond, ordersSecond⟩
    have leadsMiddle : ∀ frame, Performs run self machine frame →
        evolution.Leads (self.after frame) middle := by
      intro frame performs
      rw [← Run.machineAfter_of_ok ends]
      exact endsFirst frame performs
    rw [Run.machineAfter_bind_of_ok ends]
    refine ⟨fun frame performs => ?_, fun first second before => ?_⟩
    · rcases (performs_bind_iff_of_ok transparent ends).mp performs with early | late
      · exact evolution.trans (leadsMiddle frame early) afterSecond
      · exact endsSecond frame late
    · rcases transparent self machine second with performs | notSecond
      · exact ofFirst first second before performs
      · have late := (notSecond.performs_bind_iff ends).mp before.later
        rcases transparent self machine first with early | notFirst
        · exact evolution.trans (leadsMiddle first early) (duringSecond second late)
        · refine ordersSecond first second ⟨before.differs, fun halt => ?_, late⟩
          have stillEnds := (notSecond halt).trans ends
          rcases (performs_bind_iff_of_ok transparent stillEnds).mp (before.earlier halt) with
            early | earlier
          · exact absurd early
              (notFirst.not_performs_haltingAt transparent ends before.differs halt)
          · exact earlier

theorem bracket (restores : ∀ kept machine, evolution.Leads machine (restore kept machine))
    (inside : Orders evolution body self) :
    Orders evolution (fun self => Run.bracket save enter restore (body self)) self := by
  intro machine parts
  rcases inside (enter machine) fun frame performs =>
    parts frame (performs_bracket_iff.mpr performs) with ⟨ends, orders⟩
  refine ⟨fun frame performs => ?_, fun first second before => orders first second
    ⟨before.differs, fun halt => performs_bracket_iff.mp (before.earlier halt),
      performs_bracket_iff.mp before.later⟩⟩
  rw [Run.machineAfter_bracket]
  exact evolution.trans (ends frame (performs_bracket_iff.mp performs)) (restores _ _)

theorem around (surrounding : Surrounding) (inside : Orders evolution body self) :
    Orders evolution (fun self => surrounding.around (body self)) self := by
  simp only [surrounding.around_eq_bracket]
  exact .bracket (evolution.leave surrounding) inside

end Orders

theorem ComposedWithin.orders (composed : Composed powers run) : Orders evolution run self := by
  induction composed with
  | effect _ => exact .effect _
  | perform task => exact .perform task
  | bind first second ihFirst ihSecond =>
    exact .bind first.transparent ihFirst (fun value => (second value).respects) ihSecond
  | around surrounding _ _ ih => exact ih.around surrounding
  | passes _ ih =>
    intro machine parts
    rcases ih self.passes machine parts with ⟨ends, orders⟩
    exact ⟨ends, fun first second before =>
      orders first second ⟨before.differs, before.earlier, before.later⟩⟩

/-- An evolution leads through a computation from moment to moment, if its parts respect it. -/
structure Guides (evolution : Evolution powers) (run : Evaluator → Run α)
    (evaluator : Evaluator) : Prop where
  transparent : Transparent run
  respects : Respects evolution run evaluator
  orders : Orders evolution run evaluator

theorem ComposedWithin.guides (composed : Composed powers run) : Guides evolution run self :=
  ⟨composed.transparent, composed.respects, composed.orders⟩

namespace Guides

theorem effect {run : Run α}
    (leads : ∀ machine, evolution.Leads machine (run.machineAfter machine)) :
    Guides evolution (fun _ => run) self where
  transparent := .const run
  respects machine := .const (leads machine)
  orders := .effect run

theorem bind (first : Guides evolution run self)
    (second : ∀ value, Guides evolution (next value) self) :
    Guides evolution (sequence run next) self where
  transparent := first.transparent.bind fun value => (second value).transparent
  respects := first.respects.bind first.transparent fun value => (second value).respects
  orders := first.orders.bind first.transparent (fun value => (second value).respects)
    fun value => (second value).orders

theorem bracket (enters : ∀ machine, evolution.Leads machine (enter machine))
    (restores : ∀ kept machine, evolution.Leads machine (restore kept machine))
    (inside : Guides evolution body self) :
    Guides evolution (fun self => Run.bracket save enter restore (body self)) self where
  transparent := inside.transparent.bracket
  respects := inside.respects.bracket enters restores
  orders := inside.orders.bracket restores

end Guides

end Evaluator

/-! ## Sessions -/

/-- An evolution looks only at what belongs to a session as a whole, and not at the scopes of calls,
the count of open bodies or the code with which a script ends. -/
structure Evolution.OfSession {powers : Powers} (evolution : Evolution powers) : Prop where
  locals : ∀ (machine : Machine) locals,
    evolution.Leads machine { machine with scopes := { machine.scopes with locals } }
  depth : ∀ (machine : Machine) depth, evolution.Leads machine { machine with depth }
  exitCode : ∀ (machine : Machine) exitCode, evolution.Leads machine { machine with exitCode }

namespace Evaluator

variable {self : Evaluator}

/-- What an evaluator can be asked for, in a session or by code that runs. -/
inductive Activity where
  | part (task : Task)
  | script (program : Program)
  | call (name : String) (span : Span) (arguments : List Value)

namespace Activity

@[reducible]
def Result : Activity → Type
  | .part task => task.Result
  | .script _ => Flow
  | .call .. => Value

/-- An activity as a computation. The parts that it performs are left to an evaluator. -/
def run : (activity : Activity) → Evaluator → Run activity.Result
  | .part task => fun self => task.step self
  | .script program => fun self => self.script program
  | .call name span arguments => fun self => self.callFunction name span arguments

end Activity

section OfSession

variable {powers : Powers} {evolution : Evolution powers}

theorem Guides.runFunction (ofSession : evolution.OfSession) (function : UserFunction)
    (arguments : List Value) :
    Guides evolution (fun self => self.runFunction function arguments) self := by
  have parameters : Composed powers fun self =>
      self.bindParameters function.name.node 1 function.parameters arguments :=
    .bindParameters _ _ _ _
  have body : Composed powers fun self => self.block function.body := .block _
  simp only [Evaluator.runFunction, Run.inCall, Run.inBody, Run.between, Run.outsideLoops]
  refine .bracket ?_ ?_ (.bind parameters.guides fun _ =>
    .bracket ?_ ?_ (.bracket ?_ ?_ body.guides))
  · exact fun machine => ofSession.locals machine _
  · exact fun locals machine => ofSession.locals machine locals
  · exact fun machine => ofSession.depth machine _
  · exact fun _ machine => ofSession.depth machine _
  · exact fun machine => evolution.surroundings machine _ _ _
  · exact fun _ machine => evolution.surroundings machine _ _ _

theorem Guides.callDeclared (ofSession : evolution.OfSession) (function : DeclaredFunction)
    (arguments : List Value) :
    Guides evolution (fun self => self.callDeclared function arguments) self := by
  have fails : ∀ problem, Guides evolution (fun _ => (Run.fail problem : Run Value)) self :=
    fun problem => .effect fun machine => evolution.refl machine
  refine .bind (.effect fun machine => evolution.refl machine) fun machine => ?_
  split
  · exact fails _
  · simp only [runDeclared, Run.inFile]
    split
    · exact fails _
    · refine .bind (.bracket ?_ ?_ (.runFunction ofSession _ arguments)) fun flow => ?_
      · exact fun machine => evolution.surroundings machine _ _ _
      · exact fun _ machine => evolution.surroundings machine _ _ _
      · exact .effect fun machine => evolution.changes (Run.HasEffect.ofExcept _ machine)

end OfSession

theorem Guides.activity {pulls : String → Prop} {evolution : Evolution (.pulling pulls)}
    (ofSession : evolution.OfSession) {activity : Activity}
    (pulling : ∀ mode operand span,
      activity = .part (.expression ⟨.includeFile mode operand, span⟩) → ∀ path, pulls path) :
    Guides evolution activity.run self := by
  match activity with
  | .part (.expression code) =>
    have composed : Composed (.pulling pulls) fun self => self.expressionStep code := by
      refine .expressionStep_of_pulls (fun _ => trivial) fun mode operand same => ?_
      obtain ⟨node, span⟩ := code
      cases same
      exact pulling mode operand span rfl
    exact composed.guides
  | .part (.statement code) =>
    have composed : Composed (.pulling pulls) fun self => self.statementStep code :=
      ComposedWithin.statementStep (Composed.admits _) (fun _ _ => trivial) fun _ _ => trivial
    exact composed.guides
  | .part (.call function arguments) => exact .callDeclared ofSession function arguments
  | .call name span arguments => exact (Composed.callFunction name span arguments).guides
  | .script program =>
    have statements : Composed (.pulling pulls) fun self =>
        Run.hoist program.statements >>= fun _ => self.block program.statements :=
      .bind (.effect (.hoist_of_declares fun _ _ => trivial)) fun _ =>
        Composed.block program.statements
    refine .bind (.effect fun machine => ?_) fun _ => statements.guides
    exact evolution.trans (ofSession.depth machine 0)
      (evolution.trans (ofSession.exitCode _ 0) (evolution.surroundings _ 0 0 _))

end Evaluator

theorem Evolution.OfSession.survivesCalls {powers : Powers} {evolution : Evolution powers}
    (ofSession : evolution.OfSession) : evolution.SurvivesCalls where
  body := ofSession.depth
  scope _ leads :=
    evolution.trans (ofSession.locals _ _) (evolution.trans leads (ofSession.locals _ _))

namespace Machine

open Evaluator

/-- The steps from one moment of a session to a later one: what is done from outside, and how an
activity gets to its first part, from part to part and from its last part to its end. -/
inductive Moves : Machine → Machine → Prop
  | compile {machine : Machine} (source : String) :
      Moves machine ((Run.compile source).machineAfter machine)
  | run {machine : Machine} (depth : Nat) (program : Program) :
      Moves machine (machine.run depth program).2
  | process {machine : Machine} (depth : Nat) (source : String) :
      Moves machine (machine.process depth source).2
  | takeOutput {machine : Machine} : Moves machine machine.takeOutput.2
  | line {machine after : Machine} {surroundings : Surroundings} {line shown : String}
      (answers : Shell.reply surroundings machine line = .answer shown after)
      (goesOn : (Text.settleBackspaces? line.toList).map Text.trim ≠ some ":reset".toList) :
      Moves machine after
  | whole {machine : Machine} (depth : Nat) (activity : Activity) :
      Moves machine ((activity.run (ofDepth depth)).machineAfter machine)
  | first {machine : Machine} {depth : Nat} {activity : Activity} {frame : Frame}
      (performs : Performs activity.run (ofDepth depth) machine frame) :
      Moves machine frame.machine
  | next {machine : Machine} {depth : Nat} {activity : Activity} {first second : Frame}
      (before : PerformsBefore activity.run (ofDepth depth) machine first second) :
      Moves ((ofDepth depth).after first) second.machine
  | last {machine : Machine} {depth : Nat} {activity : Activity} {frame : Frame}
      (performs : Performs activity.run (ofDepth depth) machine frame) :
      Moves ((ofDepth depth).after frame) ((activity.run (ofDepth depth)).machineAfter machine)
  | exit {machine : Machine} (exitCode : Int64) : Moves machine { machine with exitCode }

/-- Some steps lead from one moment to another. -/
def Later : Machine → Machine → Prop := Relation.ReflTransGen Moves

end Machine

namespace Evolution

variable {powers : Powers} (evolution : Evolution powers)

theorem leads_compile (source : String) (machine : Machine) :
    evolution.Leads machine ((Run.compile source).machineAfter machine) :=
  evolution.changes ((Run.HasEffect.bind .get fun _ => .read .sections _ source) machine)

theorem leads_takeOutput (machine : Machine) : evolution.Leads machine machine.takeOutput.2 :=
  evolution.change (.output _)

end Evolution

namespace Evolution.OfSession

open Evaluator

theorem leads_conclude {powers : Powers} {evolution : Evolution powers}
    (ofSession : evolution.OfSession) (run : Run Flow) (machine : Machine)
    (leads : evolution.Leads machine (run.machineAfter machine)) :
    evolution.Leads machine (Machine.conclude (run machine)).2 := by
  cases ends : run machine with
  | ok flow after =>
    rw [Run.machineAfter_of_ok ends] at leads
    exact leads
  | error halt after =>
    rw [Run.machineAfter_of_error ends] at leads
    cases halt with
    | outOfFuel | unread path => exact leads
    | problem _ | exit code => exact evolution.trans leads (ofSession.exitCode after _)

variable {evolution : Evolution .all} (ofSession : evolution.OfSession) {machine after : Machine}
  {shown : String} {surroundings : Surroundings}
include ofSession

theorem guides_activity (activity : Activity) (self : Evaluator) :
    Guides evolution activity.run self :=
  .activity ofSession fun _ _ _ _ _ => trivial

theorem partsLead {α : Type} (run : Evaluator → Run α) (depth : Nat) (machine : Machine) :
    PartsLead evolution run (ofDepth depth) machine :=
  fun frame _ => Evaluator.leads_perform ofSession.survivesCalls depth frame.task frame.machine
    fun _ _ _ _ _ _ => trivial

theorem leads_activity (activity : Activity) (depth : Nat) (machine : Machine) :
    evolution.Leads machine ((activity.run (ofDepth depth)).machineAfter machine) :=
  ((ofSession.guides_activity activity _).respects machine (ofSession.partsLead _ _ _)).1

theorem leads_run (machine : Machine) (depth : Nat) (program : Program) :
    evolution.Leads machine (machine.run depth program).2 :=
  ofSession.leads_conclude _ machine (ofSession.leads_activity (.script program) depth machine)

theorem leads_process (machine : Machine) (depth : Nat) (source : String) :
    evolution.Leads machine (machine.process depth source).2 := by
  refine evolution.trans (ofSession.leads_conclude _ machine ?_) (evolution.leads_takeOutput _)
  refine Run.related_bind evolution.trans (evolution.leads_compile source machine) ?_
  exact fun program middle _ => ofSession.leads_activity (.script program) depth middle

theorem leads_perform {source : String} (performs : machine.perform source = .ok (shown, after)) :
    evolution.Leads machine after := by
  unfold Machine.perform at performs
  have leads := ofSession.leads_process machine Run.ampleDepth source
  generalize machine.process Run.ampleDepth source = result at performs leads
  rcases result with ⟨outcome, ended⟩
  dsimp only at performs leads
  split at performs
  · cases performs
  · cases performs
    exact leads

theorem leads_replyTrimmed {line : List Char}
    (answers : Shell.replyTrimmed surroundings machine line = .answer shown after)
    (goesOn : line ≠ ":reset".toList) : evolution.Leads machine after := by
  unfold Shell.replyTrimmed at answers
  split at answers
  · cases answers
    exact evolution.refl machine
  · rename_i rest
    have notReset : String.ofList (':' :: rest) ≠ ":reset" := fun isReset =>
      goesOn (by rw [← isReset, String.toList_ofList])
    unfold Shell.command at answers
    rw [if_neg notReset] at answers
    split at answers
    · cases answers
    · split at answers
      · cases answers
        exact evolution.refl machine
      · split at answers <;> cases answers <;> exact evolution.refl machine
  · split at answers
    · rename_i performs
      cases answers
      exact ofSession.leads_perform performs
    · cases answers

theorem leads_line {line : String}
    (answers : Shell.reply surroundings machine line = .answer shown after)
    (goesOn : (Text.settleBackspaces? line.toList).map Text.trim ≠ some ":reset".toList) :
    evolution.Leads machine after := by
  unfold Shell.reply at answers
  split at answers
  · rename_i settled isSettled
    rw [isSettled] at goesOn
    exact ofSession.leads_replyTrimmed answers fun isReset => goesOn (congrArg some isReset)
  · cases answers

theorem leads_of_moves (moves : machine.Moves after) : evolution.Leads machine after := by
  cases moves with
  | compile source => exact evolution.leads_compile source machine
  | run depth program => exact ofSession.leads_run machine depth program
  | process depth source => exact ofSession.leads_process machine depth source
  | takeOutput => exact evolution.leads_takeOutput machine
  | line answers goesOn => exact ofSession.leads_line answers goesOn
  | whole depth activity => exact ofSession.leads_activity activity depth machine
  | @first _ depth activity frame performs =>
    have guides := ofSession.guides_activity activity (ofDepth depth)
    exact (guides.respects machine (ofSession.partsLead _ _ _)).2 frame performs
  | @next start depth activity first second before =>
    have guides := ofSession.guides_activity activity (ofDepth depth)
    exact (guides.orders start (ofSession.partsLead _ _ _)).2 first second before
  | @last start depth activity frame performs =>
    have guides := ofSession.guides_activity activity (ofDepth depth)
    exact (guides.orders start (ofSession.partsLead _ _ _)).1 frame performs
  | exit exitCode => exact ofSession.exitCode machine exitCode

theorem leads_of_later (later : machine.Later after) : evolution.Leads machine after := by
  induction later with
  | refl => exact evolution.refl machine
  | tail _ moves ih => exact evolution.trans ih (ofSession.leads_of_moves moves)

end Evolution.OfSession

end PhpScript
