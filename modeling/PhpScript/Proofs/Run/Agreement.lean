import PhpScript.Proofs.Run.Performance
import PhpScript.Proofs.Run.Steady

/-!
# Steady computations with parts

A computation that hands parts of the code to an evaluator is steady as far as these parts are. It
performs them only on regular machines, and passes only regular arguments to functions. The notion
is pointwise, for one evaluator and one machine to start from: the rule for sequences hands on
whatever is known about the end of the first computation.
-/

namespace PhpScript

/-- A value that is returned is regular. -/
def Flow.Regular : Flow → Prop
  | .ret value => value.orNull.Regular
  | _ => True

def Task.Yields : (task : Task) → task.Result → Prop
  | .expression _ => Value.Regular
  | .statement _ => Flow.Regular
  | .call _ _ => Value.Regular

variable {calls : String → List Value → Prop}

/-- A part that is performed on a regular machine; a call passes regular arguments. -/
structure Frame.Regular (calls : String → List Value → Prop) (frame : Frame) : Prop where
  machine : frame.machine.Regular
  arguments : ∀ function arguments, frame.task = .call function arguments →
    AllRegular arguments ∧ (PassesFew calls → arguments.length < elementLimit)

namespace Evaluator

variable {α β : Type} {holds : α → Prop} {post : β → Prop} {self : Evaluator} {machine : Machine}

/-- The parts that a computation performs end in the same way on alike machines. -/
def PartsAgree (calls : String → List Value → Prop) (run : Evaluator → Run α) (self : Evaluator)
    (machine : Machine) : Prop :=
  ∀ frame, Performs run self machine frame → frame.Regular calls →
    ∀ twin, frame.machine.Alike calls twin →
      Agree calls frame.task.Yields (self.perform frame.task frame.machine)
        (self.perform frame.task twin)

/-- What a computation does with its parts on a machine. -/
structure Settles (calls : String → List Value → Prop) (holds : α → Prop)
    (run : Evaluator → Run α) (evaluator : Evaluator) (machine : Machine) : Prop where
  transparent : ∀ frame,
    Performs run evaluator machine frame ∨ Unaffected run evaluator machine frame
  agree : ∀ twin, machine.Alike calls twin →
    Agree calls holds (run evaluator machine) (run evaluator twin)
  frames : ∀ frame, Performs run evaluator machine frame → frame.Regular calls

/-- A computation is steady on a machine, as far as its parts are. -/
def SteadyFrom (calls : String → List Value → Prop) (holds : α → Prop) (run : Evaluator → Run α)
    (self : Evaluator) (machine : Machine) : Prop :=
  machine.Regular → PartsAgree calls run self machine → Settles calls holds run self machine

namespace SteadyFrom

theorem effect {run : Run α} (steady : run.Steady calls holds) :
    SteadyFrom calls holds (fun _ => run) self machine := by
  intro regular _
  have nothing : ∀ frame, Unaffected (fun _ => run) self machine frame :=
    fun _ => unaffected_const run
  exact ⟨fun frame => .inr (nothing frame), fun twin alike => steady machine twin regular alike,
    fun frame performs => absurd performs (nothing frame).not_performs⟩

theorem perform (task : Task) (own : machine.Regular → Frame.Regular calls ⟨task, machine⟩) :
    SteadyFrom calls task.Yields (fun self => self.perform task) self machine := by
  intro regular parts
  have performed : Performs (fun self => self.perform task) self machine ⟨task, machine⟩ :=
    (performs_perform_iff task).mpr rfl
  refine ⟨Transparent.perform task self machine, parts _ performed (own regular), ?_⟩
  intro frame performs
  rw [(performs_perform_iff task).mp performs]
  exact own regular

section Sequence

variable {run : Evaluator → Run α} {next : α → Evaluator → Run β} {middle : Machine}

theorem performs_later (transparent : ∀ frame,
      Performs run self machine frame ∨ Unaffected run self machine frame) {value : α}
    (ends : run self machine = .ok value middle) {frame : Frame}
    (performs : Performs (next value) self middle frame) :
    Performs (sequence run next) self machine frame := by
  rcases transparent frame with first | unaffected
  · exact first.bind_first
  · exact (unaffected.performs_bind_iff ends).mpr performs

theorem bind_of_error (first : Settles calls holds run self machine) {halt : Halt}
    (ends : run self machine = .error halt middle) :
    Settles calls post (sequence run next) self machine := by
  refine ⟨fun frame => ?_, fun twin alike => ?_, fun frame performs => ?_⟩
  · rcases first.transparent frame with performs | unaffected
    · exact .inl performs.bind_first
    · exact .inr (unaffected.bind_of_error ends)
  · have both := first.agree twin alike
    rw [ends] at both
    generalize endsTwin : run self twin = result at both
    cases both with
    | error fits regular alike =>
      simp only [sequence, Run.bind_of_error ends, Run.bind_of_error endsTwin]
      exact .error fits regular alike
  · rcases first.transparent frame with earlier | unaffected
    · exact first.frames frame earlier
    · exact absurd performs (unaffected.bind_of_error ends).not_performs

theorem bind_of_ok (first : Settles calls holds run self machine) {value : α}
    (ends : run self machine = .ok value middle)
    (later : Settles calls post (next value) self middle) :
    Settles calls post (sequence run next) self machine := by
  refine ⟨fun frame => ?_, fun twin alike => ?_, fun frame performs => ?_⟩
  · rcases first.transparent frame with performs | unaffected
    · exact .inl performs.bind_first
    · rcases later.transparent frame with performs | unaffectedLater
      · exact .inl ((unaffected.performs_bind_iff ends).mpr performs)
      · exact .inr (unaffected.bind ends unaffectedLater)
  · have both := first.agree twin alike
    rw [ends] at both
    generalize endsTwin : run self twin = result at both
    cases both with
    | ok valid regular alike =>
      simp only [sequence, Run.bind_of_ok ends, Run.bind_of_ok endsTwin]
      exact later.agree _ alike
  · rcases first.transparent frame with earlier | unaffected
    · exact first.frames frame earlier
    · exact later.frames frame ((unaffected.performs_bind_iff ends).mp performs)

theorem bind (first : SteadyFrom calls holds run self machine)
    (second : ∀ value middle, run self machine = .ok value middle → holds value →
      SteadyFrom calls post (next value) self middle) :
    SteadyFrom calls post (sequence run next) self machine := by
  intro regular parts
  have early := first regular fun frame performs => parts frame performs.bind_first
  -- A machine is alike to itself, so what is known of two runs also says that the machine in
  -- between is regular.
  have own := early.agree machine .same
  generalize ends : run self machine = result at own
  cases own with
  | error _ _ _ => exact bind_of_error early ends
  | ok valid regularMiddle _ =>
    refine bind_of_ok early ends (second _ _ ends valid regularMiddle fun frame performs => ?_)
    exact parts frame (performs_later early.transparent ends performs)

end Sequence

theorem bind_get {next : Machine → Evaluator → Run α}
    (unreported : ∀ output reporting setting, output.level = machine.output.level →
      next (machine.reportingAs output reporting setting) self = next machine self)
    (second : machine.Regular → SteadyFrom calls holds (next machine) self machine) :
    SteadyFrom calls holds (fun self => MonadState.get >>= fun machine => next machine self) self
      machine := by
  intro regular parts
  have later := second regular regular parts
  refine ⟨later.transparent, fun twin alike => ?_, later.frames⟩
  have both := later.agree twin alike
  change Agree calls holds (next machine self machine) (next twin self twin)
  cases alike with
  | same => exact both
  | reports unasked output reporting setting level =>
    rw [unreported output reporting setting level]
    exact both

theorem bracket {saved : Type} {save : Machine → saved} {enter : Machine → Machine}
    {restore : saved → Machine → Machine} {body : Evaluator → Run α}
    (saves : ∀ output reporting setting,
      save (machine.reportingAs output reporting setting) = save machine)
    (enters : Machine.LeavesReports enter)
    (restores : ∀ saved, Machine.LeavesReports (restore saved))
    (entered : machine.Regular → (enter machine).Regular)
    (left : machine.Regular → ∀ after, after.Regular → (restore (save machine) after).Regular)
    (inside : SteadyFrom calls holds body self (enter machine)) :
    SteadyFrom calls holds (fun self => Run.bracket save enter restore (body self)) self
      machine := by
  intro regular parts
  have within := inside (entered regular) fun frame performs =>
    parts frame (performs_bracket_iff.mpr performs)
  refine ⟨fun frame => ?_, fun twin alike => ?_, fun frame performs => ?_⟩
  · rcases within.transparent frame with performs | unaffected
    · exact .inl (performs_bracket_iff.mpr performs)
    · right
      intro halt
      simp only [Run.bracket, unaffected halt]
  · have both := within.agree (enter twin) (alike.map enters)
    have sameSaved : save twin = save machine := by
      cases alike with
      | same => rfl
      | reports _ output reporting setting _ => exact saves output reporting setting
    simp only [Run.bracket, sameSaved]
    generalize body self (enter machine) = result at both
    generalize body self (enter twin) = resultTwin at both
    cases both with
    | ok valid regularAfter alikeAfter =>
      exact .ok valid (left regular _ regularAfter) (alikeAfter.map (restores _))
    | error fits regularAfter alikeAfter =>
      exact .error fits (left regular _ regularAfter) (alikeAfter.map (restores _))
  · exact within.frames frame (performs_bracket_iff.mp performs)

end SteadyFrom

end Evaluator

end PhpScript
