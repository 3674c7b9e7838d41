import PhpScript.Proofs.Run.Context

/-!
# The parts that are performed in a run

A computation performs a part of the code on a machine if it depends on how that part ends there:
were the part halted, the computation would end with that halt. This gives the points of a run
without a second semantics: a point is reached through a stack of open parts, each of which performs
the one above it.

For a transparent computation, halting a part that is not performed makes no difference. The parts
of a sequence are then those of its first computation and, where that one ends with a value, those
of the second.
-/

namespace PhpScript

/-- A part and the machine on which it is performed. -/
structure Frame where
  task : Task
  machine : Machine

namespace Machine

def inCall (machine : Machine) (function : String) : Machine :=
  { machine with scopes := { machine.scopes with locals := [{ function }] } }

def inBody (machine : Machine) : Machine :=
  { machine with depth := machine.depth + 1, loopDepth := 0 }

end Machine

namespace Evaluator

variable {α β : Type}

open Classical in
/-- The evaluator that halts where a part would be performed on a machine. -/
noncomputable def haltingAt (self : Evaluator) (frame : Frame) (halt : Halt) : Evaluator where
  passes := self.passes
  expression := fun code machine =>
    if frame = ⟨.expression code, machine⟩ then .error halt machine
    else self.expression code machine
  statement := fun code machine =>
    if frame = ⟨.statement code, machine⟩ then .error halt machine
    else self.statement code machine
  function := fun function arguments machine =>
    if frame = ⟨.call function arguments, machine⟩ then .error halt machine
    else self.function function arguments machine

theorem perform_haltingAt_self (self : Evaluator) (task : Task) (machine : Machine) (halt : Halt) :
    (self.haltingAt ⟨task, machine⟩ halt).perform task machine = .error halt machine := by
  cases task <;> simp [perform, haltingAt]

theorem perform_haltingAt_of_ne {self : Evaluator} {frame : Frame} {task : Task}
    {machine : Machine} (differs : frame ≠ ⟨task, machine⟩) (halt : Halt) :
    (self.haltingAt frame halt).perform task machine = self.perform task machine := by
  cases task <;> simp [perform, haltingAt, differs]

abbrev sequence (run : Evaluator → Run α) (next : α → Evaluator → Run β) : Evaluator → Run β :=
  fun self => run self >>= fun value => next value self

/-- A computation performs a part: it ends with whatever halt the part ends with. -/
def Performs (run : Evaluator → Run α) (self : Evaluator) (machine : Machine) (frame : Frame) :
    Prop :=
  ∀ halt, ∃ after, run (self.haltingAt frame halt) machine = .error halt after

/-- Halting the part makes no difference. -/
def Unaffected (run : Evaluator → Run α) (self : Evaluator) (machine : Machine) (frame : Frame) :
    Prop :=
  ∀ halt, run (self.haltingAt frame halt) machine = run self machine

/-- Halting a part that is not performed makes no difference. -/
def Transparent (run : Evaluator → Run α) : Prop :=
  ∀ self machine frame, Performs run self machine frame ∨ Unaffected run self machine frame

variable {self : Evaluator} {machine : Machine} {frame : Frame} {saved : Type}
  {save : Machine → saved} {enter : Machine → Machine} {restore : saved → Machine → Machine}
  {body : Evaluator → Run α}

theorem Unaffected.not_performs {run : Evaluator → Run α}
    (unaffected : Unaffected run self machine frame) : ¬Performs run self machine frame := by
  intro performs
  rcases performs .outOfFuel with ⟨first, endsFirst⟩
  rcases performs (.unread "") with ⟨second, endsSecond⟩
  rw [unaffected] at endsFirst endsSecond
  rw [endsFirst] at endsSecond
  cases endsSecond

theorem unaffected_const (run : Run α) : Unaffected (fun _ => run) self machine frame :=
  fun _ => rfl

section Sequence

variable {run : Evaluator → Run α} {next : α → Evaluator → Run β}

theorem Performs.bind_first (performs : Performs run self machine frame) :
    Performs (sequence run next) self machine frame := by
  intro halt
  rcases performs halt with ⟨after, ends⟩
  exact ⟨after, Run.bind_of_error ends⟩

theorem Unaffected.bind_of_error (unaffected : Unaffected run self machine frame) {halt : Halt}
    {after : Machine} (ends : run self machine = .error halt after) :
    Unaffected (sequence run next) self machine frame :=
  fun other => (Run.bind_of_error ((unaffected other).trans ends)).trans
    (Run.bind_of_error ends).symm

theorem Unaffected.performs_bind_iff (unaffected : Unaffected run self machine frame) {value : α}
    {middle : Machine} (ends : run self machine = .ok value middle) :
    Performs (sequence run next) self machine frame ↔
      Performs (next value) self middle frame := by
  apply forall_congr'
  intro halt
  dsimp only [sequence]
  rw [Run.bind_of_ok ((unaffected halt).trans ends)]

theorem Unaffected.bind (unaffected : Unaffected run self machine frame) {value : α}
    {middle : Machine} (ends : run self machine = .ok value middle)
    (later : Unaffected (next value) self middle frame) :
    Unaffected (sequence run next) self machine frame := by
  intro halt
  dsimp only [sequence]
  rw [Run.bind_of_ok ((unaffected halt).trans ends), Run.bind_of_ok ends]
  exact later halt

end Sequence

theorem performs_perform_iff (task : Task) :
    Performs (fun self => self.perform task) self machine frame ↔ frame = ⟨task, machine⟩ := by
  constructor
  · intro performs
    by_cases same : frame = ⟨task, machine⟩
    · exact same
    · exact absurd performs (Unaffected.not_performs (perform_haltingAt_of_ne same))
  · rintro rfl halt
    exact ⟨machine, perform_haltingAt_self self task machine halt⟩

theorem performs_bracket_iff :
    Performs (fun self => Run.bracket save enter restore (body self)) self machine frame ↔
      Performs body self (enter machine) frame := by
  apply forall_congr'
  intro halt
  simp only [Run.bracket]
  cases body (self.haltingAt frame halt) (enter machine) <;> simp

theorem performs_around_iff {surrounding : Surrounding} :
    Performs (fun self => surrounding.around (body self)) self machine frame ↔
      Performs body self (surrounding.enter machine) frame := by
  simp only [surrounding.around_eq_bracket, performs_bracket_iff]

namespace Transparent

theorem const (run : Run α) : Transparent fun _ => run :=
  fun _ _ _ => .inr (unaffected_const run)

theorem perform (task : Task) : Transparent fun self => self.perform task := by
  intro self machine frame
  by_cases same : frame = ⟨task, machine⟩
  · exact .inl ((performs_perform_iff task).mpr same)
  · exact .inr (perform_haltingAt_of_ne same)

theorem bind {run : Evaluator → Run α} {next : α → Evaluator → Run β} (first : Transparent run)
    (second : ∀ value, Transparent (next value)) : Transparent (sequence run next) := by
  intro self machine frame
  rcases first self machine frame with performs | unaffected
  · exact .inl performs.bind_first
  · cases ends : run self machine with
    | error own after => exact .inr (unaffected.bind_of_error ends)
    | ok value middle =>
      rcases second value self middle frame with performs | later
      · exact .inl ((unaffected.performs_bind_iff ends).mpr performs)
      · exact .inr (unaffected.bind ends later)

theorem bracket (transparent : Transparent body) :
    Transparent fun self => Run.bracket save enter restore (body self) := by
  intro self machine frame
  rcases transparent self (enter machine) frame with performs | unaffected
  · exact .inl (performs_bracket_iff.mpr performs)
  · right
    intro halt
    simp only [Run.bracket, unaffected halt]

theorem around (surrounding : Surrounding) (transparent : Transparent body) :
    Transparent fun self => surrounding.around (body self) := by
  simp only [surrounding.around_eq_bracket]
  exact transparent.bracket

end Transparent

variable {run : Evaluator → Run α} {next : α → Evaluator → Run β}

theorem ComposedWithin.transparent {rules : Rules} (composed : ComposedWithin rules run) :
    Transparent run := by
  induction composed with
  | effect _ => exact .const _
  | perform task => exact .perform task
  | bind _ _ ihFirst ihSecond => exact ihFirst.bind ihSecond
  | around surrounding _ _ ih => exact ih.around surrounding
  | passes _ ih => exact fun self => ih self.passes self

theorem performs_bind_iff (transparent : Transparent run) :
    Performs (sequence run next) self machine frame ↔
      Performs run self machine frame ∨
        ∃ value middle, run self machine = .ok value middle ∧
          Performs (next value) self middle frame := by
  rcases transparent self machine frame with first | unaffected
  · exact ⟨fun _ => .inl first, fun _ => first.bind_first⟩
  · cases ends : run self machine with
    | error own after =>
      constructor
      · exact fun performs => absurd performs (unaffected.bind_of_error ends).not_performs
      · rintro (first | ⟨_, _, ends, _⟩)
        · exact first.bind_first
        · cases ends
    | ok value middle =>
      rw [unaffected.performs_bind_iff ends]
      constructor
      · exact fun later => .inr ⟨value, middle, rfl, later⟩
      · rintro (first | ⟨_, _, same, later⟩)
        · exact absurd first unaffected.not_performs
        · cases same
          exact later

theorem performs_bind_iff_of_ok (transparent : Transparent run) {value : α} {middle : Machine}
    (ends : run self machine = .ok value middle) :
    Performs (sequence run next) self machine frame ↔
      Performs run self machine frame ∨ Performs (next value) self middle frame := by
  simp [performs_bind_iff transparent, ends, and_assoc]

theorem performs_bind_iff_of_error (transparent : Transparent run) {halt : Halt} {middle : Machine}
    (ends : run self machine = .error halt middle) :
    Performs (sequence run next) self machine frame ↔
      Performs run self machine frame := by
  simp [performs_bind_iff transparent, ends]

theorem performs_effect_bind_iff {run : Run α} :
    Performs (fun self => run >>= fun value => next value self) self machine frame ↔
      ∃ value middle, run machine = .ok value middle ∧ Performs (next value) self middle frame :=
  (performs_bind_iff (.const run)).trans (or_iff_right (unaffected_const run).not_performs)

theorem ComposedWithin.allows_of_performs {rules : Rules} (composed : ComposedWithin rules run)
    (performs : Performs run self machine frame) : rules.allows frame.task := by
  induction composed generalizing machine with
  | effect _ => exact absurd performs (unaffected_const _).not_performs
  | perform task allowed =>
    rw [(performs_perform_iff task).mp performs]
    exact allowed
  | bind first _ ihFirst ihSecond =>
    rcases (performs_bind_iff first.transparent).mp performs with early | ⟨value, _, _, late⟩
    · exact ihFirst early
    · exact ihSecond value late
  | around _ _ _ ih => exact ih (performs_around_iff.mp performs)
  | passes _ ih => exact ih self.passes performs

theorem ComposedWithin.exists_code (composed : ComposedWithin .expressions run)
    (performs : Performs run self machine frame) : ∃ code, frame.task = .expression code := by
  have allowed := composed.allows_of_performs performs
  rcases frame with ⟨code | code | ⟨function, arguments⟩, machine⟩
  · exact ⟨code, rfl⟩
  · rcases allowed with ⟨_, isExpression⟩
    cases isExpression
  · exact absurd allowed id

/-! ## Calls of declared functions -/

section Calls

variable {function : UserFunction} {declared : DeclaredFunction} {arguments : List Value}

theorem composed_bindParameters (name : String) (position : Nat) (parameters : List ParameterDecl)
    (arguments : List Value) :
    ComposedWithin .expressions fun self =>
      self.bindParameters name position parameters arguments :=
  .bindParameters name position arguments fun _ _ => Rules.admits_expressions _

theorem transparent_bindParameters (name : String) (position : Nat)
    (parameters : List ParameterDecl) :
    Transparent fun self => self.bindParameters name position parameters arguments :=
  (composed_bindParameters name position parameters arguments).transparent

theorem performs_runFunction_iff :
    Performs (fun self => self.runFunction function arguments) self machine frame ↔
      Performs (fun self =>
          self.bindParameters function.name.node 1 function.parameters arguments)
        self (machine.inCall function.name.node) frame ∨
      ∃ middle,
        self.bindParameters function.name.node 1 function.parameters arguments
            (machine.inCall function.name.node) = .ok () middle ∧
          Performs (fun self => self.block function.body) self middle.inBody frame := by
  simp only [runFunction, Run.inCall, performs_bracket_iff]
  rw [performs_bind_iff (transparent_bindParameters _ _ _)]
  simp only [Run.inBody, Run.between, Run.outsideLoops, performs_bracket_iff]
  refine or_congr Iff.rfl ⟨?_, ?_⟩
  · rintro ⟨_, middle, bound⟩
    exact ⟨middle, bound⟩
  · rintro ⟨middle, bound⟩
    exact ⟨(), middle, bound⟩

theorem transparent_runFunction : Transparent fun self => self.runFunction function arguments := by
  have body : Transparent fun self => self.block function.body :=
    (Composed.block function.body : Composed noImports _).transparent
  simp only [runFunction, Run.inCall, Run.inBody, Run.between, Run.outsideLoops]
  exact .bracket ((transparent_bindParameters _ _ _).bind fun _ => body.bracket.bracket)

theorem callDeclared_eq (self : Evaluator) (machine : Machine) :
    self.callDeclared declared arguments machine =
      if machine.settings.nestingLimit ≤ machine.depth then
        .error (.problem (.nestingLimit machine.settings.nestingLimit)) machine
      else self.runDeclared declared arguments machine := by
  change (if machine.settings.nestingLimit ≤ machine.depth then
      Run.fail (.nestingLimit machine.settings.nestingLimit)
    else self.runDeclared declared arguments) machine = _
  split <;> rfl

theorem performs_callDeclared_iff :
    Performs (fun self => self.callDeclared declared arguments) self machine frame ↔
      machine.depth < machine.settings.nestingLimit ∧
        declared.declaration.requiredCount ≤ arguments.length ∧
          Performs (fun self => self.runFunction declared.declaration arguments) self
            { machine with file := declared.file } frame := by
  by_cases refused : machine.settings.nestingLimit ≤ machine.depth
  · have nothing : Unaffected (fun self => self.callDeclared declared arguments)
        self machine frame := fun halt => by simp only [callDeclared_eq, if_pos refused]
    refine iff_of_false nothing.not_performs fun admitted => ?_
    exact absurd admitted.1 (Nat.not_lt.mpr refused)
  · have depth := Nat.not_le.mp refused
    simp only [Performs, callDeclared_eq, if_neg refused, depth, true_and]
    change Performs (fun self => self.runDeclared declared arguments) self machine frame ↔ _
    by_cases tooFew : arguments.length < declared.declaration.requiredCount
    · have nothing : Unaffected (fun self => self.runDeclared declared arguments)
          self machine frame := fun halt => by simp only [runDeclared, if_pos tooFew]
      exact iff_of_false nothing.not_performs fun enough => absurd enough.1 (Nat.not_le.mpr tooFew)
    · have enough := Nat.not_lt.mp tooFew
      simp only [runDeclared, if_neg tooFew, enough, true_and]
      refine (performs_bind_iff (transparent_runFunction.around (.file declared.file))).trans ?_
      -- What is done with the result performs no part.
      refine (or_iff_left ?_).trans performs_around_iff
      rintro ⟨flow, middle, _, performs⟩
      exact absurd performs (unaffected_const _).not_performs

end Calls

/-! ## Points of a run -/

/-- The parts that are open while a part is performed by the evaluator of some depth, the innermost
first. The index is the depth that is left for the innermost part. -/
inductive OpenParts (depth : Nat) (outermost : Frame) : Nat → List Frame → Prop
  | outermost : OpenParts depth outermost depth [outermost]
  | part {level : Nat} {outer inner : Frame} {rest : List Frame}
      (opened : OpenParts depth outermost (level + 1) (outer :: rest))
      (performs : Performs (fun self => outer.task.step self) (ofDepth level) outer.machine inner) :
      OpenParts depth outermost level (inner :: outer :: rest)

theorem OpenParts.level_le {depth level : Nat} {outermost : Frame} {stack : List Frame}
    (opened : OpenParts depth outermost level stack) : level ≤ depth := by
  induction opened with
  | outermost => exact Nat.le_refl depth
  | part _ _ ih => omega

theorem OpenParts.of_part {depth level : Nat} {outer inner : Frame} {stack : List Frame}
    (performs : Performs (fun self => outer.task.step self) (ofDepth depth) outer.machine inner)
    (opened : OpenParts depth inner level stack) :
    OpenParts (depth + 1) outer level (stack ++ [outer]) := by
  induction opened with
  | outermost => exact .part .outermost performs
  | part _ later ih => exact .part ih later

end Evaluator

end PhpScript
