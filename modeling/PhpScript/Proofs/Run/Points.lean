import PhpScript.Proofs.Run.Calls

/-!
# All points of a run

A run of a script performs parts of its code, and parts of code that is pulled in or evaluated. All
of them are performed on regular machines, they end there with regular values, and they end in the
same way on machines that are alike.
-/

namespace PhpScript

variable {calls : String → List Value → Prop}

namespace Evaluator

variable {α : Type} {self : Evaluator} {machine : Machine} {depth level : Nat}
  {frame outermost : Frame} {stack : List Frame} {run : Evaluator → Run α}

theorem SteadyFrom.expressionStep (code : Located Expr)
    (made : ∀ name values, Frame.Calls self ⟨.expression code, machine⟩ name values →
      calls name values) :
    SteadyFrom calls Value.Regular (fun self => self.expressionStep code) self machine := by
  obtain ⟨node, span⟩ := code
  match node with
  | .null => exact .effect (.pure Value.regular_null)
  | .bool value => exact .effect (.pure (Value.regular_bool value))
  | .int value => exact .effect (.pure (Value.regular_int value))
  | .float value => exact .effect (.pure (Value.regular_float value))
  | .str value => exact .effect (.pure (Value.regular_str value))
  | .interpolated parts =>
    exact .bind (Steady.interpolate "" parts self machine) fun _ _ _ _ =>
      .effect (.pure (Value.regular_str _))
  | .array items => exact Steady.arrayLiteral .empty items self machine
  | .variable name => exact Steady.loadPlace _ self machine
  | .subscript base index =>
    simp only [Evaluator.expressionStep]
    split
    · exact Steady.loadPlace _ self machine
    · exact Steady.subscript span base index self machine
  | .constant name => exact Steady.constant name self machine
  | .magic constant => exact Steady.magic span constant self machine
  | .call callee arguments => exact .call callee span arguments made
  | .assign target value => exact Steady.assign target value self machine
  | .compoundAssign operator target value =>
    exact Steady.compoundAssign span operator target value self machine
  | .coalesceAssign target value => exact Steady.coalesceAssign target value self machine
  | .ternary condition consequent alternative =>
    exact Steady.ternary condition consequent alternative self machine
  | .coalesce left right => exact Steady.coalesce left right self machine
  | .binary left operator right => exact Steady.binary span left operator right self machine
  | .unary operator operand => exact Steady.unary span operator operand self machine
  | .cast type operand => exact Steady.cast span type operand self machine
  | .step operator before target => exact Steady.step operator before target self machine
  | .silence operand => exact Steady.around .silence (.expression operand) self machine
  | .print operand =>
    exact .bind (Steady.text operand self machine) fun text _ _ _ =>
      .bind (.effect (.print text)) fun _ _ _ _ => .effect (.pure (Value.regular_int 1))
  | .isset targets => exact Steady.isset targets self machine
  | .empty target =>
    exact .bind (Steady.quiet? target self machine) fun _ _ _ _ =>
      .effect (.pure (Value.regular_bool _))
  | .exit argument => exact Steady.exit argument self machine
  | .evaluate code => exact Steady.evaluateText span code self machine
  | .includeFile mode path => exact Steady.includeFile mode path self machine

theorem SteadyFrom.step (made : ∀ name values, frame.Calls self name values → calls name values)
    (regular : frame.Regular calls) :
    SteadyFrom calls frame.task.Yields (fun self => frame.task.step self) self frame.machine := by
  rcases frame with ⟨task, machine⟩
  cases task with
  | expression code => exact .expressionStep code made
  | statement code => exact Steady.statementStep code self machine
  | call function arguments =>
    rcases regular.arguments function arguments rfl with ⟨argumentsRegular, few⟩
    exact Steady.callDeclared function argumentsRegular few self machine

/-! ## Parts that are performed -/

theorem OpenParts.trans {lower : Nat} {rest : List Frame}
    (opened : OpenParts depth outermost level (frame :: rest))
    (inside : OpenParts level frame lower stack) :
    OpenParts depth outermost lower (stack ++ rest) := by
  induction inside with
  | outermost => exact opened
  | part _ performs ih => exact .part ih performs

/-- While a part is performed, no other calls are made than some. -/
def CallsOnly (calls : String → List Value → Prop) (depth : Nat) (outermost : Frame) : Prop :=
  ∀ level frame rest, OpenParts depth outermost (level + 1) (frame :: rest) →
    ∀ name values, frame.Calls (ofDepth level) name values → calls name values

theorem CallsOnly.of_openParts {rest : List Frame} (admitted : CallsOnly calls depth outermost)
    (opened : OpenParts depth outermost level (frame :: rest)) : CallsOnly calls level frame :=
  fun lower inner above inside => admitted lower inner (above ++ rest) (opened.trans inside)

theorem agree_perform (depth : Nat) {task : Task} {twin : Machine}
    (admitted : CallsOnly calls depth ⟨task, machine⟩)
    (regular : Frame.Regular calls ⟨task, machine⟩) (alike : machine.Alike calls twin) :
    Agree calls task.Yields ((ofDepth depth).perform task machine)
      ((ofDepth depth).perform task twin) := by
  -- The step lemma asks for the parts of a step on regular machines only; these are performed one
  -- level below, on whatever machines the step has reached by then.
  induction depth generalizing task machine twin with
  | zero =>
    rw [perform_zero, perform_zero]
    exact .error (by rintro _ _ ⟨⟩) regular.machine alike
  | succ depth ih =>
    rw [perform_succ, perform_succ]
    have made := admitted depth ⟨task, machine⟩ [] .outermost
    refine (SteadyFrom.step made regular regular.machine ?_).agree twin alike
    intro frame performs frameRegular other frameAlike
    exact ih (admitted.of_openParts (.part .outermost performs)) frameRegular frameAlike

theorem partsAgree
    (admitted : ∀ frame, Performs run (ofDepth depth) machine frame → CallsOnly calls depth frame) :
    PartsAgree calls run (ofDepth depth) machine :=
  fun frame performs regular _ alike => agree_perform depth (admitted frame performs) regular alike

def anyCall (_ : String) (_ : List Value) : Prop := True

theorem Steady.yields {holds : α → Prop} {after : Machine} {value : α}
    (steady : Steady anyCall holds run) (regular : machine.Regular)
    (ends : run (ofDepth depth) machine = .ok value after) : holds value ∧ after.Regular := by
  have parts : PartsAgree anyCall run (ofDepth depth) machine :=
    partsAgree fun _ _ _ _ _ _ _ _ _ => trivial
  have agree := (steady (ofDepth depth) machine regular parts).agree machine .same
  rw [ends] at agree
  cases agree with
  | ok valid regularAfter _ => exact ⟨valid, regularAfter⟩

theorem regular_of_openParts (admitted : CallsOnly calls depth outermost)
    (regular : outermost.Regular calls) (opened : OpenParts depth outermost level stack) :
    ∀ frame ∈ stack, frame.Regular calls := by
  induction opened with
  | outermost =>
    intro frame member
    rw [List.mem_singleton.mp member]
    exact regular
  | @part level outer inner rest opened performs ih =>
    refine List.forall_mem_cons.mpr ⟨?_, ih⟩
    have outerRegular := ih outer List.mem_cons_self
    have made := admitted level outer rest opened
    have parts : PartsAgree calls (fun self => outer.task.step self) (ofDepth level)
        outer.machine := partsAgree fun frame performs =>
      (admitted.of_openParts opened).of_openParts (.part .outermost performs)
    exact (SteadyFrom.step made outerRegular outerRegular.machine parts).frames inner performs

/-! ## Scripts -/

theorem Steady.script (program : Program) :
    Steady calls Flow.Regular fun self => self.script program :=
  .bind (.effect (.modifying (fun _ regular => regular) ⟨fun _ _ _ _ => rfl, fun _ => rfl⟩))
    fun _ _ => .bind (.effect (.hoist program.statements)) fun _ _ => .block program.statements

/-- A part that is performed at some point while a program runs as a script; the level is the depth
of steps that is left for it. -/
def Reaches (depth : Nat) (program : Program) (machine : Machine) (level : Nat) (frame : Frame) :
    Prop :=
  ∃ outermost rest,
    Performs (fun self => self.script program) (ofDepth depth) machine outermost ∧
      OpenParts depth outermost level (frame :: rest)

/-- A call by a name passes these values. -/
def CallsIn (depth : Nat) (program : Program) (machine : Machine) (name : String)
    (values : List Value) : Prop :=
  ∃ level frame, Reaches depth program machine (level + 1) frame ∧
    frame.Calls (ofDepth level) name values

section Script

variable {depth level : Nat} {program : Program} {machine : Machine} {frame : Frame}

theorem callsOnly_of_performs
    (performs : Performs (fun self => self.script program) (ofDepth depth) machine frame) :
    CallsOnly (CallsIn depth program machine) depth frame :=
  fun level inner rest opened _ _ calls => ⟨level, inner, ⟨frame, rest, performs, opened⟩, calls⟩

theorem callsOnly_of_reaches (reached : Reaches depth program machine level frame) :
    CallsOnly (CallsIn depth program machine) level frame := by
  rcases reached with ⟨outermost, rest, performs, opened⟩
  exact (callsOnly_of_performs performs).of_openParts opened

theorem settles_script (regular : machine.Regular) :
    Settles (CallsIn depth program machine) Flow.Regular (fun self => self.script program)
      (ofDepth depth) machine :=
  Steady.script program (ofDepth depth) machine regular
    (partsAgree fun _ performs => callsOnly_of_performs performs)

theorem agree_script (depth : Nat) (program : Program) {twin : Machine} (regular : machine.Regular)
    (alike : machine.Alike (CallsIn depth program machine) twin) :
    Agree (CallsIn depth program machine) Flow.Regular ((ofDepth depth).script program machine)
      ((ofDepth depth).script program twin) :=
  (settles_script regular).agree twin alike

theorem regular_of_reaches (regular : machine.Regular)
    (reached : Reaches depth program machine level frame) :
    frame.Regular (CallsIn depth program machine) := by
  rcases reached with ⟨outermost, rest, performs, opened⟩
  exact regular_of_openParts (callsOnly_of_performs performs)
    ((settles_script regular).frames outermost performs) opened frame List.mem_cons_self

theorem agree_of_reaches (regular : machine.Regular)
    (reached : Reaches depth program machine level frame) :
    Agree (CallsIn depth program machine) frame.task.Yields
      ((ofDepth level).perform frame.task frame.machine)
      ((ofDepth level).perform frame.task frame.machine) :=
  agree_perform level (callsOnly_of_reaches reached) (regular_of_reaches regular reached) .same

end Script

end Evaluator

end PhpScript
