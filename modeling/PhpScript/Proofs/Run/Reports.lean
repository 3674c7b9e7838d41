import PhpScript.Proofs.Run.Occurrence

/-!
# Reports and endings

What stops a script is fatal. And what is reported has no influence: with other severities that come
through, a script ends in the same way and leaves the same variables, constants, functions and open
buffers, as long as it does not itself ask for the severities or for what has been printed.
-/

namespace PhpScript

theorem Problem.severity_of_isFatal {problem : Problem} (fatal : problem.isFatal = true) :
    problem.severity = .error ∨ problem.severity = .parse := by
  cases problem <;> first | exact .inl rfl | exact .inr rfl | cases fatal

def Ending.problem? : Ending → Option Problem
  | .failed problem => some problem
  | .finished | .outOfFuel | .unread _ => none

namespace Machine

variable {problem : Problem} {machine : Machine}

theorem exists_error_of_conclude {result : EStateM.Result Halt Machine Flow}
    (failed : (conclude result).1.problem? = some problem) :
    ∃ after, result = .error (.problem problem) after := by
  match result with
  | .ok _ _ | .error (.exit _) _ | .error .outOfFuel _ | .error (.unread _) _ => cases failed
  | .error (.problem own) after =>
    cases failed
    exact ⟨after, rfl⟩

theorem Regular.isFatal_of_script {after : Machine} (regular : machine.Regular) {depth : Nat}
    {program : Program} (few : PassesFew (Evaluator.CallsIn depth program machine))
    (ends : (Evaluator.ofDepth depth).script program machine = .error (.problem problem) after) :
    problem.isFatal = true := by
  have own := Evaluator.agree_script depth program regular .same
  rw [ends] at own
  cases own with
  | error fits _ _ => exact fits few problem rfl

theorem Alike.eq_reportingAs {calls : String → List Value → Prop} {twin : Machine}
    (alike : machine.Alike calls twin) :
    twin = machine.reportingAs twin.output twin.reporting twin.settings.reporting ∧
      twin.output.level = machine.output.level := by
  cases alike with
  | same => exact ⟨rfl, rfl⟩
  | reports unasked output reporting setting level => exact ⟨rfl, level⟩

theorem leavesReports_exitCode (code : Int64) :
    LeavesReports fun machine => { machine with exitCode := code } :=
  ⟨fun _ _ _ _ => rfl, fun _ => rfl⟩

theorem Regular.run_of_alike {twin : Machine} (regular : machine.Regular) {depth : Nat}
    {program : Program} (alike : machine.Alike (Evaluator.CallsIn depth program machine) twin) :
    (twin.run depth program).1 = (machine.run depth program).1 ∧
      (machine.run depth program).2.Alike (Evaluator.CallsIn depth program machine)
        (twin.run depth program).2 := by
  have agree := Evaluator.agree_script depth program regular alike
  simp only [Machine.run]
  generalize (Evaluator.ofDepth depth).script program machine = result at agree ⊢
  generalize (Evaluator.ofDepth depth).script program twin = resultTwin at agree ⊢
  cases agree with
  | ok _ _ alikeAfter => exact ⟨rfl, alikeAfter⟩
  | @error halt _ _ _ _ alikeAfter =>
    cases halt with
    | exit code => exact ⟨rfl, alikeAfter.map (leavesReports_exitCode code)⟩
    | problem problem => exact ⟨rfl, alikeAfter.map (leavesReports_exitCode failureCode)⟩
    | outOfFuel => exact ⟨rfl, alikeAfter⟩
    | unread path => exact ⟨rfl, alikeAfter⟩

theorem isFatal_of_compile {after : Machine} (regular : machine.Regular) {source : String}
    (ends : Run.compile source machine = .error (.problem problem) after) :
    problem.isFatal = true := by
  have own : Agree (fun _ _ => False) _ _ _ :=
    Run.Steady.compile source machine machine regular .same
  rw [ends] at own
  cases own with
  | error fits _ _ => exact fits (fun _ _ made => made.elim) problem rfl

end Machine

namespace Evaluator

/-- In a program that is a single expression, nothing but this expression is performed if it has no
parts, so there is no call if it is none. -/
theorem not_callsIn_of_single {depth : Nat} {program : Program} {machine : Machine}
    {code : Located Expr} {span : Span} (single : program.statements = [⟨.expression code, span⟩])
    (alone : ∀ level machine frame,
      Unaffected (fun self => (Task.expression code).step self) (ofDepth level) machine frame)
    (isOther : ∀ callee arguments, code.node ≠ .call callee arguments) (name : String)
    (values : List Value) : ¬CallsIn depth program machine name values := by
  rcases program with ⟨filename, statements, lines⟩
  cases single
  let statement : Located Stmt := ⟨.expression code, span⟩
  have outermost : ∀ frame, Performs
      (fun self => self.script ⟨filename, [statement], lines⟩) (ofDepth depth) machine frame →
        frame.task = .statement statement := by
    intro frame performs
    rcases performs_effect_bind_iff.mp performs with ⟨_, _, _, performs⟩
    rcases performs_effect_bind_iff.mp performs with ⟨_, _, _, performs⟩
    rcases (performs_bind_iff (.perform (.statement statement))).mp performs with
      own | ⟨flow, _, _, later⟩
    · rw [(performs_perform_iff (.statement statement)).mp own]
    · cases flow <;> exact absurd later (unaffected_const _).not_performs
  have inside : ∀ outer level stack, outer.task = .statement statement →
      OpenParts depth outer level stack → ∀ frame ∈ stack,
        frame.task = .statement statement ∨ frame.task = .expression code := by
    intro outer level stack isStatement opened
    induction opened with
    | outermost =>
        intro frame member
        rw [List.mem_singleton.mp member]
        exact .inl isStatement
    | @part level outer inner _ _ performs ih =>
        refine List.forall_mem_cons.mpr ⟨?_, ih⟩
        rcases ih outer List.mem_cons_self with isOuter | isOuter
        · rw [isOuter] at performs
          rcases (performs_bind_iff (.perform (.expression code))).mp performs with
            own | ⟨_, _, _, later⟩
          · rw [(performs_perform_iff (.expression code)).mp own]
            exact .inr rfl
          · exact absurd later (unaffected_const _).not_performs
        · rw [isOuter] at performs
          exact absurd performs (alone level outer.machine inner).not_performs
  rintro ⟨level, frame, ⟨outer, rest, performs, opened⟩, calls⟩
  rcases calls with ⟨callee, arguments, _, _, _, isCall, _⟩
  have known := inside outer _ _ (outermost outer performs) opened frame List.mem_cons_self
  rw [isCall] at known
  rcases known with known | known
  · cases known
  · exact isOther _ _ (congrArg Located.node (Task.expression.inj known)).symm

/-- Only fatal problems stop a script. -/
theorem failed_script_is_fatal {machine : Machine} (session : machine.InSession) {depth : Nat}
    {source : String} {problem : Problem}
    (few : ∀ program start, Run.compile source machine = .ok program start →
      ∀ name values, CallsIn depth program start name values → values.length < 2 ^ 63)
    (failed : (machine.process depth source).1.ending.problem? = some problem) :
    problem.severity = .error ∨ problem.severity = .parse := by
  apply Problem.severity_of_isFatal
  rcases Machine.exists_error_of_conclude failed with ⟨after, ends⟩
  cases compiled : Run.compile source machine with
  | error halt middle =>
      rw [Run.bind_of_error compiled] at ends
      cases ends
      exact Machine.isFatal_of_compile session.regular compiled
  | ok program start =>
      rw [Run.bind_of_ok compiled] at ends
      have startRegular : start.Regular := by
        rw [← Run.machineAfter_of_ok compiled]
        exact (session.compile source).regular
      exact startRegular.isFatal_of_script (few program start compiled) ends

/-- A program that is the name of a constant. -/
def onlyConstant? (program : Program) : Option String :=
  match program.statements with
  | [⟨.expression ⟨.constant name, _⟩, _⟩] => some name
  | _ => none

/-- A script that is read and then fails, since it asks for a constant that there is not. -/
theorem failed_script_is_fatal_undefined :
    let machine := Machine.start {} {} (fun _ => none) ⟨0, 0⟩
    ((Run.compile "<?php A;").run' machine).isSome ∧
      ∃ problem, (machine.process 2 "<?php A;").1.ending.problem? = some problem ∧
        (problem.severity = .error ∨ problem.severity = .parse) := by
  intro machine
  have shape : ((Run.compile "<?php A;").run' machine).map onlyConstant? = some (some "A") := by
    decide +kernel
  have fails : ((machine.process 2 "<?php A;").1.ending.problem?).isSome = true := by
    decide +kernel
  have session : machine.InSession := .start _ _ _ _
  rcases Option.map_eq_some_iff.mp shape with ⟨found, isFound, isConstant⟩
  rcases Option.isSome_iff_exists.mp fails with ⟨problem, failed⟩
  refine ⟨Option.isSome_of_eq_some isFound, problem, failed, ?_⟩
  refine failed_script_is_fatal session ?_ failed
  intro program start compiled name values calls
  delta EStateM.run' EStateM.run at isFound
  rw [compiled] at isFound
  cases isFound
  simp only [onlyConstant?] at isConstant
  split at isConstant
  · rename_i single
    exact absurd calls (not_callsIn_of_single single (fun _ _ _ _ => rfl) (by simp) name values)
  · cases isConstant

/-- The severities that are reported have no influence on a script that does not ask for them or for
what has been printed. -/
theorem reports_have_no_influence (settings : Settings) (request : Request) (files : FileSystem)
    (clock : Moment) (reporting : Int64) (depth : Nat) (program : Program)
    (unasked : ∀ name values,
      CallsIn depth program (Machine.start settings request files clock) name values →
        Text.lowercase name ∉ observers) :
    let first := (Machine.start settings request files clock).run depth program
    let second := (Machine.start { settings with reporting } request files clock).run depth program
    second.1 = first.1 ∧ second.2.exitCode = first.2.exitCode ∧
      second.2.scopes = first.2.scopes ∧ second.2.output.level = first.2.output.level ∧
      second.2 =
        first.2.reportingAs second.2.output second.2.reporting second.2.settings.reporting := by
  intro first second
  have regular := Machine.regular_start settings request files clock
  have alike : (Machine.start settings request files clock).Alike
      (CallsIn depth program (Machine.start settings request files clock))
      (Machine.start { settings with reporting } request files clock) :=
    .reports unasked {} reporting reporting rfl
  rcases regular.run_of_alike alike with ⟨sameEnding, alikeAfter⟩
  rcases alikeAfter.eq_reportingAs with ⟨same, level⟩
  have sameCode : second.2.exitCode = _ := congrArg (fun machine => machine.exitCode) same
  have sameScopes : second.2.scopes = _ := congrArg (fun machine => machine.scopes) same
  exact ⟨sameEnding, sameCode, sameScopes, level, same⟩

/-- Reading an undefined variable is reported or not, and makes no other difference. -/
theorem reports_have_no_influence_undefined :
    ∃ program,
      let first := (Machine.start {} {} (fun _ => none) ⟨0, 0⟩).run 2 program
      let second := (Machine.start { reporting := 0 } {} (fun _ => none) ⟨0, 0⟩).run 2 program
      second.1 = first.1 ∧ second.2.scopes = first.2.scopes ∧ second.2.output ≠ first.2.output := by
  let span : Span := ⟨0, 0⟩
  let code : Located Expr := ⟨.variable (.simple "x"), span⟩
  let statement : Located Stmt := ⟨.expression code, span⟩
  let program : Program := ⟨"", [statement], {}⟩
  let machine : Machine := Machine.start {} {} (fun _ => none) ⟨0, 0⟩
  have unasked : ∀ name values, CallsIn 2 program machine name values →
      Text.lowercase name ∉ observers := fun name values calls =>
    absurd calls (not_callsIn_of_single rfl (fun _ _ _ _ => rfl) (by simp [code]) name values)
  rcases reports_have_no_influence {} {} (fun _ => none) ⟨0, 0⟩ 0 2 program unasked with
    ⟨ending, _, scopes, _⟩
  exact ⟨program, ending, scopes, by decide +kernel⟩

end Evaluator

end PhpScript
