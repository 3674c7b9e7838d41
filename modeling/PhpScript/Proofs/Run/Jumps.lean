import PhpScript.Proofs.Run.Performance
import PhpScript.Proofs.Syntax.Numbering

/-!
# Jumps out of loops

A jump carries the number of loops that it still has to leave. In a program that was read from a
text this is at least one and at most the number of loops that are open where the jump arrives. The
open loops are counted when code runs, while loops nest in the text. What ties the two together is
that a pass of the body of a loop runs with one more loop open.
-/

namespace PhpScript

/-- Every jump inside leaves a loop. -/
def Stmt.JumpsLeave (statement : Stmt) : Prop :=
  ∀ kind levels, (Stmt.jump kind levels).Within statement → 1 ≤ levels

namespace Flow

/-- A jump leaves at least one loop and no more than are open. -/
def JumpsWithin (loops : Nat) : Flow → Prop
  | .jump _ levels => 1 ≤ levels ∧ levels ≤ loops
  | _ => True

def IsFinal (flow : Flow) : Prop := flow = .normal ∨ ∃ value, flow = .ret value

theorem isFinal_of_jumpsWithin_zero {flow : Flow} (within : flow.JumpsWithin 0) : flow.IsFinal := by
  cases flow with
  | normal => exact .inl rfl
  | ret value => exact .inr ⟨value, rfl⟩
  | jump kind levels =>
    rcases within with ⟨positive, bounded⟩
    omega

theorem JumpsWithin.afterPass {loops : Nat} {flow ending : Flow}
    (within : flow.JumpsWithin (loops + 1)) (ends : flow.afterPass = some ending) :
    ending.JumpsWithin loops := by
  cases flow with
  | normal => cases ends
  | ret value =>
    cases ends
    trivial
  | jump kind levels =>
    rcases within with ⟨positive, bounded⟩
    simp only [Flow.afterPass] at ends
    split at ends
    · cases kind <;> cases ends
      trivial
    · cases ends
      exact ⟨by omega, by omega⟩

theorem JumpsWithin.eq_succ_of_afterPass {loops levels : Nat} {flow : Flow} {kind : LoopJump}
    (within : flow.JumpsWithin loops) (ends : flow.afterPass = some (.jump kind levels)) :
    flow = .jump kind (levels + 1) := by
  cases flow with
  | normal => cases ends
  | ret value => cases ends
  | jump own before =>
    simp only [Flow.afterPass] at ends
    split at ends
    · cases own <;> cases ends
    · cases ends
      rw [Nat.sub_add_cancel within.1]

end Flow

namespace Run

/-- A computation ends only with jumps that fit into the loops which are open at its start. -/
def JumpsFit (run : Run Flow) : Prop :=
  ∀ machine flow after, run machine = .ok flow after → flow.JumpsWithin machine.loopDepth

theorem loopDepth_of_ok {α : Type} {run : Run α} {machine after : Machine} {value : α}
    (keeps : run.KeepsContext) (ends : run machine = .ok value after) :
    after.loopDepth = machine.loopDepth := by
  have same := (keeps machine).loopDepth
  rwa [machineAfter_of_ok ends] at same

theorem exists_ok_of_bracket {α saved : Type} {save : Machine → saved} {enter : Machine → Machine}
    {restore : saved → Machine → Machine} {body : Run α} {machine after : Machine} {value : α}
    (ends : bracket save enter restore body machine = .ok value after) :
    ∃ inner, body (enter machine) = .ok value inner := by
  simp only [bracket] at ends
  split at ends
  · rename_i result inner bodyEnds
    cases ends
    exact ⟨inner, bodyEnds⟩
  · cases ends

namespace JumpsFit

theorem bind {α : Type} {run : Run α} {next : α → Run Flow} (keeps : run.KeepsContext)
    (fits : ∀ value, (next value).JumpsFit) : (run >>= next).JumpsFit := by
  intro machine flow after ends
  rcases bind_eq_ok ends with ⟨value, middle, first, second⟩
  rw [← loopDepth_of_ok keeps first]
  exact fits value middle flow after second

theorem pure {flow : Flow} (final : flow.IsFinal) : (Pure.pure flow : Run Flow).JumpsFit := by
  intro machine result after ends
  cases ends
  rcases final with rfl | ⟨value, rfl⟩ <;> trivial

theorem isFinal_of_outsideLoops {body : Run Flow} (fits : body.JumpsFit) {machine after : Machine}
    {flow : Flow} (ends : Run.outsideLoops body machine = .ok flow after) : flow.IsFinal := by
  rw [outsideLoops] at ends
  rcases exists_ok_of_bracket ends with ⟨inner, bodyEnds⟩
  exact Flow.isFinal_of_jumpsWithin_zero (fits _ flow inner bodyEnds)

end JumpsFit

end Run

namespace Evaluator

/-- A computation goes through passes of the body of a loop and ends normally or with what is left
of a pass; and it ends with what is left of the first pass that leaves something. A pass starts with
more open loops than the computation, by a fixed number. -/
structure EndsByPass (evaluator : Evaluator) (body : Located Stmt) (opened : Nat)
    (run : Evaluator → Run Flow) : Prop where
  ending : ∀ {machine flow after}, run evaluator machine = .ok flow after →
    flow = .normal ∨
      ∃ start pass ended, Performs run evaluator machine ⟨.statement body, start⟩ ∧
        start.loopDepth = machine.loopDepth + opened ∧
        evaluator.statement body start = .ok pass ended ∧ pass.afterPass = some flow
  ended : ∀ {machine start pass ended ending},
    Performs run evaluator machine ⟨.statement body, start⟩ →
    evaluator.statement body start = .ok pass ended → pass.afterPass = some ending →
      ∃ after, run evaluator machine = .ok ending after

variable {self : Evaluator}

namespace EndsByPass

variable {body : Located Stmt} {opened : Nat}

theorem throw (halt : Halt) : EndsByPass self body opened fun _ => MonadExcept.throw halt where
  ending ends := nomatch ends
  ended performs := absurd performs (unaffected_const _).not_performs

theorem goOn (action : Run Unit) : EndsByPass self body opened fun _ => andGoOn action where
  ending ends := by
    rcases Run.bind_eq_ok ends with ⟨_, _, _, last⟩
    cases last
    exact .inl rfl
  ended performs := absurd performs (unaffected_const _).not_performs

theorem normal : EndsByPass self body opened fun _ => Pure.pure Flow.normal := .goOn (Pure.pure ())

theorem bind {α : Type} {run : Evaluator → Run α} {next : α → Evaluator → Run Flow}
    (keeps : (run self).KeepsContext) (only : ComposedWithin .expressions run)
    (second : ∀ value, EndsByPass self body opened (next value)) :
    EndsByPass self body opened (sequence run next) where
  ending ends := by
    rcases Run.bind_eq_ok ends with ⟨value, middle, first, rest⟩
    rcases (second value).ending rest with normal | ⟨start, pass, ended, performs, loops, left⟩
    · exact .inl normal
    · rw [Run.loopDepth_of_ok keeps first] at loops
      exact .inr ⟨start, pass, ended,
        (performs_bind_iff only.transparent).mpr (.inr ⟨value, middle, first, performs⟩), loops,
        left⟩
  ended performs passEnds left := by
    rcases (performs_bind_iff only.transparent).mp performs with
      early | ⟨value, middle, first, later⟩
    · rcases only.exists_code early with ⟨code, isExpression⟩
      cases isExpression
    · rcases (second value).ended later passEnds left with ⟨after, ends⟩
      exact ⟨after, (Run.bind_of_ok first).trans ends⟩

theorem pass {next : Evaluator → Run Flow} (keeps : (self.statement body).KeepsContext)
    (rest : EndsByPass self body 0 next) :
    EndsByPass self body 0 fun self =>
      self.statement body >>= fun flow => Run.proceed flow (next self) := by
  have isPerformed : ∀ {machine frame},
      Performs (fun self => self.statement body) self machine frame ↔
        frame = ⟨.statement body, machine⟩ := performs_perform_iff (.statement body)
  have transparent : Transparent fun self => self.statement body := .perform (.statement body)
  constructor
  · intro machine flow after ends
    rcases Run.bind_eq_ok ends with ⟨pass, middle, first, second⟩
    cases left : pass.afterPass with
    | some ending =>
      simp only [Run.proceed, left] at second
      cases second
      exact .inr ⟨machine, pass, _, (isPerformed.mpr rfl).bind_first, rfl, first, left⟩
    | none =>
      simp only [Run.proceed, left] at second
      rcases rest.ending second with normal | ⟨start, last, ended, performs, loops, leaves⟩
      · exact .inl normal
      · rw [Run.loopDepth_of_ok keeps first] at loops
        refine .inr ⟨start, last, ended, ?_, loops, leaves⟩
        refine (performs_bind_iff transparent).mpr (.inr ⟨pass, middle, first, ?_⟩)
        simpa only [Run.proceed, left] using performs
  · intro machine start pass ended ending performs passEnds left
    rcases (performs_bind_iff transparent).mp performs with early | ⟨before, middle, first, later⟩
    · cases isPerformed.mp early
      refine ⟨ended, (Run.bind_of_ok passEnds).trans ?_⟩
      simp only [Run.proceed, left]
      rfl
    · cases goesOn : before.afterPass with
      | some own =>
        simp only [Run.proceed, goesOn] at later
        exact absurd later (unaffected_const _).not_performs
      | none =>
        simp only [Run.proceed, goesOn] at later
        rcases rest.ended later passEnds left with ⟨after, ends⟩
        refine ⟨after, (Run.bind_of_ok first).trans ?_⟩
        simpa only [Run.proceed, goesOn] using ends

theorem inLoop {run : Evaluator → Run Flow} (passes : EndsByPass self body 0 run) :
    EndsByPass self body 1 fun self => Run.inLoop (run self) := by
  simp only [Run.inLoop, Run.between]
  constructor
  · intro machine flow after ends
    rcases Run.exists_ok_of_bracket ends with ⟨inner, passesEnd⟩
    rcases passes.ending passesEnd with normal | ⟨start, pass, ended, performs, rest⟩
    · exact .inl normal
    · exact .inr ⟨start, pass, ended, performs_bracket_iff.mpr performs, rest⟩
  · intro machine start pass ended ending performs passEnds left
    rcases passes.ended (performs_bracket_iff.mp performs) passEnds left with ⟨after, ends⟩
    exact ⟨_, by rw [Run.bracket, ends]⟩

theorem passes (run : Nat → Evaluator → Run Flow)
    (ends : EndsByPass self body opened (run self.passes)) :
    EndsByPass self body opened fun self => run self.passes self :=
  ⟨ends.ending, ends.ended⟩

end EndsByPass

section Loops

variable (keeps : ∀ task, (self.perform task).KeepsContext) {body : Located Stmt}
include keeps

theorem endsByPass_bind_expression {opened : Nat} {next : Value → Evaluator → Run Flow}
    (code : Located Expr) (second : ∀ value, EndsByPass self body opened (next value)) :
    EndsByPass self body opened fun self => self.expression code >>= fun value => next value self :=
  .bind (keeps (.expression code)) (.expression (Rules.admits_expressions code)) second

theorem endsByPass_whilePasses (loop : Branch Stmt) (passes : Nat) :
    EndsByPass self loop.body 0 fun self => self.whilePasses loop passes := by
  induction passes with
  | zero => exact .throw _
  | succ passes ih =>
    refine endsByPass_bind_expression keeps loop.condition fun value => ?_
    split
    · exact .pass (keeps (.statement loop.body)) ih
    · exact .normal

theorem endsByPass_doWhilePasses (loop : Branch Stmt) (passes : Nat) :
    EndsByPass self loop.body 0 fun self => self.doWhilePasses loop passes := by
  induction passes with
  | zero => exact .throw _
  | succ passes ih =>
    refine .pass (keeps (.statement loop.body)) ?_
    refine endsByPass_bind_expression keeps loop.condition fun value => ?_
    split
    · exact ih
    · exact .normal

theorem endsByPass_forPasses (condition step : List (Located Expr)) (body : Located Stmt)
    (passes : Nat) :
    EndsByPass self body 0 fun self => self.forPasses condition step body passes := by
  have conditions : ComposedWithin .expressions fun self => self.lastHolds true condition :=
    .lastHolds true fun _ _ => Rules.admits_expressions _
  have steps : ComposedWithin .expressions fun self => self.evaluateAll step :=
    .evaluateAll fun _ _ => Rules.admits_expressions _
  induction passes with
  | zero => exact .throw _
  | succ passes ih =>
    refine .bind (conditions.keepsContext keeps) conditions fun holds => ?_
    split
    · refine .pass (keeps (.statement body)) ?_
      exact .bind (steps.keepsContext keeps) steps fun _ => ih
    · exact .normal

theorem endsByPass_foreachPasses (loop : ForeachLoop Stmt) (elements : List (Key × Value)) :
    EndsByPass self loop.body 0 fun self => self.foreachPasses loop elements := by
  have store : ∀ target value {next : Evaluator → Run Flow}, EndsByPass self loop.body 0 next →
      EndsByPass self loop.body 0 fun self => self.storeIn target value >>= fun _ => next self := by
    intro target value next second
    have composed : ComposedWithin .expressions fun self => self.storeIn target value :=
      .storeIn (Rules.admits_expressions target) value
    exact .bind (composed.keepsContext keeps) composed fun _ => second
  induction elements with
  | nil => exact .normal
  | cons element rest ih =>
    obtain ⟨key, value⟩ := element
    have pass := store loop.value value (.pass (keeps (.statement loop.body)) ih)
    simp only [foreachPasses]
    split
    · exact store _ key.toValue pass
    · exact pass

theorem loop_endsByPass {statement : Located Stmt} (isLoop : statement.node.loopBody? = some body) :
    EndsByPass self body 1 fun self => self.statementStep statement := by
  obtain ⟨node, span⟩ := statement
  cases node <;> cases isLoop
  case whileLoop loop =>
      exact .inLoop (.passes (fun passes self => self.whilePasses loop passes)
        (endsByPass_whilePasses keeps loop self.passes))
  case doWhileLoop loop =>
      exact .inLoop (.passes (fun passes self => self.doWhilePasses loop passes)
        (endsByPass_doWhilePasses keeps loop self.passes))
  case forLoop start condition step =>
      have starts : ComposedWithin .expressions fun self => self.evaluateAll start :=
        .evaluateAll fun _ _ => Rules.admits_expressions _
      refine .bind (starts.keepsContext keeps) starts fun _ => ?_
      exact .inLoop (.passes (fun passes self => self.forPasses condition step body passes)
        (endsByPass_forPasses keeps condition step body self.passes))
  case foreachLoop loop =>
      refine endsByPass_bind_expression keeps loop.subject fun subject => ?_
      cases subject with
      | array elements => exact (endsByPass_foreachPasses keeps loop _).inLoop
      | _ => exact .goOn _

end Loops

/-! ## Statements -/

theorem jumpsFit_block {statements : List (Located Stmt)}
    (keeps : ∀ task, (self.perform task).KeepsContext)
    (fits : ∀ statement ∈ statements, (self.statement statement).JumpsFit) :
    (self.block statements).JumpsFit := by
  induction statements with
  | nil => exact .pure (.inl rfl)
  | cons statement rest ih =>
    rcases List.forall_mem_cons.mp fits with ⟨first, others⟩
    intro machine flow after ends
    rcases Run.bind_eq_ok ends with ⟨own, middle, ended, next⟩
    cases own with
    | normal =>
      rw [← Run.loopDepth_of_ok (keeps (.statement statement)) ended]
      exact ih others middle flow after next
    | ret value =>
      cases next
      trivial
    | jump kind levels =>
      cases next
      exact first machine _ _ ended

theorem jumpsFit_choice {branches : List (Branch Stmt)} {alternative : Option (Located Stmt)}
    (keeps : ∀ task, (self.perform task).KeepsContext)
    (bodies : ∀ branch ∈ branches, (self.statement branch.body).JumpsFit)
    (otherwise : ∀ body ∈ alternative, (self.statement body).JumpsFit) :
    (self.choice alternative branches).JumpsFit := by
  induction branches with
  | nil =>
    cases alternative with
    | some body => exact otherwise body rfl
    | none => exact .pure (.inl rfl)
  | cons branch rest ih =>
    rcases List.forall_mem_cons.mp bodies with ⟨first, others⟩
    refine .bind (keeps (.expression branch.condition)) fun value => ?_
    split
    · exact first
    · exact ih others

theorem jumpsFit_andGoOn (action : Run Unit) : (andGoOn action).JumpsFit := by
  intro machine flow after ends
  rcases Run.bind_eq_ok ends with ⟨_, _, _, last⟩
  cases last
  trivial

theorem jumpsFit_jump {kind : LoopJump} {levels : Nat} (positive : 1 ≤ levels) :
    (do
      Run.checkJump kind levels
      return .jump kind levels : Run Flow).JumpsFit := by
  intro machine flow after ends
  rcases Run.bind_eq_ok ends with ⟨_, middle, checked, last⟩
  cases last
  refine ⟨positive, ?_⟩
  change (if machine.loopDepth = 0 then Run.fail (.notInLoop kind)
    else if machine.loopDepth < levels then Run.fail (.tooManyLevels kind levels)
    else pure () : Run Unit) machine = _ at checked
  split at checked
  · cases checked
  · split at checked
    · cases checked
    · omega

theorem jumpsFit_statementStep {statement : Located Stmt}
    (keeps : ∀ task, (self.perform task).KeepsContext)
    (leaves : statement.node.JumpsLeave)
    (fits : ∀ part ∈ statement.node.parts, (self.statement part).JumpsFit) :
    (self.statementStep statement).JumpsFit := by
  cases isLoop : statement.node.loopBody? with
  | some body =>
    intro machine flow after ends
    have bodyFits := fits body (Stmt.mem_parts_of_loopBody? isLoop)
    rcases (loop_endsByPass keeps isLoop).ending ends with
      rfl | ⟨start, pass, ended, _, loops, passEnds, left⟩
    · trivial
    · have within := bodyFits start pass ended passEnds
      rw [loops] at within
      exact within.afterPass left
  | none =>
    obtain ⟨node, span⟩ := statement
    match node with
    | .inlineText text => exact jumpsFit_andGoOn _
    | .echo arguments => exact jumpsFit_andGoOn _
    | .expression code =>
      exact .bind (keeps (.expression code)) fun _ => .pure (.inl rfl)
    | .block body => exact jumpsFit_block keeps fits
    | .choice branches alternative =>
      refine jumpsFit_choice keeps (fun branch member => fits branch.body ?_)
        fun body member => fits body ?_
      · exact List.mem_append_left _ (List.mem_map_of_mem member)
      · exact List.mem_append_right _ (Option.mem_toList.mpr member)
    | .jump kind levels => exact jumpsFit_jump (leaves kind levels (.whole _))
    | .ret value =>
      cases value with
      | some code => exact .bind (keeps (.expression code)) fun _ => .pure (.inr ⟨_, rfl⟩)
      | none => exact .pure (.inr ⟨_, rfl⟩)
    | .function declaration => exact jumpsFit_andGoOn _
    | .constants items => exact jumpsFit_andGoOn _
    | .globals names => exact jumpsFit_andGoOn _
    | .unset targets => exact jumpsFit_andGoOn _
    | .empty => exact .pure (.inl rfl)

theorem jumpsFit_statement (depth : Nat) {statement : Located Stmt}
    (leaves : statement.node.JumpsLeave) : ((ofDepth depth).statement statement).JumpsFit := by
  induction depth generalizing statement with
  | zero =>
    intro machine flow after ends
    cases ends
  | succ depth ih =>
    refine jumpsFit_statementStep (keepsContext_perform depth) leaves fun part member => ih ?_
    exact fun kind levels within => leaves kind levels (.part member within)

/-! ## Programs -/

section Programs

variable {depth : Nat} {program : Program} {machine after : Machine} {flow : Flow}

theorem jumpsFit_block_ofDepth (depth : Nat) {statements : List (Located Stmt)}
    (leaves : ∀ statement ∈ statements, statement.node.JumpsLeave) :
    ((ofDepth depth).block statements).JumpsFit :=
  jumpsFit_block (keepsContext_perform depth) fun statement member =>
    jumpsFit_statement depth (leaves statement member)

theorem isFinal_runFunction {function : UserFunction} {arguments : List Value}
    (leaves : ∀ statement ∈ function.body, statement.node.JumpsLeave)
    (ends : (ofDepth depth).runFunction function arguments machine = .ok flow after) :
    flow.IsFinal := by
  rw [runFunction, Run.inCall] at ends
  rcases Run.exists_ok_of_bracket ends with ⟨_, callEnds⟩
  rcases Run.bind_eq_ok callEnds with ⟨_, bound, _, bodyEnds⟩
  rw [Run.inBody, Run.between] at bodyEnds
  rcases Run.exists_ok_of_bracket bodyEnds with ⟨_, blockEnds⟩
  exact (jumpsFit_block_ofDepth depth leaves).isFinal_of_outsideLoops blockEnds

theorem isFinal_program (leaves : ∀ statement ∈ program.statements, statement.node.JumpsLeave)
    (ends : (ofDepth depth).program program machine = .ok flow after) : flow.IsFinal := by
  rw [Evaluator.program, Run.inFile] at ends
  rcases Run.exists_ok_of_bracket ends with ⟨_, fileEnds⟩
  rcases Run.bind_eq_ok fileEnds with ⟨_, hoisted, _, blockEnds⟩
  exact (jumpsFit_block_ofDepth depth leaves).isFinal_of_outsideLoops blockEnds

theorem isFinal_script (leaves : ∀ statement ∈ program.statements, statement.node.JumpsLeave)
    (ends : (ofDepth depth).script program machine = .ok flow after) : flow.IsFinal := by
  have statements : Run.JumpsFit (do
      Run.hoist program.statements
      (ofDepth depth).block program.statements) :=
    .bind (Run.HasEffect.hoist program.statements : Run.HasEffect noImports _).keepsContext
      fun _ => jumpsFit_block_ofDepth depth leaves
  exact Flow.isFinal_of_jumpsWithin_zero
    (statements (machine.atStart program) flow after ends)

end Programs

theorem loop_ends_with_jump_iff (depth : Nat) {machine : Machine} {statement body : Located Stmt}
    (isLoop : statement.node.loopBody? = some body) (leaves : statement.node.JumpsLeave)
    (jump : LoopJump) (levels : Nat) :
    (∃ after, (ofDepth (depth + 1)).statement statement machine = .ok (.jump jump levels) after) ↔
      1 ≤ levels ∧ ∃ start ended,
        Performs (fun self => self.statementStep statement) (ofDepth depth) machine
          ⟨.statement body, start⟩ ∧
        start.loopDepth = machine.loopDepth + 1 ∧
        (ofDepth depth).statement body start = .ok (.jump jump (levels + 1)) ended := by
  have passes := loop_endsByPass (keepsContext_perform depth) isLoop
  constructor
  · rintro ⟨after, ends⟩
    rcases passes.ending ends with
      impossible | ⟨start, pass, ended, performs, loops, passEnds, left⟩
    · cases impossible
    · have bodyLeaves : body.node.JumpsLeave := fun kind own within =>
        leaves kind own (.part (Stmt.mem_parts_of_loopBody? isLoop) within)
      have within := jumpsFit_statement depth bodyLeaves start pass ended passEnds
      rw [within.eq_succ_of_afterPass left] at passEnds
      exact ⟨(jumpsFit_statement (depth + 1) leaves machine _ after ends).1,
        start, ended, performs, loops, passEnds⟩
  · rintro ⟨positive, start, ended, performs, loops, passEnds⟩
    refine passes.ended performs passEnds ?_
    have more : levels + 1 ≠ 1 := by omega
    simp only [Flow.afterPass, if_neg more, Nat.add_sub_cancel]

/-- In a program that was read, the number of a jump is between one and the number of open loops
wherever the jump arrives. So function bodies, programs that are pulled in and scripts end without a
jump, and each loop takes exactly one level off the jumps that go through it. -/
theorem jumps_within_open_loops {kind : SourceKind} {filename source : String}
    {nextId next : Nat} {program : Program}
    (read : Program.read kind filename source nextId = (.ok program, next)) (depth : Nat)
    (machine : Machine) :
    (∀ statement jump levels after, program.Contains statement.node →
      (ofDepth depth).statement statement machine = .ok (.jump jump levels) after →
        1 ≤ levels ∧ levels ≤ machine.loopDepth) ∧
    (∀ statements jump levels after, (∀ statement ∈ statements, program.Contains statement.node) →
      (ofDepth depth).block statements machine = .ok (.jump jump levels) after →
        1 ≤ levels ∧ levels ≤ machine.loopDepth) ∧
    (∀ function arguments flow after, program.Contains (.function function) →
      (ofDepth depth).runFunction function arguments machine = .ok flow after → flow.IsFinal) ∧
    (∀ flow after, (ofDepth depth).program program machine = .ok flow after → flow.IsFinal) ∧
    (∀ flow after, (ofDepth depth).script program machine = .ok flow after → flow.IsFinal) ∧
    ∀ statement body jump levels, program.Contains statement.node →
      statement.node.loopBody? = some body →
      ((∃ after,
          (ofDepth (depth + 1)).statement statement machine = .ok (.jump jump levels) after) ↔
        1 ≤ levels ∧ ∃ start ended,
          Performs (fun self => self.statementStep statement) (ofDepth depth) machine
            ⟨.statement body, start⟩ ∧
          start.loopDepth = machine.loopDepth + 1 ∧
          (ofDepth depth).statement body start = .ok (.jump jump (levels + 1)) ended) := by
  have leaves : ∀ {statement : Stmt}, program.Contains statement → statement.JumpsLeave := by
    rintro statement ⟨top, member, within⟩ jump levels inside
    exact Program.one_le_levels_of_read read ⟨top, member, inside.trans within⟩
  have topLeaves : ∀ statement ∈ program.statements, statement.node.JumpsLeave :=
    fun statement member => leaves (Program.contains_of_mem member)
  refine ⟨?_, ?_, ?_, ?_, ?_, ?_⟩
  · intro statement jump levels after contained ends
    exact jumpsFit_statement depth (leaves contained) machine _ after ends
  · intro statements jump levels after contained ends
    exact jumpsFit_block_ofDepth depth (fun statement member => leaves (contained statement member))
      machine _ after ends
  · intro function arguments flow after contained ends
    exact isFinal_runFunction (fun part member => leaves (contained.of_part member)) ends
  · intro flow after ends
    exact isFinal_program topLeaves ends
  · intro flow after ends
    exact isFinal_script topLeaves ends
  · intro statement body jump levels contained isLoop
    exact loop_ends_with_jump_iff depth isLoop (leaves contained) jump levels

/-- A jump by two levels leaves both loops, and the script goes on to its end. -/
theorem jumps_within_open_loops_nested :
    let machine := Machine.start {} {} (fun _ => none) ⟨0, 0⟩
    ∃ program next flow after,
      Program.read .code "nested" "while (true) while (true) break 2;" 0 = (.ok program, next) ∧
      (ofDepth 8).script program machine = .ok flow after ∧ flow.IsFinal := by
  intro machine
  have runs : ((Program.read .code "nested" "while (true) while (true) break 2;" 0).1.toOption.bind
      fun program => ((ofDepth 8).script program).run' machine).isSome = true := by
    decide +kernel
  rcases Option.isSome_iff_exists.mp runs with ⟨flow, isFlow⟩
  rcases Option.bind_eq_some_iff.mp isFlow with ⟨program, isProgram, ends⟩
  cases read : Program.read .code "nested" "while (true) while (true) break 2;" 0 with
  | mk result next =>
      rw [read] at isProgram
      cases result with
      | error stop => cases isProgram
      | ok own =>
          cases isProgram
          cases scriptEnds : (ofDepth 8).script program machine with
          | ok final after =>
              rcases jumps_within_open_loops read 8 machine with ⟨_, _, _, _, scripts, _⟩
              exact ⟨program, next, final, after, rfl, scriptEnds, scripts final after scriptEnds⟩
          | error halt after =>
              delta EStateM.run' EStateM.run at ends
              rw [scriptEnds] at ends
              cases ends

end Evaluator

end PhpScript
