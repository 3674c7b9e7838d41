import PhpScript.Proofs.Run.Moments
import PhpScript.Proofs.Run.Points

/-!
# Files that are pulled in only once

A machine lists the files that it has pulled in, one entry for each time that a file is started, by
an identity that does not depend on the spelling of its path. No entry is ever taken away. So once a
file has been started, it is passed over by all code that wants it only once; and if all code that
finds the file wants it only once, then it never gets a second entry.
-/

namespace PhpScript

/-- What a file is known by, whatever the spelling of its path. -/
def FileView.identity (view : FileView) (path : String) : String :=
  view.canonical.getD path

def Machine.pullIn (machine : Machine) (identity : String) : Machine :=
  { machine with included := identity :: machine.included }

theorem Run.look_eq_ok_iff {path : String} {view : FileView} {machine after : Machine} :
    Run.look path machine = .ok view after ↔ machine.files path = some view ∧ machine = after := by
  rw [Run.look, Run.get_bind]
  cases machine.files path with
  | none =>
    constructor
    · intro halts
      cases halts
    · rintro ⟨⟨⟩, _⟩
  | some own =>
    constructor
    · intro looks
      cases looks
      exact ⟨rfl, rfl⟩
    · rintro ⟨⟨⟩, rfl⟩
      rfl

theorem Run.machine_of_resolvePath {filename path : String} {machine after : Machine}
    (resolves : Run.resolvePath filename machine = .ok path after) : machine = after := by
  unfold Run.resolvePath at resolves
  split at resolves
  · cases resolves
    rfl
  · rcases Run.bind_eq_ok resolves with ⟨here, middle, looks, goesOn⟩
    rcases Run.look_eq_ok_iff.mp looks with ⟨_, rfl⟩
    split at goesOn
    · cases goesOn
      rfl
    · rw [Run.get_bind] at goesOn
      cases parent : Files.Path.parent? machine.file.name with
      | none =>
        rw [parent] at goesOn
        cases goesOn
        rfl
      | some directory =>
        rw [parent] at goesOn
        rcases Run.bind_eq_ok goesOn with ⟨there, last, looksThere, ends⟩
        rcases Run.look_eq_ok_iff.mp looksThere with ⟨_, rfl⟩
        cases ends
        rfl

/-! ## Two relations between moments -/

namespace Evolution

def pulledIn : Evolution .all where
  Leads machine after := machine.included ⊆ after.included
  refl _ := List.Subset.refl _
  trans := List.Subset.trans
  change change := by
    cases change with
    | pullIn path => exact List.subset_cons_self _ _
    | _ => exact List.Subset.refl _
  surroundings _ _ _ _ := List.Subset.refl _

theorem ofSession_pulledIn : pulledIn.OfSession where
  locals _ _ := List.Subset.refl _
  depth _ _ := List.Subset.refl _
  exitCode _ _ := List.Subset.refl _

/-- A file with at most one entry does not get a second one. That holds across all changes but the
one that pulls in this file. -/
def atMostOnce (identity : String) : Evolution (.pulling (· ≠ identity)) where
  Leads machine after :=
    machine.included.count identity ≤ 1 → after.included.count identity ≤ 1
  refl _ := id
  trans first second := second ∘ first
  change change atMostOne := by
    cases change with
    | pullIn path other => rwa [List.count_cons_of_ne other]
    | _ => exact atMostOne
  surroundings _ _ _ _ := id

theorem ofSession_atMostOnce (identity : String) : (atMostOnce identity).OfSession where
  locals _ _ := id
  depth _ _ := id
  exitCode _ _ := id

end Evolution

namespace Evaluator

variable {self : Evaluator} {machine start named : Machine} {code operand : Located Expr}
  {mode : IncludeMode} {path source identity : String} {view : FileView} {span : Span}
  {depth level : Nat} {frame outermost : Frame} {rest : List Frame}

/-! ## Finding a file and starting it -/

/-- An expression names a file, and this is what there is at its path. -/
inductive FindsFile (self : Evaluator) (start : Machine) :
    Located Expr → IncludeMode → String → FileView → Machine → Prop
  | named {mode : IncludeMode} {operand : Located Expr} {span : Span} {filename path : String}
      {view : FileView} {named : Machine} (isText : self.text operand start = .ok filename named)
      (nonempty : filename.isEmpty = false)
      (resolves : Run.resolvePath filename named = .ok path named)
      (looks : Run.look path named = .ok view named) :
      FindsFile self start ⟨.includeFile mode operand, span⟩ mode path view named

/-- An expression finds a file that can be read and that has to be started. -/
structure StartsFile (evaluator : Evaluator) (start : Machine) (code : Located Expr)
    (mode : IncludeMode) (path source identity : String) (named : Machine) : Prop where
  finds : ∃ view, FindsFile evaluator start code mode path view named ∧
    view.identity path = identity ∧ view.contents = .ok source
  isWanted : (mode.once && named.included.contains identity) = false

theorem StartsFile.expression_eq
    (starts : StartsFile (ofDepth level) start code mode path source identity named) :
    (ofDepth (level + 1)).expression code start =
      (ofDepth level).runFile path source (named.pullIn identity) := by
  rcases starts with ⟨⟨view, finds, rfl, holds⟩, isWanted⟩
  cases finds with
  | @named _ operand span filename _ _ _ isText nonempty resolves looks =>
    unfold FileView.identity at isWanted
    change (ofDepth level).includeFile mode operand start = _
    rw [includeFile, Run.bind_of_ok isText, nonempty, if_neg Bool.false_ne_true, includeNamed,
      Run.bind_of_ok resolves, Run.bind_of_ok looks, Run.get_bind, isWanted,
      if_neg Bool.false_ne_true, holds]
    rfl

namespace FindsFile

theorem mode_eq {other : IncludeMode} {after : Machine}
    (finds : FindsFile self start ⟨.includeFile mode operand, span⟩ other path view after) :
    other = mode := by
  cases finds
  rfl

theorem expression_eq {after : Machine}
    (finds : FindsFile (ofDepth level) start code mode path view after)
    (once : mode.once = true) (isListed : view.identity path ∈ after.included) :
    (ofDepth (level + 1)).expression code start = .ok (.bool true) after := by
  cases finds with
  | @named _ operand span filename _ _ _ isText nonempty resolves looks =>
    have isKnown : (mode.once && after.included.contains (view.canonical.getD path)) = true := by
      simpa [once, FileView.identity] using isListed
    change (ofDepth level).includeFile mode operand start = _
    rw [includeFile, Run.bind_of_ok isText, nonempty, if_neg Bool.false_ne_true, includeNamed,
      Run.bind_of_ok resolves, Run.bind_of_ok looks, Run.get_bind, if_pos isKnown]
    rfl

end FindsFile

theorem not_findsFile_zero : ¬FindsFile (ofDepth 0) start code mode path view named := by
  intro finds
  cases finds with
  | named isText => cases isText

/-! ## No entry is taken away -/

theorem Composed.included_subset {α : Type} {run : Evaluator → Run α} (composed : Composed .all run)
    (depth : Nat) (machine : Machine) :
    machine.included ⊆ ((run (ofDepth depth)).machineAfter machine).included ∧
      ∀ frame, Performs run (ofDepth depth) machine frame →
        machine.included ⊆ frame.machine.included :=
  (composed.respects : Respects Evolution.pulledIn run (ofDepth depth)) machine
    (Evolution.ofSession_pulledIn.partsLead run depth machine)

theorem FindsFile.included_subset {after : Machine}
    (finds : FindsFile (ofDepth level) start code mode path view after) :
    start.included ⊆ after.included := by
  cases finds with
  | @named _ operand span filename _ _ _ isText nonempty resolves looks =>
    have texts : Composed .all fun self => self.text operand :=
      ComposedWithin.text (Composed.admits _)
    have leads := (texts.included_subset level start).1
    rwa [Run.machineAfter_of_ok isText] at leads

/-- The moments after a file has been marked: those of its own code, and those after its end. -/
inductive FollowsMark (level : Nat) (path source : String) (marked later : Machine) : Prop
  | inside {frame : Frame}
      (performs : Performs (fun self => self.runFile path source) (ofDepth level) marked frame)
      (goesOn : frame.machine.Later later)
  | afterwards (goesOn : (((ofDepth level).runFile path source).machineAfter marked).Later later)

theorem FollowsMark.included_subset {marked later : Machine}
    (follows : FollowsMark level path source marked later) : marked.included ⊆ later.included := by
  have isOpen : (Rules.within .all).IsOpen := Composed.isOpen_within fun _ => trivial
  have runs : Composed .all fun self => self.runFile path source :=
    ComposedWithin.runFile isOpen path source
  rcases runs.included_subset level marked with ⟨toEnd, toParts⟩
  cases follows with
  | inside performs goesOn =>
    exact List.Subset.trans (toParts _ performs)
      (Evolution.ofSession_pulledIn.leads_of_later goesOn)
  | afterwards goesOn =>
    exact List.Subset.trans toEnd (Evolution.ofSession_pulledIn.leads_of_later goesOn)

/-! ## No file gets a second entry -/

/-- Where the code pulls in the file, it wants it only once. -/
def FindsOnce (identity : String) (self : Evaluator) (start : Machine) (code : Located Expr) :
    Prop :=
  ∀ mode path view named, FindsFile self start code mode path view named →
    view.identity path = identity → mode.once = true

theorem RespectsFrom.includeFile
    (once : FindsOnce identity self machine ⟨.includeFile mode operand, span⟩) :
    RespectsFrom (.atMostOnce identity) (fun self => self.includeFile mode operand) self
      machine := by
  have texts : Composed (.pulling (· ≠ identity)) fun self => self.text operand :=
    ComposedWithin.text (Composed.admits _)
  have isOpen : (Rules.within (.pulling (· ≠ identity))).IsOpen :=
    Composed.isOpen_within fun _ => trivial
  refine .bind texts.transparent (texts.respects machine) fun filename named isText => ?_
  split
  · exact .const id
  · rename_i nonempty
    refine .bind (.const _) (Respects.effect (.resolvePath filename) named) ?_
    intro path found resolves
    cases Run.machine_of_resolvePath resolves
    refine .bind (.const _) (Respects.effect (.look path) named) fun view looked looks => ?_
    rcases Run.look_eq_ok_iff.mp looks with ⟨_, rfl⟩
    refine .bind (.const _) (.const id) fun _ _ ends => ?_
    cases ends
    have finds : FindsFile self machine ⟨.includeFile mode operand, span⟩ mode path view named :=
      .named isText (by simpa using nonempty) resolves looks
    split
    · exact .const id
    · rename_i isWanted
      cases view.contents with
      | error error =>
        exact Respects.effect (.reportUnreadable mode filename error operand.span) named
      | ok source =>
        have runs : Composed (.pulling (· ≠ identity)) fun self => self.runFile path source :=
          ComposedWithin.runFile isOpen path source
        refine .bind (.const _) (.const fun atMostOne => ?_) fun _ marked _ =>
          runs.respects marked
        change List.count identity (view.identity path :: named.included) ≤ 1
        -- The new entry is the first one of the file, because the file was looked up before.
        by_cases same : view.identity path = identity
        · have isOnce := once mode path view named finds same
          have isNew : identity ∉ named.included := by
            simpa [isOnce, ← same, FileView.identity] using isWanted
          rw [same, List.count_cons_self, List.count_eq_zero_of_not_mem isNew]
        · rwa [List.count_cons_of_ne same]

/-- All expressions that find a file while a part is performed pull it in only once. -/
def FindsOnceInside (identity : String) (depth : Nat) (outermost : Frame) : Prop :=
  ∀ level code start rest,
    OpenParts depth outermost (level + 1) (⟨.expression code, start⟩ :: rest) →
      FindsOnce identity (ofDepth level) start code

namespace FindsOnceInside

theorem of_openParts (once : FindsOnceInside identity depth outermost)
    (opened : OpenParts depth outermost level (frame :: rest)) :
    FindsOnceInside identity level frame :=
  fun lower code start above inside => once lower code start (above ++ rest) (opened.trans inside)

/-- One step. All parts but include expressions leave it to the parts inside of them to pull in the
file. -/
theorem respectsFrom (once : FindsOnceInside identity (depth + 1) frame) :
    RespectsFrom (.atMostOnce identity) (fun self => frame.task.step self) (ofDepth depth)
      frame.machine := by
  rcases frame with ⟨task, machine⟩
  by_cases includes : ∃ mode operand span, task = .expression ⟨.includeFile mode operand, span⟩
  · rcases includes with ⟨mode, operand, span, rfl⟩
    exact .includeFile (once depth _ machine [] .outermost)
  · have guides : Guides (.atMostOnce identity) (Activity.part task).run (ofDepth depth) := by
      refine .activity (Evolution.ofSession_atMostOnce identity) ?_
      rintro mode operand span ⟨⟩
      exact absurd ⟨mode, operand, span, rfl⟩ includes
    exact guides.respects machine

theorem leads_after (once : FindsOnceInside identity depth frame) :
    (Evolution.atMostOnce identity).Leads frame.machine ((ofDepth depth).after frame) := by
  induction depth generalizing frame with
  | zero =>
    rw [after, Run.machineAfter_of_error (perform_zero _ _)]
    exact id
  | succ depth ih =>
    rw [after, machineAfter_perform_succ]
    refine (once.respectsFrom fun inner performs => ?_).1
    exact ih (once.of_openParts (.part .outermost performs))

theorem leads_of_openParts {stack : List Frame} (once : FindsOnceInside identity depth outermost)
    (opened : OpenParts depth outermost level stack) :
    ∀ frame ∈ stack.head?,
      (Evolution.atMostOnce identity).Leads outermost.machine frame.machine := by
  induction opened with
  | outermost =>
    rintro _ ⟨⟩
    exact id
  | @part level outer inner rest opened performs ih =>
    rintro _ ⟨⟩
    have below := once.of_openParts opened
    refine (Evolution.atMostOnce identity).trans (ih outer rfl) ?_
    refine (below.respectsFrom fun frame framePerforms => ?_).2 inner performs
    exact (below.of_openParts (.part .outermost framePerforms)).leads_after

end FindsOnceInside

/-! ## Activities -/

namespace Activity

variable {activity : Activity} {moment : Machine}

/-- What is asked for from outside, and not by code that runs. -/
def IsAsked : Activity → Prop
  | .part _ => False
  | .script _ | .call .. => True

/-- All expressions that find a file during an activity pull it in only once. -/
def FindsOnce (identity : String) (activity : Activity) (depth : Nat) (machine : Machine) : Prop :=
  ∀ outermost, Performs activity.run (ofDepth depth) machine outermost →
    FindsOnceInside identity depth outermost

/-- The moments of an activity: its start and its end, and the start and the end of every part of
the code, in any depth. -/
inductive PassesThrough (activity : Activity) (depth : Nat) (machine : Machine) : Machine → Prop
  | start : PassesThrough activity depth machine machine
  | finish :
      PassesThrough activity depth machine ((activity.run (ofDepth depth)).machineAfter machine)
  | before {outermost frame : Frame} {level : Nat} {rest : List Frame}
      (performs : Performs activity.run (ofDepth depth) machine outermost)
      (opened : OpenParts depth outermost level (frame :: rest)) :
      PassesThrough activity depth machine frame.machine
  | after {outermost frame : Frame} {level : Nat} {rest : List Frame}
      (performs : Performs activity.run (ofDepth depth) machine outermost)
      (opened : OpenParts depth outermost level (frame :: rest)) :
      PassesThrough activity depth machine ((ofDepth level).after frame)

theorem FindsOnce.leads (once : activity.FindsOnce identity depth machine)
    (asked : activity.IsAsked) :
    (Evolution.atMostOnce identity).Leads machine
        ((activity.run (ofDepth depth)).machineAfter machine) ∧
      ∀ frame, Performs activity.run (ofDepth depth) machine frame →
        (Evolution.atMostOnce identity).Leads machine frame.machine := by
  have guides : Guides (.atMostOnce identity) activity.run (ofDepth depth) := by
    refine .activity (Evolution.ofSession_atMostOnce identity) ?_
    rintro mode operand span rfl
    exact absurd asked id
  exact guides.respects machine fun frame performs => (once frame performs).leads_after

theorem FindsOnce.count_le (once : activity.FindsOnce identity depth machine)
    (asked : activity.IsAsked) (atMostOne : machine.included.count identity ≤ 1)
    (passes : activity.PassesThrough depth machine moment) :
    moment.included.count identity ≤ 1 := by
  rcases once.leads asked with ⟨toEnd, toParts⟩
  cases passes with
  | start => exact atMostOne
  | finish => exact toEnd atMostOne
  | before performs opened =>
    have inside := once _ performs
    exact inside.leads_of_openParts opened _ rfl (toParts _ performs atMostOne)
  | after performs opened =>
    have inside := once _ performs
    have begins := inside.leads_of_openParts opened _ rfl (toParts _ performs atMostOne)
    exact (inside.of_openParts opened).leads_after begins

end Activity

theorem exists_statement_of_performs {program : Program}
    (performs : Performs (Activity.script program).run self machine frame) :
    ∃ statement ∈ program.statements, frame.task = .statement statement := by
  let rules : Rules :=
    { toPowers := .all
      performs := fun code => ∃ statement ∈ program.statements, code = .statement statement
      calls := False
      switches := fun _ => False }
  have statements : ComposedWithin rules fun self =>
      Run.hoist program.statements >>= fun _ => self.block program.statements :=
    .bind (.effect (.hoist_of_declares fun _ _ => trivial)) fun _ =>
      .block fun statement member => ⟨statement, member, rfl⟩
  rcases performs_effect_bind_iff.mp performs with ⟨_, _, _, inside⟩
  have allowed := statements.allows_of_performs inside
  rcases frame with ⟨task, here⟩
  cases task with
  | expression code =>
    rcases allowed with ⟨own, member, same⟩
    cases same
  | statement code =>
    rcases allowed with ⟨own, member, same⟩
    cases same
    exact ⟨code, member, rfl⟩
  | call function arguments => exact absurd allowed id

end Evaluator

/-! ## Sessions -/

namespace Machine

open Evaluator

variable {machine : Machine} {identity : String}

/-- A file is passed over by all expressions that pull it in only once: they are true, do nothing
besides evaluating the path, and do not start the file. -/
structure Skips (machine : Machine) (identity : String) : Prop where
  isTrue : ∀ level code mode path view named,
    FindsFile (ofDepth level) machine code mode path view named →
      view.identity path = identity → mode.once = true →
        (ofDepth (level + 1)).expression code machine = .ok (.bool true) named
  notStarted : ∀ level code mode path source named,
    StartsFile (ofDepth level) machine code mode path source identity named → mode.once = false

theorem skips_of_mem (isListed : identity ∈ machine.included) : machine.Skips identity where
  isTrue level code mode path view named finds same once := by
    subst same
    exact finds.expression_eq once (finds.included_subset isListed)
  notStarted level code mode path source named starts := by
    rcases starts with ⟨⟨view, finds, _, _⟩, isWanted⟩
    have known := finds.included_subset isListed
    simpa [known] using isWanted

/-- A machine of a session in which all expressions that find a file have pulled it in only
once. -/
inductive FindsOnceSoFar (identity : String) : Machine → Prop
  | start (settings : Settings) (request : Request) (files : FileSystem) (clock : Moment) :
      FindsOnceSoFar identity (Machine.start settings request files clock)
  | compile {machine : Machine} (source : String) (session : FindsOnceSoFar identity machine) :
      FindsOnceSoFar identity ((Run.compile source).machineAfter machine)
  | run {machine : Machine} {depth : Nat} {program : Program}
      (once : (Activity.script program).FindsOnce identity depth machine)
      (session : FindsOnceSoFar identity machine) :
      FindsOnceSoFar identity (machine.run depth program).2
  | call {machine : Machine} {depth : Nat} {name : String} {span : Span} {arguments : List Value}
      (once : (Activity.call name span arguments).FindsOnce identity depth machine)
      (session : FindsOnceSoFar identity machine) :
      FindsOnceSoFar identity
        (((ofDepth depth).callFunction name span arguments).machineAfter machine)
  | takeOutput {machine : Machine} (session : FindsOnceSoFar identity machine) :
      FindsOnceSoFar identity machine.takeOutput.2

theorem FindsOnceSoFar.count_le (session : machine.FindsOnceSoFar identity) :
    machine.included.count identity ≤ 1 := by
  have ofSession := Evolution.ofSession_atMostOnce identity
  induction session with
  | start settings request files clock => exact Nat.zero_le 1
  | @compile before source _ ih =>
    exact (Evolution.atMostOnce identity).leads_compile source before ih
  | @run before depth program once _ ih =>
    exact ofSession.leads_conclude _ before (once.leads trivial).1 ih
  | call once _ ih => exact (once.leads trivial).1 ih
  | takeOutput _ ih => exact ih

end Machine

namespace Evaluator

/-- In a session in which all expressions that find a file pull it in only once, the file never gets
a second entry. Where it is started, it has none before; and at every moment from then on it is
passed over. -/
theorem file_starts_at_most_once {identity : String} {machine : Machine}
    (session : machine.FindsOnceSoFar identity) {activity : Activity} (asked : activity.IsAsked)
    {depth : Nat} (once : activity.FindsOnce identity depth machine) :
    (∀ moment, activity.PassesThrough depth machine moment →
      moment.included.count identity ≤ 1) ∧
    ∀ outermost level code start rest mode path source named,
      Performs activity.run (ofDepth depth) machine outermost →
      OpenParts depth outermost (level + 1) (⟨.expression code, start⟩ :: rest) →
      StartsFile (ofDepth level) start code mode path source identity named →
        identity ∉ named.included ∧
        (ofDepth (level + 1)).expression code start =
          (ofDepth level).runFile path source (named.pullIn identity) ∧
        ∀ later, FollowsMark level path source (named.pullIn identity) later →
          later.Skips identity := by
  refine ⟨fun moment => once.count_le asked session.count_le, ?_⟩
  intro outermost level code start rest mode path source named performs opened starts
  refine ⟨?_, starts.expression_eq, fun later follows => ?_⟩
  · rcases starts with ⟨⟨view, finds, same, _⟩, isWanted⟩
    have isOnce := once outermost performs level code start rest opened mode path view named finds
      same
    simpa [isOnce] using isWanted
  · exact Machine.skips_of_mem (follows.included_subset List.mem_cons_self)

/-- A script pulls in one file by two spellings of its path: first the file is run, and then it is
passed over. -/
theorem file_starts_at_most_once_spelled_twice :
    let machine := Machine.start {} {} (fun _ => some ⟨true, some "/a", .ok ""⟩) ⟨0, 0⟩
    let first : Located Expr := ⟨.includeFile ⟨true, true⟩ ⟨.str "/a", ⟨0, 0⟩⟩, ⟨0, 0⟩⟩
    let second : Located Expr := ⟨.includeFile ⟨false, true⟩ ⟨.str "/b/../a", ⟨0, 0⟩⟩, ⟨0, 0⟩⟩
    let program : Program := ⟨"", [⟨.expression first, ⟨0, 0⟩⟩, ⟨.expression second, ⟨0, 0⟩⟩], {}⟩
    (Activity.script program).FindsOnce "/a" 3 machine ∧
      (∀ moment, (Activity.script program).PassesThrough 3 machine moment →
        moment.included.count "/a" ≤ 1) ∧
      ∃ start after, (ofDepth 2).expression first start = .ok (.int 1) after ∧
        (ofDepth 2).expression second after = .ok (.bool true) after := by
  intro machine first second program
  have session : machine.FindsOnceSoFar "/a" := .start _ _ _ _
  have asked : (Activity.script program).IsAsked := trivial
  have once : (Activity.script program).FindsOnce "/a" 3 machine := by
    intro outermost performs level code start rest opened mode path view named finds _
    rcases exists_statement_of_performs performs with ⟨statement, member, isStatement⟩
    cases opened with
    | outermost => cases isStatement
    | @part _ outer _ rest opened inside =>
        cases opened with
        | outermost =>
            rw [isStatement] at inside
            simp only [program, List.mem_cons, List.not_mem_nil, or_false] at member
            rcases member with rfl | rfl
            all_goals
              rcases (performs_bind_iff (.perform (.expression _))).mp inside with
                early | ⟨_, _, _, late⟩
              · cases (performs_perform_iff _).mp early
                exact congrArg IncludeMode.once finds.mode_eq
              · exact absurd late (unaffected_const _).not_performs
        | part opened _ =>
            have lowest : level = 0 := by
              have := opened.level_le
              omega
            subst lowest
            exact absurd finds not_findsFile_zero
  let start := machine.atStart program
  let after := ((ofDepth 1).runFile "/a" "").machineAfter (start.pullIn "/a")
  have performs : Performs (Activity.script program).run (ofDepth 3) machine
      ⟨.statement ⟨.expression first, ⟨0, 0⟩⟩, start⟩ :=
    performs_effect_bind_iff.mpr ⟨(), start, rfl, performs_effect_bind_iff.mpr
      ⟨(), start, rfl, Performs.bind_first ((performs_perform_iff (.statement _)).mpr rfl)⟩⟩
  have opened : OpenParts 3 ⟨.statement ⟨.expression first, ⟨0, 0⟩⟩, start⟩ 2
      [⟨.expression first, start⟩, ⟨.statement ⟨.expression first, ⟨0, 0⟩⟩, start⟩] :=
    .part .outermost (Performs.bind_first ((performs_perform_iff (.expression _)).mpr rfl))
  have isStarted : StartsFile (ofDepth 1) start first ⟨true, true⟩ "/a" "" "/a" start :=
    ⟨⟨_, .named rfl (by decide) rfl rfl, rfl, rfl⟩, by decide⟩
  have ends : (ofDepth 1).runFile "/a" "" (start.pullIn "/a") = .ok (.int 1) after := by
    with_unfolding_all rfl
  have finds : FindsFile (ofDepth 1) after second ⟨false, true⟩ "/b/../a"
      ⟨true, some "/a", .ok ""⟩ after :=
    .named rfl (by decide) rfl (by with_unfolding_all rfl)
  rcases file_starts_at_most_once session asked once with ⟨counts, starts⟩
  rcases starts _ _ _ _ _ _ _ _ _ performs opened isStarted with ⟨_, runs, skips⟩
  exact ⟨once, counts, start, after, runs.trans ends,
    (skips after (.afterwards .refl)).isTrue _ _ _ _ _ _ finds rfl rfl⟩

end Evaluator

end PhpScript
