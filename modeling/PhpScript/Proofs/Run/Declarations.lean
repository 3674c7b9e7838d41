import PhpScript.Proofs.Run.Bindings

/-!
# Declarations that are executed once

A machine records the identity of every declaration that it executes, before it asks whether the
name is free, and passes over those that it has recorded. So a declaration that was executed is
registered for good, or it was refused because its name was taken. A refused one stays recorded, and
when its program is run again, it is not refused again.
-/

namespace PhpScript

namespace Machine

/-- One step of a session: a change by running code, or another context for the code that runs. -/
inductive Alters (machine : Machine) : Machine → Prop
  | change {after : Machine} (change : Change .all machine after) : Alters machine after
  | context (silence depth loopDepth : Nat) (file : SourceFile) (exitCode : Int64)
      (locals : List LocalScope) :
      Alters machine
        { machine with
          silence, depth, loopDepth, file, exitCode
          scopes := { machine.scopes with locals } }

/-- One machine comes about from another one by steps of a session. -/
def Becomes : Machine → Machine → Prop := Relation.ReflTransGen Alters

/-- All registered functions were executed. -/
def RecordsFunctions (machine : Machine) : Prop :=
  ∀ key function, machine.scopes.root.functions.get? key = some function →
    function.declaration.id ∈ machine.declared

/-- What is recorded stays recorded, and does not get into the registry any more. -/
structure KeepsRecord (before after : Machine) : Prop where
  grows : before.declared ⊆ after.declared
  records : before.RecordsFunctions → after.RecordsFunctions
  settled : ∀ key function, after.scopes.root.functions.get? key = some function →
    function.declaration.id ∈ before.declared →
      before.scopes.root.functions.get? key = some function

/-- A declaration was executed for the first time on a machine between two others. -/
structure Executes (start : Machine) (declaration : UserFunction) (moment machine : Machine) :
    Prop where
  reached : start.Becomes moment
  isNew : declaration.id ∉ moment.declared
  goesOn : ((Run.declareFunction declaration).machineAfter moment).Becomes machine

/-- What has come of a declaration that was executed: it is registered if its name was free, and
otherwise it was refused and is in the registry under no name. -/
structure Settles (moment : Machine) (declaration : UserFunction) (machine : Machine) : Prop where
  registered : moment.scopes.root.functionExists declaration.name.node = false →
    (∃ after, Run.declareFunction declaration moment = .ok () after) ∧
      machine.scopes.root.function? declaration.name.node = some ⟨declaration, moment.file⟩
  refused : moment.scopes.root.functionExists declaration.name.node = true →
    (∃ after, Run.declareFunction declaration moment =
      .error (.problem (.cannotRedeclare declaration.name.node)) after) ∧
      ∀ key function, machine.scopes.root.functions.get? key = some function →
        function.declaration.id ≠ declaration.id

/-- Declarations that one machine has recorded are passed over by another one, wherever they stand
in the code. -/
structure PassesOver (machine later : Machine) : Prop where
  executed : ∀ declaration : UserFunction, declaration.id ∈ machine.declared →
    Run.declareFunction declaration later = .ok () later
  hoisted : ∀ statements, Run.hoist statements later =
    ((Stmt.topFunctionsOf statements).filter fun declaration =>
      declaration.id ∉ machine.declared).forM Run.declareFunction later

end Machine

/-! ## Steps of a session -/

def Evolution.alterations : Evolution .all where
  Leads := Machine.Becomes
  refl _ := .refl
  trans := .trans
  change change := .single (.change change)
  surroundings machine silence loopDepth file :=
    .single (.context silence machine.depth loopDepth file machine.exitCode machine.scopes.locals)

theorem Evolution.ofSession_alterations : Evolution.alterations.OfSession where
  locals machine locals :=
    .single (.context machine.silence machine.depth machine.loopDepth machine.file
      machine.exitCode locals)
  depth machine depth :=
    .single (.context machine.silence depth machine.loopDepth machine.file machine.exitCode
      machine.scopes.locals)
  exitCode machine exitCode :=
    .single (.context machine.silence machine.depth machine.loopDepth machine.file exitCode
      machine.scopes.locals)

theorem Evolution.OfSession.leads_of_becomes {evolution : Evolution .all}
    (ofSession : evolution.OfSession) {machine after : Machine} (becomes : machine.Becomes after) :
    evolution.Leads machine after := by
  induction becomes with
  | refl => exact evolution.refl machine
  | @tail middle _ _ step ih =>
    refine evolution.trans ih ?_
    cases step with
    | change change => exact evolution.change change
    | context silence depth loopDepth file exitCode locals =>
      have inFile := evolution.surroundings middle silence loopDepth file
      have atDepth := evolution.trans inFile (ofSession.depth _ depth)
      have atExit := evolution.trans atDepth (ofSession.exitCode _ exitCode)
      exact evolution.trans atExit (ofSession.locals _ locals)

namespace Machine

variable {start moment middle machine after : Machine} {declaration : UserFunction} {id : Nat}

theorem Alters.declared (step : machine.Alters after) :
    after.declared = machine.declared ∨
      ∃ declaration : UserFunction, declaration.id ∉ machine.declared ∧
        after.declared = declaration.id :: machine.declared ∧
        after = (Run.declareFunction declaration).machineAfter machine := by
  cases step with
  | context _ _ _ _ _ _ => exact .inl rfl
  | change change =>
    cases change with
    | declare declaration root isNew added _ =>
      refine .inr ⟨declaration, isNew, rfl, ?_⟩
      rw [Run.machineAfter_of_ok (Run.declareFunction_of_ok isNew added)]
    | refuse declaration problem isNew refused =>
      refine .inr ⟨declaration, isNew, rfl, ?_⟩
      rw [Run.machineAfter_of_error (Run.declareFunction_of_error isNew refused)]
    | _ => exact .inl rfl

theorem Becomes.exists_executes (becomes : start.Becomes machine)
    (isRecorded : id ∈ machine.declared) (atFirst : id ∉ start.declared) :
    ∃ declaration moment, declaration.id = id ∧ start.Executes declaration moment machine := by
  induction becomes with
  | refl => exact absurd isRecorded atFirst
  | @tail middle machine before step ih =>
    by_cases wasRecorded : id ∈ middle.declared
    · rcases ih wasRecorded with ⟨declaration, moment, same, reached, isNew, goesOn⟩
      exact ⟨declaration, moment, same, reached, isNew, goesOn.tail step⟩
    · rcases step.declared with unchanged | ⟨declaration, isNew, added, ends⟩
      · rw [unchanged] at isRecorded
        exact absurd isRecorded wasRecorded
      · rw [added] at isRecorded
        rcases List.mem_cons.mp isRecorded with same | earlier
        · exact ⟨declaration, middle, same.symm, before, isNew, ends ▸ .refl⟩
        · exact absurd earlier wasRecorded

/-! ## The record and the registry -/

namespace KeepsRecord

theorem of_eq (declared : after.declared = machine.declared)
    (functions : after.scopes.root.functions = machine.scopes.root.functions) :
    machine.KeepsRecord after where
  grows := by rw [declared]; exact List.Subset.refl _
  records recorded := by
    unfold RecordsFunctions
    rw [declared, functions]
    exact recorded
  settled key function found _ := by rwa [functions] at found

theorem trans (first : machine.KeepsRecord middle) (second : middle.KeepsRecord after) :
    machine.KeepsRecord after where
  grows := List.Subset.trans first.grows second.grows
  records := second.records ∘ first.records
  settled key function found isRecorded :=
    first.settled key function
      (second.settled key function found (first.grows isRecorded)) isRecorded

theorem of_change {powers : Powers} (change : Change powers machine after) :
    machine.KeepsRecord after := by
  cases change with
  | output _ | reporting _ | clock _ | nextId _ | pullIn _ => exact .of_eq rfl rfl
  | constant name value root added =>
    rcases GlobalScope.declareConstant_eq_ok_iff.mp added with ⟨_, rfl⟩
    exact .of_eq rfl rfl
  | store name value =>
    exact .of_eq rfl (Scopes.alters_store _ name value).sameDeclarations.functions
  | unset name => exact .of_eq rfl (Scopes.alters_unset _ name).sameDeclarations.functions
  | importName name _ =>
    exact .of_eq rfl (congrArg GlobalScope.functions (Scopes.importName_root _ name))
  | refuse declaration problem _ _ =>
    refine ⟨List.subset_cons_self _ _, fun recorded key function found => ?_, ?_⟩
    · exact List.mem_cons_of_mem _ (recorded key function found)
    · exact fun key function found _ => found
  | declare declaration root isNew added _ =>
    rcases GlobalScope.declareFunction_eq_ok_iff.mp added with ⟨_, rfl⟩
    refine ⟨List.subset_cons_self _ _, fun recorded key function found => ?_,
      fun key function found isRecorded => ?_⟩
    all_goals
      dsimp only at found
      rw [Table.get?_insert] at found
      split at found
    · cases found
      exact List.mem_cons_self
    · exact List.mem_cons_of_mem _ (recorded key function found)
    · cases found
      exact absurd isRecorded isNew
    · exact found

end KeepsRecord

end Machine

def Evolution.record : Evolution .all where
  Leads := Machine.KeepsRecord
  refl _ := .of_eq rfl rfl
  trans := .trans
  change := .of_change
  surroundings _ _ _ _ := .of_eq rfl rfl

theorem Evolution.ofSession_record : Evolution.record.OfSession where
  locals _ _ := .of_eq rfl rfl
  depth _ _ := .of_eq rfl rfl
  exitCode _ _ := .of_eq rfl rfl

namespace Run

variable {machine : Machine}

theorem keepsRecord_declareFunction (declaration : UserFunction) (machine : Machine) :
    machine.KeepsRecord ((declareFunction declaration).machineAfter machine) := by
  have effect : HasEffect .all (declareFunction declaration) := .declareFunction declaration trivial
  exact Evolution.record.changes (effect machine)

theorem forM_declareFunction_eq {recorded : List Nat} (isRecorded : recorded ⊆ machine.declared)
    (declarations : List UserFunction) :
    declarations.forM declareFunction machine =
      (declarations.filter fun declaration => declaration.id ∉ recorded).forM declareFunction
        machine := by
  have unfolds (declaration : UserFunction) (rest : List UserFunction) :
      (declaration :: rest).forM declareFunction =
        declareFunction declaration >>= fun _ => rest.forM declareFunction := rfl
  induction declarations generalizing machine with
  | nil => rfl
  | cons declaration rest ih =>
    by_cases known : declaration.id ∈ recorded
    · rw [List.filter_cons_of_neg (by simpa using known), unfolds,
        bind_of_ok (declareFunction_of_mem (isRecorded known))]
      exact ih isRecorded
    · rw [List.filter_cons_of_pos (by simpa using known), unfolds, unfolds]
      have grows := (keepsRecord_declareFunction declaration machine).grows
      cases ends : declareFunction declaration machine with
      | error halt middle => rw [bind_of_error ends, bind_of_error ends]
      | ok value middle =>
        rw [machineAfter_of_ok ends] at grows
        rw [bind_of_ok ends, bind_of_ok ends]
        exact ih (List.Subset.trans isRecorded grows)

end Run

namespace Machine

variable {start moment machine later : Machine} {declaration : UserFunction}

theorem Becomes.passesOver (becomes : machine.Becomes later) : machine.PassesOver later where
  executed _ isRecorded :=
    Run.declareFunction_of_mem
      ((Evolution.ofSession_record.leads_of_becomes becomes).grows isRecorded)
  hoisted _ :=
    Run.forM_declareFunction_eq (Evolution.ofSession_record.leads_of_becomes becomes).grows _

theorem Executes.settles (executes : start.Executes declaration moment machine)
    (records : moment.RecordsFunctions) : moment.Settles declaration machine where
  registered := by
    intro free
    have added : moment.scopes.root.declareFunction ⟨declaration, moment.file⟩ = .ok _ :=
      GlobalScope.declareFunction_eq_ok_iff.mpr ⟨free, rfl⟩
    have ends := Run.declareFunction_of_ok executes.isNew added
    refine ⟨⟨_, ends⟩, ?_⟩
    have goesOn := executes.goesOn
    rw [Run.machineAfter_of_ok ends] at goesOn
    have kept := (Evolution.ofSession_bindings.leads_of_becomes goesOn).extends_root.functions
    refine kept _ _ ?_
    rw [Table.get?_insert, if_pos rfl]
  refused := by
    intro taken
    have ends := Run.declareFunction_of_taken executes.isNew taken
    refine ⟨⟨_, ends⟩, fun key function found same => executes.isNew ?_⟩
    have goesOn := executes.goesOn
    rw [Run.machineAfter_of_error ends] at goesOn
    have kept := (Evolution.ofSession_record.leads_of_becomes goesOn).settled key function found
      (same ▸ List.mem_cons_self)
    rw [← same]
    exact records key function kept

end Machine

/-! ## A program that is run twice -/

def UserFunction.program (declaration : UserFunction) : Program :=
  ⟨"", [⟨.function declaration, declaration.span⟩], {}⟩

namespace Machine

variable {machine : Machine} {declaration : UserFunction} {depth : Nat}

theorem run_program_of_taken (isNew : declaration.id ∉ machine.declared)
    (isTaken : machine.scopes.root.functionExists declaration.name.node = true) :
    machine.run depth declaration.program = (.failed (.cannotRedeclare declaration.name.node),
      { machine.atStart declaration.program with
        declared := declaration.id :: machine.declared
        exitCode := failureCode }) := by
  let start := machine.atStart declaration.program
  have executes : Run.declareFunction declaration start = _ :=
    Run.declareFunction_of_taken isNew isTaken
  have hoists : Run.hoist declaration.program.statements start = _ := Run.bind_of_error executes
  exact congrArg conclude (Run.bind_of_error hoists)

theorem run_program_of_mem (positive : 0 < depth) (isRecorded : declaration.id ∈ machine.declared) :
    machine.run depth declaration.program = (.finished, machine.atStart declaration.program) := by
  let start := machine.atStart declaration.program
  have executes : Run.declareFunction declaration start = _ :=
    Run.declareFunction_of_mem isRecorded
  have hoists : Run.hoist declaration.program.statements start = .ok () start :=
    Run.bind_of_ok executes
  have statement : (Evaluator.ofDepth depth).statement
      ⟨.function declaration, declaration.span⟩ start = .ok .normal start := by
    cases depth with
    | zero => exact absurd positive (Nat.lt_irrefl 0)
    | succ lower => exact Run.bind_of_ok executes
  have block : (Evaluator.ofDepth depth).block declaration.program.statements start =
      .ok .normal start :=
    Run.bind_of_ok statement
  have script : (Run.hoist declaration.program.statements >>= fun _ =>
      (Evaluator.ofDepth depth).block declaration.program.statements) start = .ok .normal start :=
    (Run.bind_of_ok hoists).trans block
  exact congrArg conclude script

theorem run_program_twice_of_taken (positive : 0 < depth)
    (isNew : declaration.id ∉ machine.declared)
    (isTaken : machine.scopes.root.functionExists declaration.name.node = true) :
    let first := machine.run depth declaration.program
    let second := first.2.run depth declaration.program
    first.1 = .failed (.cannotRedeclare declaration.name.node) ∧ second.1 = .finished ∧
      declaration.id ∈ second.2.declared ∧
      ∃ moment, machine.Executes declaration moment second.2 ∧
        moment.scopes.root.functionExists declaration.name.node = true := by
  intro first second
  let start := machine.atStart declaration.program
  have refuses : first = _ := run_program_of_taken isNew isTaken
  have isRecorded : declaration.id ∈ first.2.declared := refuses ▸ List.mem_cons_self
  have passes : second = _ := run_program_of_mem positive isRecorded
  have executes : Run.declareFunction declaration start = _ :=
    Run.declareFunction_of_taken isNew isTaken
  refine ⟨congrArg Prod.fst refuses, congrArg Prod.fst passes, passes ▸ isRecorded, start,
    ⟨?_, isNew, ?_⟩, isTaken⟩
  · exact .single (.context 0 0 0 _ 0 _)
  · rw [Run.machineAfter_of_error executes, passes, refuses]
    exact .single (.context 0 0 0 _ 0 _)

/-- At every moment of a session, the functions in the registry have been recorded, and all that is
recorded has been executed. An executed declaration is registered if its name was free; if it was
refused, then no function of it is in the registry although it is recorded. From then on both are
passed over alike, so that a refused declaration is not refused again. -/
theorem declarations_registered_or_refused (settings : Settings) (request : Request)
    (files : FileSystem) (clock : Moment) {machine : Machine}
    (reached : (Machine.start settings request files clock).Later machine) :
    machine.RecordsFunctions ∧
    (∀ id ∈ machine.declared, ∃ declaration moment, declaration.id = id ∧
      (Machine.start settings request files clock).Executes declaration moment machine) ∧
    (∀ declaration moment,
      (Machine.start settings request files clock).Executes declaration moment machine →
        moment.Settles declaration machine) ∧
    ∀ later, machine.Becomes later → machine.PassesOver later := by
  have records : ∀ {moment : Machine},
      (Machine.start settings request files clock).Becomes moment → moment.RecordsFunctions :=
    fun becomes => (Evolution.ofSession_record.leads_of_becomes becomes).records
      fun key function found => by cases found
  have becomes := Evolution.ofSession_alterations.leads_of_later reached
  refine ⟨records becomes, fun id isRecorded => ?_, fun declaration moment executes => ?_,
    fun later goesOn => goesOn.passesOver⟩
  · exact becomes.exists_executes isRecorded List.not_mem_nil
  · exact executes.settles (records executes.reached)

/-- A program declares a function under the name of a native one. Its first run is refused, and the
second one is not. -/
theorem declarations_registered_or_refused_run_twice :
    let declaration : UserFunction := ⟨0, ⟨"strlen", ⟨0, 0⟩⟩, [], none, [], ⟨0, 0⟩⟩
    let start := Machine.start {} {} (fun _ => none) ⟨0, 0⟩
    let first := start.run 1 declaration.program
    let second := first.2.run 1 declaration.program
    first.1 = .failed (.cannotRedeclare "strlen") ∧ second.1 = .finished ∧
      declaration.id ∈ second.2.declared ∧
      ∀ key function, second.2.scopes.root.functions.get? key = some function →
        function.declaration.id ≠ declaration.id := by
  intro declaration start first second
  have isTaken : start.scopes.root.functionExists declaration.name.node = true := by
    decide +kernel
  have reached : start.Later second.2 :=
    .tail (.single (.run 1 declaration.program)) (.run 1 declaration.program)
  rcases run_program_twice_of_taken Nat.one_pos List.not_mem_nil isTaken with
    ⟨refuses, passes, isRecorded, moment, executes, wasTaken⟩
  rcases declarations_registered_or_refused {} {} (fun _ => none) ⟨0, 0⟩ reached with
    ⟨_, _, settles, _⟩
  exact ⟨refuses, passes, isRecorded, ((settles _ _ executes).refused wasTaken).2⟩

end Machine

end PhpScript
