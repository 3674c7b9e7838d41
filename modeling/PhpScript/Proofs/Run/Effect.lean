import Mathlib.Logic.Relation
import PhpScript.Run.Include
import PhpScript.Run.Native

/-!
# What primitive computations do to a machine

`Machine.Change` lists, once for the whole library, the changes that running code makes to a machine
outside of brackets that are undone again. A computation has an effect when the machine that it
leaves behind comes about by such changes. Everything that hands no part of the code to an evaluator
has one. `Powers` say which names may be imported, which functions declared and which files pulled
in.
-/

namespace PhpScript

/-- What a computation may do to the scopes and to the list of files that have been pulled in. -/
structure Powers where
  imports : String → Prop
  declares : UserFunction → Prop
  pulls : String → Prop

/-- Where only names are given, any function may be declared and any file may be pulled in. -/
instance : Coe (String → Prop) Powers := ⟨fun imports => ⟨imports, fun _ => True, fun _ => True⟩⟩

namespace Powers

@[reducible]
def pulling (pulls : String → Prop) : Powers := ⟨fun _ => True, fun _ => True, pulls⟩

@[reducible]
def all : Powers := pulling fun _ => True

end Powers

namespace Machine

/-- One change that running code makes to a machine. -/
inductive Change (powers : Powers) (machine : Machine) : Machine → Prop
  | output (output : OutputBuffers) : Change powers machine { machine with output }
  | reporting (reporting : Int64) : Change powers machine { machine with reporting }
  | clock (clock : Moment) : Change powers machine { machine with clock }
  | nextId (nextId : Nat) : Change powers machine { machine with nextId }
  | pullIn (path : String) (allowed : powers.pulls path) :
      Change powers machine { machine with included := path :: machine.included }
  | declare (declaration : UserFunction) (root : GlobalScope)
      (isNew : declaration.id ∉ machine.declared)
      (added : machine.scopes.root.declareFunction ⟨declaration, machine.file⟩ = .ok root)
      (allowed : powers.declares declaration) :
      Change powers machine
        { machine with
          declared := declaration.id :: machine.declared
          scopes := { machine.scopes with root } }
  /-- A declaration that is refused is recorded all the same. -/
  | refuse (declaration : UserFunction) (problem : Problem)
      (isNew : declaration.id ∉ machine.declared)
      (refused : machine.scopes.root.declareFunction ⟨declaration, machine.file⟩ = .error problem) :
      Change powers machine { machine with declared := declaration.id :: machine.declared }
  | constant (name : String) (value : Value) (root : GlobalScope)
      (added : machine.scopes.root.declareConstant name value = .ok root) :
      Change powers machine { machine with scopes := { machine.scopes with root } }
  | store (name : String) (value : Value) :
      Change powers machine { machine with scopes := machine.scopes.store name value }
  | unset (name : String) :
      Change powers machine { machine with scopes := machine.scopes.unset name }
  | importName (name : String) (allowed : powers.imports name) :
      Change powers machine { machine with scopes := machine.scopes.importName name }

theorem Change.mono {powers larger : Powers} {machine after : Machine}
    (change : Change powers machine after)
    (imports : ∀ name, powers.imports name → larger.imports name)
    (declares : ∀ function, powers.declares function → larger.declares function)
    (pulls : ∀ path, powers.pulls path → larger.pulls path) : Change larger machine after := by
  cases change with
  | output output => exact .output output
  | reporting reporting => exact .reporting reporting
  | clock clock => exact .clock clock
  | nextId nextId => exact .nextId nextId
  | pullIn path own => exact .pullIn path (pulls path own)
  | declare declaration root isNew added own =>
    exact .declare declaration root isNew added (declares declaration own)
  | refuse declaration problem isNew refused => exact .refuse declaration problem isNew refused
  | constant name value root added => exact .constant name value root added
  | store name value => exact .store name value
  | unset name => exact .unset name
  | importName name own => exact .importName name (imports name own)

def Changes (powers : Powers) : Machine → Machine → Prop :=
  Relation.ReflTransGen (Change powers)

end Machine

namespace Run

variable {α β : Type} {powers : Powers} {machine middle after : Machine} {run : Run α}
  {next : α → Run β} {value : α} {halt : Halt}

/-- The machine that a computation leaves, however it ends. -/
def machineAfter (run : Run α) (machine : Machine) : Machine :=
  match run machine with
  | .ok _ after => after
  | .error _ after => after

theorem machineAfter_of_ok (ends : run machine = .ok value after) :
    run.machineAfter machine = after := by
  simp [machineAfter, ends]

theorem machineAfter_of_error (ends : run machine = .error halt after) :
    run.machineAfter machine = after := by
  simp [machineAfter, ends]

theorem bind_of_ok (ends : run machine = .ok value middle) :
    (run >>= next) machine = next value middle := by
  simp [bind, EStateM.bind, ends]

theorem bind_of_error (ends : run machine = .error halt middle) :
    (run >>= next) machine = .error halt middle := by
  simp [bind, EStateM.bind, ends]

theorem get_bind (next : Machine → Run α) (machine : Machine) :
    (MonadState.get >>= next) machine = next machine machine := rfl

theorem bind_eq_ok {result : β} (ends : (run >>= next) machine = .ok result after) :
    ∃ value middle, run machine = .ok value middle ∧ next value middle = .ok result after := by
  cases first : run machine with
  | ok value middle =>
    rw [bind_of_ok first] at ends
    exact ⟨value, middle, rfl, ends⟩
  | error halt middle =>
    rw [bind_of_error first] at ends
    cases ends

theorem machineAfter_bind_of_ok (ends : run machine = .ok value middle) :
    (run >>= next).machineAfter machine = (next value).machineAfter middle := by
  simp only [machineAfter, bind_of_ok ends]

theorem machineAfter_bind_of_error (ends : run machine = .error halt middle) :
    (run >>= next).machineAfter machine = middle := by
  simp only [machineAfter, bind_of_error ends]

theorem related_bind {related : Machine → Machine → Prop}
    (trans : ∀ {first second third}, related first second → related second third →
      related first third)
    (first : related machine (run.machineAfter machine))
    (second : ∀ value middle, run machine = .ok value middle →
      related middle ((next value).machineAfter middle)) :
    related machine ((run >>= next).machineAfter machine) := by
  cases ends : run machine with
  | ok value middle =>
    rw [machineAfter_of_ok ends] at first
    rw [machineAfter_bind_of_ok ends]
    exact trans first (second value middle ends)
  | error halt middle =>
    rw [machineAfter_of_error ends] at first
    rw [machineAfter_bind_of_error ends]
    exact first

theorem machineAfter_bracket {saved : Type} (save : Machine → saved) (enter : Machine → Machine)
    (restore : saved → Machine → Machine) (body : Run α) (machine : Machine) :
    (bracket save enter restore body).machineAfter machine =
      restore (save machine) (body.machineAfter (enter machine)) := by
  simp only [machineAfter, bracket]
  cases body (enter machine) <;> rfl

theorem machineAfter_bind_ofExcept (run : Run α) (result : α → Except Problem β)
    (machine : Machine) :
    (run >>= fun value => Run.ofExcept (result value)).machineAfter machine =
      run.machineAfter machine := by
  cases ends : run machine with
  | ok value middle =>
    rw [machineAfter_bind_of_ok ends, machineAfter_of_ok ends]
    cases result value <;> rfl
  | error halt middle => rw [machineAfter_bind_of_error ends, machineAfter_of_error ends]

theorem read_eq_ok_iff {kind : SourceKind} {filename source : String} {program : Program} :
    Run.read kind filename source machine = .ok program after ↔
      ∃ next, Program.read kind filename source machine.nextId = (.ok program, next) ∧
        { machine with nextId := next } = after := by
  rw [Run.read, get_bind]
  rcases Program.read kind filename source machine.nextId with ⟨result, next⟩
  constructor
  · intro reads
    match result with
    | .ok own =>
      cases reads
      exact ⟨next, rfl, rfl⟩
    | .error .exhausted => cases reads
    | .error (.fault _) => cases reads
  · rintro ⟨_, ⟨⟩, rfl⟩
    rfl

section DeclareFunction

variable {declaration : UserFunction} {machine : Machine}

theorem declareFunction_of_mem (isRecorded : declaration.id ∈ machine.declared) :
    declareFunction declaration machine = .ok () machine := by
  rw [declareFunction, get_bind, if_pos (List.contains_iff_mem.mpr isRecorded)]
  rfl

theorem declareFunction_of_ok {root : GlobalScope} (isNew : declaration.id ∉ machine.declared)
    (added : machine.scopes.root.declareFunction ⟨declaration, machine.file⟩ = .ok root) :
    declareFunction declaration machine =
      .ok () { machine with
        declared := declaration.id :: machine.declared
        scopes := { machine.scopes with root } } := by
  rw [declareFunction, get_bind, if_neg (mt List.contains_iff_mem.mp isNew)]
  change (ofExcept (machine.scopes.root.declareFunction ⟨declaration, machine.file⟩) >>= _) _ = _
  rw [added]
  rfl

theorem declareFunction_of_error {problem : Problem} (isNew : declaration.id ∉ machine.declared)
    (refused : machine.scopes.root.declareFunction ⟨declaration, machine.file⟩ = .error problem) :
    declareFunction declaration machine =
      .error (.problem problem)
        { machine with declared := declaration.id :: machine.declared } := by
  rw [declareFunction, get_bind, if_neg (mt List.contains_iff_mem.mp isNew)]
  change (ofExcept (machine.scopes.root.declareFunction ⟨declaration, machine.file⟩) >>= _) _ = _
  rw [refused]
  rfl

theorem declareFunction_of_taken (isNew : declaration.id ∉ machine.declared)
    (isTaken : machine.scopes.root.functionExists declaration.name.node = true) :
    declareFunction declaration machine = .error (.problem (.cannotRedeclare declaration.name.node))
      { machine with declared := declaration.id :: machine.declared } :=
  declareFunction_of_error isNew (if_pos isTaken)

end DeclareFunction

/-- All that a computation does to a machine are changes that running code may make. -/
def HasEffect (powers : Powers) (run : Run α) : Prop :=
  ∀ machine, Machine.Changes powers machine (run.machineAfter machine)

theorem HasEffect.mono {larger : Powers} {run : Run α} (effect : run.HasEffect powers)
    (imports : ∀ name, powers.imports name → larger.imports name)
    (declares : ∀ function, powers.declares function → larger.declares function)
    (pulls : ∀ path, powers.pulls path → larger.pulls path) : run.HasEffect larger :=
  fun machine => Relation.ReflTransGen.mono
    (fun _ _ change => Machine.Change.mono change imports declares pulls) _ _ (effect machine)

namespace HasEffect

theorem pure (value : α) : HasEffect powers (Pure.pure value : Run α) :=
  fun _ => .refl

theorem throw (halt : Halt) : HasEffect powers (MonadExcept.throw halt : Run α) :=
  fun _ => .refl

theorem fail (problem : Problem) : HasEffect powers (Run.fail problem : Run α) :=
  .throw (.problem problem)

theorem get : HasEffect powers (MonadState.get : Run Machine) :=
  fun _ => .refl

theorem bind (first : HasEffect powers run) (second : ∀ value, HasEffect powers (next value)) :
    HasEffect powers (run >>= next) :=
  fun machine => related_bind .trans (first machine) fun value middle _ => second value middle

theorem modifying {change : Machine → Machine}
    (allowed : ∀ machine, Machine.Changes powers machine (change machine)) :
    HasEffect powers (modify change : Run Unit) :=
  allowed

theorem modifyGet {change : Machine → α × Machine}
    (allowed : ∀ machine, Machine.Changes powers machine (change machine).2) :
    HasEffect powers (MonadStateOf.modifyGet change : Run α) :=
  allowed

theorem ofExcept (result : Except Problem α) : HasEffect powers (Run.ofExcept result) := by
  cases result with
  | ok value => exact .pure value
  | error problem => exact .fail problem

theorem print (text : String) : HasEffect powers (Run.print text) :=
  .modifying fun machine => .single (.output (machine.output.write text))

theorem warnAll (problems : List Problem) (span : Span) :
    HasEffect powers (Run.warnAll problems span) := by
  apply HasEffect.modifying
  intro machine
  simp only [Machine.warnAll]
  induction problems generalizing machine with
  | nil => exact .refl
  | cons problem rest ih =>
    refine .trans ?_ (ih (machine.warn problem span))
    simp only [Machine.warn]
    split
    · exact .single (.output _)
    · exact .refl

theorem warn (problem : Problem) (span : Span) : HasEffect powers (Run.warn problem span) :=
  HasEffect.warnAll [problem] span

theorem check (span : Span) (computation : Checked α) :
    HasEffect powers (Run.check span computation) :=
  .bind (.warnAll _ span) fun _ => .ofExcept _

theorem stringify (span : Span) (value : Value) : HasEffect powers (Run.stringify span value) :=
  .check span value.stringify

theorem now : HasEffect powers Run.now :=
  .modifyGet fun machine => .single (.clock machine.clock.next)

theorem look (path : String) : HasEffect powers (Run.look path) := by
  refine .bind .get fun machine => ?_
  split
  · exact .pure _
  · exact .throw _

theorem store (name : String) (value : Value) :
    HasEffect powers (Run.modifyScopes (·.store name value)) :=
  .modifying fun _ => .single (.store name value)

theorem importName (name : String) (allowed : powers.imports name) :
    HasEffect powers (Run.modifyScopes (·.importName name)) :=
  .modifying fun _ => .single (.importName name allowed)

theorem bind_get {next : Machine → Run α}
    (allowed : ∀ machine, Machine.Changes powers machine ((next machine).machineAfter machine)) :
    HasEffect powers (MonadState.get >>= next) :=
  allowed

theorem declareConstant (name : String) (value : Value) (span : Span) :
    HasEffect powers (Run.declareConstant name value span) := by
  apply HasEffect.bind_get
  intro machine
  split
  · rename_i root added
    exact .single (.constant name value root added)
  · exact (HasEffect.bind (.warn _ span) fun _ => .pure false) machine

theorem declareFunction (declaration : UserFunction) (allowed : powers.declares declaration) :
    HasEffect powers (Run.declareFunction declaration) := by
  intro machine
  by_cases isRecorded : declaration.id ∈ machine.declared
  · rw [machineAfter_of_ok (declareFunction_of_mem isRecorded)]
    exact .refl
  · cases added : machine.scopes.root.declareFunction ⟨declaration, machine.file⟩ with
    | ok root =>
      rw [machineAfter_of_ok (declareFunction_of_ok isRecorded added)]
      exact .single (.declare declaration root isRecorded added allowed)
    | error problem =>
      rw [machineAfter_of_error (declareFunction_of_error isRecorded added)]
      exact .single (.refuse declaration problem isRecorded added)

theorem forM {γ : Type} {items : List γ} {action : γ → Run PUnit}
    (each : ∀ item ∈ items, HasEffect powers (action item)) :
    HasEffect powers (items.forM action) := by
  induction items with
  | nil => exact .pure _
  | cons item rest ih =>
    refine .bind (each item List.mem_cons_self) fun _ => ih ?_
    exact fun other member => each other (List.mem_cons_of_mem item member)

theorem hoist_of_declares {statements : List (Located Stmt)}
    (allowed : ∀ declaration ∈ Stmt.topFunctionsOf statements, powers.declares declaration) :
    HasEffect powers (Run.hoist statements) :=
  .forM fun declaration member => .declareFunction declaration (allowed declaration member)

theorem hoist {imports : String → Prop} (statements : List (Located Stmt)) :
    HasEffect imports (Run.hoist statements) :=
  .hoist_of_declares fun _ _ => trivial

theorem lineOf (span : Span) : HasEffect powers (Run.lineOf span) :=
  .bind .get fun _ => .pure _

theorem read (kind : SourceKind) (filename source : String) :
    HasEffect powers (Run.read kind filename source) := by
  refine .bind .get fun machine => ?_
  refine .bind (.modifying fun _ => .single (.nextId _)) fun _ => ?_
  split
  · exact .pure _
  · exact .throw _
  · exact .fail _

theorem resolvePath (filename : String) : HasEffect powers (Run.resolvePath filename) := by
  simp only [Run.resolvePath]
  split
  · exact .pure _
  · refine .bind (.look filename) fun view => ?_
    split
    · exact .pure _
    · refine .bind .get fun machine => ?_
      split
      · exact .bind (.look _) fun _ => .pure _
      · exact .pure _

theorem reportUnreadable (mode : IncludeMode) (filename : String) (error : FileError)
    (span : Span) : HasEffect powers (Run.reportUnreadable mode filename error span) := by
  refine .bind (.warn _ span) fun _ => ?_
  split
  · exact .fail _
  · exact .bind (.warn _ span) fun _ => .pure _

end HasEffect

end Run

open Run

variable {powers : Powers}

namespace Place

theorem readKeys_eq_ok {place : Place} {keys : List Value}
    (complete : place.keysOr .readAppend = .ok keys) (machine : Machine) :
    place.readKeys machine = .ok keys machine := by
  rw [readKeys, complete]
  rfl

theorem hasEffect_readKeys (place : Place) : HasEffect powers place.readKeys :=
  .ofExcept _

theorem hasEffect_follow (place : Place) (root : Value) (keys : List Value) :
    HasEffect powers (place.follow root keys) := by
  simp only [follow]
  split
  · exact .bind (.warnAll _ place.span) fun _ => .pure _
  · exact .fail _

theorem hasEffect_load (place : Place) : HasEffect powers place.load := by
  refine .bind place.hasEffect_readKeys fun keys => .bind .get fun machine => ?_
  split
  · exact place.hasEffect_follow _ keys
  · exact .bind (.warn _ place.span) fun _ => place.hasEffect_follow _ keys

theorem hasEffect_quiet? (place : Place) : HasEffect powers place.quiet? :=
  .bind place.hasEffect_readKeys fun _ => .bind .get fun _ => .pure _

theorem hasEffect_store (place : Place) (value : Value) : HasEffect powers (place.store value) := by
  simp only [store]
  split
  · exact .store place.name value
  · refine .bind (.modifyGet fun machine => ?_) fun root => ?_
    · simp only [Scopes.take]
      split
      · exact .single (.store place.name .null)
      · exact .refl
    · refine .bind (.store place.name _) fun _ => .bind (.warnAll _ place.span) fun _ => ?_
      split
      · exact .fail _
      · exact .pure _

theorem hasEffect_unset (place : Place) : HasEffect powers place.unset := by
  simp only [unset]
  split
  · exact .modifying fun _ => .single (.unset place.name)
  · refine .bind (.ofExcept _) fun keys => .bind .get fun machine => ?_
    split
    · exact .pure _
    · exact .bind (.ofExcept _) fun changed => .store place.name changed

end Place

namespace OutputFunction

theorem hasEffect_onBuffer (span : Span) (function failure remedy : String)
    (change : OutputBuffers → Option OutputBuffers) :
    HasEffect powers (onBuffer span function failure remedy change) := by
  refine .bind .get fun machine => ?_
  split
  · exact .bind (.modifying fun _ => .single (.output _)) fun _ => .pure _
  · exact .bind (.warn _ span) fun _ => .pure _

theorem hasEffect_list (text : String) (handOut printed : Value) :
    HasEffect powers (list text handOut printed) := by
  simp only [list]
  split
  · exact .pure _
  · exact .bind (.print text) fun _ => .pure _

theorem hasEffect_apply (function : OutputFunction) (span : Span) (arguments : List Value) :
    HasEffect powers (function.apply span arguments) := by
  simp only [apply]
  split
  · exact hasEffect_list _ _ _
  · exact .bind (.print _) fun _ => .pure _
  · exact hasEffect_list _ _ _
  · exact .bind (.modifying fun machine => .single (.output machine.output.push)) fun _ => .pure _
  · exact hasEffect_onBuffer span _ _ _ _
  · exact hasEffect_onBuffer span _ _ _ _
  · exact hasEffect_onBuffer span _ _ _ _
  · exact hasEffect_onBuffer span _ _ _ _
  · refine .bind .get fun machine => ?_
    split
    · exact .bind (.modifying fun _ => .single (.output _)) fun _ => .pure _
    · exact .pure _
  · refine .bind .get fun machine => ?_
    split
    · exact .pure _
    · exact .pure _
  · refine .bind .get fun machine => .bind (hasEffect_onBuffer span _ _ _ _) fun closed => ?_
    split
    · exact .pure _
    · exact .pure _
  · exact .bind .get fun _ => .pure _
  · exact .pure _

end OutputFunction

theorem NameFunction.hasEffect_apply (function : NameFunction) (span : Span)
    (arguments : List Value) : HasEffect powers (function.apply span arguments) := by
  refine .bind .get fun machine => ?_
  split
  · dsimp only
    split
    · exact .pure _
    · exact .fail _
  · exact .bind (.declareConstant _ _ span) fun _ => .pure _
  all_goals exact .pure _

namespace OptionFunction

theorem hasEffect_setReporting (level : Int64) : HasEffect powers (setReporting level) :=
  .modifyGet fun _ => .single (.reporting level)

theorem hasEffect_apply (function : OptionFunction) (arguments : List Value) :
    HasEffect powers (function.apply arguments) := by
  simp only [apply]
  split
  · exact .bind .get fun _ => .pure _
  · exact .bind (hasEffect_setReporting _) fun _ => .pure _
  · refine .bind .get fun machine => ?_
    split <;> exact .pure _
  · split
    · exact .bind .get fun _ => .pure _
    · exact .pure _
  · split
    · exact .bind (hasEffect_setReporting _) fun _ => .pure _
    · exact .pure _
  · exact .pure _
  · split <;> exact .pure _
  · exact .pure _

end OptionFunction

theorem Native.hasEffect_call (native : Native) (span : Span) (arguments : List Value) :
    HasEffect powers (native.call span arguments) := by
  refine .bind (.ofExcept _) fun values => ?_
  cases native with
  | text function => exact .bind (.check span _) fun _ => .pure _
  | array function => exact .bind (.check span _) fun _ => .pure _
  | reference function => exact .check span _
  | math function => exact .bind (.check span _) fun _ => .pure _
  | type function => exact .bind (.check span _) fun _ => .pure _
  | time function => exact .bind .now fun _ => .pure _
  | output function => exact .bind (function.hasEffect_apply span values) fun _ => .pure _
  | name function => exact .bind (function.hasEffect_apply span values) fun _ => .pure _
  | option function => exact .bind (function.hasEffect_apply values) fun _ => .pure _

end PhpScript
