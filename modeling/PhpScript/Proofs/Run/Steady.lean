import PhpScript.Proofs.Native.Results
import PhpScript.Proofs.Request.Predefined
import PhpScript.Proofs.Run.Effect
import PhpScript.Proofs.Run.Variables

/-!
# Steady computations

A machine is regular when all its variables and constants have regular values. Two machines are
alike when they differ at most in what has been printed and in which severities are reported. A
steady computation keeps machines regular, gives a result of the wanted kind, fails with nothing but
fatal problems, and ends in the same way on alike machines, which it leaves alike.

What a script can find out about its reports depends on the calls that it makes. They are a
parameter here.
-/

namespace PhpScript

/-! ## Machines -/

/-- The functions that tell a script which severities are reported or what has been printed, by
their names in lower case. -/
def observers : List String :=
  ["error_reporting", "ini_get", "ini_set", "ob_get_contents", "ob_get_clean", "ob_get_flush"]

/-- No call asks for the severities that are reported or for what has been printed. -/
def AsksNothing (calls : String → List Value → Prop) : Prop :=
  ∀ name values, calls name values → Text.lowercase name ∉ observers

/-- Every call passes few enough arguments for an array of them. -/
def PassesFew (calls : String → List Value → Prop) : Prop :=
  ∀ name values, calls name values → values.length < elementLimit

def FoundRegular (found : Option Value) : Prop := ∀ value, found = some value → value.Regular

theorem FoundRegular.getD_null {found : Option Value} (regular : FoundRegular found) :
    (found.getD .null).Regular := by
  cases found with
  | some value => exact regular value rfl
  | none => exact Value.regular_null

/-- All values are regular, and the native functions are there. -/
structure GlobalScope.Regular (scope : GlobalScope) : Prop where
  bindings : scope.bindings.Admits RegularBinding
  constants : scope.constants.Admits RegularBinding
  natives : scope.natives = Table.ofList Native.names

/-- The values of all scopes are regular. -/
structure Scopes.Regular (scopes : Scopes) : Prop where
  root : scopes.root.Regular
  locals : ∀ scope ∈ scopes.locals, scope.bindings.Admits RegularBinding

namespace Machine

def Regular (machine : Machine) : Prop := machine.scopes.Regular

def reportingAs (machine : Machine) (output : OutputBuffers) (reporting setting : Int64) :
    Machine :=
  { machine with output, reporting, settings := { machine.settings with reporting := setting } }

/-- A change that does not look at reports. -/
structure LeavesReports (change : Machine → Machine) : Prop where
  commutes : ∀ machine output reporting setting,
    change (reportingAs machine output reporting setting) =
      (change machine).reportingAs output reporting setting
  output : ∀ machine, (change machine).output = machine.output

/-- Two machines that are the same but for what is reported. -/
inductive Alike (calls : String → List Value → Prop) (machine : Machine) : Machine → Prop
  | same : Alike calls machine machine
  | reports (unasked : AsksNothing calls) (output : OutputBuffers) (reporting setting : Int64)
      (level : output.level = machine.output.level) :
      Alike calls machine (machine.reportingAs output reporting setting)

end Machine

/-- With few enough arguments in all calls, what ends a run early is fatal if it is a problem. -/
def Halt.Fits (calls : String → List Value → Prop) (halt : Halt) : Prop :=
  PassesFew calls → ∀ problem, halt = .problem problem → problem.isFatal = true

/-- Two runs end in the same way, with a value of the wanted kind or for a fitting reason, on
regular machines that are alike. -/
inductive Agree {α : Type} (calls : String → List Value → Prop) (holds : α → Prop) :
    EStateM.Result Halt Machine α → EStateM.Result Halt Machine α → Prop
  | ok {value : α} {after twin : Machine} (valid : holds value) (regular : after.Regular)
      (alike : after.Alike calls twin) : Agree calls holds (.ok value after) (.ok value twin)
  | error {halt : Halt} {after twin : Machine} (fits : halt.Fits calls) (regular : after.Regular)
      (alike : after.Alike calls twin) : Agree calls holds (.error halt after) (.error halt twin)

variable {calls : String → List Value → Prop}

namespace Agree

variable {α : Type} {holds : α → Prop} {run : Run α} {machine : Machine}
  {result : EStateM.Result Halt Machine α}

theorem regular_machineAfter (agree : Agree calls holds (run machine) result) :
    (run.machineAfter machine).Regular := by
  generalize ends : run machine = own at agree
  cases agree with
  | ok _ regular _ =>
    rw [Run.machineAfter_of_ok ends]
    exact regular
  | error _ regular _ =>
    rw [Run.machineAfter_of_error ends]
    exact regular

theorem holds_of_ok {value : α} {after : Machine} (agree : Agree calls holds (run machine) result)
    (ends : run machine = .ok value after) : holds value := by
  rw [ends] at agree
  cases agree with
  | ok valid _ _ => exact valid

end Agree

namespace GlobalScope

variable {scope root : GlobalScope}

theorem Regular.of_declareConstant (regular : scope.Regular) {name : String} {value : Value}
    (valueRegular : value.Regular) (added : scope.declareConstant name value = .ok root) :
    root.Regular := by
  simp only [declareConstant] at added
  split at added
  · cases added
  · cases added
    exact ⟨regular.bindings, regular.constants.insert valueRegular, regular.natives⟩

theorem Regular.ends_declareFunction (regular : scope.Regular) (function : DeclaredFunction) :
    Ends Regular (·.isFatal) (scope.declareFunction function) := by
  simp only [declareFunction]
  split
  · exact rfl
  · exact ⟨regular.bindings, regular.constants, regular.natives⟩

end GlobalScope

namespace Scopes

variable {scopes : Scopes}

theorem Regular.of_lookup (regular : scopes.Regular) {name : String} {value : Value}
    (found : scopes.lookup name = some value) : value.Regular := by
  rcases regular with ⟨rootRegular, locals⟩
  rcases scopes with ⟨scopeList, root⟩
  simp only [lookup] at found
  induction scopeList with
  | nil => exact rootRegular.bindings.of_get? found
  | cons scope outer ih =>
    rcases List.forall_mem_cons.mp locals with ⟨own, others⟩
    simp only [lookupIn] at found
    split at found
    · exact ih found rootRegular others
    · exact own.of_get? found

theorem Alters.regular {name : String} {alter : Table String Value → Table String Value}
    {before after : Scopes} (alters : Alters name alter before after) (regular : before.Regular)
    (keeps : ∀ table, table.Admits RegularBinding → (alter table).Admits RegularBinding) :
    after.Regular := by
  induction alters with
  | inRoot root =>
    rcases regular with ⟨⟨bindings, constants, natives⟩, locals⟩
    exact ⟨⟨keeps _ bindings, constants, natives⟩, locals⟩
  | inScope scope outer root =>
    rcases List.forall_mem_cons.mp regular.locals with ⟨own, others⟩
    exact ⟨regular.root, List.forall_mem_cons.mpr ⟨keeps _ own, others⟩⟩
  | ofImport scope outer root =>
    rcases List.forall_mem_cons.mp regular.locals with ⟨own, others⟩
    exact ⟨regular.root, List.forall_mem_cons.mpr ⟨own, others⟩⟩
  | outside _ _ ih =>
    rcases List.forall_mem_cons.mp regular.locals with ⟨own, others⟩
    have inner := ih ⟨regular.root, others⟩
    exact ⟨inner.root, List.forall_mem_cons.mpr ⟨own, inner.locals⟩⟩

theorem Regular.store (regular : scopes.Regular) (name : String) {value : Value}
    (valueRegular : value.Regular) : (scopes.store name value).Regular :=
  (alters_store scopes name value).regular regular fun _ admitted => admitted.insert valueRegular

theorem Regular.unset (regular : scopes.Regular) (name : String) : (scopes.unset name).Regular :=
  (alters_unset scopes name).regular regular fun _ admitted => admitted.erase name

theorem Regular.importName (regular : scopes.Regular) (name : String) :
    (scopes.importName name).Regular := by
  rcases regular with ⟨rootRegular, locals⟩
  rcases scopes with ⟨scopeList, root⟩
  cases scopeList with
  | nil => exact ⟨rootRegular, locals⟩
  | cons scope outer =>
    rcases List.forall_mem_cons.mp locals with ⟨own, others⟩
    exact ⟨rootRegular, List.forall_mem_cons.mpr ⟨own, others⟩⟩

theorem Regular.take (regular : scopes.Regular) (name : String) :
    (scopes.take name).2.Regular ∧ ((scopes.take name).1.getD .null).Regular := by
  simp only [Scopes.take]
  split
  · rename_i found
    exact ⟨regular.store name Value.regular_null, regular.of_lookup found⟩
  · exact ⟨regular, Value.regular_null⟩

end Scopes

theorem OutputBuffers.level_write (buffers : OutputBuffers) (text : String) :
    (buffers.write text).level = buffers.level := by
  rcases buffers with ⟨result, stack⟩
  cases stack <;> rfl

namespace Machine

variable {machine twin : Machine}

theorem Alike.map {change : Machine → Machine} (leaves : LeavesReports change)
    (alike : machine.Alike calls twin) : (change machine).Alike calls (change twin) := by
  cases alike with
  | same => exact .same
  | reports unasked output reporting setting level =>
    rw [leaves.commutes]
    exact .reports unasked output reporting setting (by rw [leaves.output, level])

theorem warnAll_cons (machine : Machine) (problem : Problem) (rest : List Problem) (span : Span) :
    machine.warnAll (problem :: rest) span = (machine.warn problem span).warnAll rest span := rfl

theorem warnAll_eq (machine : Machine) (problems : List Problem) (span : Span) :
    ∃ output : OutputBuffers, output.level = machine.output.level ∧
      machine.warnAll problems span = { machine with output } := by
  induction problems generalizing machine with
  | nil => exact ⟨machine.output, rfl, rfl⟩
  | cons problem rest ih =>
    rw [warnAll_cons]
    simp only [warn]
    split
    · rcases ih (machine.print _) with ⟨output, level, same⟩
      exact ⟨output, level.trans (OutputBuffers.level_write _ _), same⟩
    · exact ih machine

end Machine

/-! ## Computations -/

namespace Run

variable {α β : Type} {holds weaker : α → Prop} {post : β → Prop}

/-- A computation keeps machines regular, and it ends in the same way on alike machines. -/
def Steady (calls : String → List Value → Prop) (holds : α → Prop) (run : Run α) : Prop :=
  ∀ machine twin : Machine, machine.Regular → machine.Alike calls twin →
    Agree calls holds (run machine) (run twin)

namespace Steady

theorem pure {value : α} (valid : holds value) : Steady calls holds (Pure.pure value : Run α) :=
  fun _ _ regular alike => .ok valid regular alike

theorem throw {halt : Halt} (fits : halt.Fits calls) :
    Steady calls holds (MonadExcept.throw halt : Run α) :=
  fun _ _ regular alike => .error fits regular alike

theorem fail {problem : Problem} (fatal : PassesFew calls → problem.isFatal = true) :
    Steady calls holds (Run.fail problem : Run α) := by
  apply Steady.throw
  rintro few _ ⟨⟩
  exact fatal few

theorem bind {run : Run α} {next : α → Run β} (first : Steady calls holds run)
    (second : ∀ value, holds value → Steady calls post (next value)) :
    Steady calls post (run >>= next) := by
  intro machine twin regular alike
  have both := first machine twin regular alike
  generalize ends : run machine = result at both
  generalize endsTwin : run twin = resultTwin at both
  cases both with
  | ok valid regular alike =>
    simp only [Bind.bind, EStateM.bind, ends, endsTwin]
    exact second _ valid _ _ regular alike
  | error fits regular alike =>
    simp only [Bind.bind, EStateM.bind, ends, endsTwin]
    exact .error fits regular alike

variable {next : Machine → Run α} {change : Machine → α × Machine} {result : Except Problem α}

theorem bind_get
    (unreported : ∀ {machine : Machine} {output reporting setting}
      {_ : output.level = machine.output.level},
      next (machine.reportingAs output reporting setting) = next machine)
    (second : ∀ machine : Machine, machine.Regular → Steady calls holds (next machine)) :
    Steady calls holds (MonadState.get >>= next) := by
  intro machine twin regular alike
  have later := second machine regular machine twin regular alike
  cases alike with
  | same => exact later
  | reports unasked output reporting setting level =>
    change Agree calls holds (next machine machine)
      (next (machine.reportingAs output reporting setting) _)
    rw [@unreported _ _ _ _ level]
    exact later

theorem modifyGet (kept : ∀ machine : Machine, machine.Regular →
      holds (change machine).1 ∧ (change machine).2.Regular)
    (unreported : ∀ machine output reporting setting,
      change (Machine.reportingAs machine output reporting setting) =
        ((change machine).1, (change machine).2.reportingAs output reporting setting))
    (sameOutput : ∀ machine, (change machine).2.output = machine.output) :
    Steady calls holds (MonadStateOf.modifyGet change : Run α) := by
  intro machine twin regular alike
  rcases kept machine regular with ⟨valid, regularAfter⟩
  change Agree calls holds (.ok (change machine).1 (change machine).2)
    (.ok (change twin).1 (change twin).2)
  cases alike with
  | same => exact .ok valid regularAfter .same
  | reports unasked output reporting setting level =>
    rw [unreported]
    refine .ok valid regularAfter (.reports unasked output reporting setting ?_)
    rw [sameOutput, level]

theorem modifying {change : Machine → Machine}
    (kept : ∀ machine : Machine, machine.Regular → (change machine).Regular)
    (leaves : Machine.LeavesReports change := by exact ⟨fun _ _ _ _ => rfl, fun _ => rfl⟩) :
    Steady calls (fun _ => True) (modify change : Run Unit) :=
  fun machine _ regular alike => .ok trivial (kept machine regular) (alike.map leaves)

theorem bind_get_of_asking (asking : ¬AsksNothing calls)
    (second : ∀ machine : Machine, machine.Regular → Steady calls holds (next machine)) :
    Steady calls holds (MonadState.get >>= next) := by
  intro machine twin regular alike
  cases alike with
  | same => exact second machine regular machine machine regular .same
  | reports unasked _ _ _ _ => exact absurd unasked asking

theorem modifyGet_of_asking (asking : ¬AsksNothing calls)
    (kept : ∀ machine : Machine, machine.Regular → (change machine).2.Regular) :
    Steady calls (fun _ => True) (MonadStateOf.modifyGet change : Run α) := by
  intro machine twin regular alike
  cases alike with
  | same => exact .ok trivial (kept machine regular) .same
  | reports unasked _ _ _ _ => exact absurd unasked asking

theorem modifyScopes {change : Scopes → Scopes}
    (kept : ∀ scopes : Scopes, scopes.Regular → (change scopes).Regular) :
    Steady calls (fun _ => True) (Run.modifyScopes change) :=
  .modifying fun machine regular => kept machine.scopes regular

theorem store (name : String) {value : Value} (regular : value.Regular) :
    Steady calls (fun _ => True) (Run.modifyScopes (·.store name value)) :=
  .modifyScopes fun _ scopesRegular => scopesRegular.store name regular

theorem ofExcept
    (ends : Ends holds (fun problem => PassesFew calls → problem.isFatal = true) result) :
    Steady calls holds (Run.ofExcept result) := by
  cases result with
  | ok value => exact .pure ends
  | error problem => exact .fail ends

theorem ofFatal (ends : Ends holds (·.isFatal) result) : Steady calls holds (Run.ofExcept result) :=
  .ofExcept (ends.mono fun _ fatal _ => fatal)

theorem print (text : String) : Steady calls (fun _ => True) (Run.print text) := by
  intro machine twin regular alike
  refine .ok trivial regular ?_
  cases alike with
  | same => exact .same
  | reports unasked output reporting setting level =>
    refine .reports unasked (output.write text) reporting setting ?_
    change (output.write text).level = (machine.output.write text).level
    rw [OutputBuffers.level_write, OutputBuffers.level_write, level]

theorem warnAll (problems : List Problem) (span : Span) :
    Steady calls (fun _ => True) (Run.warnAll problems span) := by
  intro machine twin regular alike
  change Agree calls _ (.ok () (machine.warnAll problems span))
    (.ok () (twin.warnAll problems span))
  rcases machine.warnAll_eq problems span with ⟨own, ownLevel, same⟩
  cases alike with
  | same =>
    rw [same]
    exact .ok trivial regular .same
  | reports unasked output reporting setting level =>
    rcases (machine.reportingAs output reporting setting).warnAll_eq problems span with
      ⟨other, otherLevel, sameTwin⟩
    rw [same, sameTwin]
    refine .ok trivial regular (.reports unasked other reporting setting ?_)
    change other.level = own.level
    rw [otherLevel, ownLevel]
    exact level

theorem warn (problem : Problem) (span : Span) :
    Steady calls (fun _ => True) (Run.warn problem span) :=
  Steady.warnAll [problem] span

theorem check (span : Span) {computation : Checked α} (yields : computation.Yields holds) :
    Steady calls holds (Run.check span computation) :=
  .bind (.warnAll _ span) fun _ _ => .ofFatal yields.ends_outcome

theorem stringify (span : Span) (value : Value) :
    Steady calls (fun _ => True) (Run.stringify span value) :=
  .check span value.yields_stringify

theorem now : Steady calls (fun _ => True) Run.now :=
  .modifyGet (fun _ regular => ⟨trivial, regular⟩) (fun _ _ _ _ => rfl) fun _ => rfl

theorem look (path : String) : Steady calls (fun _ => True) (Run.look path) := by
  refine .bind_get rfl fun machine _ => ?_
  split
  · exact .pure trivial
  · exact .throw (by rintro _ _ ⟨⟩)

theorem declareConstant (name : String) {value : Value} (valueRegular : value.Regular)
    (span : Span) : Steady calls (fun _ => True) (Run.declareConstant name value span) := by
  refine .bind_get rfl fun machine regular => ?_
  split
  · rename_i root added
    have rootRegular := regular.root.of_declareConstant valueRegular added
    exact .bind (.modifyScopes fun _ scopes => ⟨rootRegular, scopes.locals⟩) fun _ _ =>
      .pure trivial
  · exact .bind (.warn _ span) fun _ _ => .pure trivial

theorem declareFunction (declaration : UserFunction) :
    Steady calls (fun _ => True) (Run.declareFunction declaration) := by
  refine .bind_get rfl fun machine _ => ?_
  split
  · exact .pure trivial
  · refine .bind (.modifying fun _ regular => regular) ?_
    refine fun _ _ => .bind_get rfl fun machine regular => ?_
    exact .bind (.ofFatal (regular.root.ends_declareFunction _)) fun root rootRegular =>
      .modifyScopes fun _ scopes => ⟨rootRegular, scopes.locals⟩

theorem forM {γ : Type} {items : List γ} {action : γ → Run PUnit}
    (each : ∀ item, Steady calls (fun _ => True) (action item)) :
    Steady calls (fun _ => True) (items.forM action) := by
  induction items with
  | nil => exact .pure trivial
  | cons item rest ih => exact .bind (each item) fun _ _ => ih

theorem hoist (statements : List (Located Stmt)) :
    Steady calls (fun _ => True) (Run.hoist statements) :=
  .forM fun declaration => .declareFunction declaration

theorem lineOf (span : Span) : Steady calls (fun _ => True) (Run.lineOf span) :=
  .bind_get rfl fun _ _ => .pure trivial

theorem read (kind : SourceKind) (filename source : String) :
    Steady calls (fun _ => True) (Run.read kind filename source) := by
  refine .bind_get rfl fun machine _ => ?_
  refine .bind (.modifying fun _ regular => regular) ?_
  intro _ _
  split
  · exact .pure trivial
  · exact .throw (by rintro _ _ ⟨⟩)
  · exact .fail fun _ => rfl

theorem resolvePath (filename : String) :
    Steady calls (fun _ => True) (Run.resolvePath filename) := by
  simp only [Run.resolvePath]
  split
  · exact .pure trivial
  · refine .bind (.look filename) fun view _ => ?_
    split
    · exact .pure trivial
    · refine .bind_get rfl fun machine _ => ?_
      split
      · exact .bind (.look _) fun _ _ => .pure trivial
      · exact .pure trivial

theorem reportUnreadable (mode : IncludeMode) (filename : String) (error : FileError)
    (span : Span) : Steady calls Value.Regular (Run.reportUnreadable mode filename error span) := by
  refine .bind (.warn _ span) fun _ _ => ?_
  split
  · exact .fail fun _ => rfl
  · exact .bind (.warn _ span) fun _ _ => .pure (Value.regular_bool false)

end Steady

end Run

open Run

/-! ## Places -/

namespace Place

theorem ends_keysOr {problem : Problem} (fatal : problem.isFatal = true) (place : Place) :
    Ends (fun _ => True) (·.isFatal) (place.keysOr problem) := by
  simp only [keysOr]
  induction place.keys with
  | nil => trivial
  | cons key rest ih =>
    rw [List.mapM_cons]
    cases key with
    | none => exact fatal
    | some key => exact ih.bind fun _ _ => trivial

theorem steady_readKeys (place : Place) : Steady calls (fun _ => True) place.readKeys :=
  .ofFatal (place.ends_keysOr rfl)

theorem steady_follow (place : Place) {root : Value} (regular : root.Regular) (keys : List Value) :
    Steady calls Value.Regular (place.follow root keys) := by
  have ends := (Value.yields_readPath regular keys).ends_outcome
  simp only [follow]
  split
  · rename_i read
    rw [read] at ends
    exact .bind (.warnAll _ place.span) fun _ _ => .pure ends
  · rename_i failed
    rw [failed] at ends
    exact .fail fun _ => ends

theorem steady_load (place : Place) : Steady calls Value.Regular place.load := by
  refine .bind place.steady_readKeys fun keys _ => ?_
  refine .bind_get rfl fun machine regular => ?_
  split
  · rename_i found
    exact place.steady_follow (regular.of_lookup found) keys
  · exact .bind (.warn _ place.span) fun _ _ => place.steady_follow Value.regular_null keys

theorem steady_quiet? (place : Place) : Steady calls FoundRegular place.quiet? := by
  refine .bind place.steady_readKeys fun keys _ => ?_
  refine .bind_get rfl fun machine regular => .pure fun value found => ?_
  rcases Option.bind_eq_some_iff.mp found with ⟨root, stored, path⟩
  exact Value.regular_of_quietPath? (regular.of_lookup stored) path

theorem steady_store (place : Place) {value : Value} (regular : value.Regular) :
    Steady calls (fun _ => True) (place.store value) := by
  simp only [store]
  split
  · exact .store place.name regular
  · have taken : Steady calls Value.Regular
        (MonadStateOf.modifyGet fun machine : Machine =>
          ((machine.scopes.take place.name).1.getD .null,
            { machine with scopes := (machine.scopes.take place.name).2 }) : Run Value) :=
      .modifyGet (fun machine regular => (Scopes.Regular.take regular place.name).symm)
        (fun _ _ _ _ => rfl) fun _ => rfl
    refine .bind taken fun root rootRegular => ?_
    have written := Value.isRegular_writePath regular rootRegular place.keys
    refine .bind (.store place.name written.slot) fun _ _ => ?_
    refine .bind (.warnAll _ place.span) fun _ _ => ?_
    split
    · rename_i problem failed
      exact .fail fun _ => written.fatal problem failed
    · exact .pure trivial

theorem steady_unset (place : Place) : Steady calls (fun _ => True) place.unset := by
  simp only [unset]
  split
  · exact .modifyScopes fun _ scopes => scopes.unset place.name
  · refine .bind (.ofFatal (place.ends_keysOr rfl)) fun keys _ => ?_
    refine .bind_get rfl fun machine regular => ?_
    split
    · exact .pure trivial
    · rename_i found
      exact .bind (.ofFatal (Value.ends_unsetPath (regular.of_lookup found) keys))
        fun changed changedRegular => .store place.name changedRegular

end Place

/-! ## Native functions -/

def Native.observes : Native → Bool
  | .option .errorReporting | .option .getOption | .option .setOption => true
  | .output .getClean | .output .getContents | .output .getFlush => true
  | _ => false

theorem GlobalScope.Regular.observer_of_native? {scope : GlobalScope} (regular : scope.Regular)
    {name : String} {native : Native} (found : scope.native? name = some native)
    (observes : native.observes = true) : Text.lowercase name ∈ observers := by
  have named : (Table.ofList Native.names).Admits fun key native =>
      native.observes = true → key ∈ observers := .ofList (by decide)
  simp only [native?, regular.natives] at found
  exact named.of_get? found observes

theorem not_asksNothing {native : Native} (unasked : AsksNothing calls → native.observes = false)
    (observes : native.observes = true) : ¬AsksNothing calls :=
  fun asks => Bool.noConfusion (observes.symm.trans (unasked asks))

namespace OutputFunction

/-- A change of the output buffers whose success, and the number of open buffers after it, depend on
the number of open buffers only. -/
def LevelWise (change : OutputBuffers → Option OutputBuffers) : Prop :=
  ∀ left right : OutputBuffers, left.level = right.level →
    (change left).map OutputBuffers.level = (change right).map OutputBuffers.level

theorem levelWise_clean? : LevelWise OutputBuffers.clean? := by
  rintro ⟨_, left⟩ ⟨_, right⟩ level
  cases left <;> cases right <;>
    simp_all [OutputBuffers.level, OutputBuffers.clean?]

theorem levelWise_pop? : LevelWise fun buffers => buffers.pop?.map (·.2) := by
  rintro ⟨_, left⟩ ⟨_, right⟩ level
  cases left <;> cases right <;>
    simp_all [OutputBuffers.level, OutputBuffers.pop?]

theorem levelWise_flush? : LevelWise OutputBuffers.flush? := by
  -- The contents go to the result text or to another buffer, which is none of the level's concern.
  have flushed (result top : String) (below : List String) :
      (OutputBuffers.flush? ⟨result, top :: below⟩).map OutputBuffers.level =
        some (below.length + 1) := by
    cases below <;> rfl
  rintro ⟨_, left⟩ ⟨_, right⟩ level
  cases left with
  | nil =>
    cases right with
    | nil => rfl
    | cons top below => cases level
  | cons top below =>
    cases right with
    | nil => cases level
    | cons otherTop otherBelow =>
      rw [flushed, flushed]
      exact congrArg some level

theorem levelWise_endFlush? : LevelWise OutputBuffers.endFlush? := by
  intro left right level
  have flushes := levelWise_flush? left right level
  simp only [OutputBuffers.endFlush?]
  cases leftFlushed : left.flush? with
  | none =>
    rw [leftFlushed, Option.map_none, eq_comm, Option.map_eq_none_iff] at flushes
    rw [flushes]
  | some flushed =>
    rw [leftFlushed, Option.map_some, eq_comm, Option.map_eq_some_iff] at flushes
    rcases flushes with ⟨other, rightFlushed, sameLevel⟩
    rw [rightFlushed]
    exact levelWise_pop? flushed other sameLevel.symm

theorem steady_onBuffer (span : Span) (function failure remedy : String)
    {change : OutputBuffers → Option OutputBuffers} (levelWise : LevelWise change) :
    Steady calls Value.Regular (onBuffer span function failure remedy change) := by
  have changed : ∀ (machine : Machine) {output : OutputBuffers},
      change machine.output = some output →
      onBuffer span function failure remedy change machine =
        .ok (.bool true) { machine with output } := by
    intro machine output made
    rw [onBuffer, Run.get_bind, made]
    rfl
  have reported : ∀ {machine : Machine}, change machine.output = none →
      onBuffer span function failure remedy change machine =
        (Run.warn (.noBuffer function failure remedy) span >>= fun _ =>
          Pure.pure (Value.bool false) : Run Value) machine := by
    intro machine missing
    rw [onBuffer, Run.get_bind, missing]
  intro machine twin regular alike
  cases made : change machine.output with
  | some output =>
    rw [changed machine made]
    cases alike with
    | same =>
      rw [changed machine made]
      exact .ok (Value.regular_bool true) regular .same
    | reports unasked other reporting setting level =>
      have levels := levelWise other machine.output level
      rw [made] at levels
      rcases Option.map_eq_some_iff.mp levels with ⟨changedOther, madeOther, sameLevel⟩
      rw [changed (machine.reportingAs other reporting setting) madeOther]
      exact .ok (Value.regular_bool true) regular
        (.reports unasked changedOther reporting setting sameLevel)
  | none =>
    have sameTwin : change twin.output = none := by
      cases alike with
      | same => exact made
      | reports unasked other reporting setting level =>
        have levels := levelWise other machine.output level
        rw [made] at levels
        exact Option.map_eq_none_iff.mp levels
    rw [reported made, reported sameTwin]
    have steady : Steady calls Value.Regular
        (Run.warn (.noBuffer function failure remedy) span >>= fun _ =>
          Pure.pure (Value.bool false) : Run Value) :=
      .bind (.warn _ span) fun _ _ => .pure (Value.regular_bool false)
    exact steady machine twin regular alike

theorem steady_list (text : String) (handOut : Value) {printed : Value}
    (regular : printed.Regular) : Steady calls Value.Regular (list text handOut printed) := by
  simp only [list]
  split
  · exact .pure (Value.regular_str text)
  · exact .bind (.print text) fun _ _ => .pure regular

theorem steady_apply (function : OutputFunction) (span : Span) (arguments : List Value)
    (unasked : AsksNothing calls → (Native.output function).observes = false) :
    Steady calls Value.Regular (function.apply span arguments) := by
  simp only [apply]
  split
  · exact steady_list _ _ (Value.regular_bool true)
  · exact .bind (.print _) fun _ _ => .pure Value.regular_null
  · exact steady_list _ _ Value.regular_null
  · refine .bind (?_ : Steady calls (fun _ => True) _) fun _ _ => .pure (Value.regular_bool true)
    intro machine twin regular alike
    refine .ok trivial regular ?_
    cases alike with
    | same => exact .same
    | reports unasked output reporting setting level =>
      exact .reports unasked output.push reporting setting (congrArg Nat.succ level)
  · exact steady_onBuffer span _ _ _ levelWise_clean?
  · exact steady_onBuffer span _ _ _ levelWise_pop?
  · exact steady_onBuffer span _ _ _ levelWise_endFlush?
  · exact steady_onBuffer span _ _ _ levelWise_flush?
  · have asking := not_asksNothing unasked rfl
    refine .bind_get_of_asking asking fun machine _ => ?_
    split
    · exact .bind (.modifyGet_of_asking asking fun _ regular => regular)
        fun _ _ => .pure (Value.regular_str _)
    · exact .pure (Value.regular_bool false)
  · have asking := not_asksNothing unasked rfl
    refine .bind_get_of_asking asking fun machine _ => ?_
    split
    · exact .pure (Value.regular_str _)
    · exact .pure (Value.regular_bool false)
  · have asking := not_asksNothing unasked rfl
    refine .bind_get_of_asking asking fun machine _ => ?_
    refine .bind (steady_onBuffer span _ _ _ levelWise_endFlush?) fun closed regular => ?_
    split
    · exact .pure (Value.regular_str _)
    · exact .pure regular
  · refine .bind_get (@fun _ _ _ _ level => ?_) fun _ _ => .pure (Value.regular_int _)
    simp only [Machine.reportingAs, level]
  · exact .pure Value.regular_null

end OutputFunction

theorem NameFunction.steady_apply (function : NameFunction) (span : Span) {arguments : List Value}
    (regular : AllRegular arguments) :
    Steady calls Value.Regular (function.apply span arguments) := by
  refine .bind_get rfl fun machine machineRegular => ?_
  split
  · dsimp only
    split
    · rename_i found
      exact .pure (machineRegular.root.constants.of_get? found)
    · exact .fail fun _ => rfl
  · rename_i value _
    have valueRegular := regular value (by simp)
    exact .bind (.declareConstant _ valueRegular span) fun _ _ => .pure (Value.regular_bool _)
  all_goals exact .pure (by simp)

namespace OptionFunction

theorem steady_apply (function : OptionFunction) (arguments : List Value)
    (unasked : AsksNothing calls → (Native.option function).observes = false) :
    Steady calls Value.Regular (function.apply arguments) := by
  simp only [apply]
  split
  · have asking := not_asksNothing unasked rfl
    exact .bind_get_of_asking asking fun _ _ => .pure (Value.regular_int _)
  · have asking := not_asksNothing unasked rfl
    exact .bind (.modifyGet_of_asking asking fun _ regular => regular)
      fun _ _ => .pure (Value.regular_int _)
  · refine .bind_get rfl fun machine regular => ?_
    split
    · rename_i found
      exact .pure (regular.root.bindings.of_get? found)
    · rename_i found _
      have admitted := Value.regular_array_iff.mp (regular.root.bindings.of_get? found)
      exact .pure (admitted.regular_getD _ (Value.regular_bool false))
    · exact .pure (Value.regular_bool false)
  · have asking := not_asksNothing unasked rfl
    split
    · exact .bind_get_of_asking asking fun _ _ => .pure (Value.regular_str _)
    · exact .pure (Value.regular_bool _)
  · have asking := not_asksNothing unasked rfl
    split
    · exact .bind (.modifyGet_of_asking asking fun _ regular => regular)
        fun _ _ => .pure (Value.regular_str _)
    · exact .pure (Value.regular_bool _)
  · exact .pure (Value.regular_str _)
  · split <;> exact .pure (by simp)
  · exact .pure Value.regular_null

end OptionFunction

theorem Native.steady_call (native : Native) (span : Span) {arguments : List Value}
    (regular : AllRegular arguments) (few : PassesFew calls → arguments.length < elementLimit)
    (unasked : AsksNothing calls → native.observes = false) :
    Steady calls
      (fun result => result.1.Regular ∧ ∀ changed, result.2 = some changed → changed.Regular)
      (native.call span arguments) := by
  have alone : ∀ {run : Run Value}, Steady calls Value.Regular run →
      Steady calls
        (fun result => result.1.Regular ∧ ∀ changed, result.2 = some changed → changed.Regular)
        (run >>= fun value => Pure.pure (value, none) : Run (Value × Option Value)) :=
    fun steady => .bind steady fun _ valueRegular => .pure ⟨valueRegular, by rintro _ ⟨⟩⟩
  have bound : Ends AllRegular (fun problem => PassesFew calls → problem.isFatal = true)
      (native.signature.bind arguments) :=
    (native.isProper_signature.ends_bind regular).mono fun _ fatal passesFew =>
      fatal (few passesFew)
  refine .bind (.ofExcept bound) fun values valuesRegular => ?_
  cases native with
  | text function => exact alone (.check span (function.yields_apply values))
  | array function => exact alone (.check span (function.yields_apply _ valuesRegular))
  | reference function => exact .check span (function.yields_apply valuesRegular)
  | math function => exact alone (.check span (function.yields_apply valuesRegular))
  | type function => exact alone (.check span (function.yields_apply values))
  | time function =>
    exact .bind .now fun now _ => .pure ⟨function.regular_apply now values, by rintro _ ⟨⟩⟩
  | output function => exact alone (function.steady_apply span values unasked)
  | name function => exact alone (function.steady_apply span valuesRegular)
  | option function => exact alone (function.steady_apply values unasked)

end PhpScript
