import Mathlib.Data.List.Forall2
import PhpScript.Proofs.Run.Evolution
import PhpScript.Proofs.Run.Variables

/-!
# What a call can change

A call runs in a scope of its own. When it is over, the scope of the caller is what it was, and a
variable of the global scope has changed only if every scope sees it or if its name was imported
meanwhile by a `global` statement. The invariant is that all names imported into scopes in view are
from the allowed ones: stores reach the global scope only for names that each of these scopes
delegates.
-/

namespace PhpScript

namespace GlobalScope

variable {before after : GlobalScope} {name : String} {value : Value} {function : DeclaredFunction}

theorem declareFunction_eq_ok_iff :
    before.declareFunction function = .ok after ↔
      before.functionExists function.declaration.name.node = false ∧
        after = { before with functions :=
          before.functions.insert (Text.lowercase function.declaration.name.node) function } := by
  simp only [declareFunction]
  split
  · rename_i taken
    simp [taken]
  · rename_i free
    rw [Bool.not_eq_true] at free
    simp [free, eq_comm]

theorem declareConstant_eq_ok_iff :
    before.declareConstant name value = .ok after ↔
      before.constants.get? name = none ∧
        after = { before with constants := before.constants.insert name value } := by
  unfold declareConstant Table.contains
  split
  · rename_i taken
    rw [Option.isSome_iff_ne_none] at taken
    simp [taken]
  · rename_i free
    rw [Bool.not_eq_true, Option.isSome_eq_false_iff, Option.isNone_iff_eq_none] at free
    simp [free, eq_comm]

end GlobalScope

namespace Scopes

theorem importName_root (scopes : Scopes) (name : String) :
    (scopes.importName name).root = scopes.root := by
  simp only [importName]
  split <;> rfl

/-- A call is in view, and the names that the scopes in view have imported are among some. -/
structure Confined (allowed : String → Prop) (locals : List LocalScope) : Prop where
  inCall : locals ≠ []
  imports : ∀ scope ∈ locals, ∀ name ∈ scope.imports, allowed name

variable {allowed : String → Prop}

theorem Confined.of_delegates {locals : List LocalScope} {name : String}
    (confined : Confined allowed locals)
    (delegates : ∀ scope ∈ locals, scope.delegates name = true) :
    name ∈ superglobals ∨ allowed name := by
  rcases List.exists_mem_of_ne_nil locals confined.inCall with ⟨scope, member⟩
  have delegated := delegates scope member
  simp only [LocalScope.delegates, Bool.or_eq_true, List.contains_iff_mem] at delegated
  rcases delegated with isSuper | imported
  · exact .inl isSuper
  · exact .inr (confined.imports scope member name imported)

def ImportsShrink : List LocalScope → List LocalScope → Prop :=
  List.Forall₂ fun later earlier => later.imports ⊆ earlier.imports

theorem importsShrink_refl (locals : List LocalScope) : ImportsShrink locals locals :=
  List.forall₂_same.mpr fun _ _ _ member => member

theorem Alters.importsShrink {name : String} {alter : Table String Value → Table String Value}
    {before after : Scopes} (alters : Alters name alter before after) :
    ImportsShrink after.locals before.locals := by
  induction alters with
  | inRoot => exact .nil
  | inScope _ outer _ => exact .cons (List.Subset.refl _) (importsShrink_refl outer)
  | ofImport _ outer _ => exact .cons (List.filter_subset_self _) (importsShrink_refl outer)
  | outside _ _ ih => exact .cons (List.Subset.refl _) ih

theorem Confined.of_importsShrink {later earlier : List LocalScope}
    (confined : Confined allowed earlier) (shrink : ImportsShrink later earlier) :
    Confined allowed later := by
  rcases confined with ⟨inCall, imports⟩
  constructor
  · rintro rfl
    cases shrink
    exact inCall rfl
  · clear inCall
    induction shrink with
    | nil => exact imports
    | cons own _ ih =>
      rcases List.forall_mem_cons.mp imports with ⟨first, others⟩
      exact List.forall_mem_cons.mpr ⟨fun name member => first name (own member), ih others⟩

theorem Confined.importName {scopes : Scopes} {name : String}
    (confined : Confined allowed scopes.locals) (admitted : allowed name) :
    Confined allowed (scopes.importName name).locals := by
  rcases scopes with ⟨locals, root⟩
  cases locals with
  | nil => exact absurd rfl confined.inCall
  | cons scope outer =>
    rcases List.forall_mem_cons.mp confined.imports with ⟨first, others⟩
    refine ⟨List.cons_ne_nil _ _, List.forall_mem_cons.mpr ⟨fun other member => ?_, others⟩⟩
    dsimp only at member
    split at member
    · exact first other member
    · rcases List.mem_cons.mp member with rfl | earlier
      · exact admitted
      · exact first other earlier

end Scopes

namespace Machine

/-- The value of every variable of the global scope is kept, except for superglobals and some
names. -/
def KeepsGlobals (allowed : String → Prop) (before after : Machine) : Prop :=
  ∀ name, name ∉ superglobals → ¬allowed name →
    after.scopes.root.bindings.get? name = before.scopes.root.bindings.get? name

/-- The names that the scopes in view have imported stay among some, and the global variables of
other names keep their values. -/
def StaysConfined (allowed : String → Prop) (before after : Machine) : Prop :=
  Scopes.Confined allowed before.scopes.locals →
    Scopes.Confined allowed after.scopes.locals ∧ KeepsGlobals allowed before after

variable {allowed : String → Prop} {machine middle after : Machine}

theorem StaysConfined.trans (first : StaysConfined allowed machine middle)
    (second : StaysConfined allowed middle after) : StaysConfined allowed machine after := by
  intro confined
  rcases first confined with ⟨confinedMiddle, keptFirst⟩
  rcases second confinedMiddle with ⟨confinedAfter, keptSecond⟩
  refine ⟨confinedAfter, fun name notSuper notAllowed => ?_⟩
  rw [keptSecond name notSuper notAllowed, keptFirst name notSuper notAllowed]

theorem staysConfined_of_alters {name : String}
    {alter : Table String Value → Table String Value}
    (alters : Scopes.Alters name alter machine.scopes after.scopes)
    (others : ∀ table other, name ≠ other → (alter table).get? other = table.get? other) :
    StaysConfined allowed machine after := by
  intro confined
  refine ⟨confined.of_importsShrink alters.importsShrink, fun other notSuper notAllowed => ?_⟩
  rcases alters.root_eq with same | ⟨delegates, same⟩
  · rw [same]
  · rw [same]
    refine others _ other ?_
    rintro rfl
    exact (confined.of_delegates delegates).elim notSuper notAllowed

theorem Change.staysConfined (change : Change allowed machine after) :
    StaysConfined allowed machine after := by
  intro confined
  have same : ∀ {other : Machine}, other.scopes = machine.scopes →
      Scopes.Confined allowed other.scopes.locals ∧ KeepsGlobals allowed machine other := by
    intro other equal
    rw [KeepsGlobals, equal]
    exact ⟨confined, fun _ _ _ => rfl⟩
  cases change with
  | output _ => exact same rfl
  | reporting _ => exact same rfl
  | clock _ => exact same rfl
  | nextId _ => exact same rfl
  | pullIn _ => exact same rfl
  | refuse _ _ => exact same rfl
  | declare declaration root _ added =>
    rcases GlobalScope.declareFunction_eq_ok_iff.mp added with ⟨_, rfl⟩
    exact ⟨confined, fun _ _ _ => rfl⟩
  | constant name value root added =>
    rcases GlobalScope.declareConstant_eq_ok_iff.mp added with ⟨_, rfl⟩
    exact ⟨confined, fun _ _ _ => rfl⟩
  | store name value =>
    exact staysConfined_of_alters (Scopes.alters_store _ name value)
      (fun _ _ differs => by simp [differs]) confined
  | unset name =>
    exact staysConfined_of_alters (Scopes.alters_unset _ name)
      (fun _ _ differs => by simp [differs]) confined
  | importName name admitted =>
    refine ⟨confined.importName admitted, fun other _ _ => ?_⟩
    rw [Scopes.importName_root]

end Machine

def Evolution.isolation (allowed : String → Prop) : Evolution allowed where
  Leads := Machine.StaysConfined allowed
  refl := fun _ confined => ⟨confined, fun _ _ _ => rfl⟩
  trans := Machine.StaysConfined.trans
  change := Machine.Change.staysConfined
  surroundings := fun _ _ _ _ confined => ⟨confined, fun _ _ _ => rfl⟩

theorem Machine.confined_inCall (allowed : String → Prop) (machine : Machine) (function : String) :
    Scopes.Confined allowed (machine.inCall function).scopes.locals where
  inCall := List.cons_ne_nil _ _
  imports := by simp [Machine.inCall]

theorem Evolution.survivesCalls_isolation (allowed : String → Prop) :
    (Evolution.isolation allowed).SurvivesCalls where
  body := fun _ _ confined => ⟨confined, fun _ _ _ => rfl⟩
  scope := by
    intro machine inner function leads confined
    exact ⟨confined, (leads (machine.confined_inCall allowed function)).2⟩

namespace Evaluator

def ImportsDuring (depth : Nat) (outermost : Frame) (name : String) : Prop :=
  ∃ level frame rest, OpenParts depth outermost level (frame :: rest) ∧ frame.task.Imports name

/-- A call of a declared function leaves the scope of its caller as it was, and in the global scope
it changes at most superglobals and variables whose names were imported while the call was open. -/
theorem call_isolated (depth : Nat) (function : DeclaredFunction) (arguments : List Value)
    (machine : Machine) :
    let after := ((ofDepth depth).function function arguments).machineAfter machine
    after.scopes.locals = machine.scopes.locals ∧
      ∀ name,
        after.scopes.root.bindings.get? name = machine.scopes.root.bindings.get? name ∨
          name ∈ superglobals ∨
          ImportsDuring depth ⟨.call function arguments, machine⟩ name := by
  cases depth with
  | zero => exact ⟨rfl, fun _ => .inl rfl⟩
  | succ depth =>
      let allowed := ImportsDuring (depth + 1) ⟨.call function arguments, machine⟩
      have admitted : ImportsOnly allowed (depth + 1) ⟨.call function arguments, machine⟩ :=
        fun level frame rest opened name imports => ⟨level, frame, rest, opened, imports⟩
      have survives := Evolution.survivesCalls_isolation allowed
      have parts : PartsLead (Evolution.isolation allowed)
          (fun self => self.callDeclared function arguments) (ofDepth depth) machine :=
        fun inner performs =>
          leads_perform survives depth inner.task inner.machine (admitted.of_part performs)
      intro after
      have inside : after = machine ∨ _ := exists_inside_callDeclared survives parts
      rcases inside with unchanged | ⟨inner, leads, ended⟩
      · rw [unchanged]
        exact ⟨rfl, fun _ => .inl rfl⟩
      · have kept := (leads (Machine.confined_inCall allowed _ _)).2
        change after = _ at ended
        rw [ended]
        refine ⟨rfl, fun name => ?_⟩
        by_cases isSuper : name ∈ superglobals
        · exact .inr (.inl isSuper)
        · by_cases isAllowed : allowed name
          · exact .inr (.inr isAllowed)
          · exact .inl (kept name isSuper isAllowed)

end Evaluator

end PhpScript
