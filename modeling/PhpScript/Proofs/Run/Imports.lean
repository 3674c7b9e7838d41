import Mathlib.Data.List.Induction
import PhpScript.Proofs.Run.Variables

/-!
# Imported names

A call can import a name that it has used for a variable of its own, or that every scope sees
anyway. The import covers what the name stood for, and unsetting the name takes back the import
only. This is shown for every history of changes that are made in a call and, meanwhile, in the
global scope.
-/

namespace PhpScript

inductive VariableChange where
  | assign (name : String) (value : Value)
  /-- Change a value in place; a missing one counts as null. -/
  | mutate (name : String) (change : Value → Value)
  | bringIn (name : String)
  | unset (name : String)

def VariableChange.apply (scopes : Scopes) : VariableChange → Scopes
  | .assign name value => scopes.store name value
  | .mutate name change => scopes.store name (change ((scopes.lookup name).getD .null))
  | .bringIn name => scopes.importName name
  | .unset name => scopes.unset name

/-- A change that is made in a call or, meanwhile, in the global scope. -/
inductive CallStep where
  | inCall (change : VariableChange)
  | inRoot (change : VariableChange)

def CallStep.apply (scopes : Scopes) : CallStep → Scopes
  | .inCall change => change.apply scopes
  | .inRoot change => { scopes with root := (change.apply ⟨[], scopes.root⟩).root }

namespace Scopes

def perform (scopes : Scopes) (history : List CallStep) : Scopes :=
  history.foldl CallStep.apply scopes

def imported (scopes : Scopes) : List String :=
  (scopes.locals.head?.map LocalScope.imports).getD []

/-- What an import of a name covers: a variable that every scope sees, or one of the call. -/
def covered? (scopes : Scopes) (name : String) : Option Value :=
  if name ∈ superglobals then scopes.root.bindings.get? name else scopes.binding? 0 name

end Scopes

theorem LocalScope.delegates_iff {scope : LocalScope} {name : String} :
    scope.delegates name = true ↔ name ∈ superglobals ∨ name ∈ scope.imports := by
  simp [delegates]

namespace Scopes

variable {name other : String} {scope : LocalScope} {root : GlobalScope}

/-! ## One change -/

theorem lookup_call :
    lookup ⟨[scope], root⟩ name =
      if scope.delegates name then root.bindings.get? name else scope.bindings.get? name :=
  rfl

theorem store_call (value : Value) :
    store ⟨[scope], root⟩ name value =
      if scope.delegates name then
        ⟨[scope], { root with bindings := root.bindings.insert name value }⟩
      else ⟨[{ scope with bindings := scope.bindings.insert name value }], root⟩ :=
  rfl

theorem unset_call :
    unset ⟨[scope], root⟩ name =
      if scope.imports.contains name then
        ⟨[{ scope with imports := scope.imports.filter (· ≠ name) }], root⟩
      else if scope.delegates name then
        ⟨[scope], { root with bindings := root.bindings.erase name }⟩
      else ⟨[{ scope with bindings := scope.bindings.erase name }], root⟩ :=
  rfl

end Scopes

/-- What a step makes of a name in the scope of a call: imports come and go by steps of the call
alone, and a variable that is covered is left alone. -/
structure CallStep.Leaves (step : CallStep) (name : String) (scope next : LocalScope) : Prop where
  imports : name ∈ next.imports ↔
    step = .inCall (.bringIn name) ∨ name ∈ scope.imports ∧ step ≠ .inCall (.unset name)
  covered : scope.delegates name = true ∨ step = .inCall (.bringIn name) →
    next.bindings.get? name = scope.bindings.get? name

namespace CallStep

variable {name other : String} {scope : LocalScope} {root : GlobalScope}

theorem leaves_store {step : CallStep} {value : Value} (name : String)
    (stores : step.apply ⟨[scope], root⟩ = Scopes.store ⟨[scope], root⟩ other value)
    (notImport : step ≠ .inCall (.bringIn name)) (notUnset : step ≠ .inCall (.unset name)) :
    ∃ next rest, step.apply ⟨[scope], root⟩ = ⟨[next], rest⟩ ∧ step.Leaves name scope next := by
  rw [stores, Scopes.store_call]
  split
  · exact ⟨scope, _, rfl, by simp [notImport, notUnset], fun _ => rfl⟩
  · rename_i own
    refine ⟨_, root, rfl, by simp [notImport, notUnset], fun covers => ?_⟩
    have differs : other ≠ name := by
      rintro rfl
      exact own (covers.resolve_right notImport)
    rw [Table.get?_insert, if_neg differs]

theorem leaves_importName (name : String) :
    ∃ next rest, CallStep.apply ⟨[scope], root⟩ (.inCall (.bringIn other)) = ⟨[next], rest⟩ ∧
      Leaves (.inCall (.bringIn other)) name scope next := by
  refine ⟨_, root, rfl, ?_, fun _ => rfl⟩
  simp only [inCall.injEq, VariableChange.bringIn.injEq, reduceCtorEq, ne_eq, not_false_eq_true,
    and_true]
  split
  · rename_i present
    refine ⟨.inr, fun imports => imports.elim (fun same => ?_) id⟩
    rw [← same]
    exact List.contains_iff_mem.mp present
  · rw [List.mem_cons, eq_comm]

theorem leaves_unset (name : String) :
    ∃ next rest, CallStep.apply ⟨[scope], root⟩ (.inCall (.unset other)) = ⟨[next], rest⟩ ∧
      Leaves (.inCall (.unset other)) name scope next := by
  have imports : ∀ names : List String, (name ∈ names ↔ name ∈ scope.imports ∧ other ≠ name) →
      (name ∈ names ↔ CallStep.inCall (.unset other) = .inCall (.bringIn name) ∨
        name ∈ scope.imports ∧ CallStep.inCall (.unset other) ≠ .inCall (.unset name)) := by
    intro names same
    simpa using same
  have covers : scope.delegates name = true ∨
      CallStep.inCall (.unset other) = .inCall (.bringIn name) → scope.delegates name = true :=
    fun covered => covered.resolve_right (by simp)
  simp only [apply, VariableChange.apply, Scopes.unset_call]
  split
  · refine ⟨_, root, rfl, imports _ ?_, fun _ => rfl⟩
    simp only [List.mem_filter, decide_eq_true_eq]
    exact and_congr_right fun _ => ne_comm
  · rename_i notImported
    have kept : name ∈ scope.imports ↔ name ∈ scope.imports ∧ other ≠ name := by
      refine ⟨fun imported => ⟨imported, ?_⟩, And.left⟩
      rintro rfl
      exact notImported (List.contains_iff_mem.mpr imported)
    split
    · exact ⟨scope, _, rfl, imports _ kept, fun _ => rfl⟩
    · rename_i own
      refine ⟨_, root, rfl, imports _ kept, fun covered => ?_⟩
      have differs : other ≠ name := by
        rintro rfl
        exact own (covers covered)
      rw [Table.get?_erase, if_neg differs]

theorem leaves (step : CallStep) (name : String) (scope : LocalScope) (root : GlobalScope) :
    ∃ next rest, step.apply ⟨[scope], root⟩ = ⟨[next], rest⟩ ∧ step.Leaves name scope next := by
  cases step with
  | inRoot change => exact ⟨scope, _, rfl, by simp, fun _ => rfl⟩
  | inCall change =>
    cases change with
    | assign other value => exact leaves_store name rfl (by simp) (by simp)
    | mutate other change => exact leaves_store name rfl (by simp) (by simp)
    | bringIn other => exact leaves_importName name
    | unset other => exact leaves_unset name

end CallStep

namespace Scopes

variable {name : String} {scope : LocalScope} {root : GlobalScope}

/-! ## A history of changes -/

theorem perform_append_singleton (scopes : Scopes) (history : List CallStep) (step : CallStep) :
    scopes.perform (history ++ [step]) = step.apply (scopes.perform history) :=
  List.foldl_append

theorem perform_eq (function : String) (root : GlobalScope) (history : List CallStep)
    (name : String) :
    let start : Scopes := ⟨[{ function }], root⟩
    ∃ scope rest, start.perform history = ⟨[scope], rest⟩ ∧
      (name ∉ superglobals → name ∈ scope.imports → ∃ earlier later,
        history = earlier ++ .inCall (.bringIn name) :: later ∧
          name ∉ (start.perform earlier).imported ∧ .inCall (.unset name) ∉ later ∧
            scope.bindings.get? name = (start.perform earlier).lookup name) := by
  intro start
  induction history using List.reverseRecOn with
  | nil => exact ⟨_, root, rfl, fun _ imports => absurd imports List.not_mem_nil⟩
  | append_singleton history step ih =>
    rcases ih with ⟨scope, rest, before, covers⟩
    rcases step.leaves name scope rest with ⟨next, root, after, leaves⟩
    have steps : start.perform (history ++ [step]) = ⟨[next], root⟩ := by
      rw [perform_append_singleton, before, after]
    refine ⟨next, root, steps, fun notSuper imports => ?_⟩
    by_cases imported : name ∈ scope.imports
    · -- The import was there before, so the step has not taken it back.
      rcases covers notSuper imported with ⟨earlier, later, rfl, fresh, kept, own⟩
      have notUnset : step ≠ .inCall (.unset name) := by
        rintro rfl
        rcases leaves.imports.mp imports with isImport | ⟨_, notUnset⟩
        · cases isImport
        · exact notUnset rfl
      refine ⟨earlier, later ++ [step], by simp, fresh, ?_, ?_⟩
      · rw [List.mem_append, List.mem_singleton, not_or]
        exact ⟨kept, notUnset.symm⟩
      · rw [leaves.covered (.inl (LocalScope.delegates_iff.mpr (.inr imported))), own]
    · have isImport := (leaves.imports.mp imports).resolve_right fun still => imported still.1
      have own : ¬scope.delegates name = true := by
        rw [LocalScope.delegates_iff, not_or]
        exact ⟨notSuper, imported⟩
      refine ⟨history, [], by rw [isImport], ?_, List.not_mem_nil, ?_⟩
      · rw [before]
        exact imported
      · rw [leaves.covered (.inr isImport), before, lookup_call, if_neg own]

/-! ## Unsetting -/

theorem covered?_call :
    covered? ⟨[scope], root⟩ name =
      if name ∈ superglobals then root.bindings.get? name else scope.bindings.get? name :=
  rfl

theorem unset_of_imported (imports : name ∈ scope.imports) :
    (unset ⟨[scope], root⟩ name).lookup name = covered? ⟨[scope], root⟩ name ∧
      (unset ⟨[scope], root⟩ name).root = root := by
  rw [unset_call, if_pos (List.contains_iff_mem.mpr imports), lookup_call, covered?_call]
  simp [LocalScope.delegates]

theorem lookup_unset_of_not_imported (notImported : name ∉ scope.imports) :
    (unset ⟨[scope], root⟩ name).lookup name = none := by
  rw [unset_call, if_neg fun contains => notImported (List.contains_iff_mem.mp contains)]
  split
  · rename_i delegates
    rw [lookup_call, if_pos delegates, Table.get?_erase, if_pos rfl]
  · rename_i own
    have still : ¬LocalScope.delegates { scope with bindings := scope.bindings.erase name } name =
        true := own
    rw [lookup_call, if_neg still, Table.get?_erase, if_pos rfl]

/-- Unsetting a name in a call takes the variable away, unless the name was imported over another
variable: then that one is found again, until the name is unset once more. The variable for which
the imported name stood keeps its value. -/
theorem unset_uncovers (function : String) (root : GlobalScope) (history : List CallStep)
    (name : String) :
    let start : Scopes := ⟨[{ function }], root⟩
    let scopes := start.perform history
    let left := scopes.unset name
    ((left.isDefined name = false ∧ left.lookup name = none) ↔
      ¬(name ∈ scopes.imported ∧ (scopes.covered? name).isSome)) ∧
    (name ∈ scopes.imported → left.lookup name = scopes.covered? name ∧ left.root = scopes.root) ∧
    (name ∈ scopes.imported → name ∉ superglobals → ∃ earlier later,
      history = earlier ++ .inCall (.bringIn name) :: later ∧
        name ∉ (start.perform earlier).imported ∧ .inCall (.unset name) ∉ later ∧
          scopes.covered? name = (start.perform earlier).lookup name) ∧
    (left.unset name).lookup name = none := by
  intro start scopes left
  rcases perform_eq function root history name with ⟨scope, rest, performed, covers⟩
  have isScopes : scopes = ⟨[scope], rest⟩ := performed
  have found : name ∈ scope.imports → left.lookup name = scopes.covered? name ∧
      left.root = scopes.root := by
    simp only [left, isScopes]
    exact unset_of_imported
  have gone : name ∉ scope.imports → left.lookup name = none := by
    simp only [left, isScopes]
    exact lookup_unset_of_not_imported
  have imported : scopes.imported = scope.imports := by
    rw [isScopes]
    rfl
  rw [imported]
  refine ⟨?_, found, fun imports notSuper => ?_, ?_⟩
  · have isUndefined : left.isDefined name = false ↔ left.lookup name = none := by
      simp [isDefined]
    rw [isUndefined, and_self]
    by_cases imports : name ∈ scope.imports
    · simp [(found imports).1, imports]
    · simp [gone imports, imports]
  · rw [isScopes, covered?_call, if_neg notSuper]
    exact covers notSuper imports
  · rcases (CallStep.inCall (.unset name)).leaves name scope rest with ⟨next, root, unsets, leaves⟩
    have isLeft : left = ⟨[next], root⟩ := by
      simp only [left, isScopes]
      exact unsets
    rw [isLeft]
    exact lookup_unset_of_not_imported fun imports => by simpa using leaves.imports.mp imports

/-- The call has given the name a value before it imports it. -/
theorem unset_finds_value_of_call :
    let scopes := perform ⟨[{ function := "f" }], {}⟩
      [.inCall (.assign "x" (.int 1)), .inCall (.bringIn "x")]
    (scopes.unset "x").isDefined "x" = true ∧
      (scopes.unset "x").lookup "x" = some (.int 1) :=
  ⟨rfl, rfl⟩

end Scopes

end PhpScript
