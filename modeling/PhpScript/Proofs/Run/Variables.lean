import PhpScript.Scope

/-!
# Variables of scopes

A name belongs to the innermost scope that does not hand it on to the surrounding one. A store
changes the variable of that name in that scope, and nothing else. `Alters` says at once what stores
and removals of a variable do to scopes.
-/

namespace PhpScript

namespace Table

variable {κ α : Type} [DecidableEq κ]

theorem insert_insert (table : Table κ α) (key : κ) (first second : α) :
    (table.insert key first).insert key second = table.insert key second := by
  rcases table with ⟨entries⟩
  simp only [insert, mk.injEq]
  induction entries with
  | nil => simp [insertEntry]
  | cons entry rest ih =>
    by_cases hit : entry.1 = key
    · simp [insertEntry, hit]
    · simp [insertEntry, hit, ih]

theorem insert_of_get? {table : Table κ α} {key : κ} {value : α}
    (found : table.get? key = some value) : table.insert key value = table := by
  rcases table with ⟨entries⟩
  simp only [insert, mk.injEq]
  simp only [get?] at found
  induction entries with
  | nil => cases found
  | cons entry rest ih =>
    by_cases hit : entry.1 = key
    · rw [lookup, if_pos hit] at found
      cases found
      subst hit
      simp [insertEntry]
    · rw [lookup, if_neg hit] at found
      simp [insertEntry, hit, ih found]

end Table

namespace Scopes

/-- What is left of scopes when a variable is stored or removed: one table of variables is altered,
or the import of the name is taken back. -/
inductive Alters (name : String) (alter : Table String Value → Table String Value) :
    Scopes → Scopes → Prop
  | inRoot (root : GlobalScope) :
      Alters name alter ⟨[], root⟩ ⟨[], { root with bindings := alter root.bindings }⟩
  | inScope (scope : LocalScope) (outer : List LocalScope) (root : GlobalScope) :
      Alters name alter ⟨scope :: outer, root⟩
        ⟨{ scope with bindings := alter scope.bindings } :: outer, root⟩
  | ofImport (scope : LocalScope) (outer : List LocalScope) (root : GlobalScope) :
      Alters name alter ⟨scope :: outer, root⟩
        ⟨{ scope with imports := scope.imports.filter (· ≠ name) } :: outer, root⟩
  | outside {scope : LocalScope} {outer : List LocalScope} {root : GlobalScope} {after : Scopes}
      (delegates : scope.delegates name = true) (alters : Alters name alter ⟨outer, root⟩ after) :
      Alters name alter ⟨scope :: outer, root⟩ ⟨scope :: after.locals, after.root⟩

theorem alters_store (scopes : Scopes) (name : String) (value : Value) :
    Alters name (·.insert name value) scopes (scopes.store name value) := by
  rcases scopes with ⟨locals, root⟩
  simp only [store]
  induction locals with
  | nil => exact .inRoot root
  | cons scope outer ih =>
    rw [storeIn]
    split
    · rename_i delegates
      exact .outside delegates ih
    · exact .inScope scope outer root

theorem alters_unset (scopes : Scopes) (name : String) :
    Alters name (·.erase name) scopes (scopes.unset name) := by
  rcases scopes with ⟨locals, root⟩
  simp only [unset]
  induction locals with
  | nil => exact .inRoot root
  | cons scope outer ih =>
    rw [unsetIn]
    split
    · exact .ofImport scope outer root
    · split
      · rename_i delegates
        exact .outside delegates ih
      · exact .inScope scope outer root

/-- The global scope changes only if every local scope hands the name on. -/
theorem Alters.root_eq {name : String} {alter : Table String Value → Table String Value}
    {before after : Scopes} (alters : Alters name alter before after) :
    after.root = before.root ∨ (∀ scope ∈ before.locals, scope.delegates name = true) ∧
      after.root = { before.root with bindings := alter before.root.bindings } := by
  induction alters with
  | inRoot => exact .inr ⟨by simp, rfl⟩
  | inScope | ofImport => exact .inl rfl
  | outside delegates _ ih => simpa [delegates] using ih

theorem lookupIn_storeIn (name other : String) (value : Value) (root : GlobalScope)
    (locals : List LocalScope) :
    let stored := storeIn name value root locals
    lookupIn other stored.root stored.locals =
      if name = other then some value else lookupIn other root locals := by
  induction locals with
  | nil => simp [storeIn, lookupIn]
  | cons scope outer ih =>
    by_cases delegates : scope.delegates name = true
    · simp only [storeIn, if_pos delegates, lookupIn]
      split
      · exact ih
      · rename_i own
        have differs : name ≠ other := by
          rintro rfl
          exact own delegates
        rw [if_neg differs]
    · simp only [storeIn, if_neg delegates, lookupIn, Table.get?_insert]
      by_cases same : name = other
      · subst same
        rw [if_pos rfl, if_pos rfl]
        exact if_neg delegates
      · simp only [if_neg same]
        rfl

theorem lookup_store (scopes : Scopes) (name other : String) (value : Value) :
    (scopes.store name value).lookup other =
      if name = other then some value else scopes.lookup other :=
  lookupIn_storeIn name other value scopes.root scopes.locals

def levels (scopes : Scopes) : List (Table String Value) :=
  scopes.locals.map LocalScope.bindings ++ [scopes.root.bindings]

def binding? (scopes : Scopes) (level : Nat) (name : String) : Option Value :=
  scopes.levels[level]?.bind (·.get? name)

/-- The scope that a name belongs to. -/
def owner (scopes : Scopes) (name : String) : Nat :=
  scopes.locals.findIdx fun scope => !scope.delegates name

theorem storeIn_storeIn (name : String) (first second : Value) (root : GlobalScope)
    (locals : List LocalScope) :
    let stored := storeIn name first root locals
    storeIn name second stored.root stored.locals = storeIn name second root locals := by
  induction locals with
  | nil => simp [storeIn, Table.insert_insert]
  | cons scope outer ih =>
    by_cases delegates : scope.delegates name = true
    · simp only [storeIn, if_pos delegates]
      rw [ih]
    · have still : ¬LocalScope.delegates
          { scope with bindings := scope.bindings.insert name first } name = true := delegates
      simp only [storeIn, if_neg delegates, if_neg still, Table.insert_insert]

theorem storeIn_of_lookupIn {name : String} {value : Value} {root : GlobalScope}
    {locals : List LocalScope} (found : lookupIn name root locals = some value) :
    storeIn name value root locals = ⟨locals, root⟩ := by
  induction locals with
  | nil =>
    rw [storeIn, Table.insert_of_get? found]
  | cons scope outer ih =>
    by_cases delegates : scope.delegates name = true
    · rw [lookupIn, if_pos delegates] at found
      simp only [storeIn, if_pos delegates, ih found]
    · rw [lookupIn, if_neg delegates] at found
      simp only [storeIn, if_neg delegates, Table.insert_of_get? found]

theorem store_store (scopes : Scopes) (name : String) (first second : Value) :
    (scopes.store name first).store name second = scopes.store name second :=
  storeIn_storeIn name first second scopes.root scopes.locals

theorem store_of_lookup {scopes : Scopes} {name : String} {value : Value}
    (found : scopes.lookup name = some value) : scopes.store name value = scopes :=
  storeIn_of_lookupIn found

theorem take_store (scopes : Scopes) (name : String) (value : Value) :
    (scopes.take name).2.store name value = scopes.store name value := by
  unfold take
  split
  · exact store_store scopes name .null value
  · rfl

theorem take_fst (scopes : Scopes) (name : String) : (scopes.take name).1 = scopes.lookup name := by
  unfold take
  split <;> simp_all

theorem levels_store (scopes : Scopes) (name : String) (value : Value) :
    (scopes.store name value).levels =
      scopes.levels.modify (scopes.owner name) (·.insert name value) := by
  rcases scopes with ⟨locals, root⟩
  unfold store levels owner
  dsimp only
  induction locals with
  | nil => rfl
  | cons scope outer ih =>
    by_cases delegates : scope.delegates name = true
    · simp only [storeIn, List.findIdx_cons, delegates]
      simpa using ih
    · simp [storeIn, delegates, List.findIdx_cons]

theorem binding?_store_of_ne {scopes : Scopes} {name other : String} {level : Nat} (value : Value)
    (elsewhere : level ≠ scopes.owner name ∨ other ≠ name) :
    (scopes.store name value).binding? level other = scopes.binding? level other := by
  rw [binding?, levels_store, List.getElem?_modify, binding?]
  cases scopes.levels[level]? with
  | none => rfl
  | some bindings =>
    by_cases same : scopes.owner name = level
    · have differs : name ≠ other := fun equal =>
        elsewhere.elim (fun ne => ne same.symm) fun ne => ne equal.symm
      simp [same, differs]
    · simp [same]

end Scopes

end PhpScript
