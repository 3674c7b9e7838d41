import PhpScript.Proofs.Run.Steady

/-!
# Stores that fail

A store takes a variable out of its scope, writes to the path behind it and puts it back, also when
the write was stopped. A write that is stopped leaves the variable as it was, with one exception:
that an array cannot be a subscript is found out after null, false or nothing on the way has been
made an array. Then this empty array stays.
-/

namespace PhpScript

namespace Value

/-- A write makes an array at the end of `front` and finds then that the next subscript is an
array. -/
def OpensInVain (root : Value) (subscripts front : List (Option Value)) : Prop :=
  ∃ wrong rest path met, subscripts = front ++ some (.array wrong) :: rest ∧
    root.Reaches front path met ∧ met.isVacant = true

variable {value slot : Value} {elements : Table Key Value} {problem : Problem}
  {subscripts front : List (Option Value)}

theorem eq_array_of_vivify (opens : slot.vivify.1 = .array elements)
    (stands : slot.isVacant = false) : slot = .array elements := by
  cases slot with
  | bool flag => cases flag <;> cases stands; cases opens
  | _ => cases stands <;> exact opens

theorem writePath_of_opensInVain (vain : slot.OpensInVain subscripts front) :
    (writePath value slot subscripts).failure = some .illegalOffsetType ∧
      (writePath value slot subscripts).slot = (writePath (.array .empty) slot front).slot := by
  rcases vain with ⟨wrong, rest, path, met, rfl, reaches, isVacant⟩
  induction reaches with
  | here slot =>
    rw [List.nil_append, writePath_of_unresolved (vivify_of_isVacant isVacant) rfl]
    exact ⟨rfl, rfl⟩
  | step opens resolves further ih =>
    rcases ih isVacant with ⟨failure, left⟩
    rw [List.cons_append, writePath_of_resolves opens resolves,
      writePath_of_resolves opens resolves]
    exact ⟨failure, congrArg (fun element => Value.array (Table.insert _ _ element)) left⟩

theorem slot_writePath_str {text : String} {subscript : Option Value} {rest : List (Option Value)}
    (failed : (writePath value (.str text) (subscript :: rest)).failure = some problem) :
    (writePath value (.str text) (subscript :: rest)).slot = .str text := by
  revert failed
  simp only [writePath, vivify]
  split
  · exact fun _ => rfl
  · split
    · exact fun _ => rfl
    · split
      · intro failed
        cases failed
      · exact fun _ => rfl

theorem slot_writePath_of_failed (failed : (writePath value slot subscripts).failure = some problem)
    (notVain : ∀ front, ¬slot.OpensInVain subscripts front) :
    (writePath value slot subscripts).slot = slot ∧ slot.isVacant = false := by
  induction subscripts generalizing slot with
  | nil => cases failed
  | cons subscript rest ih =>
    rcases slot.opens_or_stops with ⟨elements, opens⟩ | ⟨text, rfl⟩ | ⟨stands, stops⟩
    · cases resolves : elements.resolve subscript with
      | ok key =>
        have notVainInside : ∀ front,
            ¬((elements.get? key).getD .null).OpensInVain rest front := by
          rintro front ⟨wrong, later, path, met, rfl, reaches, isVacant⟩
          exact notVain (subscript :: front)
            ⟨wrong, later, key :: path, met, rfl, .step opens resolves reaches, isVacant⟩
        rw [writePath_of_resolves opens resolves] at failed ⊢
        rcases ih failed notVainInside with ⟨unchanged, stands⟩
        -- A missing element is met as null, and null is always made an array.
        have found : elements.get? key = some ((elements.get? key).getD .null) := by
          cases missing : elements.get? key with
          | some element => rfl
          | none =>
            rw [missing] at stands
            cases stands
        have notVacant : slot.isVacant = false := by
          refine Bool.eq_false_of_not_eq_true fun isVacant => ?_
          cases opens.symm.trans (vivify_of_isVacant isVacant)
          cases found
        refine ⟨?_, notVacant⟩
        rw [eq_array_of_vivify opens notVacant]
        have same : elements.insert key
            (writePath value ((elements.get? key).getD .null) rest).slot = elements := by
          rw [unchanged]
          exact Table.insert_of_get? found
        exact congrArg Value.array same
      | error other =>
        rw [writePath_of_unresolved opens resolves] at failed ⊢
        rcases Table.resolve_of_error resolves with rfl | ⟨rfl, wrong, rfl⟩
        · cases failed
        · have notVacant : slot.isVacant = false := by
            refine Bool.eq_false_of_not_eq_true fun isVacant => ?_
            exact notVain [] ⟨wrong, rest, [], slot, rfl, .here slot, isVacant⟩
          exact ⟨(eq_array_of_vivify opens notVacant).symm, notVacant⟩
    · exact ⟨slot_writePath_str failed, rfl⟩
    · rw [stops]
      exact ⟨rfl, stands⟩

theorem Reaches.failure_writePath {path : List Key} {met : Value}
    (reaches : slot.Reaches subscripts path met) (value : Value) :
    (writePath value slot subscripts).failure = none := by
  induction reaches with
  | here slot => rfl
  | step opens resolves further ih =>
    rw [writePath_of_resolves opens resolves]
    exact ih

theorem Reaches.eq_of_holds {path : List Key} {met : Value}
    (reaches : slot.Reaches subscripts path met) (holds : slot.Holds path value) : met = value := by
  induction reaches with
  | here slot =>
    cases holds
    rfl
  | step opens resolves further ih =>
    cases holds with
    | step found holds =>
      cases opens
      apply ih
      rw [found]
      exact holds

theorem OpensInVain.slot_ne (vain : slot.OpensInVain subscripts front) :
    (writePath (.array .empty) slot front).slot ≠ slot := by
  rcases vain with ⟨_, _, path, met, _, reaches, isVacant⟩
  intro unchanged
  have holds := reaches.holds (.array .empty)
  rw [unchanged] at holds
  rw [reaches.eq_of_holds holds] at isVacant
  cases isVacant

end Value

theorem Machine.scopes_warnAll (machine : Machine) (problems : List Problem) (span : Span) :
    (machine.warnAll problems span).scopes = machine.scopes := by
  rcases machine.warnAll_eq problems span with ⟨output, _, reported⟩
  rw [reported]

namespace Place

variable {place : Place} {value : Value} {machine after : Machine} {halt : Halt}

/-- What a store writes to the variable of its place. A variable that is missing counts as null. -/
def written (place : Place) (value : Value) (scopes : Scopes) : Value.Written :=
  Value.writePath value ((scopes.lookup place.name).getD .null) place.keys

theorem store_of_keys (hasKeys : ¬place.keys.isEmpty) :
    place.store value machine =
      ((place.written value machine.scopes).failure.elim (pure ()) Run.fail : Run Unit)
        (Machine.warnAll
          { machine with
            scopes := machine.scopes.store place.name (place.written value machine.scopes).slot }
          (place.written value machine.scopes).warnings place.span) := by
  have taken : place.written value machine.scopes =
      Value.writePath value ((machine.scopes.take place.name).1.getD .null) place.keys := by
    rw [Scopes.take_fst, written]
  rw [taken, ← Scopes.take_store, store, if_neg hasKeys]
  have takes : (modifyGet fun machine : Machine =>
      ((machine.scopes.take place.name).1.getD .null,
        { machine with scopes := (machine.scopes.take place.name).2 }) : Run Value) machine =
      .ok ((machine.scopes.take place.name).1.getD .null)
        { machine with scopes := (machine.scopes.take place.name).2 } := rfl
  refine (Run.bind_of_ok takes).trans ?_
  generalize Value.writePath value ((machine.scopes.take place.name).1.getD .null) place.keys =
    written
  cases written.failure <;> rfl

theorem store_of_error (fails : place.store value machine = .error halt after) :
    ∃ problem, (place.written value machine.scopes).failure = some problem ∧
      halt = .problem problem ∧
      after.scopes =
        machine.scopes.store place.name (place.written value machine.scopes).slot := by
  by_cases hasKeys : place.keys.isEmpty
  · rw [store, if_pos hasKeys] at fails
    cases fails
  · rw [store_of_keys hasKeys] at fails
    cases failure : (place.written value machine.scopes).failure with
    | none =>
      rw [failure] at fails
      cases fails
    | some problem =>
      rw [failure] at fails
      cases fails
      exact ⟨problem, rfl, rfl, Machine.scopes_warnAll _ _ _⟩

theorem store_of_no_failure (succeeds : (place.written value machine.scopes).failure = none) :
    ∃ after, place.store value machine = .ok () after ∧
      after.scopes =
        machine.scopes.store place.name (place.written value machine.scopes).slot := by
  by_cases hasKeys : place.keys.isEmpty
  · rw [store, if_pos hasKeys, written, List.isEmpty_iff.mp hasKeys]
    exact ⟨_, rfl, rfl⟩
  · rw [store_of_keys hasKeys, succeeds]
    exact ⟨_, rfl, Machine.scopes_warnAll _ _ _⟩

/-- A store that fails leaves all variables of all scopes as they are, unless an array was made in
vain on its way. Then the store is stopped by the subscript behind it, and the one variable of the
place is left as if the empty array had been stored there. -/
theorem failed_store_leaves_variables {place : Place} {value : Value} {machine after : Machine}
    {halt : Halt} (fails : place.store value machine = .error halt after) :
    let root := (machine.scopes.lookup place.name).getD .null
    (∀ level name, level ≠ machine.scopes.owner place.name ∨ name ≠ place.name →
      after.scopes.binding? level name = machine.scopes.binding? level name) ∧
    ((∀ front, ¬root.OpensInVain place.keys front) → after.scopes = machine.scopes) ∧
    ∀ front, root.OpensInVain place.keys front →
      halt = .problem .illegalOffsetType ∧ after.scopes ≠ machine.scopes ∧
      ∃ opened, { place with keys := front }.store (.array .empty) machine = .ok () opened ∧
        after.scopes = opened.scopes := by
  intro root
  rcases store_of_error fails with ⟨problem, failure, rfl, left⟩
  refine ⟨fun level name elsewhere => ?_, fun notVain => ?_, fun front vain => ?_⟩
  · rw [left]
    exact Scopes.binding?_store_of_ne _ elsewhere
  · rcases Value.slot_writePath_of_failed failure notVain with ⟨unchanged, stands⟩
    -- So the variable was there as well, and it is put back where it was.
    have found : machine.scopes.lookup place.name = some root := by
      cases missing : machine.scopes.lookup place.name with
      | some value => simp [root, missing]
      | none =>
          rw [missing] at stands
          cases stands
    rw [left, written, unchanged]
    exact Scopes.store_of_lookup found
  · rcases Value.writePath_of_opensInVain vain with ⟨illegal, opens⟩
    cases failure.symm.trans illegal
    refine ⟨rfl, fun unchanged => ?_, ?_⟩
    · have stored := Scopes.lookup_store machine.scopes place.name place.name
        (place.written value machine.scopes).slot
      rw [← left, unchanged, if_pos rfl] at stored
      have same : root = (place.written value machine.scopes).slot := by simp [root, stored]
      exact vain.slot_ne (opens.symm.trans same.symm)
    · rcases vain with ⟨_, _, path, met, _, reaches, _⟩
      have succeeds :
          (written { place with keys := front } (.array .empty) machine.scopes).failure = none :=
        reaches.failure_writePath _
      rcases store_of_no_failure succeeds with ⟨opened, stores, same⟩
      refine ⟨opened, stores, ?_⟩
      rw [left, same]
      exact congrArg (machine.scopes.store place.name) opens

/-- The variable is new, and its subscript is an array. -/
theorem failed_store_leaves_variables_new :
    let machine := Machine.start {} {} (fun _ => none) ⟨0, 0⟩
    let place : Place := { name := "u", keys := [some (.array .empty)], span := ⟨0, 2⟩ }
    ∃ after, place.store (.int 1) machine = .error (.problem .illegalOffsetType) after ∧
      machine.scopes.lookup "u" = none ∧ after.scopes.lookup "u" = some (.array .empty) ∧
      after.scopes ≠ machine.scopes ∧
      ∀ name, name ≠ "u" → after.scopes.binding? 0 name = machine.scopes.binding? 0 name := by
  intro machine place
  have fails : place.store (.int 1) machine = .error (.problem .illegalOffsetType) _ := rfl
  have vain : ((machine.scopes.lookup "u").getD .null).OpensInVain place.keys [] :=
    ⟨.empty, [], [], .null, rfl, .here _, rfl⟩
  rcases failed_store_leaves_variables fails with ⟨elsewhere, _, opened⟩
  exact ⟨_, fails, rfl, rfl, (opened [] vain).2.1, fun name ne => elsewhere 0 name (.inr ne)⟩

end Place

end PhpScript
