import PhpScript.Proofs.Run.ArrayKeys
import PhpScript.Proofs.Run.FailedStores
import PhpScript.Proofs.Value.Acceptance

/-!
# Appending to a place

The native function that appends to an array is given a place. The place is read first, then the
other arguments are evaluated, and at last the longer array is stored. So the values are appended to
the array that was there before, and whatever their evaluation did to the place is overwritten.
-/

namespace PhpScript

/-! ## Appended values -/

namespace Table

variable {α : Type}

/-- Some values stand behind the entries of a table, in their order and each under the index that
was free next. -/
inductive Appends : Table Key α → List α → Table Key α → Prop
  | nil (table : Table Key α) : Appends table [] table
  | cons {table longer : Table Key α} {index : Int64} {value : α} {values : List α}
      (isNext : index.toInt = table.nextIndex)
      (further : Appends ⟨table.entries ++ [(.int index, value)]⟩ values longer) :
      Appends table (value :: values) longer

variable {table other longer : Table Key α} {value : α} {values : List α}

theorem push?_eq_some_iff :
    table.push? value = some longer ↔ ∃ index : Int64, index.toInt = table.nextIndex ∧
      longer = ⟨table.entries ++ [(.int index, value)]⟩ := by
  have appended (index : Int64) (isNext : index.toInt = table.nextIndex) :
      table.insert (.int index) value = ⟨table.entries ++ [(.int index, value)]⟩ :=
    congrArg Table.mk (insertEntry_of_notMem (int_notMem_of_nextIndex isNext))
  simp only [push?, nextKey?, Option.map_map, Option.map_eq_some_iff, Integer.fit?_eq_some_iff,
    Function.comp_apply]
  constructor
  · rintro ⟨index, isNext, rfl⟩
    exact ⟨index, isNext, appended index isNext⟩
  · rintro ⟨index, isNext, rfl⟩
    exact ⟨index, isNext, appended index isNext⟩

theorem pushAll?_eq_some_iff {table longer : Table Key Value} {values : List Value} :
    ReferenceFunction.pushAll? table values = some longer ↔ table.Appends values longer := by
  induction values generalizing table with
  | nil =>
    rw [ReferenceFunction.pushAll?, Option.some.injEq]
    constructor
    · rintro rfl
      exact .nil table
    · rintro ⟨⟩
      rfl
  | cons value values ih =>
    rw [ReferenceFunction.pushAll?, Option.bind_eq_some_iff]
    constructor
    · rintro ⟨next, pushed, further⟩
      rcases push?_eq_some_iff.mp pushed with ⟨index, isNext, rfl⟩
      exact .cons isNext (ih.mp further)
    · rintro (_ | ⟨isNext, further⟩)
      exact ⟨_, push?_eq_some_iff.mpr ⟨_, isNext, rfl⟩, ih.mpr further⟩

namespace Appends

theorem exists_added (appends : table.Appends values longer) :
    ∃ added, longer.entries = table.entries ++ added ∧ added.map Prod.snd = values := by
  induction appends with
  | nil table => exact ⟨[], by simp⟩
  | @cons table longer index value values _ _ ih =>
    rcases ih with ⟨added, entries, rfl⟩
    exact ⟨(.int index, value) :: added, by simp [entries], rfl⟩

theorem eq_of_appends (appends : table.Appends values longer)
    (again : other.Appends values longer) : table = other := by
  rcases appends.exists_added with ⟨added, entries, isAdded⟩
  rcases again.exists_added with ⟨others, otherEntries, isOthers⟩
  have sizes : added.length = others.length := by
    rw [← List.length_map Prod.snd, isAdded, ← isOthers, List.length_map]
  have same := (List.append_inj' (entries.symm.trans otherEntries) sizes).1
  cases table
  cases other
  exact congrArg Table.mk same

end Appends

end Table

/-! ## The native function -/

namespace ReferenceFunction

variable {current : Value} {others values : List Value} {signature : Signature}

theorem accept_mixed {name : String} (position : Nat) (argument : Value) :
    signature.accept (.variadic name [.mixed]) position argument = .ok argument := by
  cases argument <;> rfl

theorem eq_of_accept_mixed {name : String} (position : Nat) (argument value : Value)
    (accepted : signature.accept (.variadic name [.mixed]) position argument = .ok value) :
    argument = value :=
  Except.ok.inj ((accept_mixed position argument).symm.trans accepted)

theorem bind_push (elements : Table Key Value) (others : List Value) :
    push.signature.bind (.array elements :: others) = (do
      let given ← push.signature.acceptAll (.variadic "$values" [.mixed]) 2 others
      return [.array elements, .array (.ofValues given)]) := by
  change (push.signature.acceptAll (.variadic "$values" [.mixed]) 2 others >>=
    fun given => (pure [.array (.ofValues given)] : Except Problem (List Value))) >>=
      (fun values => pure (.array elements :: values)) = _
  rw [bind_assoc]
  rfl

theorem exists_of_bind_push (bound : push.signature.bind (current :: others) = .ok values) :
    ∃ elements given, current = .array elements ∧ given.values = others ∧
      values = [.array elements, .array given] := by
  cases current with
  | array elements =>
    rw [bind_push] at bound
    cases accepted : push.signature.acceptAll (.variadic "$values" [.mixed]) 2 others with
    | error problem =>
      rw [accepted] at bound
      cases bound
    | ok given =>
      rw [accepted] at bound
      cases bound
      rcases acceptRemaining_eq_ok eq_of_accept_mixed accepted with ⟨same, fits⟩
      rw [List.forall₂_eq_eq_eq] at same
      simp only [Nat.zero_add] at fits
      exact ⟨elements, .ofValues given, rfl, (Table.values_ofValues fits).trans same.symm, rfl⟩
  | _ => cases bound

theorem exists_of_call_push {span : Span} {count : Int64} {changed : Option Value}
    {machine after : Machine}
    (called : (Native.reference .push).call span (current :: others) machine =
      .ok (.int count, changed) after) :
    ∃ elements pushed, current = .array elements ∧ elements.Appends others pushed ∧
      count = Int64.ofNat pushed.size ∧ changed = some (.array pushed) ∧ after = machine := by
  rcases Run.bind_eq_ok called with ⟨values, middle, binds, applied⟩
  rcases Run.ofExcept_eq_ok binds with ⟨bound, rfl⟩
  rcases exists_of_bind_push bound with ⟨elements, given, rfl, rfl, rfl⟩
  simp only [apply, ArrayFunction.elements] at applied
  cases pushes : pushAll? elements given.values with
  | some pushed =>
    rw [pushes] at applied
    cases applied
    exact ⟨elements, pushed, rfl, Table.pushAll?_eq_some_iff.mp pushes, rfl, rfl, rfl⟩
  | none =>
    rw [pushes] at applied
    cases applied

end ReferenceFunction

/-! ## The place -/

namespace Value

variable {root value : Value} {elements : Table Key Value} {keys : List Value} {path : List Key}

theorem quietPath?_str_ne_array (text : String) (keys : List Value)
    (elements : Table Key Value) : (str text).quietPath? keys ≠ some (.array elements) := by
  induction keys generalizing text with
  | nil => simp [quietPath?]
  | cons key rest ih =>
    intro found
    rw [quietPath?, Option.bind_eq_some_iff] at found
    rcases found with ⟨inner, isByte, further⟩
    simp only [quietOffset?, byteAt?, Option.bind_eq_bind, Option.bind_eq_some_iff] at isByte
    rcases isByte with ⟨_, _, _, _, byte, _, isText⟩
    cases isText
    exact ih _ further

theorem exists_holds_of_quietPath? (found : root.quietPath? keys = some (.array elements)) :
    ∃ path, StandFor keys path ∧ root.Holds path (.array elements) := by
  induction keys generalizing root with
  | nil =>
    cases found
    exact ⟨[], .nil, .here _⟩
  | cons key rest ih =>
    cases root with
    | array outer =>
      rw [quietPath?, Option.bind_eq_some_iff] at found
      rcases found with ⟨inner, isInner, further⟩
      rcases ih further with ⟨path, stands, holds⟩
      simp only [quietOffset?] at isInner
      split at isInner
      · rename_i resolved resolves
        exact ⟨resolved :: path, .cons resolves stands, .step isInner holds⟩
      · cases isInner
    | str text => exact absurd found (quietPath?_str_ne_array text (key :: rest) elements)
    | _ => cases found

theorem Holds.reaches (holds : root.Holds path value) (stands : StandFor keys path) :
    root.Reaches (keys.map some) path value := by
  induction holds generalizing keys with
  | here value =>
    cases stands
    exact .here value
  | @step elements key path inner value found further ih =>
    cases stands with
    | @cons subscript _ rest _ resolves stands =>
      refine .step rfl resolves ?_
      rw [found]
      exact ih stands

end Value

namespace Place

variable {place : Place} {value : Value} {machine after : Machine}

def Has (place : Place) (value : Value) (machine : Machine) : Prop :=
  place.quiet? machine = .ok (some value) machine

def Grows (place : Place) (values : List Value) (before after : Machine) : Prop :=
  ∃ held longer, place.Has (.array held) before ∧ held.Appends values longer ∧
    place.Has (.array longer) after

theorem keys_of_keysOr {problem : Problem} {keys : List Value}
    (complete : place.keysOr problem = .ok keys) : place.keys = keys.map some := by
  rw [keysOr] at complete
  generalize place.keys = subscripts at complete ⊢
  induction subscripts generalizing keys with
  | nil =>
    cases complete
    rfl
  | cons subscript rest ih =>
    rw [List.mapM_cons] at complete
    cases subscript with
    | none => cases complete
    | some key =>
      cases others : (rest.mapM fun key => key.elim (.error problem) .ok :
          Except Problem (List Value)) with
      | error other =>
        rw [others] at complete
        cases complete
      | ok values =>
        rw [others] at complete
        cases complete
        rw [ih others, List.map_cons]

theorem quiet?_eq_ok {found : Option Value} (reads : place.quiet? machine = .ok found after) :
    ∃ keys, place.keysOr .readAppend = .ok keys ∧ after = machine ∧
      found = (machine.scopes.lookup place.name).bind (·.quietPath? keys) := by
  rcases Run.bind_eq_ok reads with ⟨keys, middle, isKeys, further⟩
  rcases Run.ofExcept_eq_ok isKeys with ⟨complete, rfl⟩
  cases further
  exact ⟨keys, complete, rfl, rfl⟩

theorem has_iff : place.Has value machine ↔ ∃ keys root, place.keysOr .readAppend = .ok keys ∧
    machine.scopes.lookup place.name = some root ∧ root.quietPath? keys = some value := by
  constructor
  · intro has
    rcases quiet?_eq_ok has with ⟨keys, complete, _, found⟩
    rcases Option.bind_eq_some_iff.mp found.symm with ⟨root, isRoot, isValue⟩
    exact ⟨keys, root, complete, isRoot, isValue⟩
  · rintro ⟨keys, root, complete, isRoot, isValue⟩
    rw [Has, quiet?, Run.bind_of_ok (readKeys_eq_ok complete machine), Run.get_bind, isRoot,
      Option.bind_some, isValue]
    rfl

theorem Has.eq {other : Value} (has : place.Has value machine) (again : place.Has other machine) :
    value = other := by
  cases has.symm.trans again
  rfl

theorem scopes_of_store (stores : place.store value machine = .ok () after) :
    after.scopes = machine.scopes.store place.name (place.written value machine.scopes).slot := by
  by_cases hasKeys : place.keys.isEmpty
  · rw [store, if_pos hasKeys] at stores
    cases stores
    rw [written, List.isEmpty_iff.mp hasKeys]
    rfl
  · rw [store_of_keys hasKeys] at stores
    cases failure : (place.written value machine.scopes).failure with
    | none =>
      rw [failure] at stores
      cases stores
      exact Machine.scopes_warnAll _ _ _
    | some problem =>
      rw [failure] at stores
      cases stores

theorem has_of_store {held : Table Key Value} (has : place.Has (.array held) machine)
    (stores : place.store value machine = .ok () after) : place.Has value after := by
  rcases has_iff.mp has with ⟨keys, root, complete, isRoot, found⟩
  rcases Value.exists_holds_of_quietPath? found with ⟨path, stands, holds⟩
  have written := (holds.reaches stands).holds value
  refine has_iff.mpr ⟨keys, _, complete, ?_, Value.quietPath?_of_holds written stands⟩
  rw [scopes_of_store stores, Scopes.lookup_store, if_pos rfl, Place.written, isRoot,
    keys_of_keysOr complete]
  rfl

end Place

/-! ## The call -/

namespace Evaluator

theorem exists_of_callOnPlace_push {evaluator : Evaluator} {name : String} {span : Span}
    {target : Located Expr} {arguments : List (Located Expr)} {machine after : Machine}
    {count : Int64}
    (completes : evaluator.callOnPlace (.reference .push) name span target arguments machine =
      .ok (.int count) after) :
    ∃ place read elements values before pushed, evaluator.place target machine = .ok place read ∧
      place.Has (.array elements) read ∧ evaluator.values arguments read = .ok values before ∧
      elements.Appends values pushed ∧ count = Int64.ofNat pushed.size ∧
      place.store (.array pushed) before = .ok () after := by
  rw [callOnPlace] at completes
  split at completes
  · cases completes
  · rcases Run.bind_eq_ok completes with ⟨place, read, isPlace, completes⟩
    rcases Run.bind_eq_ok completes with ⟨found, same, reads, completes⟩
    rcases Run.bind_eq_ok completes with ⟨values, before, evaluates, completes⟩
    rcases Run.bind_eq_ok completes with ⟨⟨result, changed⟩, called, calls, completes⟩
    rcases Place.quiet?_eq_ok reads with ⟨_, _, rfl, _⟩
    cases changed with
    | none =>
      cases completes
      rcases ReferenceFunction.exists_of_call_push calls with ⟨_, _, _, _, _, noChange, _⟩
      cases noChange
    | some value =>
      rcases Run.bind_eq_ok completes with ⟨⟨⟩, stored, stores, completes⟩
      cases completes
      rcases ReferenceFunction.exists_of_call_push calls with
        ⟨elements, pushed, isArray, appends, isCount, isChanged, rfl⟩
      cases isChanged
      cases found with
      | none => cases isArray
      | some current =>
        cases isArray
        exact ⟨place, same, elements, values, called, pushed, isPlace, reads, evaluates,
          appends, isCount, stores⟩

/-- A call that appends to a place stores the array which was there before the other arguments were
evaluated, with their values behind it. So the array that is there after the evaluation grows by
these values if and only if it is still the same array. -/
theorem push_appends_to_earlier_array {evaluator : Evaluator} {name : String}
    {target : Located Expr} {arguments : List (Located Expr)} {span : Span}
    {machine after : Machine} {count : Int64}
    (isPush : machine.scopes.root.native? name = some (.reference .push))
    (completes : evaluator.expressionStep ⟨.call (.name name) (target :: arguments), span⟩ machine =
      .ok (.int count) after) :
    ∃ place read elements values before pushed, evaluator.place target machine = .ok place read ∧
      place.Has (.array elements) read ∧ evaluator.values arguments read = .ok values before ∧
      elements.Appends values pushed ∧ count = Int64.ofNat pushed.size ∧
      place.store (.array pushed) before = .ok () after ∧
      (∀ held, place.Has (.array held) before → place.Has (.array pushed) after) ∧
      (place.Grows values before after ↔ place.Has (.array elements) before) := by
  change evaluator.callNamed name span (target :: arguments) machine = _ at completes
  rw [callNamed, Run.get_bind, isPush] at completes
  rcases exists_of_callOnPlace_push completes with
    ⟨place, read, elements, values, before, pushed, isPlace, has, evaluates, appends, isCount,
      stores⟩
  refine ⟨place, read, elements, values, before, pushed, isPlace, has, evaluates, appends, isCount,
    stores, fun held hasHeld => Place.has_of_store hasHeld stores, ?_, ?_⟩
  · rintro ⟨held, longer, hasHeld, grown, hasLonger⟩
    -- Only the stored array can be found, and it shows what the values were appended to.
    cases (Place.has_of_store hasHeld stores).eq hasLonger
    cases appends.eq_of_appends grown
    exact hasHeld
  · intro unchanged
    exact ⟨elements, pushed, unchanged, appends, Place.has_of_store unchanged stores⟩

/-- The place is inside of an array, and one of the arguments changes another variable. -/
theorem push_appends_to_earlier_array_inside :
    let fresh := Machine.start {} {} (fun _ => none) ⟨0, 0⟩
    let lists : Value := .array (.ofList [(.str "list", .array (.ofValues [.int 1]))])
    let machine := { fresh with scopes := fresh.scopes.store "m" lists }
    let target : Located Expr :=
      ⟨.subscript ⟨.variable (.simple "m"), ⟨0, 2⟩⟩ (some ⟨.str "list", ⟨3, 9⟩⟩), ⟨0, 10⟩⟩
    let arguments : List (Located Expr) :=
      [⟨.str "x", ⟨12, 15⟩⟩,
        ⟨.assign ⟨.variable (.simple "n"), ⟨17, 19⟩⟩ ⟨.int 5, ⟨22, 23⟩⟩, ⟨17, 23⟩⟩]
    ∃ after, machine.scopes.root.native? "array_push" = some (.reference .push) ∧
      (ofDepth 3).expressionStep ⟨.call (.name "array_push") (target :: arguments), ⟨0, 24⟩⟩
        machine = .ok (.int 3) after ∧
      ∃ place before, (ofDepth 3).place target machine = .ok place machine ∧
        (ofDepth 3).values arguments machine = .ok [.str "x", .int 5] before ∧
        place.Grows [.str "x", .int 5] before after := by
  intro fresh lists machine target arguments
  have isPush : machine.scopes.root.native? "array_push" = some (.reference .push) := rfl
  have ⟨after, completes⟩ : ∃ after, (ofDepth 3).expressionStep
      ⟨.call (.name "array_push") (target :: arguments), ⟨0, 24⟩⟩ machine = .ok (.int 3) after := by
    simp only [arguments, target, machine, lists, fresh]
    exact ⟨_, rfl⟩
  rcases push_appends_to_earlier_array isPush completes with
    ⟨place, read, elements, values, before, pushed, isPlace, has, evaluates, _, _, _, _, grows⟩
  have placed : (ofDepth 3).place target machine =
    .ok ⟨"m", [some (.str "list")], ⟨0, 2⟩⟩ machine := rfl
  cases placed.symm.trans isPlace
  have evaluated : (ofDepth 3).values arguments machine = .ok [.str "x", .int 5] _ := rfl
  cases evaluated.symm.trans evaluates
  have held : Place.Has ⟨"m", [some (.str "list")], ⟨0, 2⟩⟩ (.array (.ofValues [.int 1])) machine :=
    rfl
  cases held.eq has
  exact ⟨after, isPush, completes, _, _, placed, evaluated, grows.mpr rfl⟩

/-- The argument appends to the same variable. What it appends is lost. -/
theorem inner_push_is_lost :
    let fresh := Machine.start {} {} (fun _ => none) ⟨0, 0⟩
    let machine :=
      { fresh with scopes := fresh.scopes.store "a" (.array (.ofValues [.int 1])) }
    let target : Located Expr := ⟨.variable (.simple "a"), ⟨11, 13⟩⟩
    let inner : Located Expr :=
      ⟨.call (.name "array_push") [target, ⟨.int 2, ⟨30, 31⟩⟩], ⟨15, 32⟩⟩
    ∃ before after, (ofDepth 3).values [inner] machine = .ok [.int 2] before ∧
      before.scopes.lookup "a" = some (.array (.ofValues [.int 1, .int 2])) ∧
      (ofDepth 3).expressionStep ⟨.call (.name "array_push") [target, inner], ⟨0, 33⟩⟩ machine =
        .ok (.int 2) after ∧
      after.scopes.lookup "a" = some (.array (.ofValues [.int 1, .int 2])) :=
  ⟨_, _, rfl, rfl, rfl, rfl⟩

end Evaluator

end PhpScript
