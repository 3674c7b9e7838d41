import Mathlib.Data.List.Induction
import PhpScript.Proofs.Run.Appending
import PhpScript.Proofs.Run.Bindings

/-!
# Pushing and popping

Values are pushed to an array under the indices behind its largest integer key. Either there is an
index for each of them, and then as many pops give them back in reverse order and leave the array as
it was; or the variable is not touched at all.
-/

namespace PhpScript

/-! ## Indices -/

namespace Table

variable {α : Type} {table longer : Table Key α} {value : α} {values : List α} {start : Int}

/-- One more than the largest integer key, or zero if there is no integer key but negative ones. -/
structure IsNextIndex (table : Table Key α) (index : Int) : Prop where
  natural : 0 ≤ index
  above : ∀ key : Int64, .int key ∈ table.keys → key.toInt < index
  reached : index = 0 ∨ ∃ key : Int64, .int key ∈ table.keys ∧ key.toInt + 1 = index

/-- Some values stand behind the entries of a table, under the indices from `start` on. None of
these keys was taken. -/
def Extends (table : Table Key α) (start : Int) (values : List α) (longer : Table Key α) : Prop :=
  ∃ indices : List Int64,
    indices.map Int64.toInt =
      (List.range values.length).map (fun offset : Nat => start + (offset : Int)) ∧
    (∀ index ∈ indices, .int index ∉ table.keys) ∧
    longer.entries = table.entries ++ (indices.map Key.int).zip values

/-- There are integers for as many indices from `start` on as there are values. -/
def HasRoom (start : Int) (values : List α) : Prop :=
  values = [] ∨ start + values.length - 1 ≤ Integer.maximum

theorem IsNextIndex.le {index other : Int} (isNext : table.IsNextIndex index)
    (isOther : table.IsNextIndex other) : index ≤ other := by
  rcases isNext.reached with rfl | ⟨key, member, rfl⟩
  · exact isOther.natural
  · exact isOther.above key member

theorem IsNextIndex.unique {index other : Int} (isNext : table.IsNextIndex index)
    (isOther : table.IsNextIndex other) : index = other :=
  le_antisymm (isNext.le isOther) (isOther.le isNext)

theorem Extends.size_eq (isExtended : table.Extends start values longer) :
    longer.size = table.size + values.length := by
  rcases isExtended with ⟨indices, numbered, _, entries⟩
  have count : indices.length = values.length := by
    simpa using congrArg List.length numbered
  simp [size, entries, count]

theorem HasRoom.length_le (hasRoom : HasRoom start values) (natural : 0 ≤ start) :
    values.length ≤ elementLimit := by
  rcases hasRoom with rfl | inRange
  · exact Nat.zero_le _
  · simp only [Integer.maximum] at inRange
    simp only [elementLimit]
    omega

theorem values_ofValues_of_few (few : values.length ≤ elementLimit) :
    (ofValues values).values = values := by
  apply values_ofValues
  intro index inside
  exact fit?_ne_none (by omega)

theorem keys_append (entries : List (Key × α)) (entry : Key × α) :
    keys ⟨entries ++ [entry]⟩ = keys ⟨entries⟩ ++ [entry.1] := by
  simp [keys]

theorem nextIndex_append_int (entries : List (Key × α)) (index : Int64) (value : α) :
    nextIndex ⟨entries ++ [(.int index, value)]⟩ = max (nextIndex ⟨entries⟩) (index.toInt + 1) := by
  simp [nextIndex]

theorem nextIndex_append_str (entries : List (Key × α)) (name : String) (value : α) :
    nextIndex ⟨entries ++ [(.str name, value)]⟩ = nextIndex ⟨entries⟩ := by
  simp [nextIndex]

theorem isNextIndex_nextIndex (table : Table Key α) : table.IsNextIndex table.nextIndex := by
  rcases table with ⟨entries⟩
  induction entries using List.reverseRecOn with
  | nil => exact ⟨le_refl 0, by simp [keys], .inl rfl⟩
  | append_singleton entries entry ih =>
    rcases ih with ⟨natural, above, reached⟩
    rcases entry with ⟨index | name, value⟩
    · rw [nextIndex_append_int]
      refine ⟨by omega, ?_, ?_⟩
      · intro key member
        have earlierOrSame : .int key ∈ keys ⟨entries⟩ ∨ key = index := by
          simpa [keys_append] using member
        rcases earlierOrSame with earlier | rfl
        · have below := above key earlier
          omega
        · omega
      · by_cases isLarger : nextIndex ⟨entries⟩ ≤ index.toInt
        · exact .inr ⟨index, by simp [keys_append], by omega⟩
        · have same : max (nextIndex ⟨entries⟩) (index.toInt + 1) = nextIndex ⟨entries⟩ := by omega
          rw [same]
          apply reached.imp_right
          rintro ⟨key, member, isNext⟩
          exact ⟨key, by simp [keys_append, member], isNext⟩
    · rw [nextIndex_append_str]
      exact ⟨natural, by simpa [keys_append] using above, by simpa [keys_append] using reached⟩

theorem nextIndex_of_isNext {index : Int64} (isNext : index.toInt = table.nextIndex) (value : α) :
    nextIndex ⟨table.entries ++ [(.int index, value)]⟩ = table.nextIndex + 1 := by
  rw [nextIndex_append_int, isNext]
  exact max_eq_right (le_of_lt (Int.lt_succ _))

namespace Appends

theorem distinct (appends : table.Appends values longer) (isDistinct : table.Distinct) :
    longer.Distinct := by
  induction appends with
  | nil table => exact isDistinct
  | @cons table longer index value values isNext _ ih =>
    apply ih
    rw [Distinct, keys_append, ← List.concat_eq_append]
    exact isDistinct.concat (int_notMem_of_nextIndex isNext)

theorem hasRoom (appends : table.Appends values longer) : HasRoom table.nextIndex values := by
  induction appends with
  | nil table => exact .inl rfl
  | @cons table longer index value values isNext _ ih =>
    have inRange : index.toInt ≤ Integer.maximum := index.toInt_le
    rw [nextIndex_of_isNext isNext] at ih
    apply Or.inr
    rcases ih with rfl | roomLater
    · simp only [List.length_singleton]
      omega
    · rw [List.length_cons]
      omega

end Appends

theorem exists_extends (hasRoom : HasRoom table.nextIndex values) :
    ∃ longer, table.Appends values longer ∧ table.Extends table.nextIndex values longer := by
  induction values generalizing table with
  | nil => exact ⟨table, .nil table, [], by simp, by simp, by simp⟩
  | cons value values ih =>
    have natural := (isNextIndex_nextIndex table).natural
    have inRange : table.nextIndex + values.length ≤ Integer.maximum := by
      rcases hasRoom with isEmpty | inRange
      · cases isEmpty
      · rw [List.length_cons] at inRange
        omega
    have ⟨index, isNext⟩ : ∃ index : Int64, index.toInt = table.nextIndex := by
      have lower : Integer.minimum ≤ table.nextIndex := le_trans (by decide) natural
      have upper : table.nextIndex ≤ Integer.maximum := by omega
      exact ⟨_, Integer.fit?_eq_some_iff.mp (if_pos ⟨lower, upper⟩)⟩
    have roomLater : HasRoom (nextIndex ⟨table.entries ++ [(.int index, value)]⟩) values := by
      rw [nextIndex_of_isNext isNext]
      exact .inr (by omega)
    rcases ih roomLater with ⟨longer, appends, indices, numbered, areNew, entries⟩
    refine ⟨longer, .cons isNext appends, index :: indices, ?_, ?_, ?_⟩
    · rw [nextIndex_of_isNext isNext] at numbered
      simp [numbered, isNext, List.range_succ_eq_map, Int.add_assoc, Int.add_comm]
    · refine List.forall_mem_cons.mpr ⟨int_notMem_of_nextIndex isNext, ?_⟩
      intro other member
      have isNew := areNew other member
      simp only [keys_append, List.mem_append, not_or] at isNew
      exact isNew.1
    · simp [entries]

end Table

/-! ## The native functions -/

section Remaining

variable {accept : Nat → Value → Except Problem Value} {index : Nat} {arguments : List Value}

theorem acceptRemaining_of_few (each : ∀ position argument, accept position argument = .ok argument)
    (position : Nat) (few : index + arguments.length ≤ elementLimit) :
    acceptRemaining accept position index arguments = .ok arguments := by
  induction arguments generalizing position index with
  | nil => rfl
  | cons argument arguments ih =>
    rw [List.length_cons] at few
    rw [acceptRemaining_of_ok (each position argument) (fit?_ne_none (by omega)), ih _ (by omega)]
    rfl

theorem acceptRemaining_of_many
    (each : ∀ position argument, accept position argument = .ok argument) (position : Nat)
    (fitsSoFar : index ≤ elementLimit) (many : elementLimit < index + arguments.length) :
    acceptRemaining accept position index arguments = .error .nextElementOccupied := by
  induction arguments generalizing position index with
  | nil =>
    rw [List.length_nil] at many
    omega
  | cons argument arguments ih =>
    rw [List.length_cons] at many
    by_cases isFull : index = elementLimit
    · have noKey : Integer.fit? index = none := by
        rw [isFull]
        decide
      exact acceptRemaining_of_no_key (each position argument) noKey
    · rw [acceptRemaining_of_ok (each position argument) (fit?_ne_none (by omega)),
        ih _ (by omega) (by omega)]
      rfl

end Remaining

namespace ReferenceFunction

variable {elements longer : Table Key Value} {values : List Value}

theorem call_push_of_few (span : Span) (elements : Table Key Value)
    (few : values.length ≤ elementLimit) :
    (Native.reference .push).call span (.array elements :: values) =
      Run.check span (push.apply [.array elements, .array (.ofValues values)]) := by
  have accepted : push.signature.acceptAll (.variadic "$values" [.mixed]) 2 values =
      .ok values := by
    apply acceptRemaining_of_few accept_mixed
    omega
  change Run.ofExcept (push.signature.bind (.array elements :: values)) >>= _ = _
  rw [bind_push, accepted]
  rfl

theorem call_push_of_many (span : Span) (elements : Table Key Value)
    (many : elementLimit < values.length) :
    (Native.reference .push).call span (.array elements :: values) =
      Run.fail .nextElementOccupied := by
  have refused : push.signature.acceptAll (.variadic "$values" [.mixed]) 2 values =
      .error .nextElementOccupied := by
    apply acceptRemaining_of_many accept_mixed
    · omega
    · omega
  change Run.ofExcept (push.signature.bind (.array elements :: values)) >>= _ = _
  rw [bind_push, refused]
  rfl

theorem call_push_of_appends (span : Span) (appends : elements.Appends values longer) :
    (Native.reference .push).call span (.array elements :: values) =
      pure (.int (Int64.ofNat longer.size), some (.array longer)) := by
  have few := appends.hasRoom.length_le (Table.isNextIndex_nextIndex elements).natural
  rw [call_push_of_few span elements few]
  simp only [apply, ArrayFunction.elements, Table.values_ofValues_of_few few,
    Table.pushAll?_eq_some_iff.mpr appends]
  rfl

theorem call_push_of_no_room (span : Span) (few : values.length ≤ elementLimit)
    (full : ¬Table.HasRoom elements.nextIndex values) :
    (Native.reference .push).call span (.array elements :: values) = (do
      Run.warn .nextElementOccupied span
      return (.bool false, none)) := by
  have noneFits : pushAll? elements values = none := by
    apply Option.eq_none_iff_forall_ne_some.mpr
    intro longer pushed
    exact full (Table.pushAll?_eq_some_iff.mp pushed).hasRoom
  rw [call_push_of_few span elements few]
  simp only [apply, ArrayFunction.elements, Table.values_ofValues_of_few few, noneFits]
  rfl

theorem popLast_append {entries : List (Key × Value)} {key : Key} (value : Value)
    (isNew : key ∉ entries.map Prod.fst) :
    popLast ⟨entries ++ [(key, value)]⟩ = (value, ⟨entries⟩) := by
  have kept : entries.filter (fun entry => entry.1 ≠ key) = entries := by
    apply List.filter_eq_self.mpr
    intro entry member
    have differs : entry.1 ≠ key := by
      rintro rfl
      exact isNew (List.mem_map_of_mem member)
    simp [differs]
  simp only [popLast, List.getLast?_concat, Table.erase]
  simpa using kept

theorem call_pop (span : Span) (elements : Table Key Value) :
    (Native.reference .pop).call span [.array elements] =
      pure ((popLast elements).1, some (.array (popLast elements).2)) := rfl

end ReferenceFunction

/-! ## Calls on a variable -/

def Machine.withArray (machine : Machine) (name : String) (elements : Table Key Value) : Machine :=
  { machine with scopes := machine.scopes.store name (.array elements) }

namespace Machine

theorem lookup_withArray (machine : Machine) (name : String) (elements : Table Key Value) :
    (machine.withArray name elements).scopes.lookup name = some (.array elements) := by
  simp [withArray, Scopes.lookup_store]

theorem native?_withArray (machine : Machine) (name callee : String) (elements : Table Key Value) :
    (machine.withArray name elements).scopes.root.native? callee =
      machine.scopes.root.native? callee := by
  have same := (Scopes.alters_store machine.scopes name (.array elements)).sameDeclarations.extends
  exact congrArg (·.get? (Text.lowercase callee)) same.natives

theorem withArray_withArray (machine : Machine) (name : String) (first second : Table Key Value) :
    (machine.withArray name first).withArray name second = machine.withArray name second := by
  simp only [withArray, Scopes.store_store]

theorem withArray_of_lookup {machine : Machine} {name : String} {elements : Table Key Value}
    (found : machine.scopes.lookup name = some (.array elements)) :
    machine.withArray name elements = machine := by
  rw [withArray, Scopes.store_of_lookup found]

end Machine

namespace Evaluator

variable (evaluator : Evaluator) {callee name : String} {machine : Machine}

def callOn (callee name : String) (place span : Span) (arguments : List (Located Expr)) :
    Located Expr :=
  ⟨.call (.name callee) (⟨.variable (.simple name), place⟩ :: arguments), span⟩

theorem expressionStep_callOn {function : ReferenceFunction} {current : Value}
    {arguments : List (Located Expr)} {values : List Value} {before : Machine}
    (isReference : machine.scopes.root.native? callee = some (.reference function))
    (isCurrent : machine.scopes.lookup name = some current)
    (evaluates : evaluator.values arguments machine = .ok values before) (place span : Span) :
    evaluator.expressionStep (callOn callee name place span arguments) machine = (do
      let outcome ← (Native.reference function).call span (current :: values)
      outcome.2.elim (pure ()) fun value => Run.modifyScopes (·.store name value)
      return outcome.1) before := by
  have isPlace : evaluator.place ⟨.variable (.simple name), place⟩ machine =
    .ok ⟨name, [], place⟩ machine := rfl
  have has : Place.Has ⟨name, [], place⟩ current machine :=
    Place.has_iff.mpr ⟨[], current, rfl, isCurrent, rfl⟩
  change evaluator.callNamed callee span (⟨.variable (.simple name), place⟩ :: arguments)
    machine = _
  rw [callNamed, Run.get_bind, isReference]
  change evaluator.callOnPlace _ _ _ _ _ machine = _
  rw [callOnPlace, if_neg (by simp [Expr.isPlace]), Run.bind_of_ok isPlace, Run.bind_of_ok has,
    Run.bind_of_ok evaluates]
  apply congrFun
  apply congrArg
  funext outcome
  rcases outcome with ⟨result, changed⟩
  cases changed with
  | none => rfl
  | some value => rfl

def IsPop (machine : Machine) (name : String) (call : Located Expr) : Prop :=
  ∃ callee place span, machine.scopes.root.native? callee = some (.reference .pop) ∧
    call = callOn callee name place span []

theorem expressionStep_of_isPop {call : Located Expr} {entries : List (Key × Value)} {key : Key}
    (isPop : IsPop machine name call) (value : Value) (isNew : key ∉ entries.map Prod.fst) :
    evaluator.expressionStep call (machine.withArray name ⟨entries ++ [(key, value)]⟩) =
      .ok value (machine.withArray name ⟨entries⟩) := by
  rcases isPop with ⟨callee, place, span, isNative, rfl⟩
  rw [expressionStep_callOn evaluator ((Machine.native?_withArray ..).trans isNative)
    (Machine.lookup_withArray ..) rfl, ReferenceFunction.call_pop,
    ReferenceFunction.popLast_append value isNew]
  exact congrArg (EStateM.Result.ok value) (Machine.withArray_withArray ..)

theorem mapM_pops {calls : List (Located Expr)} {entries added : List (Key × Value)}
    (arePops : ∀ call ∈ calls, IsPop machine name call) (count : calls.length = added.length)
    (distinct : ((entries ++ added).map Prod.fst).Nodup) :
    calls.mapM evaluator.expressionStep (machine.withArray name ⟨entries ++ added⟩) =
      .ok (added.map Prod.snd).reverse (machine.withArray name ⟨entries⟩) := by
  -- The first call takes the last entry that was added.
  induction added using List.reverseRecOn generalizing calls with
  | nil =>
    cases List.length_eq_zero_iff.mp count
    rw [List.append_nil]
    rfl
  | append_singleton added entry ih =>
    rcases entry with ⟨key, value⟩
    rcases calls with _ | ⟨call, calls⟩
    · simp at count
    · rw [← List.append_assoc] at distinct ⊢
      rw [List.map_append, List.nodup_append] at distinct
      rcases distinct with ⟨distinct, _, apart⟩
      have isNew : key ∉ (entries ++ added).map Prod.fst := by
        intro member
        exact apart key member key (by simp) rfl
      have popped := expressionStep_of_isPop evaluator (arePops call List.mem_cons_self) value isNew
      have others := ih (fun other member => arePops other (List.mem_cons_of_mem _ member))
        (by simpa using count) distinct
      rw [List.mapM_cons, Run.bind_of_ok popped, Run.bind_of_ok others, List.map_append,
        List.reverse_append]
      rfl

/-- Either there is an index for each of the values that are pushed: then they stand behind the
other entries, and as many pops give them back in reverse order and leave everything as it was
before. Or the call fails, and the array is the same as before. Only where there are more values
than an array can hold at all, it fails as the arguments are bound. -/
theorem pushed_values_pop_back {arguments : List (Located Expr)} {values : List Value}
    {elements : Table Key Value} {before : Machine}
    (isPush : machine.scopes.root.native? callee = some (.reference .push))
    (distinct : elements.Distinct)
    (isArray : machine.scopes.lookup name = some (.array elements))
    (evaluates : evaluator.values arguments machine = .ok values before)
    (isKept : before.scopes.lookup name = some (.array elements)) (place span : Span) :
    let push := evaluator.expressionStep (callOn callee name place span arguments) machine
    ∃ start, elements.IsNextIndex start ∧
      (Table.HasRoom start values → ∃ longer after,
        push = .ok (.int (Int64.ofNat longer.size)) after ∧
        after.scopes.lookup name = some (.array longer) ∧
        elements.Extends start values longer ∧
        ∀ calls : List (Located Expr), (∀ call ∈ calls, IsPop before name call) →
          calls.length = values.length →
          calls.mapM evaluator.expressionStep after = .ok values.reverse before) ∧
      (¬Table.HasRoom start values → ∃ after,
        after.scopes.lookup name = some (.array elements) ∧
        (push = .ok (.bool false) after ∨
          elementLimit < values.length ∧
            push = .error (.problem .nextElementOccupied) after)) := by
  intro push
  have pushes := expressionStep_callOn evaluator isPush isArray evaluates place span
  refine ⟨elements.nextIndex, Table.isNextIndex_nextIndex elements, ?_, ?_⟩
  · intro hasRoom
    rcases Table.exists_extends hasRoom with ⟨longer, appends, isExtended⟩
    rw [ReferenceFunction.call_push_of_appends span appends] at pushes
    refine ⟨longer, before.withArray name longer, pushes, Machine.lookup_withArray ..,
      isExtended, ?_⟩
    intro calls arePops count
    rcases appends.exists_added with ⟨added, entries, rfl⟩
    have longerDistinct := appends.distinct distinct
    rcases longer with ⟨longer⟩
    cases entries
    have popped := mapM_pops evaluator arePops (by simpa using count) longerDistinct
    exact popped.trans (congrArg _ (Machine.withArray_of_lookup isKept))
  · intro full
    by_cases few : values.length ≤ elementLimit
    · rw [ReferenceFunction.call_push_of_no_room span few full] at pushes
      refine ⟨before.warn .nextElementOccupied span, ?_, .inl pushes⟩
      exact (congrArg (·.lookup name) (Machine.scopes_warnAll before [_] span)).trans isKept
    · rw [ReferenceFunction.call_push_of_many span elements (Nat.lt_of_not_le few)] at pushes
      exact ⟨before, isKept, .inr ⟨Nat.lt_of_not_le few, pushes⟩⟩

/-- The largest key of the first array is 7, which is not the last one. In the second array there is
room for one more value, but not for both. -/
theorem pushed_values_pop_back_beside_full :
    let fresh := Machine.start {} {} (fun _ => none) ⟨0, 0⟩
    let sparse : Table Key Value :=
      .ofList [(.int 7, .str "a"), (.str "k", .null), (.int (-3), .int 1)]
    let nearlyFull : Table Key Value := .ofList [(.int 9223372036854775806, .str "z")]
    let machine := (fresh.withArray "a" sparse).withArray "b" nearlyFull
    let arguments : List (Located Expr) := [⟨.str "x", ⟨0, 3⟩⟩, ⟨.int 5, ⟨4, 5⟩⟩]
    let push (name : String) := callOn "array_push" name ⟨0, 2⟩ ⟨0, 9⟩ arguments
    let pop := callOn "array_pop" "a" ⟨0, 2⟩ ⟨0, 9⟩ []
    (∃ after, (ofDepth 3).expressionStep (push "a") machine = .ok (.int 5) after ∧
      [pop, pop].mapM (ofDepth 3).expressionStep after = .ok [.int 5, .str "x"] machine) ∧
    ∃ after, (ofDepth 3).expressionStep (push "b") machine = .ok (.bool false) after ∧
      after.scopes.lookup "b" = some (.array nearlyFull) := by
  intro fresh sparse nearlyFull machine arguments push pop
  have isPush : machine.scopes.root.native? "array_push" = some (.reference .push) := rfl
  have evaluates : (ofDepth 3).values arguments machine = .ok [.str "x", .int 5] machine := rfl
  constructor
  · have isSparse : machine.scopes.lookup "a" = some (.array sparse) := rfl
    have distinct : sparse.keys.Nodup := by decide
    rcases pushed_values_pop_back (ofDepth 3) isPush distinct isSparse evaluates isSparse ⟨0, 2⟩
      ⟨0, 9⟩ with ⟨start, isNext, pushes, _⟩
    cases isNext.unique (Table.isNextIndex_nextIndex sparse)
    rcases pushes (.inr (by decide)) with ⟨longer, after, pushed, _, isExtended, pops⟩
    have isPop : IsPop machine "a" pop := ⟨"array_pop", ⟨0, 2⟩, ⟨0, 9⟩, rfl, rfl⟩
    refine ⟨after, ?_, pops [pop, pop] (by simp [isPop]) rfl⟩
    rw [pushed, isExtended.size_eq]
    rfl
  · have isNearlyFull : machine.scopes.lookup "b" = some (.array nearlyFull) := rfl
    have distinct : nearlyFull.keys.Nodup := by decide
    rcases pushed_values_pop_back (ofDepth 3) isPush distinct isNearlyFull evaluates isNearlyFull
      ⟨0, 2⟩ ⟨0, 9⟩ with ⟨start, isNext, _, fails⟩
    cases isNext.unique (Table.isNextIndex_nextIndex nearlyFull)
    have full : ¬Table.HasRoom nearlyFull.nextIndex [Value.str "x", .int 5] := by
      rintro (isEmpty | inRange)
      · cases isEmpty
      · exact absurd inRange (by decide)
    rcases fails full with ⟨after, isKept, isFalse | ⟨many, _⟩⟩
    · exact ⟨after, isFalse, isKept⟩
    · exact absurd many (by decide)

end Evaluator

end PhpScript
