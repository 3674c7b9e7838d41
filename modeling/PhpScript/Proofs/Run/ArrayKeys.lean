import PhpScript.Proofs.Run.Occurrence

/-!
# Keys of arrays

An array of a script has pairwise distinct keys, and none of its text keys is written like an
integer. So a key that the script gets hold of, as a value, leads back to the entry from which it
came: the keys of a loop, and those that functions list.
-/

namespace PhpScript

namespace Value

theorem readOffset_toValue {table : Table Key Value} (wellKeyed : table.WellKeyed)
    {entry : Key × Value} (member : entry ∈ table.entries) :
    (Value.array table).readOffset entry.1.toValue = pure entry.2 := by
  have canonical := wellKeyed.canonical entry.1 (List.mem_map_of_mem member)
  have found := Table.get?_of_mem wellKeyed.distinct member
  exact readOffset_of_get? (Key.ofValue_toValue canonical) found

end Value

theorem Place.load_eq_ok {place : Place} {machine : Machine} {keys : List Value}
    {root value : Value} (complete : place.keysOr .readAppend = .ok keys)
    (found : machine.scopes.lookup place.name = some root)
    (read : root.readPath keys = pure value) : place.load machine = .ok value machine := by
  rw [load, Run.bind_of_ok (readKeys_eq_ok complete machine), Run.get_bind, found]
  simp only [follow, read]
  rfl

theorem Run.ofExcept_eq_ok {α : Type} {result : Except Problem α} {machine after : Machine}
    {value : α} (ends : Run.ofExcept result machine = .ok value after) :
    result = .ok value ∧ after = machine := by
  cases result with
  | ok own =>
    cases ends
    exact ⟨rfl, rfl⟩
  | error problem => cases ends

theorem Signature.exists_of_bind_array {signature : Signature} {name : String}
    {parameters : List Parameter} {table : Table Key Value} {others values : List Value}
    (wantsArray : signature.parameters = .required name [.array] :: parameters)
    (bound : signature.bind (.array table :: others) = .ok values) :
    ∃ rest, values = .array table :: rest := by
  simp only [Signature.bind] at bound
  split at bound
  · cases bound
  · rw [wantsArray] at bound
    change (signature.acceptFrom 2 parameters others >>= fun values =>
      (Pure.pure (.array table :: values) : Except Problem (List Value))) = _ at bound
    cases rest : signature.acceptFrom 2 parameters others with
    | ok own =>
      rw [rest] at bound
      cases bound
      exact ⟨own, rfl⟩
    | error problem =>
      rw [rest] at bound
      cases bound

namespace ArrayFunction

variable {function : ArrayFunction} {span : Span} {table : Table Key Value} {others : List Value}
  {machine after : Machine} {changed : Option Value}

theorem exists_apply_of_call {name : String} {parameters : List Parameter} {result : Value}
    (wantsArray : function.signature.parameters = .required name [.array] :: parameters)
    (called : (Native.array function).call span (.array table :: others) machine =
      .ok (result, changed) after) :
    ∃ given rest, Run.check span (function.apply given (.array table :: rest)) machine =
      .ok result after := by
  rcases Run.bind_eq_ok called with ⟨values, middle, binds, applied⟩
  rcases Run.ofExcept_eq_ok binds with ⟨bound, rfl⟩
  rcases Signature.exists_of_bind_array wantsArray bound with ⟨rest, rfl⟩
  rcases Run.bind_eq_ok applied with ⟨_, _, checked, gives⟩
  cases gives
  exact ⟨_, rest, checked⟩

theorem exists_entry_of_keys {listed : Table Key Value} {key : Value}
    (called : (Native.array .keys).call span (.array table :: others) machine =
      .ok (.array listed, changed) after) (member : key ∈ listed.values) :
    ∃ entry ∈ table.entries, key = entry.1.toValue := by
  rcases exists_apply_of_call rfl called with ⟨given, rest, applied⟩
  match rest with
  | [] | [_] | _ :: _ :: _ :: _ => cases applied
  | [wanted, strict] =>
    cases applied
    rcases List.mem_map.mp member with ⟨element, isElement, rfl⟩
    rcases Table.mem_ofValues isElement with ⟨index, found, _⟩
    rcases List.mem_map.mp (List.mem_of_getElem? found) with ⟨entry, chosen, same⟩
    exact ⟨entry, List.mem_of_mem_filter chosen, same.symm⟩

theorem exists_entry_of_chosen {name : String} {key : Value} {chosen : Option Key}
    (wantsArray : function.signature.parameters = [.required name [.array]])
    (gives : ∀ given, function.apply given [.array table] = pure (keyValue chosen))
    (otherwise : ∀ given first rest,
      function.apply given (.array table :: first :: rest) = pure .null)
    (isKey : ∀ own, chosen = some own → own ∈ table.keys)
    (called : (Native.array function).call span (.array table :: others) machine =
      .ok (key, changed) after) (present : key ≠ .null) :
    ∃ entry ∈ table.entries, key = entry.1.toValue := by
  rcases exists_apply_of_call wantsArray called with ⟨given, rest, applied⟩
  cases rest with
  | cons first rest =>
    rw [otherwise] at applied
    cases applied
    exact absurd rfl present
  | nil =>
    rw [gives] at applied
    cases applied
    cases chosen with
    | none => exact absurd rfl present
    | some own =>
      rcases List.mem_map.mp (isKey own rfl) with ⟨entry, member, rfl⟩
      exact ⟨entry, member, rfl⟩

end ArrayFunction

namespace Evaluator

/-- Reading `$array[$name]`, where the variables hold an array and a value, gives another value and
reports nothing. -/
def ReadsAs (table : Table Key Value) (key element : Value) : Prop :=
  ∀ depth machine array name (base index span : Span),
    Scopes.lookup machine.scopes array = some (.array table) →
    machine.scopes.lookup name = some key →
    (ofDepth (depth + 2)).expression
        ⟨.subscript ⟨.variable (.simple array), base⟩ (some ⟨.variable (.simple name), index⟩),
          span⟩ machine =
      .ok element machine

theorem expression_variable {depth : Nat} {machine : Machine} {name : String} {span : Span}
    {value : Value} (found : machine.scopes.lookup name = some value) :
    (ofDepth (depth + 1)).expression ⟨.variable (.simple name), span⟩ machine =
      .ok value machine := by
  have placed : (ofDepth depth).place ⟨.variable (.simple name), span⟩ machine =
    .ok ⟨name, [], span⟩ machine := rfl
  change (ofDepth depth).loadPlace _ machine = _
  rw [loadPlace, Run.bind_of_ok placed]
  exact Place.load_eq_ok rfl found rfl

variable {table : Table Key Value} {start : Machine} {loop : ForeachLoop Stmt}

theorem readsAs_of_mem (wellKeyed : table.WellKeyed) {entry : Key × Value}
    (member : entry ∈ table.entries) : ReadsAs table entry.1.toValue entry.2 := by
  intro depth machine array name base index span hasArray hasKey
  have evaluated : (ofDepth (depth + 1)).expression ⟨.variable (.simple name), index⟩ machine =
      .ok entry.1.toValue machine := expression_variable hasKey
  have placed : (ofDepth (depth + 1)).place
      ⟨.subscript ⟨.variable (.simple array), base⟩ (some ⟨.variable (.simple name), index⟩), span⟩
      machine = .ok ⟨array, [some entry.1.toValue], base⟩ machine := by
    change ((ofDepth (depth + 1)).expression ⟨.variable (.simple name), index⟩ >>= fun key =>
      (Pure.pure ⟨array, [some key], base⟩ : Run Place)) machine = _
    rw [Run.bind_of_ok evaluated]
    rfl
  change (ofDepth (depth + 1)).loadPlace _ machine = _
  rw [loadPlace, Run.bind_of_ok placed]
  have complete : Place.keysOr .readAppend ⟨array, [some entry.1.toValue], base⟩ =
    .ok [entry.1.toValue] := rfl
  refine Place.load_eq_ok complete hasArray ?_
  simp only [Value.readPath, Value.readOffset_toValue wellKeyed member]
  rfl

/-! ## Functions that list keys -/

theorem exists_call_of_calls {level : Nat} {code : Located Expr} {after : Machine}
    {name plain : String} {values : List Value} {result : Value} (native : Native)
    (regular : start.Regular) (isName : Text.lowercase name = plain)
    (known : (Table.ofList Native.names).get? plain = some native)
    (byValue : ∀ function, native ≠ .reference function)
    (calls : Frame.Calls (ofDepth level) ⟨.expression code, start⟩ name values)
    (ends : (ofDepth (level + 1)).expression code start = .ok result after) :
    ∃ span middle changed, native.call span values middle = .ok (result, changed) after := by
  rcases calls with ⟨callee, arguments, span, named, middle, isCall, evaluated, passed⟩
  cases isCall
  have found : ∀ machine : Machine, machine.Regular →
      machine.scopes.root.native? name = some native := by
    intro machine machineRegular
    rw [GlobalScope.native?, machineRegular.root.natives, isName, known]
  have namedRegular := ((Steady.calleeName callee).yields regular evaluated).2
  have notReference : ∀ function, named.scopes.root.native? name ≠ some (.reference function) := by
    rw [found named namedRegular]
    rintro function ⟨⟩
    exact byValue function rfl
  have passing : (ofDepth level).values arguments named = .ok values middle := by
    rw [← passed, passedValues_of_values]
    exact fun function _ _ reference _ => notReference function reference
  have middleRegular := ((Steady.values arguments).yields namedRegular passing).2
  change (ofDepth level).call callee span arguments start = _ at ends
  rw [call_eq, Run.bind_of_ok evaluated, callNamed_of_values notReference, Run.bind_of_ok passing,
    callFunction_of_native (found middle middleRegular)] at ends
  rcases Run.bind_eq_ok ends with ⟨⟨_, changed⟩, _, called, gives⟩
  cases gives
  exact ⟨span, middle, changed, called⟩

/-! ## Loops over arrays -/

theorem performs_foreachLoop_iff {self : Evaluator} {evaluated pass : Machine} {code : Located Stmt}
    (isArray : self.expression loop.subject start = .ok (.array table) evaluated) :
    Performs (fun self => self.foreachLoop loop) self start ⟨.statement code, pass⟩ ↔
      Performs (fun self => self.foreachPasses loop table.entries) self
        (Surrounding.loop.enter evaluated) ⟨.statement code, pass⟩ := by
  have passes : Performs
      (fun self => Surrounding.loop.around (self.foreachPasses loop table.entries)) self evaluated
        ⟨.statement code, pass⟩ ↔ _ := performs_around_iff
  rw [← passes]
  refine (performs_bind_iff (.perform (.expression loop.subject))).trans ⟨?_, ?_⟩
  · rintro (subject | ⟨value, middle, ends, later⟩)
    · cases (performs_perform_iff (.expression loop.subject)).mp subject
    · cases isArray.symm.trans ends
      exact later
  · exact fun performs => .inr ⟨_, _, isArray, performs⟩

theorem exists_entry_of_performs_passes {self : Evaluator} {keyName valueName : String}
    {keySpan valueSpan : Span} {entries : List (Key × Value)} {machine : Machine}
    (hasKey : loop.key = some ⟨.variable (.simple keyName), keySpan⟩)
    (hasValue : loop.value = ⟨.variable (.simple valueName), valueSpan⟩)
    (performs : Performs (fun self => self.foreachPasses loop entries) self machine
      ⟨.statement loop.body, start⟩) :
    ∃ entry ∈ entries, ∃ scopes : Scopes,
      start.scopes = (scopes.store keyName entry.1.toValue).store valueName entry.2 := by
  -- The body of the first pass starts right after the two stores; any other start of the body
  -- belongs to the passes over the rest.
  induction entries generalizing machine with
  | nil => exact absurd performs (unaffected_const _).not_performs
  | cons entry rest ih =>
    simp only [foreachPasses, hasKey, hasValue] at performs
    have stores : Performs (fun self => do
        Run.modifyScopes (·.store keyName entry.1.toValue)
        Run.modifyScopes (·.store valueName entry.2)
        let flow ← self.statement loop.body
        Run.proceed flow (self.foreachPasses loop rest)) self machine
        ⟨.statement loop.body, start⟩ := performs
    rcases performs_effect_bind_iff.mp stores with ⟨_, keyed, hasKey, stores⟩
    rcases performs_effect_bind_iff.mp stores with ⟨_, valued, hasValue, performs⟩
    cases hasKey
    cases hasValue
    rcases (performs_bind_iff (.perform (.statement loop.body))).mp performs with
      own | ⟨flow, ended, _, later⟩
    · cases (performs_perform_iff (.statement loop.body)).mp own
      exact ⟨entry, List.mem_cons_self, machine.scopes, rfl⟩
    · simp only [Run.proceed] at later
      split at later
      · exact absurd later (unaffected_const _).not_performs
      · rcases ih later with ⟨other, member, same⟩
        exact ⟨other, List.mem_cons_of_mem entry member, same⟩

/-! ## Keys that a script gets -/

/-- A key of an array that a function lists in a run. -/
inductive ListsKey (depth : Nat) (program : Program) (machine : Machine) (table : Table Key Value)
    (key : Value) : Prop
  | all {level : Nat} {code : Located Expr} {start after : Machine} {name : String}
      {others : List Value} {listed : Table Key Value}
      (reached : Reaches depth program machine (level + 1) ⟨.expression code, start⟩)
      (isName : Text.lowercase name = "array_keys")
      (calls : Frame.Calls (ofDepth level) ⟨.expression code, start⟩ name (.array table :: others))
      (ends : (ofDepth (level + 1)).expression code start = .ok (.array listed) after)
      (member : key ∈ listed.values)
  | single {level : Nat} {code : Located Expr} {start after : Machine} {name : String}
      {others : List Value}
      (reached : Reaches depth program machine (level + 1) ⟨.expression code, start⟩)
      (isName : Text.lowercase name = "array_key_first" ∨ Text.lowercase name = "array_key_last")
      (calls : Frame.Calls (ofDepth level) ⟨.expression code, start⟩ name (.array table :: others))
      (ends : (ofDepth (level + 1)).expression code start = .ok key after) (present : key ≠ .null)

/-- The values of the two variables of a loop over an array at the start of a pass. -/
inductive LoopGives (depth : Nat) (program : Program) (machine : Machine) (table : Table Key Value)
    (key element : Value) : Prop
  | pass {level : Nat} {loop : ForeachLoop Stmt} {span keySpan valueSpan : Span}
      {keyName valueName : String} {start evaluated pass : Machine}
      (reached : Reaches depth program machine (level + 1)
        ⟨.statement ⟨.foreachLoop loop, span⟩, start⟩)
      (isArray : (ofDepth level).expression loop.subject start = .ok (.array table) evaluated)
      (hasKey : loop.key = some ⟨.variable (.simple keyName), keySpan⟩)
      (hasValue : loop.value = ⟨.variable (.simple valueName), valueSpan⟩)
      (differ : keyName ≠ valueName)
      (performs : Performs (fun self => self.foreachLoop loop) (ofDepth level) start
        ⟨.statement loop.body, pass⟩)
      (keyHeld : pass.scopes.lookup keyName = some key)
      (elementHeld : pass.scopes.lookup valueName = some element)

section Keys

variable {depth : Nat} {program : Program} {machine : Machine} {table : Table Key Value}
  {key element : Value}

theorem ListsKey.exists_entry (session : machine.InSession)
    (lists : ListsKey depth program machine table key) :
    ∃ entry ∈ table.entries, key = entry.1.toValue := by
  cases lists with
  | all reached isName calls ends member =>
    have regular := (regular_of_reaches session.regular reached).machine
    rcases exists_call_of_calls (.array .keys) regular isName (by decide) (by rintro _ ⟨⟩) calls
      ends with ⟨span, middle, changed, called⟩
    exact ArrayFunction.exists_entry_of_keys called member
  | single reached isName calls ends present =>
    have regular := (regular_of_reaches session.regular reached).machine
    rcases isName with isFirst | isLast
    · rcases exists_call_of_calls (.array .keyFirst) regular isFirst (by decide)
        (by rintro _ ⟨⟩) calls ends with ⟨span, middle, changed, called⟩
      exact ArrayFunction.exists_entry_of_chosen rfl (fun _ => rfl) (fun _ _ _ => rfl)
        (fun _ => List.mem_of_head?) called present
    · rcases exists_call_of_calls (.array .keyLast) regular isLast (by decide)
        (by rintro _ ⟨⟩) calls ends with ⟨span, middle, changed, called⟩
      exact ArrayFunction.exists_entry_of_chosen rfl (fun _ => rfl) (fun _ _ _ => rfl)
        (fun _ => List.mem_of_getLast?) called present

theorem LoopGives.exists_entry (gives : LoopGives depth program machine table key element) :
    ∃ entry ∈ table.entries, key = entry.1.toValue ∧ element = entry.2 := by
  cases gives with
  | pass _ isArray hasKey hasValue differ performs keyHeld elementHeld =>
    rcases exists_entry_of_performs_passes hasKey hasValue
      ((performs_foreachLoop_iff isArray).mp performs) with ⟨entry, member, scopes, stored⟩
    rw [stored, Scopes.lookup_store] at keyHeld elementHeld
    rw [if_neg differ.symm, Scopes.lookup_store, if_pos rfl] at keyHeld
    rw [if_pos rfl] at elementHeld
    cases keyHeld
    cases elementHeld
    exact ⟨entry, member, rfl, rfl⟩

end Keys

/-- The keys of an array that occurs in a session, at any depth, are distinct, and no text among
them is the notation of an integer. Each comes back from its value, and a key that a function lists
or a loop gives reads the entry that it was taken from. -/
theorem array_keys_lead_back {depth : Nat} {program : Program} {machine : Machine} {value : Value}
    {table : Table Key Value} (session : machine.InSession)
    (occurs : Occurs depth program machine value) (within : (Value.array table).Within value) :
    table.keys.Nodup ∧
    (∀ name, .str name ∈ table.keys → ∀ index : Int64, name ≠ Integer.render index) ∧
    (∀ key ∈ table.keys, Key.ofValue key.toValue = .ok key) ∧
    (∀ key, ListsKey depth program machine table key →
      ∃ entry ∈ table.entries, key = entry.1.toValue ∧ ReadsAs table key entry.2) ∧
    ∀ key element, LoopGives depth program machine table key element →
      ∃ entry ∈ table.entries,
        key = entry.1.toValue ∧ element = entry.2 ∧ ReadsAs table key element := by
  have wellKeyed : table.WellKeyed := (occurs.regular session).wellKeyed table within
  refine ⟨wellKeyed.distinct, fun name member => wellKeyed.canonical _ member, ?_, ?_, ?_⟩
  · exact fun key member => Key.ofValue_toValue (wellKeyed.canonical key member)
  · intro key lists
    rcases lists.exists_entry session with ⟨entry, member, rfl⟩
    exact ⟨entry, member, rfl, readsAs_of_mem wellKeyed member⟩
  · intro key element gives
    rcases gives.exists_entry with ⟨entry, member, rfl, rfl⟩
    exact ⟨entry, member, rfl, rfl, readsAs_of_mem wellKeyed member⟩

/-- The key of the first pass of a loop over `["7" => "x", "y" => "z"]` is an integer, and it leads
back to the first element. -/
theorem array_keys_lead_back_loop :
    ∃ program machine,
      let table : Table Key Value := ⟨[(.int 7, .str "x"), (.str "y", .str "z")]⟩
      Machine.InSession machine ∧ LoopGives 4 program machine table (.int 7) (.str "x") ∧
        table.keys.Nodup ∧ ReadsAs table (.int 7) (.str "x") := by
  let span : Span := ⟨0, 0⟩
  let text (text : String) : Located Expr := ⟨.str text, span⟩
  let variableOf (name : String) : Located Expr := ⟨.variable (.simple name), span⟩
  let loop : ForeachLoop Stmt :=
    { subject := ⟨.array [⟨some (text "7"), text "x"⟩, ⟨some (text "y"), text "z"⟩], span⟩
      key := some (variableOf "k")
      value := variableOf "v"
      body := ⟨.empty, span⟩ }
  let statement : Located Stmt := ⟨.foreachLoop loop, span⟩
  let program : Program := ⟨"", [statement], {}⟩
  let machine : Machine := Machine.start {} {} (fun _ => none) ⟨0, 0⟩
  let start : Machine := machine.atStart program
  let pass : Machine :=
    { start with
      loopDepth := 1
      scopes := (start.scopes.store "k" (.int 7)).store "v" (.str "x") }
  have session : machine.InSession := .start _ _ _ _
  have script : Performs (fun self => self.script program) (ofDepth 4) machine
      ⟨.statement statement, start⟩ := by
    refine performs_effect_bind_iff.mpr ⟨(), start, rfl, ?_⟩
    refine performs_effect_bind_iff.mpr ⟨(), start, rfl, ?_⟩
    exact ((performs_perform_iff (.statement statement)).mpr rfl).bind_first
  have subject : Performs (fun self => self.foreachLoop loop) (ofDepth 3) start
      ⟨.expression loop.subject, start⟩ :=
    ((performs_perform_iff (.expression loop.subject)).mpr rfl).bind_first
  have isArray : (ofDepth 3).expression loop.subject start =
      .ok (.array ⟨[(.int 7, .str "x"), (.str "y", .str "z")]⟩) start := rfl
  have performs : Performs (fun self => self.foreachLoop loop) (ofDepth 3) start
      ⟨.statement loop.body, pass⟩ := by
    refine (performs_foreachLoop_iff isArray).mpr ?_
    change Performs (fun self => Run.modifyScopes (·.store "k" (.int 7)) >>= fun _ =>
      Run.modifyScopes (·.store "v" (.str "x")) >>= fun _ =>
        self.statement loop.body >>= fun flow =>
          Run.proceed flow (self.foreachPasses loop [(.str "y", .str "z")])) _ _ _
    refine performs_effect_bind_iff.mpr ⟨(), _, rfl, ?_⟩
    refine performs_effect_bind_iff.mpr ⟨(), pass, rfl, ?_⟩
    exact ((performs_perform_iff (.statement loop.body)).mpr rfl).bind_first
  have gives : LoopGives 4 program machine ⟨[(.int 7, .str "x"), (.str "y", .str "z")]⟩ (.int 7)
      (.str "x") :=
    .pass ⟨_, [], script, .outermost⟩ isArray rfl rfl (by decide) performs rfl rfl
  have occurs : Occurs 4 program machine
      (.array ⟨[(.int 7, .str "x"), (.str "y", .str "z")]⟩) :=
    .result ⟨_, _, script, .part .outermost subject⟩ isArray
  rcases array_keys_lead_back session occurs .whole with ⟨distinct, _, _, _, loops⟩
  rcases loops _ _ gives with ⟨_, _, _, _, reads⟩
  exact ⟨program, machine, session, gives, distinct, reads⟩

end Evaluator

end PhpScript
