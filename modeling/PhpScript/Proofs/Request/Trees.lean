import PhpScript.Proofs.Run.Variables
import PhpScript.Proofs.Value.Paths
import PhpScript.Proofs.Value.Regular
import PhpScript.Request.Form

/-!
# Trees of inputs

The names of a request are places in arrays. Whatever the names are, the array that they build is a
tree of texts: its inner arrays are not empty, its depth is limited, and its keys are those that a
script would use. A store at such a place is a write of a script to the same subscripts, as long as
it meets nothing but arrays, null and false.
-/

namespace PhpScript.Form

variable {value : Value} {table inner : Table Key Value} {key : Key} {step : Option Key}
  {path rest : List (Option Key)} {depth : Nat} {admits : Key → Value → Prop}

/-! ## Names -/

def PathCanonical (path : List (Option Key)) : Prop :=
  ∀ step ∈ path, ∀ key, step = some key → key.IsCanonical

theorem pathCanonical_nil : PathCanonical [] := fun _ member => absurd member List.not_mem_nil

theorem pathCanonical_cons :
    PathCanonical (step :: rest) ↔
      (∀ key, step = some key → key.IsCanonical) ∧ PathCanonical rest :=
  List.forall_mem_cons

theorem pathCanonical_of_bracketKeys? {limit : Nat} {text : List Char}
    (read : bracketKeys? limit text = some path) : PathCanonical path ∧ path.length ≤ limit := by
  fun_induction bracketKeys? limit text generalizing path with
  | case1 inner closed => cases read
  | case2 inner closed limit key rest cut ih =>
    rcases Option.bind_eq_some_iff.mp read with ⟨keys, later, made⟩
    cases made
    rcases ih later with ⟨canonical, few⟩
    refine ⟨pathCanonical_cons.mpr ⟨fun own found => ?_, canonical⟩, Nat.succ_le_succ few⟩
    split at found
    · cases found
    · cases found
      exact Key.isCanonical_ofString _
  | case3 limit inner unclosed =>
    cases read
    exact ⟨pathCanonical_nil, Nat.zero_le _⟩
  | case4 limit text plain =>
    cases read
    exact ⟨pathCanonical_nil, Nat.zero_le _⟩

/-- The name of an input: it is not empty, and no character in it has a meaning in names. -/
def IsInputName (name : String) : Prop :=
  name ≠ "" ∧ ∀ character ∈ name.toList, character ∉ [' ', '.', '[']

/-- A key that a name of an input can give. -/
def IsInputKey (key : Key) : Prop :=
  key.IsCanonical ∧ ∀ name, key = .str name → IsInputName name

theorem nameCharacter_notMem (character : Char) : nameCharacter character ∉ [' ', '.', '['] := by
  unfold nameCharacter
  split
  · decide
  · rename_i isPlain
    simpa [and_assoc] using isPlain

theorem isInputKey_ofString {base : List Char} (nonempty : base.isEmpty = false) :
    IsInputKey (Key.ofString (String.ofList (base.map nameCharacter))) := by
  refine ⟨Key.isCanonical_ofString _, fun name isName => ?_⟩
  have same : name = String.ofList (base.map nameCharacter) := by
    unfold Key.ofString at isName
    split at isName <;> cases isName
    rfl
  subst same
  constructor
  · simpa using nonempty
  · intro character member
    rw [String.toList_ofList] at member
    rcases List.mem_map.mp member with ⟨original, _, rfl⟩
    exact nameCharacter_notMem original

theorem exists_of_path? {name : List Char} (read : path? name = some path) :
    ∃ key keys, path = some key :: keys ∧ IsInputKey key ∧ PathCanonical keys ∧
      keys.length ≤ nestingLimit := by
  have behindBase : ∀ {base : List Char} {brackets : Option (List (Option Key))},
      ¬base.isEmpty = true →
      (∀ keys, brackets = some keys → PathCanonical keys ∧ keys.length ≤ nestingLimit) →
      (brackets >>= fun keys =>
        pure (some (Key.ofString (String.ofList (base.map nameCharacter))) :: keys)) = some path →
      ∃ key keys, path = some key :: keys ∧ IsInputKey key ∧ PathCanonical keys ∧
        keys.length ≤ nestingLimit := by
    intro base brackets nonempty proper made
    rcases Option.bind_eq_some_iff.mp made with ⟨keys, found, own⟩
    cases own
    exact ⟨_, keys, rfl, isInputKey_ofString (Bool.eq_false_of_not_eq_true nonempty),
      proper keys found⟩
  simp only [path?] at read
  split at read
  · split at read
    · cases read
    · exact behindBase ‹_› (fun _ => pathCanonical_of_bracketKeys?) read
  · split at read
    · cases read
    · refine behindBase ‹_› ?_ read
      rintro _ ⟨⟩
      exact ⟨pathCanonical_nil, Nat.zero_le _⟩

/-! ## Stores -/

theorem admits_store_cons (admitted : table.Admits admits)
    (ends : rest = [] → ∀ key, (step <|> table.nextKey?) = some key → admits key value)
    (goesOn : rest ≠ [] → ∀ key, (step <|> table.nextKey?) = some key →
      ∀ inner, table.get? key = some (.array inner) ∨ inner = .empty →
        admits key (.array (store value inner rest))) :
    (store value table (step :: rest)).Admits admits := by
  unfold store
  split
  · exact admitted
  · rename_i key found
    split
    · exact admitted.insert (ends rfl key found)
    · refine admitted.insert (goesOn (List.cons_ne_nil _ _) key found _ ?_)
      split
      · exact .inl ‹_›
      · exact .inr rfl

theorem entries_store_ne_nil (nonempty : path ≠ []) : (store value table path).entries ≠ [] := by
  have inserted (key : Key) (element : Value) : (table.insert key element).entries ≠ [] := by
    intro isEmpty
    have found := table.get?_insert key key element
    rw [if_pos rfl, Table.get?, isEmpty] at found
    cases found
  cases path with
  | nil => exact absurd rfl nonempty
  | cons step rest =>
    unfold store
    split
    · rename_i refused
      intro isEmpty
      -- In an empty array there is an index to append under.
      have next : table.nextKey? = some (.int 0) := by
        rw [Table.nextKey?, Table.nextIndex, isEmpty]
        rfl
      cases step <;> simp [next] at refused
    · split
      · exact inserted _ _
      · exact inserted _ _

/-- A tree of texts that lie below at most `depth` keys. Its arrays are not empty, and their keys
are distinct and canonical. -/
def Clean : Nat → Value → Prop
  | _, .str _ => True
  | depth + 1, .array table =>
    table.entries ≠ [] ∧ table.Admits fun key value => key.IsCanonical ∧ Clean depth value
  | _, _ => False

/-- An entry of an array inside of the inputs. -/
def CleanEntry (depth : Nat) (key : Key) (value : Value) : Prop :=
  key.IsCanonical ∧ Clean depth value

theorem Clean.elements (clean : Clean (depth + 1) (.array table)) :
    table.Admits (CleanEntry depth) := clean.2

theorem clean_store {text : String} (admitted : table.Admits (CleanEntry depth))
    (canonical : PathCanonical path) (few : path.length ≤ depth + 1) :
    (store (.str text) table path).Admits (CleanEntry depth) := by
  induction path generalizing depth table with
  | nil => exact admitted
  | cons step rest ih =>
    rcases pathCanonical_cons.mp canonical with ⟨own, others⟩
    have keyCanonical (key : Key) (found : (step <|> table.nextKey?) = some key) :
        key.IsCanonical := by
      cases step with
      | some given => exact own key found
      | none =>
        rcases Option.map_eq_some_iff.mp found with ⟨index, _, rfl⟩
        trivial
    refine admits_store_cons admitted (fun _ key found => ⟨keyCanonical key found, ?_⟩) ?_
    · cases depth <;> trivial
    · intro nonempty key found inner isInner
      rcases List.exists_cons_of_ne_nil nonempty with ⟨_, _, rfl⟩
      cases depth with
      | zero => cases Nat.le_of_succ_le_succ few
      | succ depth =>
        have innerAdmitted : inner.Admits (CleanEntry depth) := by
          rcases isInner with stored | rfl
          · exact (admitted.of_get? stored).2.elements
          · exact .empty
        exact ⟨keyCanonical key found, entries_store_ne_nil nonempty,
          ih innerAdmitted others (Nat.le_of_succ_le_succ few)⟩

theorem Clean.regular (clean : Clean depth value) : value.Regular := by
  induction depth generalizing value with
  | zero =>
    cases value with
    | str text => exact Value.regular_str text
    | _ => cases clean
  | succ depth ih =>
    cases value with
    | str text => exact Value.regular_str text
    | array table =>
      refine Value.regular_array_iff.mpr ⟨clean.2.distinct, fun entry member => ?_⟩
      have entryClean := clean.2.entries entry member
      exact ⟨entryClean.1, ih entryClean.2⟩
    | _ => cases clean

def InputEntry (key : Key) (value : Value) : Prop := IsInputKey key ∧ Clean nestingLimit value

theorem regular_of_inputs (admitted : table.Admits InputEntry) : table.Admits RegularEntry :=
  ⟨admitted.distinct, fun entry member =>
    have isInput := admitted.entries entry member
    ⟨isInput.1.1, isInput.2.regular⟩⟩

theorem admits_foldl {α : Type} {next : Table Key Value → α → Table Key Value}
    (kept : ∀ table element, table.Admits admits → (next table element).Admits admits)
    (elements : List α) (admitted : table.Admits admits) :
    (elements.foldl next table).Admits admits := by
  induction elements generalizing table with
  | nil => exact admitted
  | cons element rest ih => exact ih (kept table element admitted)

theorem admits_store {name : List Char} {text : String} (read : path? name = some path)
    (admitted : table.Admits InputEntry) : (store (.str text) table path).Admits InputEntry := by
  rcases exists_of_path? read with ⟨key, keys, rfl, isInputKey, canonical, few⟩
  refine admits_store_cons admitted ?_ ?_
  · rintro _ _ ⟨⟩
    exact ⟨isInputKey, trivial⟩
  · rintro nonempty _ ⟨⟩ inner isInner
    have innerAdmitted : inner.Admits (CleanEntry 63) := by
      rcases isInner with stored | rfl
      · exact (admitted.of_get? stored).2.elements
      · exact .empty
    exact ⟨isInputKey, entries_store_ne_nil nonempty, clean_store innerAdmitted canonical few⟩

theorem admits_query (text : String) : (query text).Admits InputEntry := by
  refine admits_foldl (fun table field admitted => ?_) _ .empty
  dsimp only
  split
  · exact admits_store ‹_› admitted
  · exact admitted

theorem admits_cookies (header : String) : (cookies header).Admits InputEntry := by
  refine admits_foldl (fun table pair admitted => ?_) _ .empty
  simp only [addCookie]
  split
  · exact admitted
  · rename_i read
    exact iteInduction (motive := fun changed => Table.Admits InputEntry changed)
      (fun _ => admitted) fun _ => admits_store read admitted

/-! ## What is in a tree -/

/-- The array of some inputs: a tree of texts of limited depth without empty arrays inside, with
distinct canonical keys in each array and the names of inputs at the top. -/
structure IsInputTree (table : Table Key Value) : Prop where
  leaf : ∀ path value, (Value.array table).Holds path value → value.isArray = false →
    (∃ text, value = .str text) ∧ path.length ≤ 65
  nonempty : ∀ path elements, (Value.array table).Holds path (.array elements) → path ≠ [] →
    elements.entries ≠ []
  wellKeyed : ∀ path elements, (Value.array table).Holds path (.array elements) → elements.WellKeyed
  names : ∀ name, .str name ∈ table.keys → name ≠ "" ∧ ∀ character ∈ name.toList,
    character ≠ ' ' ∧ character ≠ '.' ∧ character ≠ '['

theorem Clean.of_holds {root : Value} {keys : List Key} (clean : Clean depth root)
    (holds : root.Holds keys value) : ∃ left, Clean left value ∧ left + keys.length = depth := by
  induction holds generalizing depth with
  | here value => exact ⟨depth, clean, rfl⟩
  | step found further ih =>
    cases depth with
    | zero => cases clean
    | succ depth =>
      rcases ih (clean.elements.of_get? found).2 with ⟨left, inside, length⟩
      exact ⟨left, inside, congrArg Nat.succ length⟩

theorem Clean.exists_str (clean : Clean depth value) (isLeaf : value.isArray = false) :
    ∃ text, value = .str text := by
  cases value with
  | str text => exact ⟨text, rfl⟩
  | array elements => cases isLeaf
  | _ => cases depth <;> cases clean

theorem wellKeyed_of_admits (admitted : table.Admits admits)
    (canonical : ∀ key value, admits key value → key.IsCanonical) : table.WellKeyed := by
  refine ⟨admitted.distinct, fun key member => ?_⟩
  rcases List.mem_map.mp member with ⟨entry, listed, rfl⟩
  exact canonical _ _ (admitted.entries entry listed)

theorem Clean.of_array (clean : Clean depth (.array table)) :
    table.entries ≠ [] ∧ table.WellKeyed := by
  cases depth with
  | zero => cases clean
  | succ depth => exact ⟨clean.1, wellKeyed_of_admits clean.2 fun _ _ clean => clean.1⟩

theorem isInputTree_of_admits (admitted : table.Admits InputEntry) : IsInputTree table where
  leaf path value holds isLeaf := by
    cases holds with
    | here => cases isLeaf
    | step found further =>
      rcases (admitted.of_get? found).2.of_holds further with ⟨left, clean, length⟩
      refine ⟨clean.exists_str isLeaf, ?_⟩
      rw [List.length_cons]
      simp only [nestingLimit] at length
      omega
  nonempty path elements holds isInside := by
    cases holds with
    | here => exact absurd rfl isInside
    | step found further =>
      rcases (admitted.of_get? found).2.of_holds further with ⟨left, clean, _⟩
      exact clean.of_array.1
  wellKeyed path elements holds := by
    cases holds with
    | here => exact wellKeyed_of_admits admitted fun _ _ isInput => isInput.1.1
    | step found further =>
      rcases (admitted.of_get? found).2.of_holds further with ⟨left, clean, _⟩
      exact clean.of_array.2
  names name member := by
    rcases List.mem_map.mp member with ⟨entry, listed, isName⟩
    have isInputName := (admitted.entries entry listed).1.2 name isName
    simpa [IsInputName, not_or, and_assoc] using isInputName

/-- Whatever a request holds, its query and its cookies are trees of inputs. -/
theorem request_data_is_tree (text header : String) :
    IsInputTree (query text) ∧ IsInputTree (cookies header) :=
  ⟨isInputTree_of_admits (admits_query text), isInputTree_of_admits (admits_cookies header)⟩

/-! ## Stores as writes -/

/-- Every element that is met before the end of a path is null, false or an array. -/
def MeetsContainers (table : Table Key Value) (path : List (Option Key)) : Prop :=
  ∀ keys rest met, path = keys.map some ++ rest → rest ≠ [] →
    (Value.array table).Holds keys met → met.isVacant = true ∨ met.isArray = true

theorem get?_of_nextKey? (next : table.nextKey? = some key) : table.get? key = none := by
  rcases Option.map_eq_some_iff.mp next with ⟨index, fits, rfl⟩
  cases found : table.get? (.int index) with
  | none => rfl
  | some element =>
    have member : .int index ∈ table.entries.map Prod.fst :=
      List.mem_map.mpr ⟨_, Table.mem_of_get? found, rfl⟩
    exact absurd member (Table.int_notMem_of_nextIndex (Integer.fit?_eq_some_iff.mp fits))

theorem resolve_toValue (canonical : ∀ key, step = some key → key.IsCanonical)
    (found : (step <|> table.nextKey?) = some key) :
    table.resolve (step.map Key.toValue) = .ok key := by
  cases step with
  | some given =>
    cases found
    exact Key.ofValue_toValue (canonical key rfl)
  | none =>
    have next : table.nextKey? = some key := found
    simp only [Option.map_none, Table.resolve, next]
    rfl

theorem resolve_of_refused (refused : (step <|> table.nextKey?) = none) :
    table.resolve (step.map Key.toValue) = .error .nextElementOccupied := by
  cases step with
  | some given => cases refused
  | none =>
    have noKey : table.nextKey? = none := refused
    simp only [Option.map_none, Table.resolve, noKey]
    rfl

theorem meetsContainers_empty (path : List (Option Key)) : MeetsContainers .empty path := by
  rintro keys rest met _ _ (_ | ⟨found, _⟩)
  · exact .inr rfl
  · cases found

theorem MeetsContainers.below {element : Value}
    (meets : MeetsContainers table (some key :: rest)) (nonempty : rest ≠ [])
    (found : table.get? key = some element) :
    element.isVacant = true ∨ ∃ inner, element = .array inner ∧ MeetsContainers inner rest := by
  rcases meets [key] rest element rfl nonempty (.step found (.here element)) with vacant | isArray
  · exact .inl vacant
  · cases element with
    | array inner =>
      refine .inr ⟨inner, rfl, fun keys later met split notLast holds => ?_⟩
      exact meets (key :: keys) later met (congrArg _ split) notLast (.step found holds)
    | _ => cases isArray

theorem store_of_get? (found : table.get? key = some (.array inner)) (nonempty : rest ≠ []) :
    store value table (some key :: rest) = table.insert key (.array (store value inner rest)) := by
  rcases List.exists_cons_of_ne_nil nonempty with ⟨_, _, rfl⟩
  have given : (some key <|> table.nextKey?) = some key := rfl
  rw [store, given]
  simp only [found]

theorem MeetsContainers.exists_inner (meets : MeetsContainers table (step :: rest))
    (nonempty : rest ≠ []) (found : (step <|> table.nextKey?) = some key) :
    ∃ inner, ((table.get? key).getD .null).vivify.1 = .array inner ∧ MeetsContainers inner rest ∧
      ∀ value, store value table (step :: rest) =
        table.insert key (.array (store value inner rest)) := by
  rcases List.exists_cons_of_ne_nil nonempty with ⟨next, later, rfl⟩
  cases stored : table.get? key with
  | none =>
    refine ⟨.empty, rfl, meetsContainers_empty _, fun value => ?_⟩
    rw [store, found]
    simp only [stored]
  | some element =>
    -- An append takes a key that is free.
    have given : step = some key := by
      cases step with
      | some other => exact found
      | none => cases stored.symm.trans (get?_of_nextKey? found)
    subst given
    rcases meets.below nonempty stored with vacant | ⟨inner, rfl, meetsInner⟩
    · refine ⟨.empty, Value.vivify_of_isVacant vacant, meetsContainers_empty _, fun value => ?_⟩
      rw [store, found]
      cases element with
      | array inner => cases vacant
      | _ => simp only [stored]
    · exact ⟨inner, rfl, meetsInner, fun value => store_of_get? stored nonempty⟩

theorem writePath_eq_store {slot : Value} (opens : slot.vivify.1 = .array table)
    (nonempty : path ≠ []) (canonical : PathCanonical path) (meets : MeetsContainers table path) :
    (Value.writePath value slot (path.map (Option.map Key.toValue))).slot =
        .array (store value table path) ∧
      (Value.writePath value slot (path.map (Option.map Key.toValue))).failure = none := by
  induction path generalizing slot table with
  | nil => exact absurd rfl nonempty
  | cons step rest ih =>
    rcases pathCanonical_cons.mp canonical with ⟨own, others⟩
    rw [List.map_cons]
    cases found : (step <|> table.nextKey?) with
    | none =>
      rw [Value.writePath_of_unresolved opens (resolve_of_refused found), store, found]
      exact ⟨rfl, rfl⟩
    | some key =>
      rw [Value.writePath_of_resolves opens (resolve_toValue own found)]
      by_cases isLast : rest = []
      · subst isLast
        rw [store, found]
        exact ⟨rfl, rfl⟩
      · rcases meets.exists_inner isLast found with ⟨inner, opensInner, meetsInner, stores⟩
        rcases ih opensInner isLast others meetsInner with ⟨same, succeeds⟩
        rw [stores]
        exact ⟨congrArg (fun element => Value.array (table.insert key element)) same, succeeds⟩

theorem nextKey?_of_mem_max (isTaken : .int Int64.maxValue ∈ table.keys) :
    table.nextKey? = none := by
  have above := Table.lt_nextIndex_of_mem isTaken
  have isLargest : Int64.maxValue.toInt = Integer.maximum := by decide
  rw [Table.nextKey?, Integer.fit?, if_neg (by omega)]
  rfl

theorem store_of_refused {keys : List Key} (holds : (Value.array table).Holds keys (.array inner))
    (isTaken : .int Int64.maxValue ∈ inner.keys) :
    store value table (keys.map some ++ none :: rest) = table := by
  induction keys generalizing table with
  | nil =>
    cases holds
    have refused : (none <|> inner.nextKey?) = none := nextKey?_of_mem_max isTaken
    rw [List.map_nil, List.nil_append, store, refused]
  | cons key keys ih =>
    cases holds with
    | @step _ _ _ element _ found further =>
      obtain ⟨elements, rfl⟩ : ∃ elements, element = .array elements := by
        cases further <;> exact ⟨_, rfl⟩
      rw [List.map_cons, List.cons_append,
        store_of_get? found (List.append_ne_nil_of_right_ne_nil _ (List.cons_ne_nil _ _)),
        ih further]
      exact Table.insert_of_get? found

/-- Storing at a place does what a write to the same subscripts does: the array is the same
afterwards, and a write does not fail. Where an append is refused, both leave the array alone. -/
theorem store_is_write (nonempty : path ≠ []) (canonical : PathCanonical path)
    (meets : MeetsContainers table path) (value : Value) :
    let written := Value.writePath value (.array table) (path.map (Option.map Key.toValue))
    written.slot = .array (store value table path) ∧ written.failure = none ∧
      ∀ keys rest inner, path = keys.map some ++ none :: rest →
        (Value.array table).Holds keys (.array inner) → .int Int64.maxValue ∈ inner.keys →
        written.slot = .array table := by
  intro written
  have opens : (Value.array table).vivify.1 = .array table := rfl
  rcases writePath_eq_store opens nonempty canonical meets with ⟨same, succeeds⟩
  refine ⟨same, succeeds, ?_⟩
  rintro keys rest inner rfl holds isTaken
  exact same.trans (congrArg Value.array (store_of_refused holds isTaken))

/-- The largest index is taken in the inner array, so that nothing can be appended to it. -/
theorem store_is_write_refused :
    let inner : Table Key Value := .ofList [(.int Int64.maxValue, .str "last")]
    let table : Table Key Value := .ofList [(.str "list", .array inner)]
    let path := [some (.str "list"), none, some (.str "name")]
    let written := Value.writePath (.int 1) (.array table) (path.map (Option.map Key.toValue))
    PathCanonical path ∧ MeetsContainers table path ∧ written.warnings = [.nextElementOccupied] ∧
      written.slot = .array (store (.int 1) table path) ∧ written.slot = .array table := by
  intro inner table path written
  have canonical : PathCanonical path := by
    simp only [path, pathCanonical_cons, pathCanonical_nil, Option.some.injEq, forall_eq', and_true]
    exact ⟨by decide, by rintro _ ⟨⟩, by decide⟩
  have meets : MeetsContainers table path := by
    rintro (_ | ⟨key, _ | ⟨other, keys⟩⟩) rest met split _ holds
    · cases holds
      exact .inr rfl
    · rcases List.cons.inj split with ⟨⟨⟩, _⟩
      rcases holds with _ | ⟨found, further⟩
      cases found
      cases further
      exact .inr rfl
    · rcases List.cons.inj (List.cons.inj split).2 with ⟨⟨⟩, _⟩
  have isTaken : .int Int64.maxValue ∈ inner.keys := by decide
  rcases store_is_write (List.cons_ne_nil _ _) canonical meets (.int 1) with ⟨same, _, refused⟩
  exact ⟨canonical, meets, rfl, same,
    refused [.str "list"] [some (.str "name")] inner rfl (.step rfl (.here _)) isTaken⟩

end PhpScript.Form
