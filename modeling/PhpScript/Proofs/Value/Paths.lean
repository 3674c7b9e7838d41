import PhpScript.Proofs.Value.DecimalKey

/-!
# Paths through arrays

A write resolves the subscripts of a path one after the other to the keys of arrays. Along these
keys the four ways to use a path go together: what was written is read back, what was written can be
removed, and neither changes what is found on a path that leads elsewhere. Texts on the way are left
out: a subscript of a text is a position and not a key.
-/

namespace PhpScript

/-- The key under which an array is about to store an element: that of the subscript, or the next
free index where there is none. -/
def Table.resolve (elements : Table Key Value) : Option Value → Except Problem Key
  | some subscript => Key.ofValue subscript
  | none => elements.nextKey?.elim (.error .nextElementOccupied) .ok

/-- Subscripts resolve to keys. -/
def StandFor : List Value → List Key → Prop :=
  List.Forall₂ fun subscript key => Key.ofValue subscript = .ok key

/-- Subscripts that lead along a path for a while and then to another key, or to none. -/
inductive DivergesFrom : List Value → List Key → Prop
  | here {subscript : Value} {rest : List Value} {key : Key} {path : List Key}
      (differs : Key.ofValue subscript ≠ .ok key) : DivergesFrom (subscript :: rest) (key :: path)
  | later {subscript : Value} {rest : List Value} {key : Key} {path : List Key}
      (same : Key.ofValue subscript = .ok key) (further : DivergesFrom rest path) :
      DivergesFrom (subscript :: rest) (key :: path)

namespace Value

/-- A write to a value resolves its subscripts to a path of keys, at the end of which it meets
another value. Missing elements are met as null. -/
inductive Reaches : Value → List (Option Value) → List Key → Value → Prop
  | here (slot : Value) : Reaches slot [] [] slot
  | step {slot met : Value} {elements : Table Key Value} {subscript : Option Value}
      {rest : List (Option Value)} {key : Key} {path : List Key}
      (opens : slot.vivify.1 = .array elements) (resolves : elements.resolve subscript = .ok key)
      (further : Reaches ((elements.get? key).getD .null) rest path met) :
      Reaches slot (subscript :: rest) (key :: path) met

/-- Nothing and false, of which a write makes an array. -/
def isVacant : Value → Bool
  | .void | .null | .bool false => true
  | _ => false

def MeetsNoText (root : Value) (subscripts : List (Option Value)) : Prop :=
  ∀ front rest path met, subscripts = front ++ rest → rest ≠ [] → root.Reaches front path met →
    ∀ text, met ≠ .str text

/-- A path of keys leads to a value. -/
inductive Holds : Value → List Key → Value → Prop
  | here (value : Value) : Holds value [] value
  | step {elements : Table Key Value} {key : Key} {path : List Key} {inner value : Value}
      (found : elements.get? key = some inner) (further : Holds inner path value) :
      Holds (.array elements) (key :: path) value

/-- Both ways to read find a value at a path, and nothing is reported. -/
def FindsAt (root : Value) (path : List Key) (value : Value) : Prop :=
  ∀ keys, StandFor keys path →
    (root.readPath keys).outcome = ([], .ok value) ∧ root.quietPath? keys = some value

/-- Wherever subscripts lead away from a path, the same is found in both values. -/
def AgreeOff (path : List Key) (before after : Value) : Prop :=
  ∀ keys, DivergesFrom keys path → after.quietPath? keys = before.quietPath? keys

/-- What stands at a path can be removed: then nothing is found there, and the rest stays. -/
def RemovesAt (root : Value) (path : List Key) : Prop :=
  ∀ keys, StandFor keys path → ∃ removed, root.unsetPath keys = .ok removed ∧
    (∀ again, StandFor again path → removed.quietPath? again = none) ∧ root.AgreeOff path removed

end Value

/-! ## Keys -/

variable {elements : Table Key Value} {subscript : Option Value}

theorem Table.resolve_of_error {problem : Problem}
    (failed : elements.resolve subscript = .error problem) :
    problem = .nextElementOccupied ∨
      problem = .illegalOffsetType ∧ ∃ entries, subscript = some (.array entries) := by
  cases subscript with
  | none =>
    unfold resolve at failed
    cases next : elements.nextKey? <;> rw [next] at failed <;> cases failed
    exact .inl rfl
  | some subscript =>
    cases subscript <;> cases failed
    exact .inr ⟨rfl, _, rfl⟩

theorem Table.isCanonical_of_resolve {key : Key} (resolves : elements.resolve subscript = .ok key) :
    key.IsCanonical := by
  cases subscript with
  | some subscript => exact Key.isCanonical_of_ofValue resolves
  | none =>
    unfold resolve nextKey? at resolves
    cases next : Integer.fit? elements.nextIndex <;> rw [next] at resolves <;> cases resolves
    trivial

theorem DivergesFrom.ne_nil {keys : List Value} {path : List Key}
    (diverges : DivergesFrom keys path) : keys ≠ [] := by
  cases diverges <;> exact List.cons_ne_nil _ _

namespace Value

variable {value slot met : Value} {elements : Table Key Value} {subscript : Option Value}
  {subscripts rest : List (Option Value)} {key : Key} {path : List Key} {keys : List Value}

/-! ## Writing -/

theorem writePath_of_resolves (opens : slot.vivify.1 = .array elements)
    (resolves : elements.resolve subscript = .ok key) :
    writePath value slot (subscript :: rest) =
      ((writePath value ((elements.get? key).getD .null) rest).within fun element =>
        .array (elements.insert key element)).after slot.vivify.2 := by
  cases subscript <;> simp only [Table.resolve] at resolves <;>
    simp only [writePath, opens, resolves]

theorem writePath_of_unresolved {problem : Problem} (opens : slot.vivify.1 = .array elements)
    (failed : elements.resolve subscript = .error problem) :
    writePath value slot (subscript :: rest) =
      if problem.isFatal then
        { slot := .array elements, warnings := slot.vivify.2, failure := problem }
      else { slot := .array elements, warnings := slot.vivify.2 ++ [problem] } := by
  cases subscript <;> simp only [Table.resolve] at failed <;>
    simp only [writePath, opens, failed]

theorem vivify_of_isVacant (isVacant : slot.isVacant = true) :
    slot.vivify.1 = .array Table.empty := by
  cases slot with
  | bool flag => cases flag <;> cases isVacant; rfl
  | _ => cases isVacant <;> rfl

theorem opens_or_stops (slot : Value) :
    (∃ elements, slot.vivify.1 = .array elements) ∨ (∃ text, slot = .str text) ∨
      slot.isVacant = false ∧ ∀ value subscript rest, writePath value slot (subscript :: rest) =
        { slot, failure := some .scalarAsArray } := by
  cases slot with
  | void => exact .inl ⟨_, rfl⟩
  | null => exact .inl ⟨_, rfl⟩
  | array elements => exact .inl ⟨_, rfl⟩
  | str text => exact .inr (.inl ⟨text, rfl⟩)
  | int number => exact .inr (.inr ⟨rfl, fun _ _ _ => rfl⟩)
  | float number => exact .inr (.inr ⟨rfl, fun _ _ _ => rfl⟩)
  | bool flag =>
    cases flag
    · exact .inl ⟨_, rfl⟩
    · exact .inr (.inr ⟨rfl, fun _ _ _ => rfl⟩)

theorem MeetsNoText.nil (slot : Value) : slot.MeetsNoText [] := by
  intro front rest path met split notLast
  exact absurd (List.append_eq_nil_iff.mp split.symm).2 notLast

theorem MeetsNoText.cons (opens : slot.vivify.1 = .array elements)
    (resolves : elements.resolve subscript = .ok key)
    (inside : ((elements.get? key).getD .null).MeetsNoText rest) :
    slot.MeetsNoText (subscript :: rest) := by
  intro front later path met split notLast reaches text isText
  cases reaches with
  | here =>
    subst isText
    cases opens
  | @step _ _ others _ front other path opensAgain resolvesAgain further =>
    rcases List.cons.inj split with ⟨rfl, rfl⟩
    cases opens.symm.trans opensAgain
    cases resolves.symm.trans resolvesAgain
    exact inside front later path met rfl notLast further text isText

theorem exists_reaches (succeeds : (writePath value slot subscripts).failure = none)
    (noText : slot.MeetsNoText subscripts)
    (noRefusal : .nextElementOccupied ∉ (writePath value slot subscripts).warnings) :
    ∃ path met, slot.Reaches subscripts path met := by
  induction subscripts generalizing slot with
  | nil => exact ⟨[], slot, .here slot⟩
  | cons subscript rest ih =>
    rcases slot.opens_or_stops with ⟨elements, opens⟩ | ⟨text, isText⟩ | ⟨_, stops⟩
    · cases resolves : elements.resolve subscript with
      | ok key =>
        rw [writePath_of_resolves opens resolves] at succeeds noRefusal
        have noTextInside : ((elements.get? key).getD .null).MeetsNoText rest :=
          fun front later path met split notLast further =>
            noText (subscript :: front) later (key :: path) met (congrArg _ split) notLast
              (.step opens resolves further)
        rcases ih succeeds noTextInside fun isIn => noRefusal (List.mem_append_right _ isIn)
          with ⟨path, met, further⟩
        exact ⟨key :: path, met, .step opens resolves further⟩
      | error problem =>
        rw [writePath_of_unresolved opens resolves] at succeeds noRefusal
        rcases Table.resolve_of_error resolves with rfl | ⟨rfl, _⟩
        · exact absurd (List.mem_append_right _ (List.mem_singleton_self _)) noRefusal
        · cases succeeds
    · exact absurd isText
        (noText [] (subscript :: rest) [] slot rfl (List.cons_ne_nil _ _) (.here slot) text)
    · rw [stops] at succeeds
      cases succeeds

theorem Reaches.holds (reaches : slot.Reaches subscripts path met) (value : Value) :
    (writePath value slot subscripts).slot.Holds path value := by
  induction reaches with
  | here slot => exact .here value
  | step opens resolves further ih =>
    rw [writePath_of_resolves opens resolves]
    refine .step ?_ ih
    rw [Table.get?_insert, if_pos rfl]

theorem Reaches.ne_nil (reaches : slot.Reaches subscripts path met) (nonempty : subscripts ≠ []) :
    path ≠ [] := by
  cases reaches with
  | here => exact absurd rfl nonempty
  | step _ _ _ => exact List.cons_ne_nil _ _

theorem Reaches.standFor (reaches : slot.Reaches subscripts path met) :
    StandFor (path.map Key.toValue) path := by
  induction reaches with
  | here slot => exact .nil
  | step opens resolves further ih =>
    exact .cons (Key.ofValue_toValue (Table.isCanonical_of_resolve resolves)) ih

/-! ## Reading -/

theorem readOffset_of_get? {subscript : Value} (resolves : Key.ofValue subscript = .ok key)
    (found : elements.get? key = some value) :
    (array elements).readOffset subscript = pure value := by
  have resolved : (MonadExcept.ofExcept (Except.ok key : Except Problem Key) : Checked Key) =
    pure key := rfl
  simp only [readOffset, resolves, resolved, pure_bind, found]

theorem readPath_of_holds (holds : slot.Holds path value) (stands : StandFor keys path) :
    slot.readPath keys = pure value := by
  induction holds generalizing keys with
  | here value =>
    cases stands
    rfl
  | step found further ih =>
    cases stands with
    | cons resolves stands =>
      rw [readPath, readOffset_of_get? resolves found, pure_bind]
      exact ih stands

theorem quietPath?_of_holds (holds : slot.Holds path value) (stands : StandFor keys path) :
    slot.quietPath? keys = some value := by
  induction holds generalizing keys with
  | here value =>
    cases stands
    rfl
  | step found further ih =>
    cases stands with
    | cons resolves stands =>
      unfold quietPath? quietOffset?
      simp only [resolves, found]
      exact ih stands

theorem Holds.findsAt (holds : slot.Holds path value) : slot.FindsAt path value := by
  intro keys stands
  rw [readPath_of_holds holds stands]
  exact ⟨rfl, quietPath?_of_holds holds stands⟩

theorem quietPath?_vivify (slot : Value) (nonempty : keys ≠ []) :
    slot.vivify.1.quietPath? keys = slot.quietPath? keys := by
  cases keys with
  | nil => exact absurd rfl nonempty
  | cons key rest =>
    have isEmpty : (array .empty).quietPath? (key :: rest) = none := by
      unfold quietPath? quietOffset?
      cases Key.ofValue key <;> rfl
    unfold vivify
    split
    · exact isEmpty
    · exact isEmpty
    · exact isEmpty
    · rfl

/-! ## Off the path -/

theorem quietOffset?_congr {before after : Table Key Value} {subscript : Value}
    (differs : Key.ofValue subscript ≠ .ok key)
    (same : ∀ other, key ≠ other → after.get? other = before.get? other) :
    (array after).quietOffset? subscript = (array before).quietOffset? subscript := by
  unfold quietOffset?
  cases resolves : Key.ofValue subscript with
  | error problem => rfl
  | ok other => exact same other fun equal => differs (equal ▸ resolves)

theorem agreeOff_insert {changed : Value}
    (agree : ((elements.get? key).getD .null).AgreeOff path changed) :
    (array elements).AgreeOff (key :: path) (.array (elements.insert key changed)) := by
  intro keys diverges
  cases diverges with
  | @here subscript rest _ _ differs =>
    have step : (array (elements.insert key changed)).quietOffset? subscript =
        (array elements).quietOffset? subscript := by
      refine quietOffset?_congr differs fun other ne => ?_
      rw [Table.get?_insert, if_neg ne]
    rw [quietPath?, step, quietPath?]
  | @later subscript rest _ _ resolves further =>
    have inside : ((elements.get? key).getD .null).quietPath? rest =
        (elements.get? key).bind (·.quietPath? rest) := by
      cases elements.get? key with
      | some element => rfl
      | none =>
        -- The path does not end here, and null has no subscripts.
        cases rest with
        | nil => exact absurd rfl further.ne_nil
        | cons _ _ => rfl
    simp only [quietPath?, quietOffset?, resolves, Table.get?_insert, if_pos]
    exact (agree rest further).trans inside

theorem agreeOff_erase (elements : Table Key Value) (key : Key) :
    (array elements).AgreeOff [key] (.array (elements.erase key)) := by
  intro keys diverges
  cases diverges with
  | @here subscript rest _ _ differs =>
    have step : (array (elements.erase key)).quietOffset? subscript =
        (array elements).quietOffset? subscript := by
      refine quietOffset?_congr differs fun other ne => ?_
      rw [Table.get?_erase, if_neg ne]
    rw [quietPath?, step, quietPath?]
  | later _ further => cases further

theorem Reaches.agreeOff (reaches : slot.Reaches subscripts path met) (value : Value) :
    slot.AgreeOff path (writePath value slot subscripts).slot := by
  induction reaches with
  | here slot =>
    intro keys diverges
    cases diverges
  | @step slot met elements subscript rest key path opens resolves further ih =>
    intro keys diverges
    rw [writePath_of_resolves opens resolves, ← quietPath?_vivify slot diverges.ne_nil, opens]
    exact agreeOff_insert ih keys diverges

/-! ## Removing -/

theorem Holds.removesAt (holds : slot.Holds path value) (nonempty : path ≠ []) :
    slot.RemovesAt path := by
  induction holds with
  | here value => exact absurd rfl nonempty
  | @step elements key path inner value found further ih =>
    rintro keys (_ | ⟨resolves, stands⟩)
    rename_i subscript rest
    -- The last key is erased, and above it the changed elements are put back.
    cases path with
    | nil =>
      cases stands
      refine ⟨.array (elements.erase key), ?_, ?_, agreeOff_erase elements key⟩
      · simp only [unsetPath, resolves, List.isEmpty_nil, if_pos]
      · rintro again (_ | ⟨resolvesAgain, _⟩)
        simp only [quietPath?, quietOffset?, resolvesAgain, Table.get?_erase, if_pos]
        rfl
    | cons next path =>
      rcases ih (List.cons_ne_nil _ _) rest stands with ⟨changed, removes, isGone, agree⟩
      refine ⟨.array (elements.insert key changed), ?_, ?_, ?_⟩
      · cases stands
        rw [unsetPath]
        simp only [resolves, found, List.isEmpty_cons, removes]
        rfl
      · rintro again (_ | ⟨resolvesAgain, standAgain⟩)
        simp only [quietPath?, quietOffset?, resolvesAgain, Table.get?_insert, if_pos]
        exact isGone _ standAgain
      · refine agreeOff_insert ?_
        rw [found]
        exact agree

/-- Paths through arrays follow the laws of a lens. A write that succeeds, meets no text and can
append wherever it has to resolves its subscripts to a path; what it wrote is found there and can be
removed from there, and nothing changes off the path. -/
theorem paths_are_lenses {value root : Value} {subscripts : List (Option Value)}
    (nonempty : subscripts ≠ []) (succeeds : (writePath value root subscripts).failure = none)
    (noText : root.MeetsNoText subscripts)
    (noRefusal : .nextElementOccupied ∉ (writePath value root subscripts).warnings) :
    ∃ path met, root.Reaches subscripts path met ∧ StandFor (path.map Key.toValue) path ∧
      (writePath value root subscripts).slot.FindsAt path value ∧
      root.AgreeOff path (writePath value root subscripts).slot ∧
      (writePath value root subscripts).slot.RemovesAt path := by
  rcases exists_reaches succeeds noText noRefusal with ⟨path, met, reaches⟩
  have holds := reaches.holds value
  exact ⟨path, met, reaches, reaches.standFor, holds.findsAt, reaches.agreeOff value,
    holds.removesAt (reaches.ne_nil nonempty)⟩

/-- The path leads through an array that is made of false, and through an appended one. -/
theorem paths_are_lenses_appended :
    let root := array (.ofList [(.str "list", .bool false), (.str "name", .str "text")])
    let subscripts := [some (.str "list"), none, some (.str "7")]
    let written := writePath (.int 1) root subscripts
    written.failure = none ∧ root.MeetsNoText subscripts ∧
      .nextElementOccupied ∉ written.warnings ∧
      ∃ path met, root.Reaches subscripts path met ∧ StandFor (path.map Key.toValue) path ∧
        written.slot.FindsAt path (.int 1) ∧ root.AgreeOff path written.slot ∧
        written.slot.RemovesAt path := by
  intro root subscripts written
  have writes : written = ⟨_, [.falseToArray], none⟩ := rfl
  have noText : root.MeetsNoText subscripts :=
    .cons rfl rfl (.cons rfl rfl (.cons rfl rfl (.nil _)))
  have noRefusal : .nextElementOccupied ∉ written.warnings := by
    rw [writes]
    simp
  exact ⟨rfl, noText, noRefusal, paths_are_lenses (List.cons_ne_nil _ _) rfl noText noRefusal⟩

end Value

end PhpScript
