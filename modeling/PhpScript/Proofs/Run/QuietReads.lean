import PhpScript.Proofs.Run.Effect
import PhpScript.Proofs.Value.Paths
import PhpScript.Run.Statement

/-!
# Plain and quiet reads

A plain read of a path reports what is missing and goes on with null or an empty text; a quiet read,
as `isset`, `empty` and `??` use it, gives nothing as soon as a step is missing. The two are
separate recursions. They find the same values, but for null as a subscript of a text: a plain read
takes it for the position 0 with a report, and a quiet read takes it for missing.
-/

namespace PhpScript

namespace Checked

variable {α β : Type}

/-- A computation gives a value with reports. -/
def Gives (computation : Checked α) (reports : List Problem) (value : α) : Prop :=
  ∀ reported, computation reported = .ok value (reported ++ reports)

/-- A computation fails. -/
def Stops (computation : Checked α) : Prop :=
  ∃ problem reports, ∀ reported, computation reported = .error problem (reported ++ reports)

/-- What a computation gives or fails with, and what it reports, does not depend on earlier
reports. -/
def IsSteady (computation : Checked α) : Prop :=
  computation.Stops ∨ ∃ reports value, computation.Gives reports value

variable {computation : Checked α} {next : α → Checked β} {reports later : List Problem}
  {value : α} {result : β}

theorem gives_pure (value : α) : Gives (pure value) [] value := by
  intro reported
  simp [pure, EStateM.pure]

theorem gives_warn (problem : Problem) : (warn problem).Gives [problem] () := fun _ => rfl

theorem stops_throw (problem : Problem) : Stops (throw problem : Checked α) :=
  ⟨problem, [], fun reported => congrArg _ (List.append_nil reported).symm⟩

theorem Gives.bind (gives : computation.Gives reports value)
    (goesOn : (next value).Gives later result) :
    (computation >>= next).Gives (reports ++ later) result := by
  intro reported
  simp [Bind.bind, EStateM.bind, gives reported, goesOn (reported ++ reports)]

theorem Gives.stops (gives : computation.Gives reports value) (stops : (next value).Stops) :
    (computation >>= next).Stops := by
  rcases stops with ⟨problem, later, ends⟩
  exact ⟨problem, reports ++ later, fun reported => by
    simp [Bind.bind, EStateM.bind, gives reported, ends]⟩

theorem Stops.bind (stops : computation.Stops) : (computation >>= next).Stops := by
  rcases stops with ⟨problem, reports, ends⟩
  exact ⟨problem, reports, fun reported => by simp [Bind.bind, EStateM.bind, ends]⟩

theorem Stops.not_gives (stops : computation.Stops) : ¬computation.Gives reports value := by
  intro gives
  rcases stops with ⟨problem, others, ends⟩
  cases (gives []).symm.trans (ends [])

theorem Gives.unique {others : List Problem} {other : α} (gives : computation.Gives reports value)
    (again : computation.Gives others other) : reports = others ∧ value = other := by
  cases (gives []).symm.trans (again [])
  exact ⟨rfl, rfl⟩

theorem IsSteady.bind (steady : computation.IsSteady) (goesOn : ∀ value, (next value).IsSteady) :
    (computation >>= next).IsSteady := by
  rcases steady with stops | ⟨reports, value, gives⟩
  · exact .inl stops.bind
  · rcases goesOn value with stops | ⟨later, result, givesLater⟩
    · exact .inl (gives.stops stops)
    · exact .inr ⟨reports ++ later, result, gives.bind givesLater⟩

theorem gives_bind_iff (steady : computation.IsSteady) (goesOn : ∀ value, (next value).IsSteady) :
    (computation >>= next).Gives reports result ↔ ∃ first value later,
      computation.Gives first value ∧ (next value).Gives later result ∧
        reports = first ++ later := by
  constructor
  · intro gives
    rcases steady with stops | ⟨first, value, givesFirst⟩
    · exact absurd gives stops.bind.not_gives
    · rcases goesOn value with stops | ⟨later, last, givesLater⟩
      · exact absurd gives (givesFirst.stops stops).not_gives
      · rcases gives.unique (givesFirst.bind givesLater) with ⟨rfl, rfl⟩
        exact ⟨first, value, later, givesFirst, givesLater, rfl⟩
  · rintro ⟨first, value, later, givesFirst, givesLater, rfl⟩
    exact givesFirst.bind givesLater

theorem outcome_eq_ok_iff (steady : computation.IsSteady) :
    computation.outcome = (reports, .ok value) ↔ computation.Gives reports value := by
  constructor
  · intro ends
    unfold outcome at ends
    rcases steady with stops | ⟨others, other, gives⟩
    · rcases stops with ⟨problem, others, fails⟩
      rw [fails []] at ends
      cases ends
    · rw [gives []] at ends
      cases ends
      exact gives
  · intro gives
    rw [outcome, gives []]
    rfl

end Checked

/-- All that is reported is that subscripts of texts were cast to positions. -/
def OnlyCasts (reports : List Problem) : Prop := ∀ report ∈ reports, report = .stringOffsetCast

theorem onlyCasts_nil : OnlyCasts [] := fun _ isIn => absurd isIn List.not_mem_nil

theorem onlyCasts_append_iff {reports later : List Problem} :
    OnlyCasts (reports ++ later) ↔ OnlyCasts reports ∧ OnlyCasts later :=
  List.forall_mem_append

theorem not_onlyCasts_append {problem : Problem} (differs : problem ≠ .stringOffsetCast)
    (reports : List Problem) : ¬OnlyCasts (reports ++ [problem]) := by
  intro casts
  exact differs (casts problem (List.mem_append_right _ (List.mem_singleton_self problem)))

namespace Value

/-- A subscript of a text is null. -/
inductive CastsNull : Value → List Value → Prop
  | here (text : String) {key : Value} (rest : List Value) (isNull : key.isNull = true) :
      CastsNull (.str text) (key :: rest)
  | later {root key inner : Value} {rest : List Value} {reports : List Problem}
      (reads : (root.readOffset key).outcome = (reports, .ok inner))
      (further : CastsNull inner rest) : CastsNull root (key :: rest)

/-- A plain read of a path finds a value: it reports casts at most, and none of null. -/
structure Finds (root : Value) (keys : List Value) (value : Value) : Prop where
  reads : ∃ reports, (root.readPath keys).outcome = (reports, .ok value) ∧ OnlyCasts reports
  noNull : ¬root.CastsNull keys

/-- How the two ways to read one subscript of a value go together. -/
inductive ReadTogether (root key : Value) : Prop
  | refused (stops : (root.readOffset key).Stops) (missing : root.quietOffset? key = none)
  | found {reports : List Problem} {inner : Value}
      (gives : (root.readOffset key).Gives reports inner) (casts : OnlyCasts reports)
      (noNull : ∀ text, root = .str text → key.isNull = false)
      (found : root.quietOffset? key = some inner)
  | missing {reports : List Problem} {inner : Value}
      (gives : (root.readOffset key).Gives reports inner)
      (differs : ¬OnlyCasts reports ∨ ∃ text, root = .str text ∧ key.isNull = true)
      (missing : root.quietOffset? key = none)

variable {root key inner value : Value} {keys rest : List Value} {reports : List Problem}

/-! ## One subscript -/

theorem textIndex_cases (key : Value) :
    key.textIndex.Stops ∧ key.quietTextIndex? = none ∨
      ∃ reports index, key.textIndex.Gives reports index ∧ OnlyCasts reports ∧
        key.quietTextIndex? = if key.isNull then none else some index := by
  have cast (other : Value) : Checked.Gives (do
      Checked.warn .stringOffsetCast
      return other.toInt) [.stringOffsetCast] other.toInt :=
    (Checked.gives_warn _).bind (Checked.gives_pure _)
  have isCast : OnlyCasts [.stringOffsetCast] := fun _ isIn => List.mem_singleton.mp isIn
  cases key with
  | int index => exact .inr ⟨[], index, Checked.gives_pure _, onlyCasts_nil, rfl⟩
  | str text =>
    simp only [textIndex, quietTextIndex?]
    split
    · exact .inr ⟨[], _, Checked.gives_pure _, onlyCasts_nil, rfl⟩
    · exact .inl ⟨Checked.stops_throw _, rfl⟩
  | array elements => exact .inl ⟨Checked.stops_throw _, rfl⟩
  | _ => exact .inr ⟨_, _, cast _, isCast, rfl⟩

theorem gives_missing (problem : Problem) (value : Value) :
    Checked.Gives (do
      Checked.warn problem
      return value) [problem] value :=
  (Checked.gives_warn problem).bind (Checked.gives_pure value)

theorem readTogether_array (elements : Table Key Value) (key : Value) :
    (array elements).ReadTogether key := by
  cases resolves : Key.ofValue key with
  | error problem =>
    apply ReadTogether.refused
    · simp only [readOffset, resolves]
      exact (Checked.stops_throw problem).bind
    · simp only [quietOffset?, resolves]
  | ok resolved =>
    cases found : elements.get? resolved with
    | some element =>
      have gives : ((array elements).readOffset key).Gives [] element := by
        rw [readOffset_of_get? resolves found]
        exact Checked.gives_pure element
      refine .found gives onlyCasts_nil ?_ ?_
      · rintro _ ⟨⟩
      · simp only [quietOffset?, resolves, found]
    | none =>
      have gives : ((array elements).readOffset key).Gives [.undefinedKey resolved] .null := by
        simp only [readOffset, resolves]
        refine (Checked.gives_pure resolved).bind ?_
        simp only [found]
        exact gives_missing _ _
      refine .missing gives (.inl (not_onlyCasts_append (by rintro ⟨⟩) [])) ?_
      simp only [quietOffset?, resolves, found]

theorem readTogether_str (text : String) (key : Value) : (str text).ReadTogether key := by
  rcases key.textIndex_cases with ⟨stops, unread⟩ | ⟨reports, index, gives, casts, read⟩
  · apply ReadTogether.refused stops.bind
    rw [quietOffset?, unread]
    rfl
  · cases found : byteAt? text index with
    | none =>
      have givesEmpty : ((str text).readOffset key).Gives
          (reports ++ [.uninitializedStringOffset index]) (.str "") := by
        refine gives.bind ?_
        simp only [found]
        exact gives_missing _ _
      refine .missing givesEmpty (.inl (not_onlyCasts_append (by rintro ⟨⟩) reports)) ?_
      rw [quietOffset?, read]
      cases key.isNull
      · exact found
      · rfl
    | some byte =>
      have givesByte : ((str text).readOffset key).Gives (reports ++ []) byte := by
        refine gives.bind ?_
        simp only [found]
        exact Checked.gives_pure byte
      rw [List.append_nil] at givesByte
      -- The plain read has cast null to a position here, where the quiet read gives up.
      cases isNull : key.isNull with
      | false =>
        refine .found givesByte casts (fun _ _ => isNull) ?_
        rw [quietOffset?, read, isNull]
        exact found
      | true =>
        refine .missing givesByte (.inr ⟨text, rfl, isNull⟩) ?_
        rw [quietOffset?, read, isNull]
        rfl

theorem readTogether (root key : Value) : root.ReadTogether key := by
  cases root with
  | array elements => exact readTogether_array elements key
  | str text => exact readTogether_str text key
  | _ =>
    exact .missing (gives_missing _ _) (.inl (not_onlyCasts_append (by rintro ⟨⟩) [])) rfl

theorem isSteady_readOffset (root key : Value) : (root.readOffset key).IsSteady := by
  cases readTogether root key with
  | refused stops _ => exact .inl stops
  | found gives _ _ _ => exact .inr ⟨_, _, gives⟩
  | missing gives _ _ => exact .inr ⟨_, _, gives⟩

theorem quietOffset?_eq_some_iff :
    root.quietOffset? key = some inner ↔ (∀ text, root = .str text → key.isNull = false) ∧
      ∃ reports, (root.readOffset key).Gives reports inner ∧ OnlyCasts reports := by
  constructor
  · intro isFound
    cases readTogether root key with
    | refused _ missing => cases missing.symm.trans isFound
    | missing _ _ missing => cases missing.symm.trans isFound
    | found gives casts noNull found =>
      cases found.symm.trans isFound
      exact ⟨noNull, _, gives, casts⟩
  · rintro ⟨noNull, others, givesInner, onlyCasts⟩
    cases readTogether root key with
    | refused stops _ => exact absurd givesInner stops.not_gives
    | missing gives differs _ =>
      rcases gives.unique givesInner with ⟨rfl, rfl⟩
      rcases differs with more | ⟨text, isText, isNull⟩
      · exact absurd onlyCasts more
      · cases isNull.symm.trans (noNull text isText)
    | found gives _ _ found =>
      rw [found, (gives.unique givesInner).2]

theorem readOffset_of_isNull (text : String) (isNull : key.isNull = true) :
    (str text).readOffset key = (do
      Checked.warn .stringOffsetCast
      (str text).readOffset (.int 0)) := by
  cases key <;> cases isNull <;> rfl

/-! ## Paths -/

theorem isSteady_readPath (root : Value) (keys : List Value) : (root.readPath keys).IsSteady := by
  induction keys generalizing root with
  | nil => exact .inr ⟨[], root, Checked.gives_pure root⟩
  | cons key rest ih => exact (isSteady_readOffset root key).bind fun inner => ih inner

theorem gives_readPath_cons_iff :
    (root.readPath (key :: rest)).Gives reports value ↔ ∃ first inner later,
      (root.readOffset key).Gives first inner ∧ (inner.readPath rest).Gives later value ∧
        reports = first ++ later :=
  Checked.gives_bind_iff (isSteady_readOffset root key) fun inner => isSteady_readPath inner rest

theorem castsNull_cons_iff :
    root.CastsNull (key :: rest) ↔ (∃ text, root = .str text ∧ key.isNull = true) ∨
      ∃ reports inner, (root.readOffset key).Gives reports inner ∧ inner.CastsNull rest := by
  constructor
  · intro casts
    cases casts with
    | here text _ isNull => exact .inl ⟨text, rfl, isNull⟩
    | later reads further =>
      rw [Checked.outcome_eq_ok_iff (isSteady_readOffset root key)] at reads
      exact .inr ⟨_, _, reads, further⟩
  · rintro (⟨text, rfl, isNull⟩ | ⟨reports, inner, gives, further⟩)
    · exact .here text rest isNull
    · exact .later ((Checked.outcome_eq_ok_iff (isSteady_readOffset root key)).mpr gives) further

theorem finds_iff :
    root.Finds keys value ↔ (∃ reports, (root.readPath keys).Gives reports value ∧
      OnlyCasts reports) ∧ ¬root.CastsNull keys := by
  simp only [← Checked.outcome_eq_ok_iff (isSteady_readPath root keys)]
  exact ⟨fun finds => ⟨finds.reads, finds.noNull⟩, fun finds => ⟨finds.1, finds.2⟩⟩

theorem finds_cons_iff :
    root.Finds (key :: rest) value ↔
      ∃ inner, root.quietOffset? key = some inner ∧ inner.Finds rest value := by
  simp only [finds_iff, quietOffset?_eq_some_iff, gives_readPath_cons_iff, castsNull_cons_iff,
    not_or]
  constructor
  · rintro ⟨⟨_, ⟨first, inner, later, gives, further, rfl⟩, casts⟩, noNull, noNullLater⟩
    rw [onlyCasts_append_iff] at casts
    refine ⟨inner, ⟨fun text isText => ?_, first, gives, casts.1⟩, ⟨later, further, casts.2⟩, ?_⟩
    · exact Bool.eq_false_of_not_eq_true fun isNull => noNull ⟨text, isText, isNull⟩
    · exact fun castsNull => noNullLater ⟨first, inner, gives, castsNull⟩
  · rintro ⟨inner, ⟨noNull, first, gives, casts⟩, ⟨later, further, castsLater⟩, noNullLater⟩
    refine ⟨⟨first ++ later, ⟨first, inner, later, gives, further, rfl⟩,
      onlyCasts_append_iff.mpr ⟨casts, castsLater⟩⟩, ?_, ?_⟩
    · rintro ⟨text, isText, isNull⟩
      cases isNull.symm.trans (noNull text isText)
    · rintro ⟨others, other, again, castsNull⟩
      rw [← (gives.unique again).2] at castsNull
      exact noNullLater castsNull

theorem quietPath?_eq_some_iff : root.quietPath? keys = some value ↔ root.Finds keys value := by
  induction keys generalizing root with
  | nil =>
    rw [finds_iff]
    constructor
    · rintro ⟨⟩
      exact ⟨⟨[], Checked.gives_pure _, onlyCasts_nil⟩, by rintro ⟨⟩⟩
    · rintro ⟨⟨reports, gives, _⟩, _⟩
      exact congrArg some ((Checked.gives_pure root).unique gives).2
  | cons key rest ih => simp only [quietPath?, Option.bind_eq_some_iff, finds_cons_iff, ih]

theorem CastsNull.reported (casts : root.CastsNull keys)
    (gives : (root.readPath keys).Gives reports value) : .stringOffsetCast ∈ reports := by
  induction casts generalizing reports with
  | here text rest isNull =>
    rcases gives_readPath_cons_iff.mp gives with ⟨first, inner, later, givesFirst, _, rfl⟩
    have warns : (Checked.warn .stringOffsetCast).Gives [.stringOffsetCast] () :=
      Checked.gives_warn _
    have steady : (Checked.warn .stringOffsetCast).IsSteady := .inr ⟨_, _, warns⟩
    rw [readOffset_of_isNull text isNull, Checked.gives_bind_iff steady fun _ =>
      isSteady_readOffset _ _] at givesFirst
    rcases givesFirst with ⟨report, _, others, warnsAgain, _, rfl⟩
    rw [← (warns.unique warnsAgain).1]
    exact List.mem_cons_self
  | later reads further ih =>
    rw [Checked.outcome_eq_ok_iff (isSteady_readOffset _ _)] at reads
    rcases gives_readPath_cons_iff.mp gives with ⟨first, inner, later, givesFirst, givesLater, rfl⟩
    rw [← (reads.unique givesFirst).2] at givesLater
    exact List.mem_append_right _ (ih givesLater)

theorem quietPath?_append (root : Value) (front rest : List Value) :
    root.quietPath? (front ++ rest) = (root.quietPath? front).bind (·.quietPath? rest) := by
  induction front generalizing root with
  | nil => rfl
  | cons key front ih =>
    simp only [List.cons_append, quietPath?, ih]
    cases root.quietOffset? key <;> rfl

end Value

/-! ## Operands -/

namespace Evaluator

/-- Evaluating an operand leads to a value, or to a variable that is missing, and to subscripts that
are to be read there. The value of an operand that is no place is evaluated without reports. -/
inductive Leads (self : Evaluator) :
    Located Expr → Machine → Option Value → List Value → Machine → Prop
  | place {operand : Located Expr} {machine after : Machine} {place : Place} {keys : List Value}
      (isPlace : operand.node.isPlace = true)
      (evaluates : self.place operand machine = .ok place after)
      (complete : place.keysOr .readAppend = .ok keys) :
      Leads self operand machine (after.scopes.lookup place.name) keys after
  | value {operand : Located Expr} {machine after : Machine} {value : Value}
      (noPlace : operand.node.isPlace = false)
      (noSubscript : ∀ base index, operand.node ≠ .subscript base (some index))
      (evaluates : Run.silently (self.expression operand) machine = .ok value after) :
      Leads self operand machine (some value) [] after
  | subscript {base index : Located Expr} {machine middle after : Machine} {root : Option Value}
      {keys : List Value} {key : Value} (span : Span) (noPlace : base.node.isPlace = false)
      (leads : Leads self base machine root keys middle)
      (evaluates : self.expression index middle = .ok key after) :
      Leads self ⟨.subscript base (some index), span⟩ machine root (keys ++ [key]) after

variable {self : Evaluator} {operand : Located Expr} {machine after : Machine}
  {root found : Option Value} {keys : List Value}

theorem quiet?_of_isPlace (isPlace : operand.node.isPlace = true) :
    self.quiet? operand = self.place operand >>= Place.quiet? := by
  rw [quiet?, quietAt?.eq_def, if_pos isPlace]
  rfl

theorem quiet?_subscript {base index : Located Expr} (span : Span)
    (noPlace : base.node.isPlace = false) :
    self.quiet? ⟨.subscript base (some index), span⟩ = (do
      let container ← self.quiet? base
      let key ← self.expression index
      return container.bind (·.quietPath? [key])) := by
  have isOther : (Expr.subscript base (some index)).isPlace = false := noPlace
  rw [quiet?, quietAt?.eq_def, if_neg (Bool.eq_false_iff.mp isOther)]
  rfl

theorem quiet?_of_value (noPlace : operand.node.isPlace = false)
    (noSubscript : ∀ base index, operand.node ≠ .subscript base (some index)) :
    self.quiet? operand = (do return some (← Run.silently (self.expression operand))) := by
  rw [quiet?, quietAt?.eq_def, if_neg (Bool.eq_false_iff.mp noPlace)]
  split
  · rename_i base baseSpan index equal
    exact absurd equal (noSubscript ⟨base, baseSpan⟩ index)
  · rfl

theorem Leads.quiet?_eq (leads : self.Leads operand machine root keys after) :
    self.quiet? operand machine = .ok (root.bind (·.quietPath? keys)) after := by
  induction leads with
  | @place operand machine after place keys isPlace evaluates complete =>
    rw [quiet?_of_isPlace isPlace, Run.bind_of_ok evaluates, Place.quiet?,
      Run.bind_of_ok (Place.readKeys_eq_ok complete after)]
    rfl
  | value noPlace noSubscript evaluates =>
    rw [quiet?_of_value noPlace noSubscript, Run.bind_of_ok evaluates]
    rfl
  | @subscript base index machine middle after root keys key span noPlace leads evaluates ih =>
    rw [quiet?_subscript span noPlace, Run.bind_of_ok ih, Run.bind_of_ok evaluates]
    simp only [Value.quietPath?_append]
    cases root <;> rfl

theorem exists_leads (ends : self.quiet? operand machine = .ok found after) :
    ∃ root keys, self.Leads operand machine root keys after := by
  rcases operand with ⟨operand, span⟩
  induction span, operand using quietAt?.induct generalizing found after with
  | case1 operand span isPlace =>
    rw [quiet?_of_isPlace isPlace] at ends
    rcases Run.bind_eq_ok ends with ⟨place, middle, evaluates, reads⟩
    rw [Place.quiet?, Place.readKeys] at reads
    cases complete : place.keysOr .readAppend with
    | error problem =>
      rw [complete] at reads
      cases reads
    | ok keys =>
      rw [complete] at reads
      cases reads
      exact ⟨_, keys, .place isPlace evaluates complete⟩
  | case2 span base baseSpan index isOther ih =>
    have noPlace : base.isPlace = false := Bool.eq_false_of_not_eq_true isOther
    rw [quiet?_subscript span noPlace] at ends
    rcases Run.bind_eq_ok ends with ⟨container, middle, reads, goesOn⟩
    rcases Run.bind_eq_ok goesOn with ⟨key, last, evaluates, done⟩
    cases done
    rcases ih reads with ⟨root, keys, leads⟩
    exact ⟨root, keys ++ [key], .subscript span noPlace leads evaluates⟩
  | case3 span operand isOther noPlace =>
    have noSubscript : ∀ base index, operand ≠ .subscript base (some index) :=
      fun base index => isOther base.node base.span index
    rw [quiet?_of_value (Bool.eq_false_of_not_eq_true noPlace) noSubscript] at ends
    rcases Run.bind_eq_ok ends with ⟨value, middle, evaluates, done⟩
    cases done
    exact ⟨some value, [], .value (Bool.eq_false_of_not_eq_true noPlace) noSubscript evaluates⟩

/-- The operators that read quietly see a value, or nothing, as an operand. -/
structure Sees (self : Evaluator) (operand : Located Expr) (machine : Machine)
    (found : Option Value) (after : Machine) : Prop where
  isset : ∀ rest, self.isset (operand :: rest) machine =
    (found.filter fun value => !value.isNull).elim (.ok (.bool false) after) fun _ =>
      self.isset rest after
  isEmpty : self.isEmpty operand machine = .ok (.bool (!found.any Value.toBool)) after
  coalesce : ∀ other, self.coalesce operand other machine =
    (found.filter fun value => !value.isNull).elim (self.expression other after) (.ok · after)

theorem sees_of_quiet? (reads : self.quiet? operand machine = .ok found after) :
    self.Sees operand machine found after := by
  have present : self.present? operand machine =
      .ok (found.filter fun value => !value.isNull) after := Run.bind_of_ok reads
  refine ⟨fun rest => ?_, Run.bind_of_ok reads, fun other => ?_⟩
  · rw [Evaluator.isset, Run.bind_of_ok present]
    cases found.filter fun value => !value.isNull <;> rfl
  · rw [Evaluator.coalesce, Run.bind_of_ok present]
    cases found.filter fun value => !value.isNull <;> rfl

theorem Leads.loadPlace_eq {container value : Value} {reports : List Problem}
    (leads : self.Leads operand machine root keys after) (isRoot : root = some container)
    (isPlace : operand.node.isPlace = true)
    (reads : (container.readPath keys).outcome = (reports, .ok value)) :
    ∃ span, self.loadPlace operand machine = .ok value (after.warnAll reports span) := by
  cases leads with
  | @place _ _ _ place _ _ evaluates complete =>
    refine ⟨place.span, ?_⟩
    rw [loadPlace, Run.bind_of_ok evaluates, Place.load,
      Run.bind_of_ok (Place.readKeys_eq_ok complete after), Run.get_bind, isRoot]
    simp only [Place.follow, reads]
    rfl
  | value noPlace => cases isPlace.symm.trans noPlace
  | subscript _ noPlace => cases isPlace.symm.trans noPlace

/-- A quiet read of a path finds what a plain read gives without a report, and what it finds is what
a plain read gives that reports casts of positions at most. The operators that read quietly see a
value exactly where a plain read finds one in this sense, without casting null: as a subscript of a
text, null is the position 0 for a plain read and missing for a quiet one. -/
theorem quiet_reads_agree (self : Evaluator) :
    (∀ (root : Value) keys value, (root.readPath keys).outcome = ([], .ok value) →
      root.quietPath? keys = some value) ∧
    (∀ (root : Value) keys value, root.quietPath? keys = some value →
      ∃ reports, (root.readPath keys).outcome = (reports, .ok value) ∧ OnlyCasts reports) ∧
    Problem.stringOffsetCast.message = "String offset cast occurred" ∧
    (∀ text (key : Value), key.isNull = true →
      (Value.str text).quietOffset? key = none ∧ (Value.str text).readOffset key = (do
        Checked.warn .stringOffsetCast
        (Value.str text).readOffset (.int 0))) ∧
    ∀ operand machine found after, self.quiet? operand machine = .ok found after →
      self.Sees operand machine found after ∧
      ∃ root keys, self.Leads operand machine root keys after ∧
        (∀ value, found = some value ↔
          ∃ container, root = some container ∧ container.Finds keys value) ∧
        ∀ container reports value, root = some container → operand.node.isPlace = true →
          (container.readPath keys).outcome = (reports, .ok value) →
            ∃ span, self.loadPlace operand machine = .ok value (after.warnAll reports span) := by
  refine ⟨fun root keys value reads => ?_, fun root keys value found => ?_, rfl,
    fun text key isNull => ⟨?_, Value.readOffset_of_isNull text isNull⟩,
    fun operand machine found after reads => ⟨sees_of_quiet? reads, ?_⟩⟩
  · refine Value.quietPath?_eq_some_iff.mpr ⟨⟨[], reads, onlyCasts_nil⟩, fun castsNull => ?_⟩
    rw [Checked.outcome_eq_ok_iff (root.isSteady_readPath keys)] at reads
    exact absurd (castsNull.reported reads) List.not_mem_nil
  · exact (Value.quietPath?_eq_some_iff.mp found).reads
  · cases key <;> cases isNull <;> rfl
  · rcases exists_leads reads with ⟨root, keys, leads⟩
    refine ⟨root, keys, leads, fun value => ?_, fun container reports value isRoot isPlace reads =>
      leads.loadPlace_eq isRoot isPlace reads⟩
    cases reads.symm.trans leads.quiet?_eq
    simp only [Option.bind_eq_some_iff, Value.quietPath?_eq_some_iff]

/-- A path goes through arrays to a byte of a text and from there to a byte of that. -/
theorem quiet_reads_agree_nested :
    let root := Value.array (.ofList [(.str "words", .array (.ofValues [.str "abc"]))])
    let keys : List Value := [.str "words", .int 0, .bool true, .str "-1"]
    let start := Machine.start {} {} (fun _ => none) ⟨0, 0⟩
    let machine := { start with scopes := start.scopes.store "list" root }
    let operand : Located Expr := ⟨.variable (.simple "list"), ⟨0, 5⟩⟩
    root.quietPath? keys = some (.str "b") ∧
      (∃ reports, (root.readPath keys).outcome = (reports, .ok (.str "b")) ∧ OnlyCasts reports) ∧
      (ofDepth 1).quiet? operand machine = .ok (some root) machine ∧
      (ofDepth 1).Sees operand machine (some root) machine := by
  intro root keys start machine operand
  rcases quiet_reads_agree (ofDepth 1) with ⟨_, plain, _, _, operands⟩
  have found : root.quietPath? keys = some (.str "b") := rfl
  have reads : (ofDepth 1).quiet? operand machine = .ok (some root) machine := rfl
  exact ⟨found, plain root keys _ found, reads, (operands operand machine _ _ reads).1⟩

/-- Null as a subscript of a text is read as its first byte and is missing for `isset`. -/
theorem null_offset_not_seen :
    let start := Machine.start {} {} (fun _ => none) ⟨0, 0⟩
    let machine := { start with scopes := start.scopes.store "text" (.str "abc") }
    let operand : Located Expr :=
      ⟨.subscript ⟨.variable (.simple "text"), ⟨0, 5⟩⟩ (some ⟨.null, ⟨6, 10⟩⟩), ⟨0, 11⟩⟩
    ((Value.str "abc").readPath [.null]).outcome = ([.stringOffsetCast], .ok (.str "a")) ∧
      (∃ after, (ofDepth 2).expression operand machine = .ok (.str "a") after) ∧
      (ofDepth 2).isset [operand] machine = .ok (.bool false) machine :=
  ⟨rfl, ⟨_, rfl⟩, rfl⟩

end Evaluator

end PhpScript
