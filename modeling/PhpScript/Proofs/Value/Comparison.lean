import PhpScript.Proofs.Number.Order
import PhpScript.Proofs.Value.Regular
import PhpScript.Value.Operation

/-!
# Equality and order of values

Equality of nested arrays looks up every key of the left array in the right one, and the order goes
through the left keys until two elements differ. They agree on what is equal.

Exchanging two values keeps their equality, in whatever order the arrays list their keys. The order
is turned around where arrays that are compared element by element list the same keys in the same
order; only then do both directions meet the same elements first.
-/

namespace PhpScript

/-- An operator on two values gives true and reports nothing. -/
def BinaryOperator.Holds (operator : BinaryOperator) (left right : Value) : Prop :=
  Value.binary operator left right = pure (.bool true)

namespace Value

/-- Every array in a value, at any depth, has pairwise distinct keys. -/
inductive HasDistinctKeys : Value → Prop
  | flat {value : Value} (isFlat : value.isArray = false) : HasDistinctKeys value
  | array {table : Table Key Value} (distinct : table.Distinct)
      (elements : ∀ entry ∈ table.entries, HasDistinctKeys entry.2) :
      HasDistinctKeys (.array table)

/-- Two values that stand in the same position of two others, where the arrays above them have the
same size. -/
inductive Meet : Value → Value → Value → Value → Prop
  | here (left right : Value) : Meet left right left right
  | element {left right : Table Key Value} {key : Key} {first second inner other : Value}
      (sizes : left.size = right.size) (inLeft : left.get? key = some first)
      (inRight : right.get? key = some second) (inside : Meet first second inner other) :
      Meet (.array left) (.array right) inner other

/-- Arrays of the same size in the same position of two values list the same keys in the same
order. -/
def Aligned (left right : Value) : Prop :=
  ∀ first second, Meet left right (.array first) (.array second) → first.size = second.size →
    first.keys = second.keys

variable {left right : Value} {first second : List (Key × Value)} {table other : Table Key Value}
  {entry : Key × Value} {operator : BinaryOperator}

theorem Aligned.flat (isFlat : left.isArray = false) : left.Aligned right := by
  intro first second met
  cases met with
  | here => cases isFlat
  | element => cases isFlat

theorem Aligned.array (keys : table.keys = other.keys)
    (elements : ∀ entry ∈ table.entries, ∀ opposite, other.get? entry.1 = some opposite →
      entry.2.Aligned opposite) : (array table).Aligned (.array other) := by
  intro first second met
  cases met with
  | here => exact fun _ => keys
  | element _ found oppositeFound inside =>
    exact elements _ (Table.mem_of_get? found) _ oppositeFound first second inside

theorem HasDistinctKeys.pair {other : Key × Value} (differ : entry.1 ≠ other.1)
    (own : entry.2.HasDistinctKeys) (others : other.2.HasDistinctKeys) :
    (Value.array ⟨[entry, other]⟩).HasDistinctKeys := by
  refine .array ?_ (List.forall_mem_cons.mpr ⟨own, List.forall_mem_singleton.mpr others⟩)
  simpa [Table.Distinct, Table.keys] using differ

/-! ## Equality and order -/

theorem compare?_of_flat (isFlat : left.isArray = false ∨ right.isArray = false) :
    left.compare? right = compareFlat left right := by
  rw [compare?]
  rintro first second rfl rfl
  exact isFlat.elim Bool.noConfusion Bool.noConfusion

theorem looselyEqual_of_flat (isFlat : left.isArray = false ∨ right.isArray = false) :
    left.looselyEqual right = (compareFlat left right == some .eq) := by
  rw [looselyEqual]
  rintro first second rfl rfl
  exact isFlat.elim Bool.noConfusion Bool.noConfusion

theorem looselyContained_iff :
    looselyContained first second = true ↔ ∀ entry ∈ first,
      ∃ other, Table.lookup entry.1 second = some other ∧ entry.2.looselyEqual other = true := by
  induction first with
  | nil => simp [looselyContained]
  | cons entry rest ih =>
    rcases entry with ⟨key, value⟩
    rw [looselyContained, Bool.and_eq_true, ih, List.forall_mem_cons]
    cases Table.lookup key second <;> simp

theorem compareEntries_eq_some_eq_iff :
    compareEntries first second = some .eq ↔ ∀ entry ∈ first,
      ∃ other, Table.lookup entry.1 second = some other ∧ entry.2.compare? other = some .eq := by
  induction first with
  | nil => simp [compareEntries]
  | cons entry rest ih =>
    rcases entry with ⟨key, value⟩
    rw [compareEntries, List.forall_mem_cons, ← ih]
    cases Table.lookup key second with
    | none => simp
    | some other =>
      simp only [Option.some.injEq, exists_eq_left']
      split
      · rename_i equal
        simp [equal]
      · rename_i differs
        exact ⟨fun equal => absurd equal differs, fun equal => absurd equal.1 differs⟩

theorem looselyEqual_array :
    (array ⟨first⟩).looselyEqual (.array ⟨second⟩) = true ↔
      first.length = second.length ∧ looselyContained first second = true := by
  simp [looselyEqual]

theorem compare?_array_eq :
    (array ⟨first⟩).compare? (.array ⟨second⟩) = some .eq ↔
      first.length = second.length ∧ compareEntries first second = some .eq := by
  rw [compare?, ← Nat.compare_eq_eq]
  cases compare first.length second.length <;> simp

theorem HasDistinctKeys.looselyEqual_iff (distinct : left.HasDistinctKeys) :
    left.looselyEqual right = true ↔ left.compare? right = some .eq := by
  induction distinct generalizing right with
  | flat isFlat =>
    rw [looselyEqual_of_flat (.inl isFlat), compare?_of_flat (.inl isFlat), beq_iff_eq]
  | @array table _ _ ih =>
    cases right with
    | array other =>
      rw [looselyEqual_array, compare?_array_eq, looselyContained_iff,
        compareEntries_eq_some_eq_iff]
      refine and_congr_right fun _ => forall₂_congr fun entry member => ?_
      exact exists_congr fun value => and_congr_right fun _ => ih entry member
    | _ => rw [looselyEqual_of_flat (.inr rfl), compare?_of_flat (.inr rfl), beq_iff_eq]

/-! ## Identity -/

theorem forall₂_of_identicalEntries (same : identicalEntries first second = true) :
    List.Forall₂ (fun entry other => entry.1 = other.1 ∧ entry.2.identical other.2 = true)
      first second := by
  induction first generalizing second with
  | nil =>
    cases second with
    | nil => exact .nil
    | cons other others => cases same
  | cons entry rest ih =>
    cases second with
    | nil => cases same
    | cons other others =>
      simp only [identicalEntries, Bool.and_eq_true, decide_eq_true_eq] at same
      exact .cons same.1 (ih same.2)

theorem keys_of_identicalEntries (same : identicalEntries first second = true) :
    first.map Prod.fst = second.map Prod.fst := by
  rw [← List.forall₂_eq_eq_eq, List.forall₂_map_left_iff, List.forall₂_map_right_iff]
  exact (forall₂_of_identicalEntries same).imp fun _ _ agree => agree.1

theorem exists_identical_of_mem (member : entry ∈ first)
    (same : identicalEntries first second = true) :
    ∃ other, (entry.1, other) ∈ second ∧ entry.2.identical other = true := by
  have agree := forall₂_of_identicalEntries same
  clear same
  induction agree with
  | nil => cases member
  | @cons own other rest others agree _ ih =>
    rcases List.mem_cons.mp member with rfl | later
    · refine ⟨other.2, ?_, agree.2⟩
      rw [agree.1]
      exact List.mem_cons_self
    · rcases ih later with ⟨value, found, identical⟩
      exact ⟨value, List.mem_cons_of_mem _ found, identical⟩

theorem compareTexts_self (text : String) : compareTexts text text = some .eq := by
  unfold compareTexts
  split
  · rename_i number again parsed parsedAgain
    cases parsed.symm.trans parsedAgain
    exact Numeric.compare?_self (Numeric.isNan_toFloat_of_parse? parsed)
  · simp

theorem compareFlat_of_identical (isFlat : left.isArray = false)
    (same : left.identical right = true) : compareFlat left right = some .eq := by
  cases left with
  | array table => cases isFlat
  | void =>
    cases right with
    | void | null => rfl
    | _ => cases same
  | null =>
    cases right with
    | void | null => rfl
    | _ => cases same
  | bool flag =>
    cases right with
    | bool other =>
      simp only [identical, decide_eq_true_eq] at same
      simp [compareFlat, comparand, same]
    | _ => cases same
  | int value =>
    cases right with
    | int other =>
      simp only [identical, decide_eq_true_eq] at same
      simp [compareFlat, comparand, Numeric.compare?, same]
    | _ => cases same
  | float value =>
    cases right with
    | float other => exact eq_of_beq same
    | _ => cases same
  | str text =>
    cases right with
    | str other =>
      simp only [identical, decide_eq_true_eq] at same
      subst same
      exact compareTexts_self text
    | _ => cases same

theorem HasDistinctKeys.looselyEqual_of_identical (distinct : left.HasDistinctKeys)
    (same : left.identical right = true) : left.looselyEqual right = true := by
  induction distinct generalizing right with
  | flat isFlat =>
    rw [looselyEqual_of_flat (.inl isFlat), compareFlat_of_identical isFlat same]
    rfl
  | @array table distinct _ ih =>
    cases right with
    | array other =>
      rw [identical] at same
      have otherDistinct : other.Distinct := by
        rw [Table.Distinct, Table.keys, ← keys_of_identicalEntries same]
        exact distinct
      have sizes := (forall₂_of_identicalEntries same).length_eq
      refine looselyEqual_array.mpr ⟨sizes, looselyContained_iff.mpr fun entry member => ?_⟩
      rcases exists_identical_of_mem member same with ⟨value, found, identical⟩
      exact ⟨value, Table.get?_of_mem otherDistinct found, ih entry member identical⟩
    | _ => cases same

/-! ## Operators -/

theorem binary_of_isComparison (compares : operator.isComparison = true) (left right : Value) :
    binary operator left right = pure (comparison operator left right) := by
  cases operator <;> cases compares <;> rfl

theorem binary_eq_pure_iff (compares : operator.isComparison = true) {result : Value} :
    binary operator left right = pure result ↔ comparison operator left right = result := by
  rw [binary_of_isComparison compares]
  refine ⟨fun same => ?_, congrArg pure⟩
  exact (EStateM.Result.ok.inj (congrFun same [])).1

theorem spaceship_eq_zero_iff : left.spaceship right = 0 ↔ left.compare? right = some .eq := by
  unfold spaceship
  split <;> simp_all

theorem holds_equal_iff :
    BinaryOperator.Holds .equal left right ↔ left.looselyEqual right = true := by
  rw [BinaryOperator.Holds, binary_eq_pure_iff rfl, comparison, bool.injEq]

theorem holds_lessEqual_and_greaterEqual_iff :
    BinaryOperator.Holds .lessEqual left right ∧ BinaryOperator.Holds .greaterEqual left right ↔
      left.compare? right = some .eq := by
  rw [BinaryOperator.Holds, BinaryOperator.Holds, binary_eq_pure_iff rfl, binary_eq_pure_iff rfl,
    comparison, comparison, bool.injEq, bool.injEq]
  cases left.compare? right with
  | none => decide
  | some order => cases order <;> decide

/-- The ways to say that two values are equal agree, and identical values are equal. -/
theorem comparisons_agree {left : Value} (distinct : left.HasDistinctKeys) (right : Value) :
    (BinaryOperator.Holds .identical left right → BinaryOperator.Holds .equal left right) ∧
    [left.looselyEqual right = true, left.compare? right = some .eq, left.spaceship right = 0,
      BinaryOperator.Holds .equal left right,
      binary .spaceship left right = pure (.int 0),
      BinaryOperator.Holds .lessEqual left right ∧
        BinaryOperator.Holds .greaterEqual left right].TFAE := by
  constructor
  · intro identical
    have same := (binary_eq_pure_iff rfl).mp identical
    exact holds_equal_iff.mpr (distinct.looselyEqual_of_identical (bool.inj same))
  · tfae_have 1 ↔ 2 := distinct.looselyEqual_iff
    tfae_have 3 ↔ 2 := spaceship_eq_zero_iff
    tfae_have 4 ↔ 1 := holds_equal_iff
    tfae_have 5 ↔ 3 := (binary_eq_pure_iff rfl).trans ⟨int.inj, congrArg int⟩
    tfae_have 6 ↔ 2 := holds_lessEqual_and_greaterEqual_iff
    tfae_finish

/-- Numeric texts and truth values at different depths, and keys in another order. -/
theorem comparisons_agree_reordered :
    let left := array ⟨[(.str "list", .array ⟨[(.int 0, .str "1e1"), (.int 1, .null)]⟩),
      (.str "size", .int 2)]⟩
    let right := array ⟨[(.str "size", .str " 2.0"),
      (.str "list", .array ⟨[(.int 1, .bool false), (.int 0, .int 10)]⟩)]⟩
    left.HasDistinctKeys ∧ left.looselyEqual right = true ∧ left.compare? right = some .eq ∧
      left.spaceship right = 0 ∧ BinaryOperator.Holds .lessEqual left right ∧
        BinaryOperator.Holds .greaterEqual left right := by
  intro left right
  have distinct : left.HasDistinctKeys :=
    .pair (by decide) (.pair (by decide) (.flat rfl) (.flat rfl)) (.flat rfl)
  have equal : left.looselyEqual right = true := by decide +kernel
  have agree := (comparisons_agree distinct right).2
  exact ⟨distinct, equal, (agree.out 0 1).mp equal, (agree.out 0 2).mp equal,
    (agree.out 0 5).mp equal⟩

/-! ## Exchanging two values -/

theorem compareTexts_swap (left right : String) :
    compareTexts right left = (compareTexts left right).map Ordering.swap := by
  unfold compareTexts
  cases Numeric.parse? left with
  | none => cases Numeric.parse? right <;> exact congrArg some Std.OrientedOrd.eq_swap
  | some leftNumber =>
    cases Numeric.parse? right with
    | none => exact congrArg some Std.OrientedOrd.eq_swap
    | some rightNumber => exact Numeric.compare?_swap leftNumber rightNumber

theorem compareFlat_swap (isFlat : left.isArray = false ∨ right.isArray = false) :
    compareFlat right left = (compareFlat left right).map Ordering.swap := by
  have notBoth : left.comparand = .array → right.comparand ≠ .array := by
    rintro leftArray rightArray
    rcases isFlat with isFlat | isFlat
    · cases left <;> cases leftArray
      cases isFlat
    · cases right <;> cases rightArray
      cases isFlat
  have byTruth : some (compare right.toBool left.toBool) =
      (some (compare left.toBool right.toBool)).map Ordering.swap :=
    congrArg some Std.OrientedOrd.eq_swap
  have twice : ∀ order : Option Ordering, order = (order.map Ordering.swap).map Ordering.swap := by
    simp [Function.comp_def]
  unfold compareFlat
  cases leftIs : left.comparand with
  | null =>
    cases right.comparand with
    | null => rfl
    | text text => exact congrArg some Std.OrientedOrd.eq_swap
    | _ => exact byTruth
  | bool => cases right.comparand <;> exact byTruth
  | number leftNumber =>
    cases right.comparand with
    | null | bool => exact byTruth
    | number rightNumber => exact Numeric.compare?_swap leftNumber rightNumber
    | text text => rfl
    | array => rfl
  | text leftText =>
    cases right.comparand with
    | null => exact congrArg some Std.OrientedOrd.eq_swap
    | bool => exact byTruth
    | number rightNumber => exact twice _
    | text rightText => exact compareTexts_swap leftText rightText
    | array => rfl
  | array =>
    cases rightIs : right.comparand with
    | null | bool => exact byTruth
    | number | text => rfl
    | array => exact absurd rightIs (notBoth leftIs)

theorem exists_counterpart (distinct : table.Distinct) (otherDistinct : other.Distinct)
    (sizes : table.size = other.size) (counterparts : ∀ entry ∈ table.entries,
      ∃ value, other.get? entry.1 = some value ∧ entry.2.looselyEqual value = true)
    (listed : entry ∈ other.entries) :
    ∃ own ∈ table.entries, table.get? entry.1 = some own.2 ∧
      own.2.looselyEqual entry.2 = true := by
  -- Distinct keys on the left that all occur on the right are all keys there are.
  have included : table.keys ⊆ other.keys := by
    intro key member
    rcases List.mem_map.mp member with ⟨own, ownListed, rfl⟩
    rcases counterparts own ownListed with ⟨value, found, _⟩
    exact List.mem_map.mpr ⟨(own.1, value), Table.mem_of_get? found, rfl⟩
  have same : table.keys.Perm other.keys := by
    refine (distinct.subperm included).perm_of_length_le ?_
    simp only [Table.keys, List.length_map]
    exact sizes.ge
  have member : entry.1 ∈ table.keys := same.mem_iff.mpr (List.mem_map.mpr ⟨entry, listed, rfl⟩)
  rcases List.mem_map.mp member with ⟨own, ownListed, sameKey⟩
  rcases counterparts own ownListed with ⟨value, found, equal⟩
  rw [sameKey, Table.get?_of_mem otherDistinct listed] at found
  cases found
  refine ⟨own, ownListed, ?_, equal⟩
  rw [← sameKey]
  exact Table.get?_of_mem distinct ownListed

theorem HasDistinctKeys.looselyEqual_swap (leftDistinct : left.HasDistinctKeys)
    (rightDistinct : right.HasDistinctKeys) (equal : left.looselyEqual right = true) :
    right.looselyEqual left = true := by
  induction leftDistinct generalizing right with
  | flat isFlat =>
    rw [looselyEqual_of_flat (.inl isFlat), beq_iff_eq] at equal
    rw [looselyEqual_of_flat (.inr isFlat), compareFlat_swap (.inl isFlat), equal]
    rfl
  | @array table distinct elements ih =>
    cases rightDistinct with
    | flat isFlat =>
      rw [looselyEqual_of_flat (.inr isFlat), beq_iff_eq] at equal
      rw [looselyEqual_of_flat (.inl isFlat), compareFlat_swap (.inr isFlat), equal]
      rfl
    | @array other otherDistinct others =>
      rcases looselyEqual_array.mp equal with ⟨sizes, contained⟩
      rw [looselyContained_iff] at contained
      refine looselyEqual_array.mpr ⟨sizes.symm, looselyContained_iff.mpr ?_⟩
      intro entry listed
      rcases exists_counterpart distinct otherDistinct sizes contained listed with
        ⟨own, ownListed, found, equal⟩
      exact ⟨own.2, found, ih own ownListed (others entry listed) equal⟩

/-- Entries of two arrays have the same key, under which both are found. -/
def Facing (table other : Table Key Value) (entry opposite : Key × Value) : Prop :=
  entry.1 = opposite.1 ∧ table.get? entry.1 = some entry.2 ∧ other.get? entry.1 = some opposite.2

theorem forall₂_facing (distinct : table.Distinct) (keys : table.keys = other.keys) :
    List.Forall₂ (Facing table other) table.entries other.entries := by
  have otherDistinct : other.Distinct := by
    rw [Table.Distinct, ← keys]
    exact distinct
  have sameKeys : List.Forall₂ (fun entry opposite => entry.1 = opposite.1)
      table.entries other.entries := by
    rwa [Table.keys, Table.keys, ← List.forall₂_eq_eq_eq, List.forall₂_map_left_iff,
      List.forall₂_map_right_iff] at keys
  refine List.forall₂_iff_zip.mpr ⟨sameKeys.length_eq, fun {entry opposite} pair => ?_⟩
  rcases List.of_mem_zip pair with ⟨listed, oppositeListed⟩
  have same : entry.1 = opposite.1 := List.forall₂_zip sameKeys pair
  refine ⟨same, Table.get?_of_mem distinct listed, ?_⟩
  rw [same]
  exact Table.get?_of_mem otherDistinct oppositeListed

theorem compareEntries_swap (mirrored : ∀ key inner opposite, table.get? key = some inner →
      other.get? key = some opposite →
        opposite.compare? inner = (inner.compare? opposite).map Ordering.swap)
    (pairs : List.Forall₂ (Facing table other) first second) :
    compareEntries second table.entries =
      (compareEntries first other.entries).map Ordering.swap := by
  induction pairs with
  | nil => rfl
  | @cons entry opposite rest others pair _ ih =>
    rcases entry with ⟨key, inner⟩
    rcases opposite with ⟨key, facing⟩
    rcases pair with ⟨rfl, found, oppositeFound⟩
    have swapped := mirrored _ _ _ found oppositeFound
    simp only [Table.get?] at found oppositeFound
    simp only [compareEntries, found, oppositeFound, swapped, ih]
    cases inner.compare? facing with
    | none => rfl
    | some order => cases order <;> rfl

theorem HasDistinctKeys.compare?_swap (leftDistinct : left.HasDistinctKeys)
    (aligned : left.Aligned right) :
    right.compare? left = (left.compare? right).map Ordering.swap := by
  induction leftDistinct generalizing right with
  | flat isFlat =>
    rw [compare?_of_flat (.inl isFlat), compare?_of_flat (.inr isFlat),
      compareFlat_swap (.inl isFlat)]
  | @array table distinct elements ih =>
    cases right with
    | array other =>
      have sizes : compare other.entries.length table.entries.length =
          (compare table.entries.length other.entries.length).swap :=
        Std.OrientedOrd.eq_swap
      rw [compare?, compare?, sizes]
      cases order : compare table.entries.length other.entries.length with
      | lt => rfl
      | gt => rfl
      | eq =>
        have same : table.size = other.size := Nat.compare_eq_eq.mp order
        refine compareEntries_swap (fun key inner opposite found oppositeFound => ?_)
          (forall₂_facing distinct (aligned table other (.here _ _) same))
        refine ih (key, inner) (Table.mem_of_get? found) ?_
        exact fun first second met =>
          aligned first second (.element same found oppositeFound met)
    | _ =>
      rw [compare?_of_flat (.inl rfl), compare?_of_flat (.inr rfl), compareFlat_swap (.inr rfl)]

/-- Exchanging two values keeps their equality. It turns their order around, unless two arrays list
the same number of keys differently. -/
theorem comparison_mirrored {left right : Value} (leftDistinct : left.HasDistinctKeys)
    (rightDistinct : right.HasDistinctKeys) :
    right.looselyEqual left = left.looselyEqual right ∧
      (left.Aligned right → right.compare? left = (left.compare? right).map Ordering.swap) := by
  refine ⟨?_, leftDistinct.compare?_swap⟩
  rw [Bool.eq_iff_iff]
  exact ⟨rightDistinct.looselyEqual_swap leftDistinct, leftDistinct.looselyEqual_swap rightDistinct⟩

/-- Of three nested arrays, two list their keys in the same order and two have the same elements. -/
theorem comparison_mirrored_nested :
    let left := array ⟨[(.str "a", .array ⟨[(.int 0, .int 1), (.int 1, .str "x")]⟩),
      (.str "b", .null)]⟩
    let right := array ⟨[(.str "a", .array ⟨[(.int 0, .str "1.0"), (.int 1, .str "y")]⟩),
      (.str "b", .bool true)]⟩
    let reordered := array ⟨[(.str "b", .bool false),
      (.str "a", .array ⟨[(.int 1, .str "x"), (.int 0, .str "1.0")]⟩)]⟩
    left.HasDistinctKeys ∧ right.HasDistinctKeys ∧ reordered.HasDistinctKeys ∧
      left.Aligned right ∧ left.compare? right = some .lt ∧ right.compare? left = some .gt ∧
      left.looselyEqual reordered = true ∧ reordered.looselyEqual left = true := by
  intro left right reordered
  have leftDistinct : left.HasDistinctKeys :=
    .pair (by decide) (.pair (by decide) (.flat rfl) (.flat rfl)) (.flat rfl)
  have rightDistinct : right.HasDistinctKeys :=
    .pair (by decide) (.pair (by decide) (.flat rfl) (.flat rfl)) (.flat rfl)
  have reorderedDistinct : reordered.HasDistinctKeys :=
    .pair (by decide) (.flat rfl) (.pair (by decide) (.flat rfl) (.flat rfl))
  have aligned : left.Aligned right := by
    refine .array rfl (List.forall_mem_cons.mpr ⟨?_, List.forall_mem_singleton.mpr ?_⟩)
    · rintro opposite ⟨⟩
      refine .array rfl (List.forall_mem_cons.mpr ⟨?_, List.forall_mem_singleton.mpr ?_⟩)
      · exact fun _ _ => .flat rfl
      · exact fun _ _ => .flat rfl
    · exact fun _ _ => .flat rfl
  have less : left.compare? right = some .lt := by decide +kernel
  have equal : left.looselyEqual reordered = true := by decide +kernel
  refine ⟨leftDistinct, rightDistinct, reorderedDistinct, aligned, less, ?_, equal, ?_⟩
  · rw [(comparison_mirrored leftDistinct rightDistinct).2 aligned, less]
    rfl
  · rw [(comparison_mirrored leftDistinct reorderedDistinct).1, equal]

end Value

end PhpScript
