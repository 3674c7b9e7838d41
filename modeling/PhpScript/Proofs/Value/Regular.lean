import Mathlib.Data.List.Nodup
import PhpScript.Proofs.Value.DecimalKey

/-!
# Regular values

The values of running code are more regular than the type of values says. At any depth the keys of
an array are pairwise distinct and canonical, and there is no void in it: a missing result is void
only until the call that misses it is over.
-/

namespace PhpScript

namespace Table

variable {κ α : Type} [DecidableEq κ] {admits : κ → α → Prop} {table : Table κ α} {key : κ}
  {value : α} {entries : List (κ × α)}

theorem mem_of_get? (found : table.get? key = some value) : (key, value) ∈ table.entries := by
  rcases table with ⟨entries⟩
  simp only [get?] at found
  induction entries with
  | nil => cases found
  | cons entry rest ih =>
    simp only [lookup] at found
    split at found
    · rename_i same
      cases found
      exact List.mem_cons.mpr (.inl (Prod.ext same.symm rfl))
    · exact List.mem_cons_of_mem _ (ih found)

theorem get?_of_mem (distinct : table.Distinct) (member : (key, value) ∈ table.entries) :
    table.get? key = some value := by
  rcases table with ⟨entries⟩
  simp only [Distinct, keys, get?] at distinct ⊢
  induction entries with
  | nil => cases member
  | cons entry rest ih =>
    rw [List.map_cons, List.nodup_cons] at distinct
    simp only [lookup]
    rcases List.mem_cons.mp member with rfl | later
    · simp
    · have differs : entry.1 ≠ key := by
        rintro rfl
        exact distinct.1 (List.mem_map.mpr ⟨(entry.1, value), later, rfl⟩)
      rw [if_neg differs]
      exact ih distinct.2 later

theorem mem_insertEntry {entry : κ × α} (member : entry ∈ insertEntry key value entries) :
    entry = (key, value) ∨ entry ∈ entries := by
  induction entries with
  | nil => exact .inl (List.mem_singleton.mp member)
  | cons first rest ih =>
    simp only [insertEntry] at member
    split at member
    · rcases List.mem_cons.mp member with same | later
      · exact .inl same
      · exact .inr (List.mem_cons_of_mem _ later)
    · rcases List.mem_cons.mp member with rfl | later
      · exact .inr List.mem_cons_self
      · exact (ih later).imp_right (List.mem_cons_of_mem _)

theorem insertEntry_of_notMem (isNew : key ∉ entries.map Prod.fst) :
    insertEntry key value entries = entries ++ [(key, value)] := by
  induction entries with
  | nil => rfl
  | cons entry rest ih =>
    rw [List.map_cons, List.mem_cons, not_or] at isNew
    rw [insertEntry, if_neg (Ne.symm isNew.1), ih isNew.2, List.cons_append]

theorem nodup_insertEntry (distinct : (entries.map Prod.fst).Nodup) :
    ((insertEntry key value entries).map Prod.fst).Nodup := by
  induction entries with
  | nil => simp [insertEntry]
  | cons first rest ih =>
    rw [List.map_cons, List.nodup_cons] at distinct
    simp only [insertEntry]
    split
    · rename_i same
      rw [List.map_cons, List.nodup_cons, ← same]
      exact distinct
    · rename_i differs
      rw [List.map_cons, List.nodup_cons]
      refine ⟨fun member => ?_, ih distinct.2⟩
      rcases List.mem_map.mp member with ⟨entry, inserted, sameKey⟩
      rcases mem_insertEntry inserted with rfl | earlier
      · exact differs sameKey.symm
      · exact distinct.1 (List.mem_map.mpr ⟨entry, earlier, sameKey⟩)

/-- The keys of a table are pairwise distinct, and all entries are admitted. -/
structure Admits (admits : κ → α → Prop) (table : Table κ α) : Prop where
  distinct : table.Distinct
  entries : ∀ entry ∈ table.entries, admits entry.1 entry.2

namespace Admits

omit [DecidableEq κ] in
theorem empty : (Table.empty : Table κ α).Admits admits :=
  ⟨List.nodup_nil, fun _ member => absurd member List.not_mem_nil⟩

theorem of_get? (admitted : table.Admits admits) (found : table.get? key = some value) :
    admits key value :=
  admitted.entries (key, value) (mem_of_get? found)

theorem insert (admitted : table.Admits admits) (own : admits key value) :
    (table.insert key value).Admits admits := by
  refine ⟨nodup_insertEntry admitted.distinct, fun entry member => ?_⟩
  rcases mem_insertEntry member with rfl | earlier
  · exact own
  · exact admitted.entries entry earlier

theorem erase (admitted : table.Admits admits) (key : κ) : (table.erase key).Admits admits := by
  have fewer : (table.erase key).entries.Sublist table.entries := List.filter_sublist
  exact ⟨admitted.distinct.sublist (fewer.map Prod.fst),
    fun entry member => admitted.entries entry (fewer.subset member)⟩

theorem union {left right : Table κ α} (leftAdmitted : left.Admits admits)
    (rightAdmitted : right.Admits admits) : (left.union right).Admits admits := by
  constructor
  · simp only [Distinct, keys, Table.union, List.map_append]
    have fewer : (right.entries.filter fun entry => !left.contains entry.1).Sublist right.entries :=
      List.filter_sublist
    refine leftAdmitted.distinct.append
      (rightAdmitted.distinct.sublist (fewer.map Prod.fst)) ?_
    intro key inLeft inRight
    rcases List.mem_map.mp inLeft with ⟨⟨_, value⟩, member, rfl⟩
    rcases List.mem_map.mp inRight with ⟨entry, kept, same⟩
    have isNew := (List.mem_filter.mp kept).2
    rw [same] at isNew
    simp [contains, get?_of_mem leftAdmitted.distinct member] at isNew
  · intro entry member
    rcases List.mem_append.mp member with inLeft | inRight
    · exact leftAdmitted.entries entry inLeft
    · exact rightAdmitted.entries entry (List.mem_filter.mp inRight).1

theorem insertAll (admitted : table.Admits admits) {entries : List (κ × α)}
    (others : ∀ entry ∈ entries, admits entry.1 entry.2) :
    (table.insertAll entries).Admits admits := by
  induction entries generalizing table with
  | nil => exact admitted
  | cons entry rest ih =>
    rcases List.forall_mem_cons.mp others with ⟨own, later⟩
    exact ih (admitted.insert own) later

theorem ofList {entries : List (κ × α)} (others : ∀ entry ∈ entries, admits entry.1 entry.2) :
    (Table.ofList entries).Admits admits :=
  empty.insertAll others

end Admits

end Table

namespace Table

variable {α : Type} {admits : Key → α → Prop} {table : Table Key α} {value : α}

theorem lt_foldl_of_mem {step : Int → Key × α → Int} (grows : ∀ next entry, next ≤ step next entry)
    (exceeds : ∀ next index value, index.toInt < step next (.int index, value))
    (entries : List (Key × α)) (least : Int) :
    least ≤ entries.foldl step least ∧
      ∀ index, .int index ∈ entries.map Prod.fst → index.toInt < entries.foldl step least := by
  induction entries generalizing least with
  | nil => simp
  | cons entry rest ih =>
    rcases ih (step least entry) with ⟨lower, above⟩
    refine ⟨le_trans (grows least entry) lower, fun index member => ?_⟩
    rcases List.mem_cons.mp member with same | later
    · rcases entry with ⟨key, value⟩
      cases same
      exact lt_of_lt_of_le (exceeds least index value) lower
    · exact above index later

theorem lt_nextIndex_of_mem {index : Int64} (member : .int index ∈ table.keys) :
    index.toInt < table.nextIndex := by
  refine (lt_foldl_of_mem ?_ ?_ table.entries 0).2 index member
  · rintro next ⟨_ | _, _⟩
    · exact le_max_left _ _
    · exact le_refl next
  · exact fun next index _ => lt_of_lt_of_le (Int.lt_succ _) (le_max_right next _)

theorem int_notMem_of_nextIndex {index : Int64} (isNext : index.toInt = table.nextIndex) :
    .int index ∉ table.keys :=
  fun member => (lt_nextIndex_of_mem member).ne isNext

theorem Admits.push? (admitted : table.Admits admits) (own : ∀ index, admits (.int index) value)
    {longer : Table Key α} (pushed : table.push? value = some longer) : longer.Admits admits := by
  simp only [Table.push?, nextKey?, Option.map_map, Option.map_eq_some_iff] at pushed
  rcases pushed with ⟨index, _, rfl⟩
  exact admitted.insert (own index)

theorem mem_ofValues {values : List α} {entry : Key × α}
    (member : entry ∈ (ofValues values).entries) :
    ∃ index : Nat, values[index]? = some entry.2 ∧
      ∃ word, Integer.fit? index = some word ∧ entry.1 = .int word := by
  rcases List.mem_filterMap.mp member with ⟨⟨value, index⟩, listed, made⟩
  rcases Option.map_eq_some_iff.mp made with ⟨word, fits, rfl⟩
  exact ⟨index, List.mem_zipIdx_iff_getElem?.mp listed, word, fits, rfl⟩

theorem distinct_ofValues (values : List α) : (ofValues values).Distinct := by
  have positions : (values.zipIdx.map Prod.snd).Nodup := by
    rw [List.zipIdx_map_snd]
    exact List.nodup_range'
  have byPosition : (ofValues values).keys =
      (values.zipIdx.map Prod.snd).filterMap fun (index : Nat) =>
        (Integer.fit? index).map Key.int := by
    simp only [keys, ofValues, List.map_filterMap, List.filterMap_map, Option.map_map]
    rfl
  rw [Distinct, byPosition]
  refine positions.filterMap fun first second key ofFirst ofSecond => ?_
  rcases Option.map_eq_some_iff.mp ofFirst with ⟨word, fitsFirst, rfl⟩
  rcases Option.map_eq_some_iff.mp ofSecond with ⟨_, fitsSecond, same⟩
  cases same
  rw [Integer.fit?_eq_some_iff] at fitsFirst fitsSecond
  omega

theorem Admits.ofValues {values : List α}
    (others : ∀ value ∈ values, ∀ index, admits (.int index) value) :
    (Table.ofValues values).Admits admits := by
  refine ⟨distinct_ofValues values, fun entry member => ?_⟩
  rcases mem_ofValues member with ⟨index, found, word, _, key⟩
  rw [key]
  exact others entry.2 (List.mem_of_getElem? found) word

end Table

/-- The keys of an array are pairwise distinct, and no text key is the decimal notation of an
integer. -/
structure Table.WellKeyed {α : Type} (table : Table Key α) : Prop where
  distinct : table.Distinct
  canonical : ∀ key ∈ table.keys, key.IsCanonical

namespace Value

/-- A value occurs in another one, as a whole or as an element at some depth. -/
inductive Within (value : Value) : Value → Prop
  | whole : Within value value
  | element {table : Table Key Value} {key : Key} {element : Value}
      (member : (key, element) ∈ table.entries) (within : Within value element) :
      Within value (.array table)

/-- All arrays inside have distinct canonical keys. -/
def WellKeyed (value : Value) : Prop :=
  ∀ table, (Value.array table).Within value → table.WellKeyed

/-- No value is missing inside. -/
def VoidFree (value : Value) : Prop := ¬Value.void.Within value

/-- A value as running code has them. -/
structure Regular (value : Value) : Prop where
  wellKeyed : value.WellKeyed
  voidFree : value.VoidFree

def isPlain : Value → Bool
  | .void | .array _ => false
  | _ => true

theorem regular_of_isPlain {value : Value} (plain : value.isPlain = true) : value.Regular := by
  constructor
  · intro table within
    cases within with
    | whole => cases plain
    | element _ _ => cases plain
  · intro within
    cases within with
    | whole => cases plain
    | element _ _ => cases plain

@[simp]
theorem regular_null : Value.null.Regular :=
  regular_of_isPlain rfl

@[simp]
theorem regular_bool (flag : Bool) : (Value.bool flag).Regular :=
  regular_of_isPlain rfl

@[simp]
theorem regular_int (number : Int64) : (Value.int number).Regular :=
  regular_of_isPlain rfl

@[simp]
theorem regular_float (number : Float) : (Value.float number).Regular :=
  regular_of_isPlain rfl

@[simp]
theorem regular_str (text : String) : (Value.str text).Regular :=
  regular_of_isPlain rfl

theorem not_regular_void : ¬Value.void.Regular := fun regular => regular.voidFree .whole

end Value

def RegularEntry (key : Key) (value : Value) : Prop := key.IsCanonical ∧ value.Regular

theorem regularEntry_of_mem {entries : List (Key × Value)}
    (keys : ∀ key ∈ entries.map Prod.fst, key.IsCanonical)
    (values : ∀ value ∈ entries.map Prod.snd, value.Regular) :
    ∀ entry ∈ entries, RegularEntry entry.1 entry.2 :=
  fun _ member => ⟨keys _ (List.mem_map_of_mem member), values _ (List.mem_map_of_mem member)⟩

theorem Table.Admits.regular_getD {table : Table Key Value} (admitted : table.Admits RegularEntry)
    (key : Key) {fallback : Value} (regular : fallback.Regular) :
    ((table.get? key).getD fallback).Regular := by
  cases found : table.get? key with
  | some value => exact (admitted.of_get? found).2
  | none => exact regular

namespace Value

@[simp]
theorem regular_array_iff {table : Table Key Value} :
    (Value.array table).Regular ↔ table.Admits RegularEntry := by
  constructor
  · intro regular
    have own := regular.wellKeyed table .whole
    refine ⟨own.distinct, fun entry member => ⟨?_, ?_, ?_⟩⟩
    · exact own.canonical entry.1 (List.mem_map.mpr ⟨entry, member, rfl⟩)
    · exact fun inner within => regular.wellKeyed inner (.element member within)
    · exact fun within => regular.voidFree (.element member within)
  · intro admitted
    constructor
    · intro inner within
      cases within with
      | whole =>
        refine ⟨admitted.distinct, fun key member => ?_⟩
        rcases List.mem_map.mp member with ⟨entry, listed, rfl⟩
        exact (admitted.entries entry listed).1
      | element member within => exact (admitted.entries _ member).2.wellKeyed inner within
    · intro within
      cases within with
      | element member within => exact (admitted.entries _ member).2.voidFree within

@[simp]
theorem regular_ofKey (key : Key) : key.toValue.Regular := by
  cases key <;> simp [Key.toValue]

@[simp]
theorem regular_ofNumeric (number : Numeric) : number.toValue.Regular := by
  cases number <;> simp [Numeric.toValue]

theorem Regular.orNull {value : Value} (regular : value.Regular) : value.orNull = value := by
  cases value with
  | void => exact absurd regular not_regular_void
  | null => rfl
  | bool flag => rfl
  | int number => rfl
  | float number => rfl
  | str text => rfl
  | array table => rfl

theorem admits_elements_of_values {values : List Value}
    (regular : ∀ value ∈ values, value.Regular) :
    (Table.ofValues values).Admits RegularEntry :=
  .ofValues fun value member _ => ⟨trivial, regular value member⟩

theorem Regular.toTable {value : Value} (regular : value.Regular) :
    value.toTable.Admits RegularEntry := by
  have single : (Table.ofValues [value]).Admits RegularEntry :=
    admits_elements_of_values (by simpa using regular)
  cases value with
  | array table => exact regular_array_iff.mp regular
  | void => exact .empty
  | null => exact .empty
  | bool flag => exact single
  | int number => exact single
  | float number => exact single
  | str text => exact single

end Value

end PhpScript
