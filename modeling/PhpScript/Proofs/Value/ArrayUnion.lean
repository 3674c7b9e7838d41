import PhpScript.Proofs.Value.Regular
import PhpScript.Value.Operation

/-!
# Unions of arrays

The sum of two arrays is their union: the left one, and behind it the entries of the right one whose
keys are new, as if these were inserted one after the other. Arrays with this operation are a monoid
in which every element is idempotent. Its laws hold of the entries in their order, and not only of
what is found under a key.
-/

namespace PhpScript

namespace Table

variable {κ α : Type} [DecidableEq κ] {table left middle right : Table κ α} {key : κ}

/-- A table has the keys of `left` in their order and behind them the new ones of `right` in theirs,
each with the value of `left` if there is one. -/
structure IsUnion (left right joined : Table κ α) : Prop where
  distinct : joined.Distinct
  keys : joined.keys = left.keys ++ right.keys.filter (· ∉ left.keys)
  values : ∀ key, joined.get? key = (left.get? key).or (right.get? key)

def insertMissing (table : Table κ α) (entry : κ × α) : Table κ α :=
  if table.contains entry.1 then table else table.insert entry.1 entry.2

theorem lookup_append (key : κ) (front back : List (κ × α)) :
    lookup key (front ++ back) = (lookup key front).or (lookup key back) := by
  induction front with
  | nil => simp [lookup]
  | cons entry rest ih =>
    by_cases same : entry.1 = key
    · simp [lookup, same]
    · simpa [lookup, same] using ih

theorem contains_iff_mem_keys : table.contains key = true ↔ key ∈ table.keys := by
  simp only [contains, get?, keys]
  induction table.entries with
  | nil => simp [lookup]
  | cons entry rest ih =>
    by_cases same : entry.1 = key
    · simp [lookup, same]
    · have differs : key ≠ entry.1 := fun equal => same equal.symm
      simpa [lookup, same, differs] using ih

theorem lookup_filter_of_kept (keep : κ → Bool) (kept : keep key = true)
    (entries : List (κ × α)) :
    lookup key (entries.filter fun entry => keep entry.1) = lookup key entries := by
  induction entries with
  | nil => rfl
  | cons entry rest ih =>
    by_cases same : entry.1 = key
    · simp [lookup, same, kept]
    · by_cases keepsEntry : keep entry.1 = true
      · simpa [lookup, same, keepsEntry] using ih
      · simpa [lookup, same, keepsEntry] using ih

theorem get?_union (left right : Table κ α) (key : κ) :
    (left.union right).get? key = (left.get? key).or (right.get? key) := by
  simp only [union, get?, lookup_append]
  cases found : lookup key left.entries with
  | some value => simp
  | none =>
    apply lookup_filter_of_kept (fun key => !left.contains key)
    simp [contains, get?, found]

theorem contains_union (left right : Table κ α) (key : κ) :
    (left.union right).contains key = (left.contains key || right.contains key) := by
  simp [contains, get?_union, Option.isSome_or]

theorem keys_union (left right : Table κ α) :
    (left.union right).keys = left.keys ++ right.keys.filter (· ∉ left.keys) := by
  have sameTest : (fun entry : κ × α => !left.contains entry.1) =
      (fun key => decide (key ∉ left.keys)) ∘ Prod.fst := by
    funext entry
    simp [← contains_iff_mem_keys]
  simp [keys, union, List.filter_map, sameTest]

/-! ## The laws of a monoid -/

theorem union_assoc (left middle right : Table κ α) :
    (left.union middle).union right = left.union (middle.union right) := by
  have sameRest : (right.entries.filter fun entry => !(left.union middle).contains entry.1) =
      (right.entries.filter fun entry => !middle.contains entry.1).filter
        fun entry => !left.contains entry.1 := by
    simp [List.filter_filter, contains_union]
  simp only [union] at sameRest ⊢
  simp [sameRest]

theorem union_self (table : Table κ α) : table.union table = table := by
  have noneNew : (table.entries.filter fun entry => !table.contains entry.1) = [] := by
    apply List.filter_eq_nil_iff.mpr
    intro entry member
    have isKey : entry.1 ∈ table.keys := List.mem_map_of_mem member
    simp [contains_iff_mem_keys.mpr isKey]
  simp [union, noneNew]

theorem union_empty (table : Table κ α) : table.union empty = table := by
  simp [union, empty]

theorem empty_union (table : Table κ α) : empty.union table = table := by
  simp [union, empty, contains, get?, lookup]

/-! ## Insertion one by one -/

theorem union_cons {entry : κ × α} {rest : List (κ × α)}
    (isNew : entry.1 ∉ rest.map Prod.fst) :
    left.union ⟨entry :: rest⟩ = (left.insertMissing entry).union ⟨rest⟩ := by
  by_cases isTaken : left.contains entry.1 = true
  · simp [union, insertMissing, isTaken]
  · have absent : entry.1 ∉ left.entries.map Prod.fst := by
      intro member
      exact isTaken (contains_iff_mem_keys.mpr member)
    have appended : left.insert entry.1 entry.2 = ⟨left.entries ++ [entry]⟩ := by
      simp [insert, insertEntry_of_notMem absent]
    -- The inserted key does not come again, so it makes no difference to the rest.
    have sameTest : ∀ other ∈ rest, (!left.contains other.1) =
        !(Table.mk (left.entries ++ [entry])).contains other.1 := by
      intro other member
      have differs : entry.1 ≠ other.1 := by
        intro same
        exact isNew (same ▸ List.mem_map_of_mem member)
      simp [contains, get?, lookup_append, lookup, differs]
    simp [union, insertMissing, isTaken, appended, List.filter_congr sameTest]

theorem union_eq_foldl (isDistinct : right.Distinct) :
    left.union right = right.entries.foldl insertMissing left := by
  rcases right with ⟨entries⟩
  simp only [Distinct, keys] at isDistinct
  induction entries generalizing left with
  | nil => exact union_empty left
  | cons entry rest ih =>
    rw [List.map_cons, List.nodup_cons] at isDistinct
    rw [union_cons isDistinct.1, List.foldl_cons]
    exact ih isDistinct.2

theorem distinct_union (leftDistinct : left.Distinct) (rightDistinct : right.Distinct) :
    (left.union right).Distinct := by
  have anyEntry (table : Table κ α) : ∀ entry ∈ table.entries, True := fun _ _ => trivial
  have ofLeft : left.Admits fun _ _ => True := ⟨leftDistinct, anyEntry left⟩
  have ofRight : right.Admits fun _ _ => True := ⟨rightDistinct, anyEntry right⟩
  exact (ofLeft.union ofRight).distinct

theorem isUnion_union (leftDistinct : left.Distinct) (rightDistinct : right.Distinct) :
    left.IsUnion right (left.union right) where
  distinct := distinct_union leftDistinct rightDistinct
  keys := keys_union left right
  values := get?_union left right

end Table

namespace Value

/-- The sum of arrays is their union, which is the same as inserting the missing entries one after
the other. It is associative, the sum of an array with itself is the array, and the empty array is
neutral on both sides. All of this includes the order of the entries. -/
theorem arrays_add_up_as_monoid {left middle right : Table Key Value}
    (leftDistinct : left.Distinct) (middleDistinct : middle.Distinct)
    (rightDistinct : right.Distinct) :
    (∃ joined, binary .add (.array left) (.array middle) = pure (.array joined) ∧
      left.IsUnion middle joined ∧ joined = middle.entries.foldl Table.insertMissing left) ∧
    (∃ joined : Table Key Value, joined.Distinct ∧
      (do binary .add (← binary .add (.array left) (.array middle)) (.array right)) =
        pure (.array joined) ∧
      (do binary .add (.array left) (← binary .add (.array middle) (.array right))) =
        pure (.array joined)) ∧
    binary .add (.array left) (.array left) = pure (.array left) ∧
    binary .add (.array left) (.array .empty) = pure (.array left) ∧
    binary .add (.array .empty) (.array left) = pure (.array left) := by
  have added (first second : Table Key Value) :
      binary .add (.array first) (.array second) = pure (.array (first.union second)) := rfl
  simp only [added, pure_bind, Table.union_self, Table.union_empty, Table.empty_union, and_true]
  refine ⟨⟨_, rfl, Table.isUnion_union leftDistinct middleDistinct,
    Table.union_eq_foldl middleDistinct⟩, _, ?_, rfl, ?_⟩
  · exact Table.distinct_union (Table.distinct_union leftDistinct middleDistinct) rightDistinct
  · rw [Table.union_assoc]

/-- Every two of the arrays have a key in common, and in each of them it stands at another place. -/
theorem arrays_add_up_as_monoid_overlapping :
    let left : Table Key Value := ⟨[(.str "x", .int 1), (.int 0, .int 2)]⟩
    let middle : Table Key Value := ⟨[(.int 0, .int 3), (.str "y", .int 4)]⟩
    let right : Table Key Value := ⟨[(.str "y", .int 5), (.int 7, .int 6), (.str "x", .null)]⟩
    left.Distinct ∧ middle.Distinct ∧ right.Distinct ∧
      (do binary .add (.array left) (← binary .add (.array middle) (.array right))) =
        pure (.array ⟨[(.str "x", .int 1), (.int 0, .int 2), (.str "y", .int 4), (.int 7, .int 6)]⟩)
      := by
  intro left middle right
  have leftDistinct : left.Distinct := by simp [left, Table.Distinct, Table.keys]
  have middleDistinct : middle.Distinct := by simp [middle, Table.Distinct, Table.keys]
  have rightDistinct : right.Distinct := by simp [right, Table.Distinct, Table.keys]
  rcases arrays_add_up_as_monoid leftDistinct middleDistinct rightDistinct with
    ⟨_, ⟨joined, _, fromLeft, fromRight⟩, _⟩
  refine ⟨leftDistinct, middleDistinct, rightDistinct, ?_⟩
  rw [fromRight, ← fromLeft]
  rfl

end Value

end PhpScript
