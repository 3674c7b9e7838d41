/-!
# Ordered tables

A table is a finite map that remembers the order in which its keys first arrived: inserting under a
present key replaces the value where it stands. Script arrays, scopes, constants and function
registries are tables.
-/

namespace PhpScript

/-- Values by their keys, in the order of insertion. -/
structure Table (κ α : Type) where
  entries : List (κ × α) := []
deriving Inhabited

namespace Table

variable {κ α β : Type}

def empty : Table κ α := ⟨[]⟩

def size (table : Table κ α) : Nat := table.entries.length

def isEmpty (table : Table κ α) : Bool := table.entries.isEmpty

def keys (table : Table κ α) : List κ := table.entries.map Prod.fst

def values (table : Table κ α) : List α := table.entries.map Prod.snd

section Lookup

variable [DecidableEq κ]

@[specialize]
def lookup (key : κ) : List (κ × α) → Option α
  | [] => none
  | entry :: rest => if entry.1 = key then some entry.2 else lookup key rest

@[specialize]
def insertEntry (key : κ) (value : α) : List (κ × α) → List (κ × α)
  | [] => [(key, value)]
  | entry :: rest =>
    if entry.1 = key then (key, value) :: rest else entry :: insertEntry key value rest

@[inline]
def get? (table : Table κ α) (key : κ) : Option α := lookup key table.entries

def contains (table : Table κ α) (key : κ) : Bool := (table.get? key).isSome

/-- Store `value` under `key`: a present key keeps its place, a new one goes to the end. -/
@[inline]
def insert (table : Table κ α) (key : κ) (value : α) : Table κ α :=
  ⟨insertEntry key value table.entries⟩

def erase (table : Table κ α) (key : κ) : Table κ α :=
  ⟨table.entries.filter (fun entry => entry.1 ≠ key)⟩

def insertAll (table : Table κ α) (entries : List (κ × α)) : Table κ α :=
  entries.foldl (fun built entry => built.insert entry.1 entry.2) table

/-- The table of a list of entries; of several entries with one key the last value stays. -/
def ofList (entries : List (κ × α)) : Table κ α := empty.insertAll entries

/-- Left-biased union: the entries of `left`, then those of `right` under new keys. -/
def union (left right : Table κ α) : Table κ α :=
  ⟨left.entries ++ right.entries.filter (fun entry => !left.contains entry.1)⟩

end Lookup

section Laws

variable [DecidableEq κ]

/-- No key occurs twice. -/
def Distinct (table : Table κ α) : Prop := table.keys.Nodup

@[simp]
theorem lookup_insertEntry (key other : κ) (value : α) (entries : List (κ × α)) :
    lookup other (insertEntry key value entries) =
      if key = other then some value else lookup other entries := by
  induction entries with
  | nil => simp [insertEntry, lookup]
  | cons entry rest ih =>
    obtain ⟨candidate, old⟩ := entry
    by_cases hit : candidate = key
    · subst hit
      by_cases same : candidate = other <;> simp [insertEntry, lookup, same]
    · by_cases same : candidate = other
      · subst same
        have differs : key ≠ candidate := fun equal => hit equal.symm
        simp [insertEntry, lookup, hit, differs]
      · simp [insertEntry, lookup, hit, same, ih]

@[simp]
theorem get?_insert (table : Table κ α) (key other : κ) (value : α) :
    (table.insert key value).get? other = if key = other then some value else table.get? other :=
  lookup_insertEntry key other value table.entries

theorem lookup_filter_ne (key other : κ) (entries : List (κ × α)) :
    lookup other (entries.filter (fun entry => entry.1 ≠ key)) =
      if key = other then none else lookup other entries := by
  induction entries with
  | nil => simp [lookup]
  | cons entry rest ih =>
    obtain ⟨candidate, value⟩ := entry
    by_cases hit : candidate = key <;> by_cases same : candidate = other <;>
      by_cases equal : key = other <;> simp_all [lookup]

@[simp]
theorem get?_erase (table : Table κ α) (key other : κ) :
    (table.erase key).get? other = if key = other then none else table.get? other :=
  lookup_filter_ne key other table.entries

end Laws

end Table

end PhpScript
