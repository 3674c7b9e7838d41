import PhpScript.Value.Operation

/-!
# Successors of texts

The letters and digits at the end of a text are a numeral in which every position has a radix of its
own. The successor of a text is the text with the next numeral in place of this one. A numeral that
has no successor of the same form starts over, and it becomes one position longer if nothing stands
in front of it.
-/

namespace PhpScript

/-- Letters and digits count in their own kind. -/
inductive CountingKind where
  | lower | upper | decimal

namespace CountingKind

def radix : CountingKind → Nat
  | .lower | .upper => 26
  | .decimal => 10

def first : CountingKind → Char
  | .lower => 'a'
  | .upper => 'A'
  | .decimal => '0'

def last : CountingKind → Char
  | .lower => 'z'
  | .upper => 'Z'
  | .decimal => '9'

/-- The character that goes in front of a numeral which starts with this kind. -/
def lead : CountingKind → Char
  | .lower => 'a'
  | .upper => 'A'
  | .decimal => '1'

end CountingKind

/-- A letter or digit: its kind and its place among the characters of this kind. -/
structure CountingDigit where
  kind : CountingKind
  place : Fin kind.radix

namespace CountingDigit

def toChar (digit : CountingDigit) : Char := Char.ofNat (digit.kind.first.toNat + digit.place)

def IsLast (digit : CountingDigit) : Prop := digit.place + 1 = digit.kind.radix

instance : DecidablePred IsLast := fun _ => inferInstanceAs (Decidable (_ = _))

def number (digits : List CountingDigit) : Nat :=
  digits.foldl (fun total digit => total * digit.kind.radix + digit.place) 0

/-- What is put in front of a text whose numeral starts over. -/
def overflow (front : List Char) (digits : List CountingDigit) : List Char :=
  if front = [] then (digits.head?.map (·.kind.lead)).toList else []

/-! ## Characters -/

theorem exists_toChar_of_range {character : Char} (kind : CountingKind)
    (lower : kind.first.toNat ≤ character.toNat)
    (upper : character.toNat < kind.first.toNat + kind.radix) :
    ∃ digit : CountingDigit, digit.toChar = character := by
  refine ⟨⟨kind, character.toNat - kind.first.toNat, by omega⟩, ?_⟩
  simp [toChar, Nat.add_sub_of_le lower]

theorem exists_toChar {character : Char} (isAlphanum : character.isAlphanum = true) :
    ∃ digit : CountingDigit, digit.toChar = character := by
  have someKind : (character.isUpper || character.isLower || character.isDigit) = true := isAlphanum
  simp only [Bool.or_eq_true] at someKind
  rcases someKind with (isUpper | isLower) | isDigit
  · have ⟨least, most⟩ : 'A'.val ≤ character.val ∧ character.val ≤ 'Z'.val :=
      of_decide_eq_true isUpper
    exact exists_toChar_of_range .upper least (Nat.lt_succ_of_le most)
  · have ⟨least, most⟩ : 'a'.val ≤ character.val ∧ character.val ≤ 'z'.val :=
      (Bool.and_eq_true_iff.mp isLower).imp of_decide_eq_true of_decide_eq_true
    exact exists_toChar_of_range .lower least (Nat.lt_succ_of_le most)
  · have ⟨least, most⟩ : '0'.val ≤ character.val ∧ character.val ≤ '9'.val :=
      (Bool.and_eq_true_iff.mp isDigit).imp of_decide_eq_true of_decide_eq_true
    exact exists_toChar_of_range .decimal least (Nat.lt_succ_of_le most)

theorem exists_digits (characters : List Char) :
    ∃ (digits : List CountingDigit) (rest : List Char),
      characters = digits.map toChar ++ rest ∧
      ∀ character ∈ rest.head?, character.isAlphanum = false := by
  induction characters with
  | nil => exact ⟨[], [], by simp⟩
  | cons character characters ih =>
    by_cases isAlphanum : character.isAlphanum = true
    · rcases exists_toChar isAlphanum with ⟨digit, rfl⟩
      rcases ih with ⟨digits, rest, rfl, ends⟩
      exact ⟨digit :: digits, rest, by simp, ends⟩
    · exact ⟨[], character :: characters, by simp, by simpa using isAlphanum⟩

theorem alphanumericClass?_toChar (digit : CountingDigit) :
    Value.alphanumericClass? digit.toChar =
      some (digit.kind.last, digit.kind.first, digit.kind.lead) := by
  rcases digit with ⟨_ | _ | _, place⟩ <;> revert place <;> decide

theorem toChar_eq_last_iff (digit : CountingDigit) :
    digit.toChar = digit.kind.last ↔ digit.IsLast := by
  rcases digit with ⟨_ | _ | _, place⟩ <;> revert place <;> decide

theorem toNat_toChar (digit : CountingDigit) :
    digit.toChar.toNat = digit.kind.first.toNat + digit.place := by
  rcases digit with ⟨_ | _ | _, place⟩ <;> revert place <;> decide

def next (digit : CountingDigit) (goesOn : ¬digit.IsLast) : CountingDigit where
  kind := digit.kind
  place := ⟨digit.place + 1, Nat.lt_of_le_of_ne digit.place.isLt goesOn⟩

theorem toChar_next (digit : CountingDigit) (goesOn : ¬digit.IsLast) :
    (digit.next goesOn).toChar = Value.nextCharacter digit.toChar := by
  rw [Value.nextCharacter, toNat_toChar]
  rfl

/-! ## Numerals from the lowest position on -/

theorem number_reverse_cons (digit : CountingDigit) (digits : List CountingDigit) :
    number (digit :: digits).reverse = number digits.reverse * digit.kind.radix + digit.place := by
  simp [number]

variable {digits : List CountingDigit}

theorem succeedReversed_toChar_cons (digit : CountingDigit) (front rest : List Char) :
    Value.succeedReversed front (digit.toChar :: rest) =
      if digit.IsLast then digit.kind.first :: Value.succeedReversed [digit.kind.lead] rest
      else Value.nextCharacter digit.toChar :: rest := by
  simp only [Value.succeedReversed, alphanumericClass?_toChar, toChar_eq_last_iff]

theorem exists_successor (goesOn : ∃ digit ∈ digits, ¬digit.IsLast) :
    ∃ following : List CountingDigit, following.map kind = digits.map kind ∧
      number following.reverse = number digits.reverse + 1 ∧
      ∀ front rest, Value.succeedReversed front (digits.map toChar ++ rest) =
        following.map toChar ++ rest := by
  induction digits with
  | nil => simp at goesOn
  | cons digit digits ih =>
    by_cases isLast : digit.IsLast
    · have goesOnLater : ∃ digit ∈ digits, ¬digit.IsLast := by
        simpa [isLast] using goesOn
      rcases ih goesOnLater with ⟨following, kinds, oneMore, succeeds⟩
      have positive : 0 < digit.kind.radix := Fin.pos digit.place
      have startsOver : toChar ⟨digit.kind, 0, positive⟩ = digit.kind.first := by simp [toChar]
      refine ⟨⟨digit.kind, 0, positive⟩ :: following, by simp [kinds], ?_, ?_⟩
      · simp only [number_reverse_cons, oneMore, Nat.add_mul, Nat.add_zero]
        rw [IsLast] at isLast
        omega
      · intro front rest
        simp [succeedReversed_toChar_cons, isLast, succeeds, startsOver]
    · refine ⟨digit.next isLast :: digits, rfl, ?_, ?_⟩
      · simp only [number_reverse_cons]
        rfl
      · intro front rest
        simp [succeedReversed_toChar_cons, isLast, toChar_next]

theorem succeedReversed_of_all_isLast (allLast : ∀ digit ∈ digits, digit.IsLast)
    (front rest : List Char) :
    Value.succeedReversed front (digits.map toChar ++ rest) =
      digits.map (·.kind.first) ++ Value.succeedReversed
        ((digits.getLast?.map fun digit => [digit.kind.lead]).getD front) rest := by
  induction digits generalizing front with
  | nil => rfl
  | cons digit digits ih =>
    rcases List.forall_mem_cons.mp allLast with ⟨isLast, othersLast⟩
    have sameLead : ((digits.getLast?.map fun digit => [digit.kind.lead]).getD
        [digit.kind.lead]) =
        (((digit :: digits).getLast?.map fun digit => [digit.kind.lead]).getD front) := by
      rw [List.getLast?_cons]
      cases digits.getLast? <;> rfl
    simp [succeedReversed_toChar_cons, isLast, ih othersLast, ← sameLead]

end CountingDigit

namespace Value

open CountingDigit

theorem succeedReversed_of_other {front rest : List Char} (nonempty : rest ≠ [])
    (ends : ∀ character ∈ rest.head?, character.isAlphanum = false) :
    succeedReversed front rest = rest := by
  cases rest with
  | nil => exact absurd rfl nonempty
  | cons character rest =>
    have isOther : alphanumericClass? character = none := by
      have isNone : (character.isUpper || character.isLower || character.isDigit) = false :=
        ends character rfl
      simp only [Bool.or_eq_false_iff] at isNone
      simp [alphanumericClass?, isNone]
    simp [succeedReversed, isOther]

/-- The successor of a text replaces the longest numeral at its end. If some position of it can
count up, the new numeral has the same kinds of digits and stands for one more. Otherwise all
positions start over, and the text becomes longer exactly if it was this numeral alone. -/
theorem successor_counts_up (text : String) :
    ∃ (front : List Char) (digits : List CountingDigit),
      text.toList = front ++ digits.map toChar ∧
      (∀ character ∈ front.getLast?, character.isAlphanum = false) ∧
      ((∃ digit ∈ digits, ¬digit.IsLast) →
        ∃ following : List CountingDigit, following.map kind = digits.map kind ∧
          number following = number digits + 1 ∧
          (successor text).toList = front ++ following.map toChar) ∧
      ((∀ digit ∈ digits, digit.IsLast) →
        (successor text).toList =
          overflow front digits ++ front ++ digits.map (·.kind.first)) := by
  rcases exists_digits text.toList.reverse with ⟨lowFirst, rest, split, ends⟩
  refine ⟨rest.reverse, lowFirst.reverse, ?_, by simpa using ends, ?_, ?_⟩
  · have mirrored := congrArg List.reverse split
    simpa using mirrored
  · intro goesOn
    rcases exists_successor (by simpa using goesOn) with ⟨following, kinds, oneMore, succeeds⟩
    refine ⟨following.reverse, by simp [kinds], oneMore, ?_⟩
    simp [successor, split, succeeds]
  · intro allLast
    have succeeds := succeedReversed_of_all_isLast (by simpa using allLast) [] rest
    by_cases nonempty : rest = []
    · subst nonempty
      simp only [successor, split, succeeds, succeedReversed, overflow, List.head?_reverse]
      cases lowFirst.getLast? <;> simp
    · rw [succeedReversed_of_other nonempty ends] at succeeds
      simp [successor, split, succeeds, overflow, nonempty]

end Value

end PhpScript
