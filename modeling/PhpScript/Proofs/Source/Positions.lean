import PhpScript.Proofs.Token.Lexemes
import PhpScript.Source.Lines

/-!
# Lines and columns

The line of an offset counts the newlines in front of it, and the column counts the bytes from the
last of them on. The table lists the starts of the lines in the order of the text, so a search in it
tells how many of them are at an offset or in front of it: the first one, and those behind the
newlines in front of the offset.
-/

namespace PhpScript.LineTable

/-! ## Searching -/

/-- What a search for an offset promises: the index of the offset, or the index in front of which
all is less and behind which all is greater. -/
def Finds (starts : List Nat) (offset : Nat) : Lookup → Prop
  | .exact index => starts[index]? = some offset
  | .next index => index ≤ starts.length ∧ (∀ start ∈ starts.take index, start < offset) ∧
      ∀ start ∈ starts.drop index, offset < start

/-- How many starts are at an offset or in front of it. -/
def Lookup.count : Lookup → Nat
  | .exact index => index + 1
  | .next index => index

theorem Lookup.line_eq (lookup : Lookup) : lookup.line = lookup.count - 1 := by
  cases lookup <;> rfl

section Searching

variable {starts : List Nat} {offset : Nat}

theorem finds_search (sorted : starts.Pairwise (· < ·)) :
    Finds starts offset (search offset starts) := by
  induction starts with
  | nil => simp [search, Finds]
  | cons start rest ih =>
    rcases List.pairwise_cons.mp sorted with ⟨isFirst, others⟩
    rw [search]
    cases compared : compare start offset with
    | lt =>
      have isBefore : start < offset := Nat.compare_eq_lt.mp compared
      have found := ih others
      cases later : search offset rest with
      | exact index =>
        rw [later] at found
        exact found
      | next index =>
        rw [later] at found
        rcases found with ⟨inRange, less, greater⟩
        exact ⟨Nat.succ_le_succ inRange, List.forall_mem_cons.mpr ⟨isBefore, less⟩, greater⟩
    | eq => simp [Finds, Nat.compare_eq_eq.mp compared]
    | gt =>
      have isBehind : offset < start := Nat.compare_eq_gt.mp compared
      refine ⟨Nat.zero_le _, by simp, List.forall_mem_cons.mpr ⟨isBehind, ?_⟩⟩
      exact fun other isOther => isBehind.trans (isFirst other isOther)

/-- Whatever keeps the promise of a search tells which starts are not behind an offset. -/
theorem takeWhile_of_finds (sorted : starts.Pairwise (· < ·)) {lookup : Lookup}
    (finds : Finds starts offset lookup) :
    starts.takeWhile (· ≤ offset) = starts.take lookup.count := by
  have parted : ∀ count, (∀ start ∈ starts.take count, start ≤ offset) →
      (∀ start ∈ starts.drop count, offset < start) →
        starts.takeWhile (· ≤ offset) = starts.take count := by
    intro count before behind
    conv => lhs; rw [← List.take_append_drop count starts]
    rw [List.takeWhile_append_of_pos fun start isBefore => by simpa using before start isBefore]
    cases later : starts.drop count with
    | nil => simp
    | cons next others =>
      have isBehind := behind next (later ▸ List.mem_cons_self)
      simp [isBehind]
  cases lookup with
  | exact index =>
    rcases List.getElem?_eq_some_iff.mp finds with ⟨inRange, isOffset⟩
    have split : starts = starts.take index ++ offset :: starts.drop (index + 1) := by
      rw [← isOffset, List.getElem_cons_drop, List.take_append_drop]
    rw [split, List.pairwise_append] at sorted
    rcases sorted with ⟨_, later, less⟩
    refine parted (index + 1) (fun start isBefore => ?_) (List.pairwise_cons.mp later).1
    rw [List.take_add_one, finds] at isBefore
    rcases List.mem_append.mp isBefore with isLess | isSame
    · exact Nat.le_of_lt (less start isLess offset List.mem_cons_self)
    · exact Nat.le_of_eq (by simpa using isSame)
  | next index =>
    rcases finds with ⟨_, less, greater⟩
    exact parted index (fun start isBefore => Nat.le_of_lt (less start isBefore)) greater

theorem Finds.count_le {lookup : Lookup} (finds : Finds starts offset lookup) :
    lookup.count ≤ starts.length := by
  cases lookup with
  | exact index => exact (List.getElem?_eq_some_iff.mp finds).1
  | next index => exact finds.1

/-- The position of an offset by counting the starts of lines up to it, the first one apart. -/
theorem position_eq {rest : List Nat} (sorted : (0 :: rest).Pairwise (· < ·)) (offset : Nat) :
    position ⟨0 :: rest⟩ offset =
      ⟨(rest.takeWhile (· ≤ offset)).length + 1,
        offset - (rest.takeWhile (· ≤ offset)).getLastD 0 + 1⟩ := by
  have finds : Finds (0 :: rest) offset (search offset (0 :: rest)) := finds_search sorted
  have taken := takeWhile_of_finds sorted finds
  rw [List.takeWhile_cons_of_pos (by simp)] at taken
  generalize rest.takeWhile (· ≤ offset) = earlier at taken ⊢
  have counted : (search offset (0 :: rest)).count = earlier.length + 1 := by
    rw [← List.length_take_of_le finds.count_le, ← taken, List.length_cons]
  have isLast : (0 :: rest)[earlier.length]? = some (earlier.getLastD 0) := by
    have isTaken := List.getElem?_take_of_lt (l := 0 :: rest) (Nat.lt_succ_self earlier.length)
    rw [← isTaken, Nat.succ_eq_add_one, ← counted, ← taken, List.getLastD_eq_getLast?,
      ← List.getLast?_cons, List.getLast?_eq_getElem?]
    rfl
  rw [position, Lookup.line_eq, counted, Nat.add_sub_cancel, isLast, Option.getD_some]

end Searching

/-! ## Lines of a text -/

def newline : UInt8 := 10

/-- The last line of some bytes begins at `start`: with the first byte or behind a newline, and no
newline comes after it. -/
def LastBegins (bytes : List UInt8) (start : Nat) : Prop :=
  ∃ finished line, bytes = finished ++ line ∧ start = finished.length ∧ newline ∉ line ∧
    ∀ byte ∈ finished.getLast?, byte = newline

def startsIn (offset : Nat) : List UInt8 → List Nat
  | [] => []
  | byte :: rest => (if byte = newline then [offset + 1] else []) ++ startsIn (offset + 1) rest

theorem startsIn_append (offset : Nat) (front rest : List UInt8) :
    startsIn offset (front ++ rest) =
      startsIn offset front ++ startsIn (offset + front.length) rest := by
  induction front generalizing offset with
  | nil => rfl
  | cons byte front ih => simp [startsIn, ih, Nat.add_assoc, Nat.add_comm 1]

theorem startsIn_of_notMem {bytes : List UInt8} (none : newline ∉ bytes) (offset : Nat) :
    startsIn offset bytes = [] := by
  induction bytes generalizing offset with
  | nil => rfl
  | cons byte rest ih =>
    rw [List.mem_cons, not_or] at none
    simp [startsIn, Ne.symm none.1, ih none.2]

theorem startsOnto_eq (found : List Nat) (offset : Nat) (characters : List Char) :
    startsOnto found offset characters =
      found.reverse ++ startsIn offset (characters.flatMap String.utf8EncodeChar) := by
  induction characters generalizing found offset with
  | nil => simp [startsOnto, startsIn]
  | cons character rest ih =>
    rw [startsOnto, ih, List.flatMap_cons, startsIn_append, String.length_utf8EncodeChar]
    split
    · rename_i isNewline
      rw [isNewline, List.reverse_cons, List.append_assoc]
      rfl
    · rename_i isOther
      have none : newline ∉ String.utf8EncodeChar character := fun member =>
        isOther (Char.toNat_inj.mp (Text.toNat_of_mem_utf8EncodeChar member (by decide)))
      rw [startsIn_of_notMem none, List.nil_append]

theorem lt_of_mem_startsIn {start offset : Nat} {bytes : List UInt8}
    (member : start ∈ startsIn offset bytes) : offset < start := by
  induction bytes generalizing offset with
  | nil => cases member
  | cons byte rest ih =>
    rcases List.mem_append.mp member with own | later
    · have isNext : byte = newline ∧ start = offset + 1 := by simpa using own
      omega
    · exact Nat.lt_of_succ_lt (ih later)

theorem pairwise_startsIn (offset : Nat) (bytes : List UInt8) :
    (startsIn offset bytes).Pairwise (· < ·) := by
  induction bytes generalizing offset with
  | nil => exact .nil
  | cons byte rest ih =>
    rw [startsIn]
    split
    · exact List.pairwise_cons.mpr ⟨fun _ => lt_of_mem_startsIn, ih (offset + 1)⟩
    · exact ih (offset + 1)

theorem takeWhile_startsIn (offset distance : Nat) (bytes : List UInt8) :
    (startsIn offset bytes).takeWhile (· ≤ offset + distance) =
      startsIn offset (bytes.take distance) := by
  induction bytes generalizing offset distance with
  | nil => simp [startsIn]
  | cons byte rest ih =>
    cases distance with
    | zero =>
      cases starts : startsIn offset (byte :: rest) with
      | nil => rfl
      | cons start others =>
        have isBehind : offset < start := lt_of_mem_startsIn (starts ▸ List.mem_cons_self)
        simp [startsIn, isBehind]
    | succ distance =>
      have later := ih (offset + 1) distance
      rw [Nat.add_right_comm, Nat.add_assoc] at later
      rw [List.take_succ_cons, startsIn, startsIn, ← later]
      split <;> simp

theorem length_startsIn (offset : Nat) (bytes : List UInt8) :
    (startsIn offset bytes).length = bytes.count newline := by
  induction bytes generalizing offset with
  | nil => rfl
  | cons byte rest ih =>
    rw [startsIn, List.length_append, ih, List.count_cons, Nat.add_comm]
    split <;> simp_all

theorem lastBegins_startsIn (bytes : List UInt8) :
    LastBegins bytes ((startsIn 0 bytes).getLastD 0) := by
  induction bytes using List.reverseRecOn with
  | nil => exact ⟨[], [], rfl, rfl, by simp, by simp⟩
  | append_singleton front byte ih =>
    rw [startsIn_append, Nat.zero_add]
    by_cases isNewline : byte = newline
    · refine ⟨front ++ [byte], [], (List.append_nil _).symm, ?_, by simp, by simp [isNewline]⟩
      simp [startsIn, isNewline]
    · rcases ih with ⟨finished, line, rfl, start, unbroken, ends⟩
      refine ⟨finished, line ++ [byte], List.append_assoc _ _ _, ?_, ?_, ends⟩
      · simpa [startsIn, isNewline] using start
      · simpa [unbroken] using Ne.symm isNewline

variable (source : String)

/-- The offsets at which lines begin, but for the first one, up to some offset. -/
def startsUpTo (offset : Nat) : List Nat := startsIn 0 ((Text.bytes source).take offset)

theorem starts_ofText : (ofText source).starts = 0 :: startsIn 0 (Text.bytes source) := by
  rw [ofText, startsOnto_eq, Text.bytes_eq]
  rfl

theorem position_ofText (offset : Nat) :
    (ofText source).position offset =
      ⟨(startsUpTo source offset).length + 1,
        offset - (startsUpTo source offset).getLastD 0 + 1⟩ := by
  have sorted : (0 :: startsIn 0 (Text.bytes source)).Pairwise (· < ·) :=
    List.pairwise_cons.mpr ⟨fun _ => lt_of_mem_startsIn, pairwise_startsIn _ _⟩
  have taken := takeWhile_startsIn 0 offset (Text.bytes source)
  rw [Nat.zero_add] at taken
  have isTable : ofText source = ⟨0 :: startsIn 0 (Text.bytes source)⟩ :=
    congrArg mk (starts_ofText source)
  rw [isTable, position_eq sorted, taken, startsUpTo]

theorem getLastD_startsUpTo_le (offset : Nat) : (startsUpTo source offset).getLastD 0 ≤ offset := by
  rcases lastBegins_startsIn ((Text.bytes source).take offset) with ⟨finished, _, whole, start, _⟩
  have isBefore := List.length_take_le offset (Text.bytes source)
  rw [whole, List.length_append] at isBefore
  rw [startsUpTo, start]
  omega

theorem injective_position : Function.Injective (ofText source).position := by
  intro first second same
  simp only [position_ofText, Position.mk.injEq] at same
  -- The starts up to an offset are the first ones of all, so the line says which.
  have isFirst (offset : Nat) : startsUpTo source offset =
      (startsIn 0 (Text.bytes source)).take (startsUpTo source offset).length := by
    have taken := takeWhile_startsIn 0 offset (Text.bytes source)
    rw [startsUpTo, ← taken]
    exact List.prefix_iff_eq_take.mp (List.takeWhile_prefix _)
  have sameStarts : startsUpTo source first = startsUpTo source second := by
    rw [isFirst first, isFirst second, Nat.add_right_cancel same.1]
  have firstBefore := getLastD_startsUpTo_le source first
  have secondBefore := getLastD_startsUpTo_le source second
  rw [sameStarts] at same firstBefore
  omega

/-- The line of an offset is one more than the newlines in front of it, and the column one more than
the bytes from the beginning of its line on. So no two offsets have the same position. -/
theorem positions_counted :
    (∀ offset,
      ((ofText source).position offset).line =
        1 + ((Text.bytes source).take offset).count newline ∧
      ∃ start, LastBegins ((Text.bytes source).take offset) start ∧
        ((ofText source).position offset).column = 1 + (offset - start)) ∧
    Function.Injective (ofText source).position := by
  refine ⟨fun offset => ?_, injective_position source⟩
  simp only [position_ofText]
  refine ⟨?_, _, lastBegins_startsIn _, Nat.add_comm _ _⟩
  rw [startsUpTo, length_startsIn, Nat.add_comm]

end PhpScript.LineTable
