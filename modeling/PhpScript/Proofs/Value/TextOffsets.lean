import PhpScript.Proofs.Syntax.Literals

/-!
# Writing to a position of a text

An index that is written to stands for a position of the text; negative ones count from its end. A
position in front of the text is reported and nothing is written, one behind the end is reached by
filling up with blanks, and one that is out of all proportion fails. What was written is read back
at the same index.
-/

namespace PhpScript

namespace Text

def IsAscii (characters : List Char) : Prop := ∀ character ∈ characters, character.toNat < 128

instance (characters : List Char) : Decidable (IsAscii characters) :=
  List.decidableBAll _ characters

/-- One character of a text is replaced. Where the text is too short for it, blanks come first. -/
structure Overwrites (before : List Char) (position : Nat) (character : Char) (after : List Char) :
    Prop where
  length : after.length = max before.length (position + 1)
  here : after[position]? = some character
  blank : ∀ place, before.length ≤ place → place < position → after[place]? = some ' '
  elsewhere : ∀ place < before.length, place ≠ position → after[place]? = before[place]?

variable {text : String} {characters : List Char} {character : Char} {position : Nat}

theorem flatMap_utf8EncodeChar_of_isAscii (isAscii : IsAscii characters) :
    characters.flatMap String.utf8EncodeChar = characters.map Char.toUInt8 := by
  induction characters with
  | nil => rfl
  | cons first rest ih =>
    rcases List.forall_mem_cons.mp isAscii with ⟨isSmall, others⟩
    have oneByte : first.utf8Size = 1 := by
      rw [Char.utf8Size_eq_one_iff, UInt32.le_iff_toNat_le]
      exact Nat.le_of_lt_succ isSmall
    rw [List.flatMap_cons, String.utf8EncodeChar_eq_singleton oneByte, ih others]
    rfl

theorem bytes_of_isAscii (isAscii : IsAscii text.toList) :
    bytes text = text.toList.map Char.toUInt8 := by
  rw [bytes_eq, flatMap_utf8EncodeChar_of_isAscii isAscii]

theorem ofBytes_of_isAscii (isAscii : IsAscii characters) :
    ofBytes (characters.map Char.toUInt8) = String.ofList characters := by
  rw [← ofBytes_bytes (String.ofList characters), bytes_of_isAscii (by simpa using isAscii)]
  simp

theorem byteLength_of_isAscii (isAscii : IsAscii text.toList) :
    byteLength text = text.toList.length := by
  rw [byteLength_eq, ← length_flatMap_utf8EncodeChar, flatMap_utf8EncodeChar_of_isAscii isAscii]
  simp

theorem byteAt?_eq (text : String) (position : Nat) :
    byteAt? text position = (bytes text)[position]? := by
  rw [bytes, Array.getElem?_toList]
  rfl

theorem ofByte_toUInt8 (isSmall : character.toNat < 128) :
    ofByte character.toUInt8 = String.singleton character := by
  have single : IsAscii [character] := by simpa [IsAscii] using isSmall
  exact ofBytes_of_isAscii single

theorem byteAt?_zero {first : Char} (begins : text.toList.head? = some first)
    (isSmall : first.toNat < 128) : byteAt? text 0 = some first.toUInt8 := by
  rcases List.head?_eq_some_iff.mp begins with ⟨rest, whole⟩
  have single : IsAscii [first] := by simpa [IsAscii] using isSmall
  have own : String.utf8EncodeChar first = [first.toUInt8] := by
    simpa using flatMap_utf8EncodeChar_of_isAscii single
  rw [byteAt?_eq, bytes_eq, whole, List.flatMap_cons, own]
  rfl

theorem byteAt?_of_isAscii (isAscii : IsAscii text.toList) (position : Nat) :
    byteAt? text position = text.toList[position]?.map Char.toUInt8 := by
  rw [byteAt?_eq, bytes_of_isAscii isAscii, List.getElem?_map]

namespace Overwrites

variable {before after : List Char}

theorem set (inside : position < before.length) :
    Overwrites before position character (before.set position character) where
  length := by
    rw [List.length_set]
    omega
  here := List.getElem?_set_self inside
  blank := by
    intro place behind inFront
    omega
  elsewhere place _ differs := List.getElem?_set_ne (Ne.symm differs)

theorem append (outside : before.length ≤ position) :
    Overwrites before position character
      (before ++ List.replicate (position - before.length) ' ' ++ [character]) := by
  have filled : (before ++ List.replicate (position - before.length) ' ').length = position := by
    rw [List.length_append, List.length_replicate]
    omega
  constructor
  · rw [List.length_append, filled, List.length_singleton]
    omega
  · rw [List.getElem?_append_right (le_of_eq filled), filled, Nat.sub_self]
    rfl
  · intro place behind inFront
    rw [List.getElem?_append_left (by omega), List.getElem?_append_right behind,
      List.getElem?_replicate, if_pos (by omega)]
  · intro place inside _
    rw [List.getElem?_append_left (by omega), List.getElem?_append_left inside]

theorem isAscii (overwrites : Overwrites before position character after)
    (wasAscii : IsAscii before) (isSmall : character.toNat < 128) : IsAscii after := by
  intro other member
  rcases List.getElem?_of_mem member with ⟨place, found⟩
  have inside := (List.getElem?_eq_some_iff.mp found).1
  rw [overwrites.length] at inside
  by_cases isHere : place = position
  · subst isHere
    cases found.symm.trans overwrites.here
    exact isSmall
  · by_cases wasInside : place < before.length
    · rw [overwrites.elsewhere place wasInside isHere] at found
      exact wasAscii other (List.mem_of_getElem? found)
    · rw [overwrites.blank place (by omega) (by omega)] at found
      cases found
      decide

end Overwrites

end Text

namespace Value

open Text (IsAscii Overwrites)

variable {text : String} {value : Value} {first : Char} {index : Int64} {position : Nat}

theorem overwrites_replaceByte (isAscii : IsAscii text.toList) (isSmall : first.toNat < 128)
    (position : Nat) :
    Overwrites text.toList position first (replaceByte text position first.toUInt8).toList := by
  unfold replaceByte
  rw [Text.byteLength_of_isAscii isAscii]
  dsimp only
  split
  · rename_i inside
    have overwrites : Overwrites text.toList position first _ := .set inside
    rw [Text.bytes_of_isAscii isAscii, ← List.map_set,
      Text.ofBytes_of_isAscii (overwrites.isAscii isAscii isSmall)]
    simpa using overwrites
  · rename_i outside
    rw [String.toList_append, String.toList_append, Text.toList_blanks, Text.ofByte_toUInt8 isSmall]
    simpa using Overwrites.append (Nat.le_of_not_lt outside)

def shortening (value : Value) : List Problem :=
  if 1 < Text.byteLength value.toText then [.firstByteOnly] else []

/-- The position that an index stands for in a text; it can lie outside of the text. -/
def offsetOf (index : Int64) (length : Nat) : Int :=
  if index.toInt < 0 then length + index.toInt else index.toInt

theorem outcome_writeByte {byte : UInt8} (found : Text.byteAt? value.toText 0 = some byte)
    {offset : Int} (isOffset : offsetOf index (Text.byteLength text) = offset) :
    (writeByte text (.int index) value).outcome =
      if offset < 0 then (shortening value ++ [.illegalStringOffset index], .ok text)
      else if Problem.memoryLimit ≤ offset.toNat then
        (shortening value, .error (.memoryExhausted (offset.toNat + 1)))
      else (shortening value, .ok (replaceByte text offset.toNat byte)) := by
  unfold offsetOf at isOffset
  simp only [writeByte, textIndex, pure_bind, found, isOffset, shortening]
  -- The three ends of a write are the same with and without the first report.
  by_cases isLong : 1 < Text.byteLength value.toText
  · rw [if_pos isLong, if_pos isLong]
    split
    · rfl
    · split <;> rfl
  · rw [if_neg isLong, if_neg isLong]
    split
    · rfl
    · split <;> rfl

theorem bytePosition?_eq (index : Int64) (length : Nat) :
    bytePosition? index length =
      if 0 ≤ offsetOf index length ∧ offsetOf index length < length then
        some (offsetOf index length).toNat
      else none := rfl

theorem byteAt?_of_overwrites {before : List Char} {changed : String}
    (overwrites : Overwrites before position first changed.toList) (isAscii : IsAscii before)
    (isSmall : first.toNat < 128) (isPosition : offsetOf index before.length = position) :
    byteAt? changed index = some (.str (String.singleton first)) := by
  have nowAscii := overwrites.isAscii isAscii isSmall
  have length : Text.byteLength changed = max before.length (position + 1) :=
    (Text.byteLength_of_isAscii nowAscii).trans overwrites.length
  -- A text becomes longer only at positions that are not counted from its end.
  have stays : offsetOf index (Text.byteLength changed) = position := by
    rw [length]
    unfold offsetOf at isPosition ⊢
    split
    · rw [if_pos ‹_›] at isPosition
      omega
    · rw [if_neg ‹_›] at isPosition
      exact isPosition
  have resolved : bytePosition? index (Text.byteLength changed) = some position := by
    rw [bytePosition?_eq, stays, if_pos (by omega), Int.toNat_natCast]
  simp only [byteAt?, resolved, Text.byteAt?_of_isAscii nowAscii, overwrites.here, Option.map_some,
    Option.bind_eq_bind, Option.bind_some, Text.ofByte_toUInt8 isSmall]
  rfl

/-- The length of a text is a word, and so is the position that an index stands for. -/
def ResolvesInWords (index : Int64) (length : Nat) : Prop :=
  length ≤ Integer.maximum ∧ Integer.minimum ≤ offsetOf index length ∧
    offsetOf index length ≤ Integer.maximum

theorem resolvesInWords (index : Int64) {length : Nat} (fits : length ≤ Integer.maximum) :
    ResolvesInWords index length := by
  have lower : Integer.minimum ≤ index.toInt := index.le_toInt
  have upper : index.toInt ≤ Integer.maximum := index.toInt_le
  unfold ResolvesInWords offsetOf
  split <;> omega

/-- A character is written to a text of ASCII characters. In front of the text nothing is written,
at a position that is too large the write fails, and otherwise one character is replaced and read
back. All sums on the way are words. -/
theorem text_offset_written (isAscii : IsAscii text.toList)
    (begins : value.toText.toList.head? = some first) (isSmall : first.toNat < 128)
    (index : Int64) :
    let length := text.toList.length
    let offset := offsetOf index length
    let written := writePath value (.str text) [some (.int index)]
    (index.toInt < -length →
      written =
        { slot := .str text, warnings := shortening value ++ [.illegalStringOffset index] }) ∧
    (-length ≤ index.toInt → Problem.memoryLimit ≤ offset →
      written = { slot := .str text, warnings := shortening value,
                  failure := some (.memoryExhausted (offset.toNat + 1)) }) ∧
    (-length ≤ index.toInt → offset < Problem.memoryLimit →
      ∃ changed, written = { slot := .str changed, warnings := shortening value } ∧
        Overwrites text.toList offset.toNat first changed.toList ∧
        ((str changed).readOffset (.int index)).outcome =
          ([], .ok (.str (String.singleton first))) ∧
        (str changed).quietPath? [.int index] = some (.str (String.singleton first)) ∧
        (length ≤ Integer.maximum → ResolvesInWords index changed.toList.length)) ∧
    (length ≤ Integer.maximum → ResolvesInWords index length ∧ offset + 1 < 2 ^ 64) := by
  intro length offset written
  have isOffset : offsetOf index (Text.byteLength text) = offset := by
    rw [Text.byteLength_of_isAscii isAscii]
  have outcome := outcome_writeByte (Text.byteAt?_zero begins isSmall) isOffset
  have negative : offset < 0 ↔ index.toInt < -length := by
    simp only [offset, offsetOf]
    split <;> omega
  refine ⟨fun inFront => ?_, fun inside isLarge => ?_, fun inside fits => ?_, fun fits => ?_⟩
  · rw [if_pos (negative.mpr inFront)] at outcome
    simp only [written, writePath, vivify, outcome]
    rfl
  · rw [if_neg (by omega), if_pos (by omega)] at outcome
    simp only [written, writePath, vivify, outcome]
    rfl
  · rw [if_neg (by omega), if_neg (by omega)] at outcome
    have overwrites := overwrites_replaceByte isAscii isSmall offset.toNat
    have natural : 0 ≤ offset := by omega
    have isPosition : offsetOf index text.toList.length = offset.toNat :=
      (Int.toNat_of_nonneg natural).symm
    have found := byteAt?_of_overwrites overwrites isAscii isSmall isPosition
    refine ⟨_, ?_, overwrites, ?_, ?_, fun few => resolvesInWords index ?_⟩
    · simp only [written, writePath, vivify, outcome]
      rfl
    · simp only [readOffset, textIndex, pure_bind, found]
      rfl
    · simp only [quietPath?, quietOffset?, quietTextIndex?, Option.bind_some, found]
    · rw [overwrites.length]
      simp only [Problem.memoryLimit, Integer.maximum] at fits few ⊢
      omega
  · have words := resolvesInWords index fits
    exact ⟨words, lt_of_le_of_lt (Int.add_le_add_right words.2.2 1) (by decide)⟩

/-- Two characters behind the end, of which only the first one is written. -/
theorem text_offset_written_behind :
    IsAscii "abc".toList ∧ (str "XY").toText.toList.head? = some 'X' ∧ 'X'.toNat < 128 ∧
      ∃ changed, writePath (.str "XY") (.str "abc") [some (.int 5)] =
          { slot := .str changed, warnings := [.firstByteOnly] } ∧
        Overwrites "abc".toList 5 'X' changed.toList ∧
        (str changed).quietPath? [.int 5] = some (.str "X") := by
  have isAscii : IsAscii "abc".toList := by decide
  have begins : (str "XY").toText.toList.head? = some 'X' := by decide
  have isSmall : 'X'.toNat < 128 := by decide
  rcases (text_offset_written isAscii begins isSmall 5).2.2.1 (by decide) (by decide) with
    ⟨changed, written, overwrites, _, found, _⟩
  exact ⟨isAscii, begins, isSmall, changed, written, overwrites, found⟩

end Value

end PhpScript
