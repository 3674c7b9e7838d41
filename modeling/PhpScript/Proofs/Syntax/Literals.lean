import PhpScript.Proofs.Token.Layout
import PhpScript.Syntax.Expression

/-!
# Texts as literals

Every text can be written between double quotes: a backslash in front of each backslash, double
quote and dollar sign keeps the scanner from ending the literal and the grammar from finding
variables in it. A brace opens code only in front of a dollar sign, which never follows it here.
-/

namespace PhpScript

theorem Text.ofBytes_bytes (text : String) : ofBytes (bytes text) = text := by
  have decoded : String.fromUTF8? text.toByteArray = some text := by
    rw [String.fromUTF8?, dif_pos text.isValidUTF8]
    rfl
  rw [ofBytes, ofBytes?, bytes, Array.toArray_toList, decoded]
  rfl

namespace Segment

def escapeCharacter (character : Char) : List Char :=
  if character ∈ ['\\', '"', '$'] then ['\\', character] else [character]

def escape (text : String) : String := String.ofList (text.toList.flatMap escapeCharacter)

theorem toList_escape (text : String) :
    (escape text).toList = text.toList.flatMap escapeCharacter := by
  simp [escape]

theorem escapeCharacter_cases (character : Char) :
    character ∈ ['\\', '"', '$'] ∧ escapeCharacter character = ['\\', character] ∨
      character ≠ '\\' ∧ character ≠ '"' ∧ character ≠ '$' ∧
        escapeCharacter character = [character] := by
  by_cases isSpecial : character ∈ ['\\', '"', '$']
  · left
    exact ⟨isSpecial, if_pos isSpecial⟩
  · right
    have written : escapeCharacter character = [character] := if_neg isSpecial
    simp only [List.mem_cons, List.not_mem_nil, or_false, not_or] at isSpecial
    exact ⟨isSpecial.1, isSpecial.2.1, isSpecial.2.2, written⟩

theorem head?_flatMap_escapeCharacter (text : List Char) :
    (text.flatMap escapeCharacter).head? ≠ some '$' := by
  cases text with
  | nil => simp
  | cons character text =>
    rcases escapeCharacter_cases character with ⟨_, written⟩ | ⟨_, _, noDollar, written⟩
    · simp [written]
    · simp [written, noDollar]

/-! ## Scanning -/

theorem read_escape (text : String) :
    Lexeme.read '"' ((escape text).toList ++ ['"'] ++ []) =
      (.token (.doubleQuoted (escape text)), ((escape text).toList ++ ['"']).length + 1) := by
  have taken : Lexeme.takeQuoted '"' [] 0 (text.toList.flatMap escapeCharacter ++ ['"']) =
      (some ([].reverse ++ text.toList.flatMap escapeCharacter),
        0 + (text.toList.flatMap escapeCharacter).length + 1) := by
    apply Token.takeQuoted_flatMap
    · decide
    · intro character
      rcases escapeCharacter_cases character with ⟨_, written⟩ | ⟨noBackslash, noQuote, _, written⟩
      · exact .inl written
      · exact .inr ⟨noBackslash, noQuote, written⟩
  have reads (rest : List Char) : Lexeme.read '"' rest = Lexeme.readQuoted '"' rest := rfl
  rw [reads, Lexeme.readQuoted, List.append_nil, toList_escape, taken]
  simp [escape]

theorem scanOnto_escape {mode : Token.Mode} (inCode : mode = .code ∨ mode = .fragment)
    (text : String) (offset : Nat) :
    Token.scanOnto [] offset mode 0 ("\"" ++ escape text ++ "\"").toList =
      .ok [⟨.doubleQuoted (escape text), offset,
        offset + (Text.byteLength (escape text) + 2)⟩] := by
  have written : ("\"" ++ escape text ++ "\"").toList =
      '"' :: ((escape text).toList ++ ['"'] ++ []) := by simp
  have size : Text.encodedSize ('"' :: ((escape text).toList ++ ['"'])) =
      Text.byteLength (escape text) + 2 := by
    have one : Char.utf8Size '"' = 1 := rfl
    simp only [Text.byteLength_eq, Text.encodedSize_cons, Text.encodedSize_append,
      Text.encodedSize_nil, one]
    omega
  rw [written, Token.scanOnto_of_token inCode (read_escape text), size]
  rcases inCode with rfl | rfl
  · rfl
  · rfl

/-! ## Cutting into segments -/

theorem piece_escaped {character : Char} (isSpecial : character ∈ ['\\', '"', '$']) (offset : Nat)
    (rest : List Char) :
    piece offset '\\' (character :: rest) = (.bytes (String.utf8EncodeChar character), 1) := by
  simp only [List.mem_cons, List.not_mem_nil, or_false] at isSpecial
  rcases isSpecial with rfl | rfl | rfl
  · rfl
  · rfl
  · rfl

theorem piece_plain {character : Char} {rest : List Char} (noBackslash : character ≠ '\\')
    (noDollar : character ≠ '$') (noVariable : rest.head? ≠ some '$') (offset : Nat) :
    piece offset character rest = (.bytes (String.utf8EncodeChar character), 0) := by
  unfold piece
  split
  · exact absurd rfl noBackslash
  · exact absurd rfl noDollar
  · exact absurd rfl noDollar
  · exact absurd rfl noVariable
  · rfl

theorem splitOnto_escape (bytes : List UInt8) (offset : Nat) (text : List Char) :
    splitOnto [] bytes offset 0 (text.flatMap escapeCharacter) =
      ((collectText ((text.flatMap String.utf8EncodeChar).reverse ++ bytes) []).reverse, none) := by
  induction text generalizing bytes offset with
  | nil => rfl
  | cons character text ih =>
    have noVariable := head?_flatMap_escapeCharacter text
    rw [List.flatMap_cons, List.flatMap_cons, List.reverse_append, List.append_assoc]
    rcases escapeCharacter_cases character with
      ⟨isSpecial, written⟩ | ⟨noBackslash, _, noDollar, written⟩
    · simp only [written, List.cons_append, List.nil_append]
      rw [splitOnto]
      simp only [piece_escaped isSpecial]
      -- the character behind the backslash is passed over
      rw [splitOnto]
      apply ih
    · simp only [written, List.cons_append, List.nil_append]
      rw [splitOnto]
      simp only [piece_plain noBackslash noDollar noVariable]
      apply ih

theorem split_escape (text : String) (offset : Nat) :
    split (escape text) offset = (if text = "" then [] else [.text text], none) := by
  rw [split, toList_escape, splitOnto_escape, List.append_nil, ← Text.bytes_eq]
  by_cases isEmpty : text = ""
  · subst isEmpty
    rfl
  · have nonempty : Text.bytes text ≠ [] := by
      intro noBytes
      apply isEmpty
      rw [← Text.ofBytes_bytes text, noBytes]
      rfl
    simp [collectText, nonempty, isEmpty, Text.ofBytes_bytes]

theorem interpolation_escape (self : Grammar) (text : String) (offset : Nat) (state : ParserState) :
    self.interpolation (escape text) offset state = .ok (.str text) state := by
  unfold Grammar.interpolation
  rw [split_escape]
  by_cases isEmpty : text = ""
  · subst isEmpty
    rfl
  · simp only [isEmpty, if_false]
    rfl

/-- Between double quotes an escaped text is one literal, wherever code is scanned, and the literal
stands for the text. -/
theorem escaped_text_is_literal (text : String) :
    Token.scanCode ("\"" ++ escape text ++ "\"") =
      .ok [⟨.doubleQuoted (escape text), 0, Text.byteLength (escape text) + 2⟩] ∧
    (∀ offset, Token.scanFragment ("\"" ++ escape text ++ "\"") offset =
      .ok [⟨.doubleQuoted (escape text), offset,
        offset + (Text.byteLength (escape text) + 2)⟩]) ∧
    ∀ (self : Grammar) (offset : Nat) (state : ParserState),
      self.interpolation (escape text) offset state = .ok (.str text) state := by
  refine ⟨?_, ?_, ?_⟩
  · have scanned := scanOnto_escape (.inl rfl : Token.Mode.code = .code ∨ _) text 0
    rwa [Nat.zero_add] at scanned
  · intro offset
    exact scanOnto_escape (.inr rfl) text offset
  · intro self offset state
    exact interpolation_escape self text offset state

end Segment

end PhpScript
