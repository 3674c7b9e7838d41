import Mathlib.Data.List.Infix
import PhpScript.Proofs.Token.Scanning

/-!
# What lexemes are made of

A lexeme takes at least one of the characters it is read from, and no more than there are. What it
takes is its text: white space or a comment, the spelling of a token, or the closing tag.
-/

namespace PhpScript

namespace Text

@[simp]
theorem encodedSize_nil : encodedSize [] = 0 := rfl

theorem foldl_utf8Size (characters : List Char) (size : Nat) :
    characters.foldl (fun size character => size + character.utf8Size) size =
      size + encodedSize characters := by
  induction characters generalizing size with
  | nil => rfl
  | cons character rest ih =>
    rw [encodedSize, List.foldl_cons, List.foldl_cons, ih, ih]
    omega

@[simp]
theorem encodedSize_cons (character : Char) (rest : List Char) :
    encodedSize (character :: rest) = character.utf8Size + encodedSize rest := by
  rw [encodedSize, List.foldl_cons, foldl_utf8Size]
  omega

@[simp]
theorem encodedSize_append (first second : List Char) :
    encodedSize (first ++ second) = encodedSize first + encodedSize second := by
  rw [encodedSize, List.foldl_append, foldl_utf8Size]
  rfl

@[simp]
theorem encodedSize_reverse (characters : List Char) :
    encodedSize characters.reverse = encodedSize characters := by
  induction characters with
  | nil => rfl
  | cons character rest ih =>
    simp only [List.reverse_cons, encodedSize_append, encodedSize_cons, encodedSize_nil, ih]
    omega

theorem encodedSize_pos {characters : List Char} (nonempty : characters ≠ []) :
    0 < encodedSize characters := by
  cases characters with
  | nil => exact absurd rfl nonempty
  | cons character rest =>
    have positive := character.utf8Size_pos
    rw [encodedSize_cons]
    omega

theorem bytes_eq (text : String) : bytes text = text.toList.flatMap String.utf8EncodeChar := by
  rw [bytes, ← String.utf8Encode_toList, List.utf8Encode]
  simp

theorem toNat_of_mem_utf8EncodeChar {character : Char} {byte : UInt8}
    (member : byte ∈ String.utf8EncodeChar character) (isAscii : byte.toNat < 128) :
    character.toNat = byte.toNat := by
  have larger (codes : List Nat) (areLarge : ∀ code ∈ codes, 128 ≤ code ∧ code < 256) :
      byte ∉ codes.map UInt8.ofNat := by
    intro member
    rcases List.mem_map.mp member with ⟨code, listed, rfl⟩
    rcases areLarge code listed with ⟨atLeast, atMost⟩
    rw [UInt8.toNat_ofNat_of_lt' atMost] at isAscii
    omega
  unfold String.utf8EncodeChar at member
  dsimp only at member
  split at member
  · rename_i small
    cases List.mem_singleton.mp member
    exact (UInt8.toNat_ofNat_of_lt' (Nat.lt_of_le_of_lt small (by decide))).symm
  · split at member
    · exact absurd member (larger [_, _] (by simp; omega))
    · split at member
      · exact absurd member (larger [_, _, _] (by simp; omega))
      · exact absurd member (larger [_, _, _, _] (by simp; omega))

theorem length_flatMap_utf8EncodeChar (characters : List Char) :
    (characters.flatMap String.utf8EncodeChar).length = encodedSize characters := by
  induction characters with
  | nil => rfl
  | cons character rest ih => simp [ih]

theorem byteLength_eq (text : String) : byteLength text = encodedSize text.toList := by
  have size : (bytes text).length = byteLength text := by
    rw [bytes, Array.length_toList]
    rfl
  rw [← size, bytes_eq, length_flatMap_utf8EncodeChar]

end Text

namespace Token

/-- How a token is spelled. -/
def IsSpelled : Token → List Char → Prop
  | .inlineText _, _ | .openEcho, _ => False
  | .keyword word, text => Text.asciiLower (String.ofList text) = word.spelling
  | .symbol mark, text => Symbol.ofSpelling? (String.ofList text) = some mark
  | .number _, text => ∃ first ∈ text.head?, first.isDigit = true ∨ first = '.'
  | .singleQuoted value, text =>
    ∃ body, text = '\'' :: (body ++ ['\'']) ∧ Lexeme.unescapeSingle body = value.toList
  | .doubleQuoted raw, text => text = '"' :: (raw.toList ++ ['"'])
  | .variable name, text => text = '$' :: name.toList
  | .identifier name, text => text = name.toList

end Token

namespace Lexeme

/-- A comment: from its mark on, but not into another line or over a closing tag; or up to the
first closing mark. -/
inductive IsComment : List Char → Prop
  | line {mark body : List Char} (opens : mark = ['#'] ∨ mark = ['/', '/']) (oneLine : '\n' ∉ body)
      (noTag : ¬['?', '>'] <:+: body) : IsComment (mark ++ body)
  | block {body : List Char} (closesFirst : ¬['*', '/'] <:+: body ++ ['*']) :
      IsComment (['/', '*'] ++ body ++ ['*', '/'])

/-- How a lexeme is spelled. -/
def Fits : Lexeme → List Char → Prop
  | .blank, text => text.all isBlank = true ∨ IsComment text
  | .token found, text => found.IsSpelled text
  | .closeTag, text => text = ['?', '>']
  | .unexpected, _ | .unterminatedComment, _ => True

/-- A lexeme takes a number of characters from the head of a text, which fit it. -/
def IsAt (text : List Char) (found : Lexeme × Nat) : Prop :=
  ∃ piece after, text = piece ++ after ∧ found.2 = piece.length ∧ piece ≠ [] ∧ found.1.Fits piece

/-! ## White space and comments -/

theorem exists_lineComment (text : List Char) :
    ∃ body after, text = body ++ after ∧ lineCommentLength text = body.length ∧ '\n' ∉ body ∧
      ¬['?', '>'] <:+: body := by
  fun_induction lineCommentLength text with
  | case1 => exact ⟨[], [], by simp⟩
  | case2 rest => exact ⟨[], '\n' :: rest, by simp⟩
  | case3 rest => exact ⟨[], '?' :: '>' :: rest, by simp⟩
  | case4 character rest notNewline notTag ih =>
    rcases ih with ⟨body, after, rfl, length, oneLine, noTag⟩
    refine ⟨character :: body, after, rfl, by simp [length], ?_, ?_⟩
    · rw [List.mem_cons, not_or]
      exact ⟨fun same => notNewline same.symm, oneLine⟩
    · rw [List.infix_cons_iff, not_or]
      refine ⟨?_, noTag⟩
      rintro ⟨behind, starts⟩
      simp only [List.cons_append, List.nil_append, List.cons.injEq] at starts
      rcases starts with ⟨rfl, rfl⟩
      exact notTag _ rfl rfl

theorem exists_blockComment {text : List Char} {length : Nat}
    (ends : blockCommentLength? text = some length) :
    ∃ body after, text = body ++ '*' :: '/' :: after ∧ length = body.length + 2 ∧
      ¬['*', '/'] <:+: body ++ ['*'] := by
  fun_induction blockCommentLength? text generalizing length with
  | case1 => cases ends
  | case2 rest =>
    cases ends
    refine ⟨[], rest, rfl, rfl, ?_⟩
    decide
  | case3 character rest notClosing ih =>
    rcases Option.map_eq_some_iff.mp ends with ⟨inner, endsInner, rfl⟩
    rcases ih endsInner with ⟨body, after, rfl, rfl, closesFirst⟩
    refine ⟨character :: body, after, rfl, by simp, ?_⟩
    rw [List.cons_append, List.infix_cons_iff, not_or]
    refine ⟨?_, closesFirst⟩
    rintro ⟨behind, starts⟩
    simp only [List.cons_append, List.nil_append, List.cons.injEq] at starts
    rcases starts with ⟨rfl, starts⟩
    cases body with
    | nil => cases starts
    | cons next body =>
      cases starts
      exact notClosing _ rfl rfl

theorem isAt_lineComment {mark : List Char} (opens : mark = ['#'] ∨ mark = ['/', '/'])
    (rest : List Char) : IsAt (mark ++ rest) (.blank, lineCommentLength rest + mark.length) := by
  rcases exists_lineComment rest with ⟨body, after, same, length, oneLine, noTag⟩
  refine ⟨mark ++ body, after, ?_, ?_, ?_, .inr (.line opens oneLine noTag)⟩
  · rw [List.append_assoc, ← same]
  · simp only [length, List.length_append]
    omega
  · rcases opens with rfl | rfl <;> simp

theorem isAt_blockComment (rest : List Char) :
    IsAt ('/' :: '*' :: rest)
      (match blockCommentLength? rest with
      | some length => (.blank, length + 2)
      | none => (.unterminatedComment, 2)) := by
  split
  · rename_i length ends
    rcases exists_blockComment ends with ⟨body, after, rfl, rfl, closesFirst⟩
    refine ⟨['/', '*'] ++ body ++ ['*', '/'], after, ?_, ?_, ?_, .inr (.block closesFirst)⟩
    · simp
    · simp
    · simp
  · exact ⟨['/', '*'], rest, rfl, rfl, by simp, trivial⟩

/-! ## Words and symbols -/

theorem isAt_readWord {character : Char} (isPart : isNamePart character = true)
    (rest : List Char) : IsAt (character :: rest) (readWord (character :: rest)) := by
  refine ⟨(character :: rest).takeWhile isNamePart, (character :: rest).dropWhile isNamePart,
    List.takeWhile_append_dropWhile.symm, rfl, ?_, ?_⟩
  · simp [List.takeWhile_cons_of_pos isPart]
  · simp only [readWord, Fits]
    split
    · rename_i keyword isKeyword
      have same := List.find?_some isKeyword
      simpa [Token.IsSpelled] using (of_decide_eq_true same).symm
    · simp [Token.IsSpelled]

theorem isAt_variable (rest : List Char) :
    IsAt ('$' :: rest) (.token (.variable (String.ofList (rest.takeWhile isNamePart))),
      (rest.takeWhile isNamePart).length + 1) := by
  refine ⟨'$' :: rest.takeWhile isNamePart, rest.dropWhile isNamePart, ?_, rfl, by simp, ?_⟩
  · rw [List.cons_append, List.takeWhile_append_dropWhile]
  · simp [Fits, Token.IsSpelled]

theorem isAt_readSymbol (character : Char) (rest : List Char) :
    IsAt (character :: rest) (readSymbol (character :: rest)) := by
  unfold readSymbol
  split
  · rename_i symbol length isSymbol
    rcases List.exists_of_findSome?_eq_some isSymbol with ⟨size, member, found⟩
    dsimp only at found
    split at found
    · rename_i fits
      rcases Option.map_eq_some_iff.mp found with ⟨mark, isMark, same⟩
      cases same
      refine ⟨(character :: rest).take length, (character :: rest).drop length,
        (List.take_append_drop _ _).symm, fits.symm, ?_, isMark⟩
      rintro isEmpty
      rw [isEmpty] at fits
      subst fits
      simp at member
    · cases found
  · exact ⟨[character], rest, rfl, rfl, by simp, trivial⟩

/-! ## Quoted literals -/

theorem takeQuoted_cases (quote : Char) (body : List Char) (length : Nat) (text : List Char) :
    (∃ piece after, text = piece ++ quote :: after ∧
        takeQuoted quote body length text =
          (some (body.reverse ++ piece), length + piece.length + 1)) ∨
      ∃ piece after, text = piece ++ after ∧
        takeQuoted quote body length text = (none, length + piece.length) := by
  fun_induction takeQuoted quote body length text with
  | case1 body length => exact .inr ⟨[], [], rfl, rfl⟩
  | case2 body length => exact .inr ⟨[], ['\\'], rfl, rfl⟩
  | case3 body length escaped rest ih =>
    rcases ih with ⟨piece, after, rfl, taken⟩ | ⟨piece, after, rfl, taken⟩
    · refine .inl ⟨'\\' :: escaped :: piece, after, rfl, ?_⟩
      rw [taken]
      simp
      omega
    · refine .inr ⟨'\\' :: escaped :: piece, after, rfl, ?_⟩
      rw [taken]
      simp
      omega
  | case4 body length rest => exact .inl ⟨[], rest, rfl, by simp⟩
  | case5 body length character rest _ _ notQuote ih =>
    rcases ih with ⟨piece, after, rfl, taken⟩ | ⟨piece, after, rfl, taken⟩
    · refine .inl ⟨character :: piece, after, rfl, ?_⟩
      rw [taken]
      simp
      omega
    · refine .inr ⟨character :: piece, after, rfl, ?_⟩
      rw [taken]
      simp
      omega

theorem isAt_readQuoted {quote : Char} (isQuote : quote = '\'' ∨ quote = '"') (rest : List Char) :
    IsAt (quote :: rest) (readQuoted quote rest) := by
  rcases takeQuoted_cases quote [] 0 rest with
    ⟨piece, after, rfl, taken⟩ | ⟨piece, after, rfl, taken⟩
  · refine ⟨quote :: (piece ++ [quote]), after, by simp, ?_, by simp, ?_⟩
    · simp [readQuoted, taken]
    · rcases isQuote with rfl | rfl
      · simp [readQuoted, taken, Fits, Token.IsSpelled]
      · simp [readQuoted, taken, Fits, Token.IsSpelled]
  · refine ⟨quote :: piece, after, rfl, ?_, by simp, ?_⟩
    · simp [readQuoted, taken]
    · simp [readQuoted, taken, Fits]

/-! ## Numbers -/

theorem takeNumberParts_isPrefix (mayPoint mayBeSigned : Bool) (text : List Char) :
    takeNumberParts mayPoint mayBeSigned text <+: text := by
  fun_induction takeNumberParts mayPoint mayBeSigned text with
  | case1 => exact List.prefix_refl _
  | case2 _ _ character rest _ ih => exact List.cons_prefix_cons.mpr ⟨rfl, ih⟩
  | case3 _ _ character rest _ _ ih => exact List.cons_prefix_cons.mpr ⟨rfl, ih⟩
  | case4 _ _ character rest _ _ _ ih => exact List.cons_prefix_cons.mpr ⟨rfl, ih⟩
  | case5 => exact List.nil_prefix

theorem takeGroups_isSuffix (isDigit : Char → Bool) (text : List Char) :
    (takeGroups isDigit text).2 <:+ text := by
  fun_induction takeGroups isDigit text with
  | case1 => exact List.suffix_refl _
  | case2 digit rest _ digits after taken ih =>
    rw [taken] at ih
    exact ih.trans ((List.suffix_cons digit rest).trans (List.suffix_cons '_' _))
  | case3 => exact List.suffix_refl _
  | case4 character rest _ _ digits after taken ih =>
    rw [taken] at ih
    exact ih.trans (List.suffix_cons character rest)
  | case5 => exact List.suffix_refl _

theorem takeNumber_isSuffix (isDigit : Char → Bool) (text : List Char) :
    (takeNumber isDigit text).2 <:+ text := by
  unfold takeNumber
  split
  · exact List.suffix_refl _
  · split
    · exact takeGroups_isSuffix isDigit _
    · exact List.suffix_refl _

theorem takeNumber_isSuffix_tail {digit : Char} (isDigit : digit.isDigit = true)
    (rest : List Char) : (takeNumber Char.isDigit (digit :: rest)).2 <:+ rest := by
  rcases Token.kind_of_isDigit isDigit with ⟨_, _, _, _, noUnderscore⟩
  rw [takeNumber, if_pos isDigit, takeGroups]
  · simpa [isDigit] using takeGroups_isSuffix Char.isDigit rest
  · rintro _ _ rfl
    exact absurd rfl noUnderscore

theorem takeBased?_isSuffix {text after : List Char} {number : Numeric}
    (isBased : takeBased? text = some (number, after)) : ∃ first rest, text = first :: rest ∧
      after <:+ rest := by
  unfold takeBased? at isBased
  split at isBased
  · rename_i letter rest
    dsimp only at isBased
    split at isBased
    · cases isBased
    · rename_i base isDigit _
      have suffix := takeNumber_isSuffix isDigit rest
      split at isBased
      · cases isBased
      · rename_i digits behind _ taken
        cases isBased
        rw [taken] at suffix
        exact ⟨'0', letter :: rest, rfl, suffix.trans (List.suffix_cons _ _)⟩
  · cases isBased

theorem takeExponent_isSuffix (text : List Char) : (Numeral.takeExponent text).2 <:+ text := by
  have sign : ∀ text : List Char, (Numeral.takeSign text).2 <:+ text := by
    intro text
    unfold Numeral.takeSign
    split
    · exact List.suffix_cons _ _
    · exact List.suffix_cons _ _
    · exact List.suffix_refl _
  unfold Numeral.takeExponent
  split
  · rename_i mark rest
    dsimp only [Numeral.takeDigits]
    split
    · split
      · exact List.suffix_refl _
      · exact (List.dropWhile_suffix _).trans ((sign rest).trans (List.suffix_cons _ _))
    · exact List.suffix_refl _
  · exact List.suffix_refl _

theorem takeNumeral_isSuffix {first : Char} (starts : first.isDigit = true ∨ first = '.')
    (rest : List Char) : (takeNumeral (first :: rest)).2 <:+ rest := by
  unfold takeNumeral
  split
  · rename_i number after isBased
    rcases takeBased?_isSuffix isBased with ⟨_, _, same, suffix⟩
    cases same
    exact suffix
  · have wholeSuffix := takeNumber_isSuffix Char.isDigit (first :: rest)
    have wholeSuffixTail : first ≠ '.' → (takeNumber Char.isDigit (first :: rest)).2 <:+ rest :=
      fun noPoint => takeNumber_isSuffix_tail (starts.resolve_right noPoint) rest
    have wholeOfPoint : first = '.' →
        (takeNumber Char.isDigit (first :: rest)).2 = '.' :: rest := by
      rintro rfl
      rfl
    generalize takeNumber Char.isDigit (first :: rest) = taken at *
    rcases taken with ⟨whole, afterWhole⟩
    dsimp only at *
    split
    · rename_i behind
      have behindSuffix : behind <:+ rest := by
        rcases List.suffix_cons_iff.mp wholeSuffix with same | suffix
        · cases same
          exact List.suffix_refl _
        · exact (List.suffix_cons _ _).trans suffix
      have fractionSuffix := takeNumber_isSuffix Char.isDigit behind
      have exponentSuffix := takeExponent_isSuffix (takeNumber Char.isDigit behind).2
      have suffix := exponentSuffix.trans (fractionSuffix.trans behindSuffix)
      split
      · exact suffix
      · exact suffix
    · rename_i behind noPoint
      have isDigit : first ≠ '.' := by
        rintro isPoint
        exact noPoint rest (wholeOfPoint isPoint)
      have exponentSuffix := takeExponent_isSuffix afterWhole
      split
      · exact exponentSuffix.trans (wholeSuffixTail isDigit)
      · split
        · exact exponentSuffix.trans (wholeSuffixTail isDigit)
        · refine List.IsSuffix.trans ?_ (wholeSuffixTail isDigit)
          split
          · exact List.suffix_cons _ _
          · exact List.suffix_refl _

theorem isAt_readNumber {first : Char} (starts : first.isDigit = true ∨ first = '.')
    (rest : List Char) : IsAt (first :: rest) (readNumber (first :: rest)) := by
  have isCandidate : ∃ flag, takeNumberParts true false (first :: rest) =
      first :: takeNumberParts flag false rest := by
    rcases starts with isDigit | rfl
    · rcases Token.kind_of_isDigit isDigit with ⟨_, _, isPart, noMark, _⟩
      exact ⟨true, by simp [takeNumberParts, isPart, noMark]⟩
    · exact ⟨false, rfl⟩
  rcases isCandidate with ⟨flag, isCandidate⟩
  rcases takeNumberParts_isPrefix flag false rest with ⟨beyond, split⟩
  rcases takeNumeral_isSuffix starts (takeNumberParts flag false rest) with ⟨taken, isTaken⟩
  refine ⟨first :: taken, (takeNumeral (first :: takeNumberParts flag false rest)).2 ++ beyond,
    ?_, ?_, by simp, ?_⟩
  · rw [List.cons_append, ← List.append_assoc, isTaken, split]
  · have length := congrArg List.length isTaken
    simp only [List.length_append] at length
    simp only [readNumber, isCandidate, List.length_cons]
    omega
  · simp only [readNumber, isCandidate]
    cases (takeNumeral (first :: takeNumberParts flag false rest)).1 with
    | none => trivial
    | some number => exact ⟨first, rfl, starts⟩

/-! ## All lexemes -/

theorem isAt_read (character : Char) (rest : List Char) :
    IsAt (character :: rest) (read character rest) := by
  unfold read
  dsimp only
  split
  · rename_i isBlank
    refine ⟨character :: rest.takeWhile Lexeme.isBlank, rest.dropWhile Lexeme.isBlank, ?_, rfl,
      by simp, ?_⟩
    · rw [List.cons_append, List.takeWhile_append_dropWhile]
    · left
      simp [isBlank, List.all_takeWhile]
  · split
    · rename_i starts
      refine isAt_readWord ?_ rest
      simp only [isNameStart, isNamePart, Char.isAlphanum, Bool.or_eq_true] at starts ⊢
      exact starts.imp_left .inl
    · split
      · rename_i isDigit
        exact isAt_readNumber (.inl isDigit) rest
      · split
        · rename_i isQuote
          simp only [Bool.or_eq_true, decide_eq_true_eq] at isQuote
          exact isAt_readQuoted isQuote rest
        · split
          · exact isAt_lineComment (.inl rfl) rest
          · exact isAt_lineComment (.inr rfl) _
          · exact isAt_blockComment _
          · exact ⟨['?', '>'], _, rfl, rfl, by simp, rfl⟩
          · split
            · exact isAt_readNumber (.inr rfl) _
            · exact isAt_readSymbol _ _
          · split
            · exact isAt_variable _
            · exact isAt_readSymbol _ _
          · exact isAt_readSymbol _ _

end Lexeme

end PhpScript
