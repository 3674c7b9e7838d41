import PhpScript.Proofs.Value.DecimalKey
import PhpScript.Token.Section
import PhpScript.Value.Render

/-!
# Scanning text that was written

A text that is put together from pieces is scanned piece by piece. The longest match decides where a
token ends, so a piece is always taken together with the text behind it. Words, numbers, symbols and
quoted texts are treated here, each with the condition under which it ends where it was meant to
end.
-/

namespace PhpScript

namespace Token

/-- A piece of code in front of some text is scanned into some tokens, wherever it stands. The
places of the tokens are left open. -/
def Scans (piece : List Char) (tokens : List Token) (rest : List Char) : Prop :=
  ∀ earlier offset, ∃ (located : List (Located Token)) (stop : Nat),
    located.map Located.node = tokens ∧
      scanOnto earlier offset .code 0 (piece ++ rest) =
        scanOnto (located.reverse ++ earlier) stop .code 0 rest

theorem exists_scanOnto_skip (earlier : List (Located Token)) (offset : Nat) (mode : Mode)
    (piece rest : List Char) :
    ∃ stop, scanOnto earlier offset mode piece.length (piece ++ rest) =
      scanOnto earlier stop mode 0 rest := by
  induction piece generalizing offset with
  | nil => exact ⟨offset, rfl⟩
  | cons character piece ih =>
    rcases ih (offset + character.utf8Size) with ⟨stop, skips⟩
    refine ⟨stop, ?_⟩
    rw [← skips]
    rfl

namespace Scans

theorem nil (rest : List Char) : Scans [] [] rest :=
  fun _ offset => ⟨[], offset, rfl, rfl⟩

theorem append {first second rest : List Char} {tokens others : List Token}
    (before : Scans first tokens (second ++ rest)) (behind : Scans second others rest) :
    Scans (first ++ second) (tokens ++ others) rest := by
  intro earlier offset
  rcases before earlier offset with ⟨located, middle, areTokens, scansFirst⟩
  rcases behind (located.reverse ++ earlier) middle with ⟨more, stop, areOthers, scansSecond⟩
  refine ⟨located ++ more, stop, ?_, ?_⟩
  · rw [List.map_append, areTokens, areOthers]
  · rw [List.append_assoc, scansFirst, scansSecond, List.reverse_append, List.append_assoc]

theorem of_read {character : Char} {piece rest : List Char} {token : Token}
    (reads : Lexeme.read character (piece ++ rest) = (.token token, piece.length + 1)) :
    Scans (character :: piece) [token] rest := by
  intro earlier offset
  let slice := character :: (piece ++ rest).take piece.length
  let span : Span := ⟨offset, offset + Text.encodedSize slice⟩
  rcases exists_scanOnto_skip (⟨token, span⟩ :: earlier) (offset + character.utf8Size) .code piece
    rest with ⟨stop, skips⟩
  refine ⟨[⟨token, span⟩], stop, rfl, ?_⟩
  rw [List.cons_append, scanOnto]
  simp only [reads, Nat.add_sub_cancel]
  exact skips

end Scans

/-! ## White space -/

theorem scanOnto_skipBlanks (earlier : List (Located Token)) (offset : Nat) (rest : List Char) :
    scanOnto earlier offset .code (rest.takeWhile Lexeme.isBlank).length rest =
      scanOnto earlier offset .code 0 rest := by
  cases rest with
  | nil => rfl
  | cons character rest =>
    by_cases isBlank : Lexeme.isBlank character = true
    · have reads : Lexeme.read character rest =
          (.blank, (rest.takeWhile Lexeme.isBlank).length + 1) := by
        simp only [Lexeme.read, if_pos isBlank]
      rw [List.takeWhile_cons_of_pos isBlank, List.length_cons]
      conv => rhs; rw [scanOnto]
      simp only [reads, Nat.add_sub_cancel]
      rfl
    · rw [List.takeWhile_cons_of_neg isBlank]
      rfl

theorem scanOnto_blank {character : Char} (isBlank : Lexeme.isBlank character = true)
    (earlier : List (Located Token)) (offset : Nat) (rest : List Char) :
    scanOnto earlier offset .code 0 (character :: rest) =
      scanOnto earlier (offset + character.utf8Size) .code 0 rest := by
  rw [← scanOnto_skipBlanks]
  rw [List.takeWhile_cons_of_pos isBlank, List.length_cons]
  exact scanOnto_skipBlanks earlier (offset + character.utf8Size) rest

theorem scans_blanks {piece : List Char} (areBlank : piece.all Lexeme.isBlank = true)
    (rest : List Char) : Scans piece [] rest := by
  induction piece with
  | nil => exact .nil rest
  | cons character piece ih =>
    rw [List.all_cons, Bool.and_eq_true] at areBlank
    intro earlier offset
    rcases ih areBlank.2 earlier (offset + character.utf8Size) with ⟨located, stop, same, scans⟩
    refine ⟨located, stop, same, ?_⟩
    rw [List.cons_append, scanOnto_blank areBlank.1, scans]

end Token

/-- A text does not begin with a character of some kind. -/
def StopsBefore (isPart : Char → Bool) (rest : List Char) : Prop :=
  ∀ next ∈ rest.head?, isPart next = false

theorem StopsBefore.takeWhile_append {isPart : Char → Bool} {piece rest : List Char}
    (stops : StopsBefore isPart rest) (areParts : piece.all isPart = true) :
    (piece ++ rest).takeWhile isPart = piece := by
  rw [List.takeWhile_append_of_pos (List.all_eq_true.mp areParts)]
  cases rest with
  | nil => simp
  | cons next rest =>
    have isOver := stops next rfl
    rw [List.takeWhile_cons_of_neg (by simp [isOver]), List.append_nil]

namespace Token

open Lexeme

/-! ## Words -/

theorem read_of_isNameStart {character : Char} (starts : isNameStart character = true)
    (rest : List Char) : Lexeme.read character rest = readWord (character :: rest) := by
  have notBlank : isBlank character = false := by
    by_contra isBlank
    simp only [Bool.not_eq_false, Lexeme.isBlank, Bool.or_eq_true, decide_eq_true_eq] at isBlank
    rcases isBlank with (((rfl | rfl) | rfl) | rfl) | rfl <;> exact absurd starts (by decide)
  simp only [Lexeme.read, notBlank, starts, Bool.false_eq_true, if_false, if_true]

theorem readWord_append {piece rest : List Char} (areParts : piece.all isNamePart = true)
    (stops : StopsBefore isNamePart rest) : readWord (piece ++ rest) = readWord piece := by
  have atEnd : StopsBefore isNamePart [] := fun _ isHead => nomatch isHead
  have whole := atEnd.takeWhile_append areParts
  rw [List.append_nil] at whole
  simp only [readWord, stops.takeWhile_append areParts, whole]

theorem scans_word {character : Char} {piece rest : List Char} {token : Token}
    (starts : isNameStart character = true) (areParts : piece.all isNamePart = true)
    (stops : StopsBefore isNamePart rest)
    (reads : readWord (character :: piece) = (.token token, piece.length + 1)) :
    Scans (character :: piece) [token] rest := by
  apply Scans.of_read
  have isPart : isNamePart character = true := by
    simp only [isNameStart, isNamePart, Char.isAlphanum, Bool.or_eq_true] at starts ⊢
    exact starts.imp_left .inl
  rw [read_of_isNameStart starts, ← List.cons_append, readWord_append _ stops, reads]
  rw [List.all_cons, isPart, areParts]
  rfl

/-! ## Numbers -/

theorem kind_of_isDigit {digit : Char} (isDigit : digit.isDigit = true) :
    isBlank digit = false ∧ isNameStart digit = false ∧ isNamePart digit = true ∧
      Numeral.isExponentMark digit = false ∧ digit ≠ '_' := by
  have range := Integer.toNat_of_isDigit isDigit
  rw [← Char.ofNat_toNat digit]
  generalize digit.toNat = code at range
  rcases range with ⟨lower, upper⟩
  interval_cases code <;> decide

theorem takeNumberParts_append {digits rest : List Char}
    (areDigits : ∀ digit ∈ digits, digit.isDigit = true)
    (stops : StopsBefore (fun next => isNamePart next || next = '.') rest) :
    takeNumberParts true false (digits ++ rest) = digits := by
  induction digits with
  | nil =>
    cases rest with
    | nil => rfl
    | cons next rest =>
      have isOver := stops next rfl
      simp only [Bool.or_eq_false_iff, decide_eq_false_iff_not] at isOver
      simp [takeNumberParts, isOver.1, isOver.2]
  | cons digit digits ih =>
    rcases List.forall_mem_cons.mp areDigits with ⟨isDigit, others⟩
    rcases kind_of_isDigit isDigit with ⟨_, _, isPart, noMark, _⟩
    simp [takeNumberParts, isPart, noMark, ih others]

theorem takeGroups_of_digits {digits : List Char}
    (areDigits : ∀ digit ∈ digits, digit.isDigit = true) :
    takeGroups Char.isDigit digits = (digits, []) := by
  induction digits with
  | nil => rfl
  | cons digit digits ih =>
    rcases List.forall_mem_cons.mp areDigits with ⟨isDigit, others⟩
    rcases kind_of_isDigit isDigit with ⟨_, _, _, _, noUnderscore⟩
    rw [takeGroups]
    · simp [isDigit, ih others]
    · rintro _ _ rfl
      exact absurd rfl noUnderscore

section Digits

variable {first : Char} {digits : List Char}
  (areDigits : ∀ digit ∈ first :: digits, digit.isDigit = true)
  (noZero : first = '0' → digits = [])
include areDigits noZero

theorem takeNumeral_of_digits :
    takeNumeral (first :: digits) =
      (some (Numeral.toNumeric false ⟨first :: digits, none, none⟩), []) := by
  have notBased : takeBased? (first :: digits) = none := by
    unfold takeBased?
    split
    · rename_i isBased
      cases isBased
      cases noZero rfl
    · rfl
  have isDecimal : plainInteger? (first :: digits) =
      some (Numeral.toNumeric false ⟨first :: digits, none, none⟩) := by
    unfold plainInteger?
    split
    · rename_i isOctal
      cases isOctal
      cases noZero rfl
    · rfl
  have whole : takeNumber Char.isDigit (first :: digits) = (first :: digits, []) := by
    rw [takeNumber, if_pos (areDigits first List.mem_cons_self), takeGroups_of_digits areDigits]
  simp [takeNumeral, notBased, whole, Numeral.takeExponent, isDecimal]

theorem scans_digits {rest : List Char}
    (stops : StopsBefore (fun next => isNamePart next || next = '.') rest) :
    Scans (first :: digits) [.number (Numeral.toNumeric false ⟨first :: digits, none, none⟩)]
      rest := by
  rcases kind_of_isDigit (areDigits first List.mem_cons_self) with ⟨notBlank, notName, _⟩
  have isDigit := areDigits first List.mem_cons_self
  apply Scans.of_read
  have parts := takeNumberParts_append areDigits stops
  rw [List.cons_append] at parts
  simp [Lexeme.read, notBlank, notName, isDigit, readNumber, parts,
    takeNumeral_of_digits areDigits noZero]

end Digits

theorem scans_toDigits (number : Nat) {rest : List Char}
    (stops : StopsBefore (fun next => isNamePart next || next = '.') rest) :
    Scans (Nat.toDigits 10 number)
      [.number (Numeral.toNumeric false ⟨Nat.toDigits 10 number, none, none⟩)] rest := by
  have areDigits : ∀ digit ∈ Nat.toDigits 10 number, digit.isDigit = true :=
    fun digit member => Nat.isDigit_of_mem_toDigits (by decide) (by decide) member
  rcases Nat.eq_zero_or_pos number with rfl | positive
  · exact scans_digits areDigits (fun _ => rfl) stops
  · have plain := Key.isPlainNumeral_toDigits positive
    cases digits : Nat.toDigits 10 number with
    | nil =>
      rw [digits] at plain
      cases plain
    | cons first others =>
      rw [digits] at areDigits plain
      refine scans_digits areDigits ?_ stops
      rintro rfl
      simp [Key.isPlainNumeral] at plain

/-! ## Symbols -/

def spellings : List (List Char) := ("<>" :: Symbol.all.map Symbol.spelling).map String.toList

/-- The characters that make a longer symbol, if one of them follows. -/
def extensions (mark : Symbol) : List Char :=
  spellings.filterMap fun longer =>
    if mark.spelling.toList.isPrefixOf longer then longer[mark.spelling.toList.length]? else none

theorem mem_spellings_of_ofSpelling? {text : List Char} {mark : Symbol}
    (isSymbol : Symbol.ofSpelling? (String.ofList text) = some mark) : text ∈ spellings := by
  rw [← String.toList_ofList (l := text)]
  apply List.mem_map_of_mem
  simp only [Symbol.ofSpelling?] at isSymbol
  split at isSymbol
  · rename_i same
    exact List.mem_cons.mpr (.inl same)
  · have same := List.find?_some isSymbol
    simp only [decide_eq_true_eq] at same
    refine List.mem_cons_of_mem _ (List.mem_map.mpr ⟨mark, ?_, same⟩)
    exact List.mem_of_find?_eq_some isSymbol

theorem ofSpelling?_spelling (mark : Symbol) : Symbol.ofSpelling? mark.spelling = some mark := by
  cases mark <;> decide

theorem length_spelling (mark : Symbol) :
    mark.spelling.toList.length = 1 ∨ mark.spelling.toList.length = 2 ∨
      mark.spelling.toList.length = 3 := by
  cases mark <;> decide

section Symbols

variable {mark : Symbol} {rest : List Char}
  (stops : StopsBefore (fun next => extensions mark |>.contains next) rest)
include stops

theorem ofSpelling?_take_eq_none {length : Nat} (longer : mark.spelling.toList.length < length)
    (fits : ((mark.spelling.toList ++ rest).take length).length = length) :
    Symbol.ofSpelling? (String.ofList ((mark.spelling.toList ++ rest).take length)) = none := by
  cases found : Symbol.ofSpelling? (String.ofList ((mark.spelling.toList ++ rest).take length)) with
  | none => rfl
  | some other =>
    have member := mem_spellings_of_ofSpelling? found
    cases rest with
    | nil =>
      rw [List.append_nil, List.length_take] at fits
      omega
    | cons next rest =>
      have isOver := stops next rfl
      rcases Nat.exists_eq_add_of_lt longer with ⟨more, rfl⟩
      have isLonger : (mark.spelling.toList ++ next :: rest).take
          (mark.spelling.toList.length + more + 1) =
            mark.spelling.toList ++ next :: rest.take more := by
        rw [Nat.add_assoc, List.take_length_add_append, List.take_succ_cons]
      rw [isLonger] at member
      have isExtension : next ∈ extensions mark := by
        refine List.mem_filterMap.mpr ⟨_, member, ?_⟩
        simp
      simp [isExtension] at isOver

theorem takeSymbol?_spelling :
    takeSymbol? (mark.spelling.toList ++ rest) = some (mark, mark.spelling.toList.length) := by
  let found (length : Nat) : Option (Symbol × Nat) :=
    if ((mark.spelling.toList ++ rest).take length).length = length then
      (Symbol.ofSpelling? (String.ofList ((mark.spelling.toList ++ rest).take length))).map
        (·, length)
    else none
  have own : found mark.spelling.toList.length = some (mark, mark.spelling.toList.length) := by
    simp [found, ofSpelling?_spelling]
  have others : ∀ length, mark.spelling.toList.length < length → found length = none := by
    intro length longer
    simp only [found]
    split
    · rename_i fits
      rw [ofSpelling?_take_eq_none stops longer fits]
      rfl
    · rfl
  -- Longer spellings are tried before the own one, so it is they that have to be ruled out.
  change [3, 2, 1].findSome? found = _
  rcases length_spelling mark with length | length | length <;> rw [length] at own others ⊢
  · simp [others, own]
  · simp [others, own]
  · simp [own]

end Symbols

/-- The characters that begin symbols and nothing else. -/
def symbolStarts : List Char := "=+-*%&|^~<>!:@()[],;".toList

theorem read_of_mem_symbolStarts {character : Char} (starts : character ∈ symbolStarts)
    (rest : List Char) : Lexeme.read character rest = readSymbol (character :: rest) := by
  have cases : character ∈ ['=', '+', '-', '*', '%', '&', '|', '^', '~', '<', '>', '!', ':', '@',
    '(', ')', '[', ']', ',', ';'] := starts
  simp only [List.mem_cons, List.not_mem_nil, or_false] at cases
  rcases cases with rfl | rfl | rfl | rfl | rfl | rfl | rfl | rfl | rfl | rfl | rfl | rfl | rfl |
    rfl | rfl | rfl | rfl | rfl | rfl | rfl <;> rfl

theorem scans_symbol (mark : Symbol) {rest : List Char}
    (starts : mark.spelling.toList.head?.all (symbolStarts.contains ·) = true)
    (stops : StopsBefore (fun next => extensions mark |>.contains next) rest) :
    Scans mark.spelling.toList [.symbol mark] rest := by
  have taken := takeSymbol?_spelling stops
  generalize spelled : mark.spelling.toList = spelling at starts taken
  cases spelling with
  | nil => rcases length_spelling mark with length | length | length <;> simp [spelled] at length
  | cons character piece =>
    apply Scans.of_read
    have isStart : character ∈ symbolStarts := by simpa using starts
    rw [read_of_mem_symbolStarts isStart, readSymbol, ← List.cons_append, taken]
    rfl

theorem scans_symbol_of_extensions_eq_nil (mark : Symbol)
    (starts : mark.spelling.toList.head?.all (symbolStarts.contains ·) = true)
    (alone : extensions mark = []) (rest : List Char) :
    Scans mark.spelling.toList [.symbol mark] rest := by
  refine scans_symbol mark starts fun next _ => ?_
  rw [alone]
  rfl

/-! ## Quoted texts -/

theorem exportCharacter_cases (character : Char) :
    (character = '\\' ∨ character = '\'') ∧
        Value.exportCharacter character = ['\\', character] ∨
      character ≠ '\\' ∧ character ≠ '\'' ∧ Value.exportCharacter character = [character] := by
  by_cases isSpecial : character = '\\' ∨ character = '\''
  · refine .inl ⟨isSpecial, ?_⟩
    rcases isSpecial with rfl | rfl <;> rfl
  · rw [not_or] at isSpecial
    exact .inr ⟨isSpecial.1, isSpecial.2, by simp [Value.exportCharacter, isSpecial.1, isSpecial.2]⟩

theorem takeQuoted_flatMap {quote : Char} {write : Char → List Char} (isOther : quote ≠ '\\')
    (writes : ∀ character, write character = ['\\', character] ∨
      character ≠ '\\' ∧ character ≠ quote ∧ write character = [character])
    (text body rest : List Char) (length : Nat) :
    takeQuoted quote body length (text.flatMap write ++ quote :: rest) =
      (some (body.reverse ++ text.flatMap write), length + (text.flatMap write).length + 1) := by
  induction text generalizing body length with
  | nil =>
    rw [List.flatMap_nil, List.nil_append, takeQuoted, if_pos rfl]
    · simp
    all_goals simp [isOther]
  | cons character text ih =>
    rw [List.flatMap_cons]
    rcases writes character with written | ⟨notBackslash, notQuote, written⟩
    · simp only [written, List.cons_append, List.nil_append]
      rw [takeQuoted, ih]
      · simp
        omega
    · simp only [written, List.cons_append, List.nil_append]
      rw [takeQuoted, if_neg notQuote, ih]
      · simp
        omega
      all_goals simp [notBackslash]

theorem unescapeSingle_flatMap (text : List Char) :
    unescapeSingle (text.flatMap Value.exportCharacter) = text := by
  induction text with
  | nil => rfl
  | cons character text ih =>
    rw [List.flatMap_cons]
    rcases exportCharacter_cases character with ⟨rfl | rfl, written⟩ | ⟨notBackslash, _, written⟩
    · rw [written, List.cons_append, List.cons_append, unescapeSingle]
      simp [ih]
    · rw [written, List.cons_append, List.cons_append, unescapeSingle]
      simp [ih]
    · rw [written, List.cons_append, unescapeSingle]
      · simp [ih]
      all_goals simp [notBackslash]

theorem scans_exportText (text : String) (rest : List Char) :
    Scans (Value.exportText text).toList [.singleQuoted text] rest := by
  have written : (Value.exportText text).toList =
      '\'' :: (text.toList.flatMap Value.exportCharacter ++ ['\'']) := by
    simp [Value.exportText]
  rw [written]
  apply Scans.of_read
  have taken := takeQuoted_flatMap (by decide)
    (fun character => (exportCharacter_cases character).imp_left And.right) text.toList [] rest 0
  rw [← List.singleton_append, ← List.append_assoc] at taken
  have reads : Lexeme.read '\'' (text.toList.flatMap Value.exportCharacter ++ ['\''] ++ rest) =
    readQuoted '\'' (text.toList.flatMap Value.exportCharacter ++ ['\''] ++ rest) := rfl
  rw [reads, readQuoted, taken]
  simp [unescapeSingle_flatMap]

end Token

end PhpScript
