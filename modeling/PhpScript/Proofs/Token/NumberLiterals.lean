import PhpScript.Proofs.Number.Exactness
import PhpScript.Proofs.Number.Spelling
import PhpScript.Proofs.Token.Layout

/-!
# Number literals

A number literal and a numeric text with the same characters stand for the same number, although
they are read by different rules. Integers can be written in four bases, with single underscores
between the digits. However an integer is written, the literal is one token, and it is the integer
itself as long as this is in range.
-/

namespace PhpScript

namespace Token

/-- Wherever code is scanned, a text is one token that covers all of it. -/
def ScansAs (text : String) (token : Token) : Prop :=
  scanCode text = .ok [⟨token, 0, Text.byteLength text⟩] ∧
    ∀ offset, scanFragment text offset = .ok [⟨token, offset, offset + Text.byteLength text⟩]

/-- Wherever code is scanned, a text is refused as a whole. -/
def IsRefused (text : String) : Prop :=
  scanCode text = .error ⟨.unexpectedText text, 0, Text.byteLength text⟩ ∧
    ∀ offset, scanFragment text offset =
      .error ⟨.unexpectedText text, offset, offset + Text.byteLength text⟩

end Token

namespace Lexeme

/-! ## Literals that make up a text -/

/-- A text is taken for a number literal as a whole. A malformed one has no value. -/
structure IsNumeral (text : List Char) (number : Option Numeric) : Prop where
  starts : ∃ first rest, text = first :: rest ∧
    (first.isDigit = true ∨ first = '.' ∧ ∃ digit ∈ rest.head?, digit.isDigit = true)
  together : takeNumberParts true false text = text
  taken : takeNumeral text = (number, [])

variable {text : List Char} {number : Option Numeric}

theorem IsNumeral.exists_read (isNumeral : IsNumeral text number) :
    ∃ first rest, text = first :: rest ∧
      read first rest =
        (number.elim .unexpected fun value => .token (.number value), rest.length + 1) := by
  rcases isNumeral with ⟨⟨first, rest, rfl, starts⟩, together, taken⟩
  have reads : readNumber (first :: rest) =
      (number.elim .unexpected fun value => .token (.number value), rest.length + 1) := by
    simp only [readNumber, together, taken, List.length_cons, List.length_nil, Nat.sub_zero]
  refine ⟨first, rest, rfl, ?_⟩
  rcases starts with isDigit | ⟨rfl, digit, isNext, isDigit⟩
  · rcases Token.kind_of_isDigit isDigit with ⟨notBlank, notName, _⟩
    simp only [read, notBlank, notName, isDigit, Bool.false_eq_true, if_false, if_true, reads]
  · rcases rest with _ | ⟨next, rest⟩
    · cases isNext
    · cases isNext
      rw [← reads]
      exact if_pos isDigit

end Lexeme

namespace Token

open Lexeme (IsNumeral)

variable {text : String}

theorem scansAs_of_isNumeral {value : Numeric} (isNumeral : IsNumeral text.toList (some value)) :
    ScansAs text (.number value) := by
  rcases isNumeral.exists_read with ⟨first, rest, same, reads⟩
  have readsAll : Lexeme.read first (rest ++ []) = (.token (.number value), rest.length + 1) := by
    rw [List.append_nil]
    exact reads
  have scanned {mode : Mode} (inCode : mode = .code ∨ mode = .fragment) (offset : Nat) :
      scanOnto [] offset mode 0 text.toList =
        .ok [⟨.number value, offset, offset + Text.byteLength text⟩] := by
    rw [Text.byteLength_eq, same]
    conv => lhs; rw [← List.append_nil rest, scanOnto_of_token inCode readsAll]
    rcases inCode with rfl | rfl
    · rfl
    · rfl
  refine ⟨?_, fun offset => scanned (.inr rfl) offset⟩
  have atStart := scanned (.inl rfl) 0
  rwa [Nat.zero_add] at atStart

theorem isRefused_of_isNumeral (isNumeral : IsNumeral text.toList none) : IsRefused text := by
  rcases isNumeral.exists_read with ⟨first, rest, same, reads⟩
  have refused {mode : Mode} (inCode : mode = .code ∨ mode = .fragment) (offset : Nat) :
      scanOnto [] offset mode 0 text.toList =
        .error ⟨.unexpectedText text, offset, offset + Text.byteLength text⟩ := by
    rcases inCode with rfl | rfl
    all_goals
      rw [Text.byteLength_eq, same, scanOnto]
      simp only [reads, Option.elim_none, Nat.add_sub_cancel, List.take_length, ← same,
        String.ofList_toList]
  refine ⟨?_, fun offset => refused (.inr rfl) offset⟩
  have atStart := refused (.inl rfl) 0
  rwa [Nat.zero_add] at atStart

end Token

namespace Lexeme

/-! ## The extent of a literal -/

section Extent

variable {digits piece rest : List Char}

theorem takeNumberParts_of_nameParts (mayPoint mayBeSigned : Bool)
    (areParts : ∀ character ∈ piece, isNamePart character = true) :
    takeNumberParts mayPoint mayBeSigned piece = piece := by
  induction piece generalizing mayBeSigned with
  | nil => rfl
  | cons character piece ih =>
    rcases List.forall_mem_cons.mp areParts with ⟨isPart, others⟩
    rw [takeNumberParts, if_pos isPart, ih _ others]

theorem takeNumberParts_of_areDigits (mayPoint : Bool) (areDigits : Numeral.AreDigits digits)
    (rest : List Char) :
    takeNumberParts mayPoint false (digits ++ rest) =
      digits ++ takeNumberParts mayPoint false rest := by
  induction digits with
  | nil => rfl
  | cons digit digits ih =>
    rcases List.forall_mem_cons.mp areDigits with ⟨isDigit, others⟩
    rcases Token.kind_of_isDigit isDigit with ⟨_, _, isPart, noMark, _⟩
    rw [List.cons_append, takeNumberParts, if_pos isPart, noMark, ih others, List.cons_append]

theorem isNamePart_of_areDigits (areDigits : Numeral.AreDigits digits) :
    ∀ character ∈ digits, isNamePart character = true :=
  fun character isMember => (Token.kind_of_isDigit (areDigits character isMember)).2.2.1

theorem takeNumberParts_of_isExponent (mayPoint : Bool) {power : Option (Bool × List Char)}
    (isExponent : Numeral.IsExponent piece power) :
    takeNumberParts mayPoint false piece = piece := by
  cases isExponent with
  | none => rfl
  | @some mark sign digits negative isMark isSign areDigits nonempty =>
    have digitsTaken (mayBeSigned : Bool) :=
      takeNumberParts_of_nameParts mayPoint mayBeSigned (isNamePart_of_areDigits areDigits)
    have signTaken : takeNumberParts mayPoint true (sign ++ digits) = sign ++ digits := by
      cases isSign with
      | none => exact digitsTaken true
      | plus => cases mayPoint <;> exact congrArg ('+' :: ·) (digitsTaken false)
      | minus => cases mayPoint <;> exact congrArg ('-' :: ·) (digitsTaken false)
    rcases isMark with rfl | rfl
    · exact congrArg ('e' :: ·) signTaken
    · exact congrArg ('E' :: ·) signTaken

theorem takeNumberParts_of_isSpelled {numeral : Numeral} (isSpelled : numeral.IsSpelled piece) :
    takeNumberParts true false piece = piece := by
  cases isSpelled with
  | @intro mantissa exponent whole fraction power isMantissa isExponent =>
    have pointTaken {behind : List Char} (areBehind : Numeral.AreDigits behind) :
        takeNumberParts true false ('.' :: (behind ++ exponent)) =
          '.' :: (behind ++ exponent) := by
      have afterPoint : takeNumberParts true false ('.' :: (behind ++ exponent)) =
          '.' :: takeNumberParts false false (behind ++ exponent) := rfl
      rw [afterPoint, takeNumberParts_of_areDigits false areBehind,
        takeNumberParts_of_isExponent false isExponent]
    cases isMantissa with
    | whole areDigits _ =>
      rw [takeNumberParts_of_areDigits true areDigits,
        takeNumberParts_of_isExponent true isExponent]
    | pointed areDigits _ areBehind =>
      rw [List.append_assoc, List.cons_append, takeNumberParts_of_areDigits true areDigits,
        pointTaken areBehind]
    | fraction areBehind _ => exact pointTaken areBehind

end Extent

/-! ## Digits and the underscores between them -/

/-- Digits with single underscores between some of them, and the same without the underscores. -/
inductive IsGrouped : List Char → List Char → Prop
  | last (digit : Char) : IsGrouped [digit] [digit]
  | next (digit : Char) {text digits : List Char} (isGrouped : IsGrouped text digits) :
      IsGrouped (digit :: text) (digit :: digits)
  | separated (digit : Char) {text digits : List Char} (isGrouped : IsGrouped text digits) :
      IsGrouped (digit :: '_' :: text) (digit :: digits)

section Groups

variable {text digits rest : List Char} {isDigit : Char → Bool}

theorem IsGrouped.exists_cons (isGrouped : IsGrouped text digits) :
    ∃ first others behind, text = first :: behind ∧ digits = first :: others := by
  cases isGrouped <;> exact ⟨_, _, _, rfl, rfl⟩

theorem IsGrouped.mem_or_eq (isGrouped : IsGrouped text digits) {character : Char}
    (isMember : character ∈ text) : character ∈ digits ∨ character = '_' := by
  induction isGrouped with
  | last digit => exact .inl isMember
  | next digit _ ih => grind
  | separated digit _ ih => grind

theorem isGrouped_self (nonempty : digits ≠ []) : IsGrouped digits digits := by
  induction digits with
  | nil => exact absurd rfl nonempty
  | cons digit digits ih =>
    cases digits with
    | nil => exact .last digit
    | cons second others => exact .next digit (ih (List.cons_ne_nil _ _))

section Taken

variable (noUnderscore : isDigit '_' = false)
include noUnderscore

theorem takeGroups_digit {first : Char} (isFirst : isDigit first = true) (rest : List Char) :
    takeGroups isDigit (first :: rest) =
      (first :: (takeGroups isDigit rest).1, (takeGroups isDigit rest).2) := by
  rw [takeGroups]
  · rw [if_pos isFirst]
  · rintro _ _ rfl
    rw [noUnderscore] at isFirst
    cases isFirst

theorem takeGroups_underscore {first : Char} (isFirst : isDigit first = true) (rest : List Char) :
    takeGroups isDigit ('_' :: first :: rest) = takeGroups isDigit (first :: rest) := by
  rw [takeGroups_digit noUnderscore isFirst, takeGroups, if_pos isFirst]

theorem takeGroups_of_isGrouped (isGrouped : IsGrouped text digits)
    (areDigits : ∀ digit ∈ digits, isDigit digit = true)
    (stops : StopsBefore (fun next => isDigit next || next = '_') rest) :
    takeGroups isDigit (text ++ rest) = (digits, rest) := by
  have stopped : takeGroups isDigit rest = ([], rest) := by
    cases rest with
    | nil => rfl
    | cons next behind =>
      have isOver := stops next rfl
      simp only [Bool.or_eq_false_iff, decide_eq_false_iff_not] at isOver
      rw [takeGroups]
      · rw [if_neg (by simp [isOver.1])]
      · rintro _ _ rfl
        exact absurd rfl isOver.2
  induction isGrouped with
  | last digit =>
    have isFirst := areDigits digit List.mem_cons_self
    rw [List.cons_append, List.nil_append, takeGroups_digit noUnderscore isFirst, stopped]
  | next digit isGrouped ih =>
    rcases List.forall_mem_cons.mp areDigits with ⟨isFirst, others⟩
    rw [List.cons_append, takeGroups_digit noUnderscore isFirst, ih others]
  | @separated digit text digits isGrouped ih =>
    rcases List.forall_mem_cons.mp areDigits with ⟨isFirst, others⟩
    rcases isGrouped.exists_cons with ⟨second, _, behind, rfl, rfl⟩
    have isSecond := others second List.mem_cons_self
    rw [List.cons_append, List.cons_append, takeGroups_digit noUnderscore isFirst,
      List.cons_append, takeGroups_underscore noUnderscore isSecond, ← List.cons_append,
      ih others]

theorem takeNumber_of_isGrouped (isGrouped : IsGrouped text digits)
    (areDigits : ∀ digit ∈ digits, isDigit digit = true)
    (stops : StopsBefore (fun next => isDigit next || next = '_') rest) :
    takeNumber isDigit (text ++ rest) = (digits, rest) := by
  have taken := takeGroups_of_isGrouped noUnderscore isGrouped areDigits stops
  rcases isGrouped.exists_cons with ⟨first, _, behind, rfl, rfl⟩
  rw [List.cons_append] at taken ⊢
  rw [takeNumber, if_pos (areDigits first List.mem_cons_self), taken]

theorem takeNumber_of_isGrouped_all (isGrouped : IsGrouped text digits)
    (areDigits : ∀ digit ∈ digits, isDigit digit = true) :
    takeNumber isDigit text = (digits, []) := by
  have taken := takeNumber_of_isGrouped noUnderscore isGrouped areDigits
    (show StopsBefore _ [] by rintro _ ⟨⟩)
  rwa [List.append_nil] at taken

end Taken

theorem takeNumber_of_areDigits (areDigits : Numeral.AreDigits digits)
    (stops : StopsBefore (fun next => next.isDigit || next = '_') rest) :
    takeNumber Char.isDigit (digits ++ rest) = (digits, rest) := by
  by_cases isEmpty : digits = []
  · subst isEmpty
    cases rest with
    | nil => rfl
    | cons next behind =>
      have isOver := stops next rfl
      simp only [Bool.or_eq_false_iff] at isOver
      simp [takeNumber, isOver.1]
  · exact takeNumber_of_isGrouped (by decide) (isGrouped_self isEmpty) areDigits stops

def announcedBases : List (Char × Nat) :=
  [('x', 16), ('X', 16), ('o', 8), ('O', 8), ('b', 2), ('B', 2)]

theorem takeBased?_eq_none
    (isOther : ∀ letter ∈ text.tail.head?, letter ∉ announcedBases.map Prod.fst) :
    takeBased? text = none := by
  unfold takeBased?
  split
  · rename_i letter rest
    have notLetter := isOther letter rfl
    split
    case h_7 => rfl
    all_goals exact absurd (by decide) notLetter
  · rfl

def IsDecimalPart (character : Char) : Prop :=
  character.isDigit = true ∨ character ∈ ['_', '.', 'e', 'E', '+', '-']

theorem IsDecimalPart.announces_nothing {character : Char} (isPart : IsDecimalPart character) :
    character ∉ announcedBases.map Prod.fst := by
  intro isLetter
  simp only [announcedBases, List.map_cons, List.map_nil, List.mem_cons, List.not_mem_nil,
    or_false] at isLetter
  unfold IsDecimalPart at isPart
  rcases isLetter with rfl | rfl | rfl | rfl | rfl | rfl <;> revert isPart <;> decide

theorem takeBased?_eq_none_of_parts (areParts : ∀ character ∈ text, IsDecimalPart character) :
    takeBased? text = none := by
  apply takeBased?_eq_none
  intro letter isSecond
  have isMember := List.mem_of_mem_tail (List.mem_of_mem_head? isSecond)
  exact (areParts letter isMember).announces_nothing

theorem takeNumeral_of_isGrouped (isGrouped : IsGrouped text digits)
    (areDigits : Numeral.AreDigits digits) : takeNumeral text = (plainInteger? digits, []) := by
  have notBased : takeBased? text = none := by
    apply takeBased?_eq_none_of_parts
    intro character isMember
    rcases isGrouped.mem_or_eq isMember with isDigit | rfl
    · exact .inl (areDigits character isDigit)
    · exact .inr (by decide)
  have taken := takeNumber_of_isGrouped_all (by decide) isGrouped areDigits
  simp [takeNumeral, notBased, taken, Numeral.takeExponent]

end Groups

/-! ## Literals and numeric texts -/

section Decimal

variable {text whole behind written : List Char} {power : Option (Bool × List Char)}
  {numeral : Numeral}

theorem part_of_isExponent (isExponent : Numeral.IsExponent written power) :
    ∀ character ∈ written, IsDecimalPart character := by
  intro character isMember
  cases isExponent with
  | none => cases isMember
  | @some mark sign digits negative isMark isSign areDigits _ =>
    rcases List.mem_cons.mp isMember with rfl | isMember
    · rcases isMark with rfl | rfl <;> exact .inr (by decide)
    · rcases List.mem_append.mp isMember with inSign | isDigit
      · exact .inr (by cases isSign <;> simp_all)
      · exact .inl (areDigits character isDigit)

theorem part_of_isSpelled (isSpelled : numeral.IsSpelled text) :
    ∀ character ∈ text, IsDecimalPart character := by
  intro character isMember
  cases isSpelled with
  | intro isMantissa isExponent =>
    rcases List.mem_append.mp isMember with inMantissa | inExponent
    · cases isMantissa with
      | whole areDigits _ => exact .inl (areDigits character inMantissa)
      | pointed areDigits _ areBehind =>
        rcases List.mem_append.mp inMantissa with isDigit | inFraction
        · exact .inl (areDigits character isDigit)
        · rcases List.mem_cons.mp inFraction with rfl | isDigit
          · exact .inr (by decide)
          · exact .inl (areBehind character isDigit)
      | fraction areBehind _ =>
        rcases List.mem_cons.mp inMantissa with rfl | isDigit
        · exact .inr (by decide)
        · exact .inl (areBehind character isDigit)
    · exact part_of_isExponent isExponent character inExponent

theorem stopsBefore_of_isExponent (isExponent : Numeral.IsExponent written power) :
    StopsBefore (fun next => next.isDigit || next = '_') written := by
  intro next isNext
  cases isExponent with
  | none => cases isNext
  | some isMark _ _ _ =>
    cases isNext
    rcases isMark with rfl | rfl <;> decide

theorem takeExponent_of_isExponent (isExponent : Numeral.IsExponent written power) :
    Numeral.takeExponent written = (power, []) := by
  have taken := (Numeral.takeExponent_of_isExponent isExponent []).2
  rw [List.append_nil] at taken
  exact taken (by rintro _ ⟨⟩)

theorem takeNumeral_of_point (areDigits : Numeral.AreDigits whole)
    (areBehind : Numeral.AreDigits behind) (isExponent : Numeral.IsExponent written power)
    (notBased : takeBased? (whole ++ '.' :: (behind ++ written)) = none) :
    takeNumeral (whole ++ '.' :: (behind ++ written)) =
      (some (.float (Numeral.toFloat false ⟨whole, some behind, power⟩)), []) := by
  have wholeTaken : takeNumber Char.isDigit (whole ++ '.' :: (behind ++ written)) =
      (whole, '.' :: (behind ++ written)) := by
    apply takeNumber_of_areDigits areDigits
    rintro _ ⟨⟩
    decide
  have behindTaken := takeNumber_of_areDigits areBehind (stopsBefore_of_isExponent isExponent)
  have exponentTaken := takeExponent_of_isExponent isExponent
  have noMark : power.isNone = true → written.head?.any Numeral.isExponentMark = false := by
    intro isNone
    cases isExponent with
    | none => rfl
    | some => cases isNone
  simp only [takeNumeral, notBased, wholeTaken, behindTaken, exponentTaken]
  rw [if_neg]
  · rfl
  · simp_all

theorem takeNumeral_of_exponent (areDigits : Numeral.AreDigits whole) {exponent : Bool × List Char}
    (isExponent : Numeral.IsExponent written (some exponent))
    (notBased : takeBased? (whole ++ written) = none) :
    takeNumeral (whole ++ written) =
      (some (.float (Numeral.toFloat false ⟨whole, none, some exponent⟩)), []) := by
  have wholeTaken := takeNumber_of_areDigits areDigits (stopsBefore_of_isExponent isExponent)
  have exponentTaken := takeExponent_of_isExponent isExponent
  simp only [takeNumeral, notBased, wholeTaken]
  split
  · cases isExponent with
    | some isMark => exact absurd isMark (by decide)
  · simp only [exponentTaken]
    rfl

/-- A numeral that is a literal as well: it has a point or an exponent, or it does not begin with a
zero in front of other digits, which would make it octal. -/
def IsDecimal (numeral : Numeral) : Prop :=
  numeral.fraction = none → numeral.exponent = none → numeral.whole.head? = some '0' →
    numeral.whole = ['0']

theorem plainInteger?_eq (noZero : whole.head? = some '0' → whole = ['0']) :
    plainInteger? whole = some (Numeral.toNumeric false ⟨whole, none, none⟩) := by
  unfold plainInteger?
  split
  · cases noZero rfl
  · rfl

theorem takeNumeral_of_isSpelled (isSpelled : numeral.IsSpelled text)
    (isDecimal : IsDecimal numeral) : takeNumeral text = (some (numeral.toNumeric false), []) := by
  have notBased := takeBased?_eq_none_of_parts (part_of_isSpelled isSpelled)
  cases isSpelled with
  | @intro mantissa exponent whole fraction power isMantissa isExponent =>
    cases isMantissa with
    | whole areDigits nonempty =>
      cases power with
      | none =>
        cases isExponent
        rw [List.append_nil, takeNumeral_of_isGrouped (isGrouped_self nonempty) areDigits,
          plainInteger?_eq (isDecimal rfl rfl)]
      | some exponent => exact takeNumeral_of_exponent areDigits isExponent notBased
    | pointed areDigits nonempty areBehind =>
      rw [List.append_assoc, List.cons_append] at notBased ⊢
      exact takeNumeral_of_point areDigits areBehind isExponent notBased
    | fraction areBehind nonempty =>
      have noDigits : Numeral.AreDigits [] := fun _ isMember => absurd isMember List.not_mem_nil
      exact takeNumeral_of_point noDigits areBehind isExponent notBased

theorem isNumeral_of_isSpelled (isSpelled : numeral.IsSpelled text)
    (isDecimal : IsDecimal numeral) : IsNumeral text (some (numeral.toNumeric false)) where
  starts := Numeric.exists_eq_cons_of_isSpelled isSpelled
  together := takeNumberParts_of_isSpelled isSpelled
  taken := takeNumeral_of_isSpelled isSpelled isDecimal

end Decimal

end Lexeme

namespace Token

/-- A literal without underscores is one token, and it is the number that the same characters stand
for in a text: an integer in range is exact, and every other number is the nearest float. -/
theorem literal_is_numeric_text {text : String} {numeral : Numeral}
    (isSpelled : numeral.IsSpelled text.toList) (isDecimal : Lexeme.IsDecimal numeral) :
    ∃ number, ScansAs text (.number number) ∧ Numeric.parse? text = some number ∧
      numeral.Denotes false number := by
  have denotes : numeral.Denotes false (numeral.toNumeric false) := Numeral.denotes_iff.mpr rfl
  refine ⟨numeral.toNumeric false,
    scansAs_of_isNumeral (Lexeme.isNumeral_of_isSpelled isSpelled isDecimal), ?_, denotes⟩
  apply Numeric.parse?_eq_some_iff.mpr
  refine ⟨text.toList, ⟨[], [], ?_, List.nil_subset _, List.nil_subset _⟩, ?_⟩
  · rw [List.append_nil, List.nil_append]
  · exact ⟨false, numeral, .intro .none isSpelled, denotes⟩

/-- The first integer out of range, and a float with a point in front. -/
theorem literal_is_numeric_text_bounds :
    (∃ value, ScansAs "9223372036854775808" (.number (.float value)) ∧
      Numeric.parse? "9223372036854775808" = some (.float value)) ∧
    ∃ value, ScansAs ".5e-3" (.number (.float value)) ∧
      Numeric.parse? ".5e-3" = some (.float value) := by
  constructor
  · have isSpelled : (⟨"9223372036854775808".toList, none, none⟩ : Numeral).IsSpelled
        ("9223372036854775808".toList ++ []) :=
      .intro (.whole (by simp [Numeral.AreDigits]) (by simp)) .none
    rw [List.append_nil] at isSpelled
    rcases literal_is_numeric_text isSpelled (by simp [Lexeme.IsDecimal]) with
      ⟨number | number, scans, parses, denotes⟩
    · have small := (Integer.inRange number).2
      rw [denotes.2.2] at small
      exact absurd small (by decide)
    · exact ⟨number, scans, parses⟩
  · have isSpelled : (⟨[], some ['5'], some (true, ['3'])⟩ : Numeral).IsSpelled
        (['.', '5'] ++ 'e' :: (['-'] ++ ['3'])) :=
      .intro (.fraction (by simp [Numeral.AreDigits]) (by simp))
        (.some (.inl rfl) .minus (by simp [Numeral.AreDigits]) (by simp))
    rw [show ['.', '5'] ++ 'e' :: (['-'] ++ ['3']) = ".5e-3".toList by decide] at isSpelled
    rcases literal_is_numeric_text isSpelled (by simp [Lexeme.IsDecimal]) with
      ⟨number | number, scans, parses, denotes⟩
    · cases denotes.1
    · exact ⟨number, scans, parses⟩

end Token

namespace Lexeme

/-! ## Integers in all notations -/

/-- A character is a digit of a base. -/
def IsDigitOf (base value : Nat) (character : Char) : Prop :=
  value < base ∧ (character = Nat.digitChar value ∨ character = (Nat.digitChar value).toUpper)

/-- How an integer can be written. The digits have their values from the first to the last. -/
inductive SpellsInteger : Nat → List Char → Prop
  | decimal {values : List Nat} {digits text : List Char}
      (areDigits : List.Forall₂ (IsDigitOf 10) values digits)
      (noZero : values.head? = some 0 → values = [0]) (isGrouped : IsGrouped text digits) :
      SpellsInteger (Nat.ofDigits 10 values.reverse) text
  | announced {letter : Char} {base : Nat} {values : List Nat} {digits text : List Char}
      (announces : (letter, base) ∈ announcedBases)
      (areDigits : List.Forall₂ (IsDigitOf base) values digits)
      (isGrouped : IsGrouped text digits) :
      SpellsInteger (Nat.ofDigits base values.reverse) ('0' :: letter :: text)
  | octal {values : List Nat} {digits text : List Char}
      (areDigits : List.Forall₂ (IsDigitOf 8) values digits) (nonempty : values ≠ [])
      (isGrouped : IsGrouped text ('0' :: digits)) :
      SpellsInteger (Nat.ofDigits 8 values.reverse) text

/-- A zero in front of other digits, among them one that is not octal. -/
def IsMalformedOctal (text : List Char) : Prop :=
  ∃ digits, IsGrouped text ('0' :: digits) ∧ Numeral.AreDigits digits ∧
    ('8' ∈ digits ∨ '9' ∈ digits)

section Notations

variable {base value : Nat} {character letter : Char} {values : List Nat} {text digits : List Char}

theorem IsDigitOf.mono {larger : Nat} (isDigit : IsDigitOf base value character)
    (isLarger : base ≤ larger) : IsDigitOf larger value character :=
  ⟨isDigit.1.trans_le isLarger, isDigit.2⟩

theorem IsDigitOf.hex (isDigit : IsDigitOf 16 value character) :
    digitValue character = value ∧ isHexDigit character = true ∧
      isNamePart character = true := by
  rcases isDigit with ⟨small, written⟩
  interval_cases value <;> rcases written with rfl | rfl <;> decide

theorem IsDigitOf.decimal (isDigit : IsDigitOf 10 value character) :
    Integer.digitValue character = value ∧ character.isDigit = true := by
  rcases isDigit with ⟨small, written⟩
  interval_cases value <;> rcases written with rfl | rfl <;> decide

theorem IsDigitOf.octal (isDigit : IsDigitOf 8 value character) :
    isOctalDigit character = true := by
  rcases isDigit with ⟨small, written⟩
  interval_cases value <;> rcases written with rfl | rfl <;> decide

theorem IsDigitOf.binary (isDigit : IsDigitOf 2 value character) :
    isBinaryDigit character = true := by
  rcases isDigit with ⟨small, written⟩
  interval_cases value <;> rcases written with rfl | rfl <;> decide

theorem kind_of_announces (announces : (letter, base) ∈ announcedBases) :
    isNamePart letter = true ∧ base ≤ 16 := by
  simp only [announcedBases, List.mem_cons, Prod.mk.injEq, List.not_mem_nil, or_false] at announces
  rcases announces with ⟨rfl, rfl⟩ | ⟨rfl, rfl⟩ | ⟨rfl, rfl⟩ | ⟨rfl, rfl⟩ | ⟨rfl, rfl⟩ | ⟨rfl, rfl⟩
  all_goals decide

variable (areDigits : List.Forall₂ (IsDigitOf base) values digits)
include areDigits

theorem exists_isDigitOf : ∀ character ∈ digits, ∃ value, IsDigitOf base value character := by
  induction areDigits with
  | nil => exact fun _ isMember => absurd isMember List.not_mem_nil
  | cons isDigit _ ih => exact List.forall_mem_cons.mpr ⟨⟨_, isDigit⟩, ih⟩

theorem map_eq_values {valueOf : Char → Nat} (reads : ∀ {value character},
    IsDigitOf base value character → valueOf character = value) : digits.map valueOf = values := by
  induction areDigits with
  | nil => rfl
  | cons isDigit _ ih => rw [List.map_cons, reads isDigit, ih]

theorem isExact_numberInBase (small : base ≤ 16) :
    (numberInBase base digits).IsExact (Nat.ofDigits base values.reverse : Nat) := by
  have same : digits.map digitValue = values :=
    map_eq_values areDigits fun isDigit => (isDigit.mono small).hex.1
  have value : digits.foldl (fun (value : Int) digit => base * value + digitValue digit) (0 : Nat) =
      Nat.ofDigits base values.reverse := by
    rw [← same, ← List.map_reverse, ← Numeral.foldl_eq_ofDigits]
    exact List.foldl_hom (fun number : Nat => (number : Int)) fun _ _ => by push_cast; rfl
  rw [← value]
  exact Numeric.isExact_ofExact _ (floatInBase base digits)

theorem takeBased?_of_announced (announces : (letter, base) ∈ announcedBases)
    (isGrouped : IsGrouped text digits) :
    takeBased? ('0' :: letter :: text) = some (numberInBase base digits, []) := by
  have taken (isDigit : Char → Bool) (noUnderscore : isDigit '_' = false)
      (admits : ∀ {value character}, IsDigitOf base value character → isDigit character = true) :
      takeNumber isDigit text = (digits, []) := by
    apply takeNumber_of_isGrouped_all noUnderscore isGrouped
    intro character isMember
    rcases exists_isDigitOf areDigits character isMember with ⟨_, isDigitOf⟩
    exact admits isDigitOf
  rcases isGrouped.exists_cons with ⟨first, others, _, _, rfl⟩
  simp only [announcedBases, List.mem_cons, Prod.mk.injEq, List.not_mem_nil, or_false] at announces
  rcases announces with ⟨rfl, rfl⟩ | ⟨rfl, rfl⟩ | ⟨rfl, rfl⟩ | ⟨rfl, rfl⟩ | ⟨rfl, rfl⟩ | ⟨rfl, rfl⟩
  · simp [takeBased?, taken isHexDigit (by decide) fun isDigit => isDigit.hex.2.1]
  · simp [takeBased?, taken isHexDigit (by decide) fun isDigit => isDigit.hex.2.1]
  · simp [takeBased?, taken isOctalDigit (by decide) IsDigitOf.octal]
  · simp [takeBased?, taken isOctalDigit (by decide) IsDigitOf.octal]
  · simp [takeBased?, taken isBinaryDigit (by decide) IsDigitOf.binary]
  · simp [takeBased?, taken isBinaryDigit (by decide) IsDigitOf.binary]

theorem isNumeral_of_announced (announces : (letter, base) ∈ announcedBases)
    (isGrouped : IsGrouped text digits) :
    IsNumeral ('0' :: letter :: text) (some (numberInBase base digits)) where
  starts := ⟨'0', _, rfl, .inl (by decide)⟩
  together := by
    apply takeNumberParts_of_nameParts
    rcases kind_of_announces announces with ⟨isLetter, small⟩
    refine List.forall_mem_cons.mpr ⟨by decide, List.forall_mem_cons.mpr ⟨isLetter, ?_⟩⟩
    intro character isMember
    rcases isGrouped.mem_or_eq isMember with isDigit | rfl
    · rcases exists_isDigitOf areDigits character isDigit with ⟨_, isDigitOf⟩
      exact (isDigitOf.mono small).hex.2.2
    · decide
  taken := by
    simp only [takeNumeral, takeBased?_of_announced areDigits announces isGrouped]

omit areDigits in
theorem isNumeral_of_isGrouped (isGrouped : IsGrouped text digits)
    (areDigits : Numeral.AreDigits digits) : IsNumeral text (plainInteger? digits) where
  starts := by
    rcases isGrouped.exists_cons with ⟨first, _, behind, rfl, rfl⟩
    exact ⟨first, behind, rfl, .inl (areDigits first List.mem_cons_self)⟩
  together := by
    apply takeNumberParts_of_nameParts
    intro character isMember
    rcases isGrouped.mem_or_eq isMember with isDigit | rfl
    · exact isNamePart_of_areDigits areDigits character isDigit
    · decide
  taken := takeNumeral_of_isGrouped isGrouped areDigits

end Notations

theorem plainInteger?_of_octal {digits : List Char} (nonempty : digits ≠ [])
    (areOctal : ∀ digit ∈ digits, isOctalDigit digit = true) :
    plainInteger? ('0' :: digits) = some (numberInBase 8 digits) := by
  rcases List.exists_cons_of_ne_nil nonempty with ⟨first, others, rfl⟩
  exact if_pos (List.all_eq_true.mpr areOctal)

theorem plainInteger?_of_malformed {digits : List Char}
    (isMalformed : '8' ∈ digits ∨ '9' ∈ digits) : plainInteger? ('0' :: digits) = none := by
  have notOctal : ¬digits.all isOctalDigit = true := by
    rw [List.all_eq_true]
    intro areOctal
    rcases isMalformed with isMember | isMember
    · exact absurd (areOctal _ isMember) (by decide)
    · exact absurd (areOctal _ isMember) (by decide)
  cases digits with
  | nil => simp at isMalformed
  | cons first others => exact if_neg notOctal

theorem exists_isNumeral {number : Nat} {text : List Char} (spells : SpellsInteger number text) :
    ∃ value : Numeric, IsNumeral text (some value) ∧ value.IsExact number := by
  cases spells with
  | @decimal values digits _ areDigits noZero isGrouped =>
    have areDecimal : Numeral.AreDigits digits := by
      intro character isMember
      rcases exists_isDigitOf areDigits character isMember with ⟨_, isDigit⟩
      exact isDigit.decimal.2
    have same : digits.map Integer.digitValue = values :=
      map_eq_values areDigits fun isDigit => isDigit.decimal.1
    have notOctal : digits.head? = some '0' → digits = ['0'] := by
      intro isZero
      rcases List.head?_eq_some_iff.mp isZero with ⟨others, rfl⟩
      rw [List.map_cons] at same
      rw [← same] at noZero
      rw [List.map_eq_nil_iff.mp (List.cons.inj (noZero rfl)).2]
    have isNumeral := isNumeral_of_isGrouped isGrouped areDecimal
    rw [plainInteger?_eq notOctal] at isNumeral
    refine ⟨_, isNumeral, ?_⟩
    rw [← same, ← List.map_reverse, ← Numeral.ofDigits_eq]
    exact Numeric.isExact_ofExact _ _
  | @announced letter base values digits text announces areDigits isGrouped =>
    exact ⟨_, isNumeral_of_announced areDigits announces isGrouped,
      isExact_numberInBase areDigits (kind_of_announces announces).2⟩
  | @octal values digits _ areDigits nonempty isGrouped =>
    have isDigit := exists_isDigitOf areDigits
    have areDecimal : Numeral.AreDigits ('0' :: digits) := by
      refine List.forall_mem_cons.mpr ⟨by decide, fun character isMember => ?_⟩
      rcases isDigit character isMember with ⟨_, isDigit⟩
      exact (isDigit.mono (by decide)).decimal.2
    have areOctal : ∀ character ∈ digits, isOctalDigit character = true := by
      intro character isMember
      rcases isDigit character isMember with ⟨_, isDigit⟩
      exact isDigit.octal
    have isNumeral := isNumeral_of_isGrouped isGrouped areDecimal
    have nonempty : digits ≠ [] := by
      rintro rfl
      cases areDigits
      exact nonempty rfl
    rw [plainInteger?_of_octal nonempty areOctal] at isNumeral
    exact ⟨_, isNumeral, isExact_numberInBase areDigits (by decide)⟩

end Lexeme

namespace Token

open Lexeme (SpellsInteger IsMalformedOctal)

/-- However an integer is written, it is one token, which is the integer itself if it is in range
and a float otherwise. Digits behind a zero that are not octal are refused. -/
theorem integer_literals_are_exact (text : String) :
    (∀ number, SpellsInteger number text.toList →
      ((number : Int) ≤ Integer.maximum →
        ∃ value : Int64, value.toInt = number ∧ ScansAs text (.number (.int value))) ∧
      (Integer.maximum < number → ∃ value, ScansAs text (.number (.float value)))) ∧
    (IsMalformedOctal text.toList → IsRefused text) := by
  constructor
  · intro number spells
    rcases Lexeme.exists_isNumeral spells with ⟨found, isNumeral, isExact⟩
    have scans := scansAs_of_isNumeral isNumeral
    constructor
    · intro small
      have inRange : Integer.minimum ≤ number := by
        simp only [Integer.minimum]
        omega
      rcases isExact.isInt ⟨inRange, small⟩ with ⟨value, rfl, same⟩
      exact ⟨value, same, scans⟩
    · intro large
      rcases isExact.isFloat (.inr large) with ⟨value, rfl⟩
      exact ⟨value, scans⟩
  · rintro ⟨digits, isGrouped, areDigits, isMalformed⟩
    have areDecimal : Numeral.AreDigits ('0' :: digits) :=
      List.forall_mem_cons.mpr ⟨by decide, areDigits⟩
    have isNumeral := Lexeme.isNumeral_of_isGrouped isGrouped areDecimal
    rw [Lexeme.plainInteger?_of_malformed isMalformed] at isNumeral
    exact isRefused_of_isNumeral isNumeral

/-- The largest integer, the next one, and a digit that is not octal. -/
theorem integer_literals_are_exact_largest :
    ScansAs "0x7_fffffffFFFFFFFF" (.number (.int Int64.maxValue)) ∧
      (∃ value, ScansAs "0X8_000000000000000" (.number (.float value))) ∧ IsRefused "0_8" := by
  refine ⟨?_, ?_, ?_⟩
  · have areDigits : List.Forall₂ (Lexeme.IsDigitOf 16) (7 :: List.replicate 15 15)
        ('7' :: "fffffffFFFFFFFF".toList) := by
      have isUpper : 'F' = (Nat.digitChar 15).toUpper := by decide
      simp [Lexeme.IsDigitOf, List.replicate, ← isUpper]
    have spells : SpellsInteger _ "0x7_fffffffFFFFFFFF".toList :=
      .announced (by decide) areDigits (.separated '7' (Lexeme.isGrouped_self (by simp)))
    rcases ((integer_literals_are_exact _).1 _ spells).1 (by decide) with ⟨value, same, scans⟩
    have isLargest : value = Int64.maxValue := Int64.toInt_inj.mp (same.trans (by decide))
    rwa [isLargest] at scans
  · have areDigits : List.Forall₂ (Lexeme.IsDigitOf 16) (8 :: List.replicate 15 0)
        ('8' :: "000000000000000".toList) := by
      simp [Lexeme.IsDigitOf, List.replicate]
    have spells : SpellsInteger _ "0X8_000000000000000".toList :=
      .announced (by decide) areDigits (.separated '8' (Lexeme.isGrouped_self (by simp)))
    exact ((integer_literals_are_exact _).1 _ spells).2 (by decide)
  · refine (integer_literals_are_exact "0_8").2 ⟨['8'], ?_, ?_, ?_⟩
    · exact .separated '0' (.last '8')
    · simp [Numeral.AreDigits]
    · simp

end Token

end PhpScript
