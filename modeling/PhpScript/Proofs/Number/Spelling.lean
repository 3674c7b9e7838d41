import Mathlib.Data.Nat.Digits.Defs
import PhpScript.Number.Numeric

/-!
# Numeric texts

`Numeric.IsSpelled` says how a number is written: an optional sign, digits with an optional point or
a point in front of digits, and an optional exponent. The scanner accepts exactly these texts
between blanks. At the head of a text it takes the longest one there is.
-/

namespace PhpScript

namespace Numeral

def AreDigits (text : List Char) : Prop := ∀ digit ∈ text, digit.isDigit = true

/-- An optional sign, and whether it is minus. -/
inductive IsSign : List Char → Bool → Prop
  | none : IsSign [] false
  | plus : IsSign ['+'] false
  | minus : IsSign ['-'] true

/-- Digits with an optional point, or a point in front of digits. -/
inductive IsMantissa : List Char → List Char → Option (List Char) → Prop
  | whole {digits : List Char} (areDigits : AreDigits digits) (nonempty : digits ≠ []) :
      IsMantissa digits digits none
  | pointed {digits behind : List Char} (areDigits : AreDigits digits) (nonempty : digits ≠ [])
      (areBehind : AreDigits behind) : IsMantissa (digits ++ '.' :: behind) digits (some behind)
  | fraction {behind : List Char} (areBehind : AreDigits behind) (nonempty : behind ≠ []) :
      IsMantissa ('.' :: behind) [] (some behind)

/-- An optional exponent: a letter, an optional sign and digits. -/
inductive IsExponent : List Char → Option (Bool × List Char) → Prop
  | none : IsExponent [] none
  | some {mark : Char} {sign digits : List Char} {negative : Bool}
      (isMark : mark = 'e' ∨ mark = 'E') (isSign : IsSign sign negative)
      (areDigits : AreDigits digits) (nonempty : digits ≠ []) :
      IsExponent (mark :: (sign ++ digits)) (some (negative, digits))

/-- How a numeral is spelled. -/
inductive IsSpelled : List Char → Numeral → Prop
  | intro {mantissa exponent whole : List Char} {fraction : Option (List Char)}
      {power : Option (Bool × List Char)} (isMantissa : IsMantissa mantissa whole fraction)
      (isExponent : IsExponent exponent power) :
      IsSpelled (mantissa ++ exponent) ⟨whole, fraction, power⟩

/-- The integer that the digits in front of the point stand for, with its sign. -/
def wholeValue (negative : Bool) (numeral : Numeral) : Int :=
  let magnitude : Nat := Nat.ofDigits 10 (numeral.whole.reverse.map Integer.digitValue)
  if negative then -(magnitude : Int) else magnitude

/-- What a numeral with a sign denotes: an integer if it has neither point nor exponent and is in
range, and otherwise the float nearest to it. -/
def Denotes (negative : Bool) (numeral : Numeral) : Numeric → Prop
  | .int value =>
    numeral.fraction = none ∧ numeral.exponent = none ∧
      value.toInt = numeral.wholeValue negative
  | .float value =>
    (numeral.fraction = none → numeral.exponent = none →
      ∀ word : Int64, word.toInt ≠ numeral.wholeValue negative) ∧
    value = numeral.toFloat negative

theorem foldl_eq_ofDigits (base : Nat) (valueOf : Char → Nat) (digits : List Char) :
    digits.foldl (fun value digit => base * value + valueOf digit) 0 =
      Nat.ofDigits base (digits.reverse.map valueOf) := by
  rw [Nat.ofDigits_eq_foldr, List.foldr_map, List.foldr_reverse]
  simp [Nat.add_comm]

theorem ofDigits_eq (digits : List Char) :
    Integer.ofDigits digits = Nat.ofDigits 10 (digits.reverse.map Integer.digitValue) := by
  rw [Integer.ofDigits_eq_foldDigits]
  exact foldl_eq_ofDigits 10 Integer.digitValue digits

theorem denotes_iff {negative : Bool} {numeral : Numeral} {number : Numeric} :
    numeral.Denotes negative number ↔ number = numeral.toNumeric negative := by
  have magnitude : (if negative then -(Integer.ofDigits numeral.whole : Int)
      else Integer.ofDigits numeral.whole) = numeral.wholeValue negative := by
    simp [wholeValue, ofDigits_eq]
  rcases plain : numeral.fraction.isNone && numeral.exponent.isNone with _ | _
  · have isFloat : numeral.toNumeric negative = .float (numeral.toFloat negative) := by
      simp [toNumeric, plain]
    have notPlain : numeral.fraction = none → numeral.exponent ≠ none := by
      intro noFraction noExponent
      simp [noFraction, noExponent] at plain
    rw [isFloat]
    cases number with
    | int value =>
      simp only [Denotes, reduceCtorEq, iff_false]
      rintro ⟨noFraction, noExponent, _⟩
      exact notPlain noFraction noExponent
    | float value =>
      simp only [Denotes, Numeric.float.injEq, and_iff_right_iff_imp]
      intro _ noFraction noExponent
      exact absurd noExponent (notPlain noFraction)
  · have areNone : numeral.fraction = none ∧ numeral.exponent = none := by
      simpa using plain
    cases fits : Integer.fit? (numeral.wholeValue negative) with
    | some word =>
      have isWord : numeral.toNumeric negative = .int word := by
        simp only [toNumeric, plain, if_true, magnitude, fits]
      have sameValue := Integer.fit?_eq_some_iff.mp fits
      rw [isWord]
      cases number with
      | int value => simp [Denotes, areNone, ← sameValue, Int64.toInt_inj]
      | float value => simp [Denotes, areNone, ← sameValue]
    | none =>
      have outOfRange : ∀ word : Int64, word.toInt ≠ numeral.wholeValue negative := by
        intro word same
        rw [Integer.fit?_eq_some_iff.mpr same] at fits
        cases fits
      have isFloat : numeral.toNumeric negative = .float (numeral.toFloat negative) := by
        simp only [toNumeric, plain, if_true, magnitude, fits]
      rw [isFloat]
      cases number with
      | int value => simp [Denotes, outOfRange]
      | float value => simp [Denotes, outOfRange]

def takeMantissa (text : List Char) : List Char × Option (List Char) × List Char :=
  ((takeDigits text).1, takeFraction (takeDigits text).1 (takeDigits text).2)

theorem take?_eq (text : List Char) :
    take? text =
      if (takeMantissa text).1.isEmpty && (takeMantissa text).2.1.isNone then none
      else
        some (⟨(takeMantissa text).1, (takeMantissa text).2.1,
          (takeExponent (takeMantissa text).2.2).1⟩, (takeExponent (takeMantissa text).2.2).2) :=
  rfl

/-! ## What the scanner takes is written so -/

section Taken

variable {text rest : List Char}

theorem areDigits_takeDigits (text : List Char) : AreDigits (takeDigits text).1 := by
  intro digit isMember
  exact List.all_eq_true.mp List.all_takeWhile digit isMember

theorem takeDigits_append (text : List Char) : (takeDigits text).1 ++ (takeDigits text).2 = text :=
  List.takeWhile_append_dropWhile

theorem exists_isSign (text : List Char) :
    ∃ sign, text = sign ++ (takeSign text).2 ∧ IsSign sign (takeSign text).1 := by
  unfold takeSign
  split
  · exact ⟨['-'], rfl, .minus⟩
  · exact ⟨['+'], rfl, .plus⟩
  · exact ⟨[], rfl, .none⟩

theorem exists_isExponent (text : List Char) :
    ∃ written, text = written ++ (takeExponent text).2 ∧
      IsExponent written (takeExponent text).1 := by
  have without : ∃ written, text = written ++ text ∧ IsExponent written none := ⟨[], rfl, .none⟩
  unfold takeExponent
  split
  · rename_i mark behind
    split
    · rename_i isMark
      rcases exists_isSign behind with ⟨sign, same, isSign⟩
      dsimp only
      split
      · exact without
      · rename_i nonempty
        refine ⟨mark :: (sign ++ (takeDigits (takeSign behind).2).1), ?_, ?_⟩
        · simp [takeDigits_append, ← same]
        · refine .some ?_ isSign (areDigits_takeDigits _) ?_
          · simpa [isExponentMark] using isMark
          · simpa using nonempty
    · exact without
  · exact without

theorem exists_isMantissa_of_takeFraction {whole : List Char} (areDigits : AreDigits whole)
    (taken : (whole.isEmpty && (takeFraction whole text).1.isNone) = false) :
    ∃ written, whole ++ text = written ++ (takeFraction whole text).2 ∧
      IsMantissa written whole (takeFraction whole text).1 := by
  have without (nonempty : whole ≠ []) :
      ∃ written, whole ++ text = written ++ text ∧ IsMantissa written whole none :=
    ⟨whole, rfl, .whole areDigits nonempty⟩
  unfold takeFraction at taken ⊢
  split
  · rename_i behind
    dsimp only at taken ⊢
    split
    · rename_i noDigits
      simp [noDigits] at taken
      exact without taken
    · rename_i hasDigits
      refine ⟨whole ++ '.' :: (takeDigits behind).1, by simp [takeDigits_append], ?_⟩
      cases whole with
      | nil => exact .fraction (areDigits_takeDigits _) (by simpa using hasDigits)
      | cons digit others =>
        exact .pointed areDigits (List.cons_ne_nil _ _) (areDigits_takeDigits _)
  · simp at taken
    exact without taken

theorem exists_isMantissa
    (taken : ((takeMantissa text).1.isEmpty && (takeMantissa text).2.1.isNone) = false) :
    ∃ written, text = written ++ (takeMantissa text).2.2 ∧
      IsMantissa written (takeMantissa text).1 (takeMantissa text).2.1 := by
  rcases exists_isMantissa_of_takeFraction (areDigits_takeDigits text) taken with
    ⟨written, same, isMantissa⟩
  rw [takeDigits_append] at same
  exact ⟨written, same, isMantissa⟩

theorem exists_isSpelled {numeral : Numeral} (taken : take? text = some (numeral, rest)) :
    ∃ written, text = written ++ rest ∧ IsSpelled written numeral := by
  rw [take?_eq] at taken
  split at taken
  · cases taken
  · rename_i hasDigits
    cases taken
    rcases exists_isMantissa (Bool.eq_false_of_not_eq_true hasDigits) with
      ⟨mantissa, sameMantissa, isMantissa⟩
    rcases exists_isExponent (takeMantissa text).2.2 with ⟨exponent, sameExponent, isExponent⟩
    refine ⟨mantissa ++ exponent, ?_, .intro isMantissa isExponent⟩
    rw [List.append_assoc, ← sameExponent, ← sameMantissa]

end Taken

/-! ## What is written so is taken -/

/-- No character that could belong to a number comes next. -/
def Stops (text : List Char) : Prop :=
  ∀ next ∈ text.head?, next.isDigit = false ∧ next ≠ '.' ∧ isExponentMark next = false

section Written

variable {digits after written : List Char}

theorem takeDigits_of_areDigits (areDigits : AreDigits digits) (after : List Char) :
    takeDigits (digits ++ after) = (digits ++ (takeDigits after).1, (takeDigits after).2) := by
  simp only [takeDigits]
  rw [List.takeWhile_append_of_pos areDigits, List.dropWhile_append_of_pos areDigits]

theorem takeDigits_of_other (isOther : ∀ next ∈ after.head?, next.isDigit = false) :
    takeDigits after = ([], after) := by
  cases after with
  | nil => rfl
  | cons next rest => simp [takeDigits, isOther next rfl]

theorem takeSign_of_isSign {sign : List Char} {negative : Bool} (isSign : IsSign sign negative)
    (isOther : sign = [] → ∀ next ∈ after.head?, next ≠ '+' ∧ next ≠ '-') :
    takeSign (sign ++ after) = (negative, after) := by
  cases isSign with
  | plus => rfl
  | minus => rfl
  | none =>
    rw [List.nil_append]
    unfold takeSign
    split
    · exact absurd rfl (isOther rfl '-' rfl).2
    · exact absurd rfl (isOther rfl '+' rfl).1
    · rfl

theorem ne_of_isDigit {digit : Char} (isDigit : digit.isDigit = true) :
    digit ≠ '+' ∧ digit ≠ '-' ∧ digit ≠ '.' ∧ Numeric.isBlank digit = false := by
  have ne (other : Char) (isOther : other.isDigit = false) : digit ≠ other := by
    rintro rfl
    rw [isDigit] at isOther
    cases isOther
  refine ⟨ne '+' rfl, ne '-' rfl, ne '.' rfl, ?_⟩
  by_contra isBlank
  simp only [Numeric.isBlank, Bool.not_eq_false, Bool.or_eq_true, decide_eq_true_eq] at isBlank
  rcases isBlank with ((((rfl | rfl) | rfl) | rfl) | rfl) | rfl
  all_goals exact ne _ rfl rfl

theorem takeExponent_of_isExponent {power : Option (Bool × List Char)}
    (isExponent : IsExponent written power) (after : List Char) :
    (takeExponent (written ++ after)).2 <:+ after ∧
      (Stops after → takeExponent (written ++ after) = (power, after)) := by
  cases isExponent with
  | none =>
    rw [List.nil_append]
    refine ⟨?_, fun stops => ?_⟩
    · rcases exists_isExponent after with ⟨taken, same, _⟩
      exact ⟨taken, same.symm⟩
    · cases after with
      | nil => rfl
      | cons next rest => simp [takeExponent, (stops next rfl).2.2]
  | @some mark sign digits negative isMark isSign areDigits nonempty =>
    have marks : isExponentMark mark = true := by simpa [isExponentMark] using isMark
    have signs : takeSign (sign ++ (digits ++ after)) = (negative, digits ++ after) := by
      refine takeSign_of_isSign isSign fun _ next isNext => ?_
      cases digits with
      | nil => exact absurd rfl nonempty
      | cons digit others =>
        cases isNext
        have apart := ne_of_isDigit (areDigits _ List.mem_cons_self)
        exact ⟨apart.1, apart.2.1⟩
    have taken : takeExponent (mark :: (sign ++ digits) ++ after) =
        (some (negative, digits ++ (takeDigits after).1), (takeDigits after).2) := by
      simp [takeExponent, marks, signs, takeDigits_of_areDigits areDigits, nonempty]
    rw [taken]
    refine ⟨⟨(takeDigits after).1, takeDigits_append after⟩, fun stops => ?_⟩
    rw [takeDigits_of_other fun next isNext => (stops next isNext).1, List.append_nil]

theorem takeFraction_isSuffix (whole text : List Char) : (takeFraction whole text).2 <:+ text := by
  unfold takeFraction
  split
  · rename_i behind
    dsimp only
    split
    · exact List.suffix_rfl
    · exact .trans ⟨(takeDigits behind).1, takeDigits_append behind⟩ (List.suffix_cons _ _)
  · exact List.suffix_rfl

theorem takeFraction_of_areDigits {behind : List Char} (areBehind : AreDigits behind)
    (nonempty : digits ≠ [] ∨ behind ≠ []) (after : List Char) :
    takeFraction digits ('.' :: (behind ++ after)) =
      (some (behind ++ (takeDigits after).1), (takeDigits after).2) := by
  have hasDigits : ¬((digits.isEmpty && (behind ++ (takeDigits after).1).isEmpty) = true) := by
    simp only [Bool.and_eq_true, List.isEmpty_iff, List.append_eq_nil_iff]
    rintro ⟨noDigits, noBehind, _⟩
    rcases nonempty with hasWhole | hasBehind
    · exact hasWhole noDigits
    · exact hasBehind noBehind
  simp only [takeFraction, takeDigits_of_areDigits areBehind, if_neg hasDigits]

theorem takeMantissa_of_isMantissa {whole : List Char} {fraction : Option (List Char)}
    (isMantissa : IsMantissa written whole fraction) (after : List Char) :
    ((takeMantissa (written ++ after)).1.isEmpty &&
      (takeMantissa (written ++ after)).2.1.isNone) = false ∧
    (takeMantissa (written ++ after)).2.2 <:+ after ∧
    ((∀ next ∈ after.head?, next.isDigit = false ∧ next ≠ '.') →
      takeMantissa (written ++ after) = (whole, fraction, after)) := by
  have isSuffix : (takeDigits after).2 <:+ after := ⟨(takeDigits after).1, takeDigits_append after⟩
  have ofPoint {digits behind : List Char} (areDigits : AreDigits digits)
      (areBehind : AreDigits behind) (nonempty : digits ≠ [] ∨ behind ≠ []) :
      takeMantissa (digits ++ '.' :: (behind ++ after)) =
        (digits, some (behind ++ (takeDigits after).1), (takeDigits after).2) := by
    have point : takeDigits ('.' :: (behind ++ after)) = ([], '.' :: (behind ++ after)) :=
      takeDigits_of_other fun next isNext => by cases isNext; rfl
    simp only [takeMantissa, takeDigits_of_areDigits areDigits, point, List.append_nil,
      takeFraction_of_areDigits areBehind nonempty]
  have stopped (isOther : ∀ next ∈ after.head?, next.isDigit = false ∧ next ≠ '.') :
      takeDigits after = ([], after) :=
    takeDigits_of_other fun next isNext => (isOther next isNext).1
  cases isMantissa with
  | whole areDigits nonempty =>
    simp only [takeMantissa, takeDigits_of_areDigits areDigits]
    refine ⟨by simp [nonempty], (takeFraction_isSuffix _ _).trans isSuffix, fun isOther => ?_⟩
    rw [stopped isOther, List.append_nil]
    cases after with
    | nil => rfl
    | cons next rest =>
      have noPoint := (isOther next rfl).2
      simp only [takeFraction]
      split
      · rename_i isPoint
        cases isPoint
        exact absurd rfl noPoint
      · rfl
  | @pointed digits behind areDigits nonempty areBehind =>
    rw [List.append_assoc, List.cons_append, ofPoint areDigits areBehind (.inl nonempty)]
    refine ⟨by simp, isSuffix, fun isOther => ?_⟩
    rw [stopped isOther, List.append_nil]
  | @fraction behind areBehind nonempty =>
    have noDigits : AreDigits [] := fun _ isMember => absurd isMember List.not_mem_nil
    have taken := ofPoint noDigits areBehind (.inr nonempty)
    rw [List.nil_append] at taken
    rw [List.cons_append, taken]
    refine ⟨by simp, isSuffix, fun isOther => ?_⟩
    rw [stopped isOther, List.append_nil]

theorem exists_take? {numeral : Numeral} (isSpelled : IsSpelled written numeral)
    (after : List Char) :
    ∃ found rest, take? (written ++ after) = some (found, rest) ∧ rest <:+ after ∧
      (Stops after → found = numeral ∧ rest = after) := by
  cases isSpelled with
  | @intro mantissa exponent whole fraction power isMantissa isExponent =>
    rw [List.append_assoc]
    rcases takeMantissa_of_isMantissa isMantissa (exponent ++ after) with
      ⟨hasDigits, isSuffix, isExact⟩
    rcases taken : takeMantissa (mantissa ++ (exponent ++ after)) with ⟨digits, point, behind⟩
    have takes : take? (mantissa ++ (exponent ++ after)) =
        some (⟨digits, point, (takeExponent behind).1⟩, (takeExponent behind).2) := by
      rw [take?_eq, hasDigits, taken]
      rfl
    refine ⟨_, _, takes, ?_⟩
    rw [taken] at isSuffix isExact
    rcases takeExponent_of_isExponent isExponent after with ⟨takesExponent, isExactExponent⟩
    cases isExponent with
    | none =>
      refine ⟨.trans ?_ isSuffix, fun stops => ?_⟩
      · rcases exists_isExponent behind with ⟨_, same, _⟩
        exact ⟨_, same.symm⟩
      · have isMantissa := isExact fun next isNext =>
          ⟨(stops next isNext).1, (stops next isNext).2.1⟩
        cases isMantissa
        have isNone := isExactExponent stops
        simp only [List.nil_append] at isNone ⊢
        rw [isNone]
        exact ⟨rfl, rfl⟩
    | some isMark isSign areDigits nonempty =>
      have isMantissa := isExact (by
        intro next isNext
        cases isNext
        rcases isMark with rfl | rfl
        · decide
        · decide)
      cases isMantissa
      refine ⟨takesExponent, fun stops => ?_⟩
      rw [isExactExponent stops]
      exact ⟨rfl, rfl⟩

end Written

end Numeral

namespace Numeric

open Numeral (IsSign Stops)

def AreBlank (text : List Char) : Prop := text ⊆ [' ', '\t', '\n', '\r', '\x0b', '\x0c']

/-- How a number is written, and what it is made of. -/
inductive IsSpelled : List Char → Bool → Numeral → Prop
  | intro {sign unsigned : List Char} {negative : Bool} {numeral : Numeral}
      (isSign : IsSign sign negative) (isNumeral : numeral.IsSpelled unsigned) :
      IsSpelled (sign ++ unsigned) negative numeral

def IsNumber (written : List Char) : Prop := ∃ negative numeral, IsSpelled written negative numeral

/-- A number is spelled in this way. -/
def Spells (written : List Char) (number : Numeric) : Prop :=
  ∃ negative numeral, IsSpelled written negative numeral ∧ numeral.Denotes negative number

/-- A text has only blanks around what is written. -/
def IsPadded (text written : List Char) : Prop :=
  ∃ before after, text = before ++ (written ++ after) ∧ AreBlank before ∧ AreBlank after

def BeginsWith (text written : List Char) : Prop :=
  ∃ before after, text = before ++ (written ++ after) ∧ AreBlank before

variable {text before written after rest : List Char} {negative : Bool} {numeral : Numeral}
  {number : Numeric}

theorem isBlank_iff {character : Char} :
    isBlank character = true ↔ character ∈ [' ', '\t', '\n', '\r', '\x0b', '\x0c'] := by
  simp [isBlank, or_assoc]

theorem take?_eq_map (text : List Char) :
    take? text =
      (Numeral.take? (Numeral.takeSign (text.dropWhile isBlank)).2).map fun taken =>
        (taken.1.toNumeric (Numeral.takeSign (text.dropWhile isBlank)).1, taken.2) :=
  rfl

theorem isNumber_iff : IsNumber written ↔ ∃ number, Spells written number := by
  constructor
  · rintro ⟨negative, numeral, isSpelled⟩
    exact ⟨numeral.toNumeric negative, negative, numeral, isSpelled, Numeral.denotes_iff.mpr rfl⟩
  · rintro ⟨_, negative, numeral, isSpelled, _⟩
    exact ⟨negative, numeral, isSpelled⟩

theorem exists_eq_cons_of_isSpelled (isSpelled : numeral.IsSpelled written) :
    ∃ first others, written = first :: others ∧
      (first.isDigit = true ∨ first = '.' ∧ ∃ digit ∈ others.head?, digit.isDigit = true) := by
  cases isSpelled with
  | intro isMantissa _ =>
    cases isMantissa with
    | whole areDigits nonempty | pointed areDigits nonempty _ =>
      rcases List.exists_cons_of_ne_nil nonempty with ⟨first, others, rfl⟩
      exact ⟨first, _, rfl, .inl (areDigits first List.mem_cons_self)⟩
    | fraction areBehind nonempty =>
      rcases List.exists_cons_of_ne_nil nonempty with ⟨digit, others, rfl⟩
      exact ⟨'.', _, rfl, .inr ⟨rfl, digit, rfl, areBehind digit List.mem_cons_self⟩⟩

theorem exists_eq_cons (isSpelled : IsSpelled written negative numeral) :
    ∃ first others, written = first :: others ∧ isBlank first = false := by
  cases isSpelled with
  | intro isSign isNumeral =>
    rcases exists_eq_cons_of_isSpelled isNumeral with ⟨first, others, rfl, starts⟩
    cases isSign with
    | none =>
      refine ⟨first, others, rfl, ?_⟩
      rcases starts with isDigit | ⟨rfl, _⟩
      · exact (Numeral.ne_of_isDigit isDigit).2.2.2
      · rfl
    | plus => exact ⟨'+', _, rfl, rfl⟩
    | minus => exact ⟨'-', _, rfl, rfl⟩

section Blanks

variable (areBlank : AreBlank before) (isSpelled : IsSpelled written negative numeral)
include areBlank isSpelled

theorem takeWhile_isBlank (after : List Char) :
    (before ++ (written ++ after)).takeWhile isBlank = before ∧
      (before ++ (written ++ after)).dropWhile isBlank = written ++ after := by
  have allBlank : ∀ character ∈ before, isBlank character = true :=
    fun character isMember => isBlank_iff.mpr (areBlank isMember)
  rcases exists_eq_cons isSpelled with ⟨first, others, rfl, noBlank⟩
  rw [List.takeWhile_append_of_pos allBlank, List.dropWhile_append_of_pos allBlank]
  simp [noBlank]

theorem exists_take? (after : List Char) :
    ∃ found rest, take? (before ++ (written ++ after)) = some (found, rest) ∧ rest <:+ after ∧
      (Stops after → found = numeral.toNumeric negative ∧ rest = after) := by
  have dropped := (takeWhile_isBlank areBlank isSpelled after).2
  cases isSpelled with
  | @intro sign unsigned _ _ isSign isNumeral =>
    have signed : Numeral.takeSign (sign ++ (unsigned ++ after)) =
        (negative, unsigned ++ after) := by
      refine Numeral.takeSign_of_isSign isSign fun _ next isNext => ?_
      rcases exists_eq_cons_of_isSpelled isNumeral with ⟨first, others, rfl, starts⟩
      cases isNext
      rcases starts with isDigit | ⟨rfl, _⟩
      · have apart := Numeral.ne_of_isDigit isDigit
        exact ⟨apart.1, apart.2.1⟩
      · decide
    rcases Numeral.exists_take? isNumeral after with ⟨found, rest, takes, isSuffix, isExact⟩
    refine ⟨found.toNumeric negative, rest, ?_, isSuffix, fun stops => ?_⟩
    · rw [take?_eq_map, dropped, List.append_assoc, signed, takes]
      rfl
    · rcases isExact stops with ⟨rfl, rfl⟩
      exact ⟨rfl, rfl⟩

end Blanks

theorem exists_spells_of_take? (taken : take? text = some (number, rest)) :
    ∃ before written, text = before ++ (written ++ rest) ∧ AreBlank before ∧
      Spells written number := by
  rcases Numeral.exists_isSign (text.dropWhile isBlank) with ⟨sign, same, isSign⟩
  rw [take?_eq_map] at taken
  generalize Numeral.takeSign (text.dropWhile isBlank) = signed at taken same isSign
  rcases Option.map_eq_some_iff.mp taken with ⟨⟨numeral, behind⟩, takes, isNumber⟩
  cases isNumber
  rcases Numeral.exists_isSpelled takes with ⟨unsigned, sameUnsigned, isNumeral⟩
  refine ⟨text.takeWhile isBlank, sign ++ unsigned, ?_, fun character isMember => ?_,
    _, numeral, .intro isSign isNumeral, Numeral.denotes_iff.mpr rfl⟩
  · rw [List.append_assoc, ← sameUnsigned, ← same, List.takeWhile_append_dropWhile]
  · exact isBlank_iff.mp (List.all_eq_true.mp List.all_takeWhile character isMember)

theorem Spells.unique {other : Numeric} (spells : Spells written number)
    (spellsOther : Spells written other) : number = other := by
  rcases spells with ⟨negative, numeral, isSpelled, denotes⟩
  rcases spellsOther with ⟨otherNegative, otherNumeral, otherSpelled, otherDenotes⟩
  have noBlank : AreBlank [] := List.nil_subset _
  have stops : Stops [] := fun next isNext => by cases isNext
  rcases exists_take? noBlank isSpelled [] with ⟨found, _, takes, _, isExact⟩
  rcases exists_take? noBlank otherSpelled [] with ⟨otherFound, _, otherTakes, _, otherIsExact⟩
  rw [takes, Option.some.injEq, Prod.mk.injEq] at otherTakes
  rw [Numeral.denotes_iff.mp denotes, Numeral.denotes_iff.mp otherDenotes, ← (isExact stops).1,
    ← (otherIsExact stops).1, otherTakes.1]

theorem length_le_of_take? (taken : take? text = some (number, rest))
    (same : text = before ++ (written ++ rest)) (areBlank : AreBlank before)
    (isNumber : IsNumber written) {other : List Char} (begins : BeginsWith text other)
    (isOther : IsNumber other) : other.length ≤ written.length := by
  rcases isNumber with ⟨_, _, isSpelled⟩
  rcases isOther with ⟨_, _, otherSpelled⟩
  rcases begins with ⟨otherBefore, otherAfter, rfl, otherBlank⟩
  rcases exists_take? otherBlank otherSpelled otherAfter with ⟨_, _, takes, isSuffix, _⟩
  rw [takes] at taken
  cases taken
  have blanks := (takeWhile_isBlank otherBlank otherSpelled otherAfter).1
  rw [same, (takeWhile_isBlank areBlank isSpelled rest).1] at blanks
  have isShorter := isSuffix.length_le
  have lengths := congrArg List.length same
  simp only [List.length_append, blanks] at lengths
  omega

theorem isPrefix_of_beginsWith (begins : BeginsWith text written) (isNumber : IsNumber written) :
    written <+: text.dropWhile isBlank := by
  rcases begins with ⟨before, after, rfl, areBlank⟩
  rcases isNumber with ⟨_, _, isSpelled⟩
  rw [(takeWhile_isBlank areBlank isSpelled after).2]
  exact List.prefix_append written after

theorem stops_of_areBlank (areBlank : AreBlank text) : Stops text := by
  intro next isNext
  have isBlank := areBlank (List.mem_of_mem_head? isNext)
  simp only [List.mem_cons, List.not_mem_nil, or_false] at isBlank
  rcases isBlank with rfl | rfl | rfl | rfl | rfl | rfl
  all_goals decide

theorem parse?_eq_some_iff {source : String} :
    parse? source = some number ↔
      ∃ written, IsPadded source.toList written ∧ Spells written number := by
  constructor
  · intro parsed
    unfold parse? at parsed
    split at parsed
    · rename_i found rest taken
      split at parsed
      · rename_i areBlank
        cases parsed
        rcases exists_spells_of_take? taken with ⟨before, written, same, beforeBlank, spells⟩
        refine ⟨written, ⟨before, rest, same, beforeBlank, fun character isMember => ?_⟩, spells⟩
        exact isBlank_iff.mp (List.all_eq_true.mp areBlank character isMember)
      · cases parsed
    · cases parsed
  · rintro ⟨written, ⟨before, after, same, beforeBlank, afterBlank⟩, _, _, isSpelled, denotes⟩
    rcases exists_take? beforeBlank isSpelled after with ⟨found, rest, takes, _, isExact⟩
    rcases isExact (stops_of_areBlank afterBlank) with ⟨rfl, rfl⟩
    have allBlank : rest.all isBlank = true :=
      List.all_eq_true.mpr fun character isMember => isBlank_iff.mpr (afterBlank isMember)
    rw [parse?, same, takes, Numeral.denotes_iff.mp denotes]
    exact if_pos allBlank

/-- No longer number stands at the head of a text. -/
def BeginsLongest (text written : List Char) : Prop :=
  BeginsWith text written ∧
    ∀ other, BeginsWith text other → IsNumber other → other.length ≤ written.length

theorem leading_eq_iff {source : String} :
    leading source = number ↔
      (∃ written, BeginsLongest source.toList written ∧ Spells written number) ∨
      (∀ written, BeginsWith source.toList written → ¬IsNumber written) ∧ number = .int 0 := by
  cases taken : take? source.toList with
  | none =>
    have noNumber : ∀ written, BeginsWith source.toList written → ¬IsNumber written := by
      rintro written ⟨before, after, same, areBlank⟩ ⟨_, _, isSpelled⟩
      rcases exists_take? areBlank isSpelled after with ⟨_, _, takes, _⟩
      rw [← same, taken] at takes
      cases takes
    have isZero : leading source = .int 0 := by simp [leading, taken]
    rw [isZero]
    constructor
    · intro isNumber
      exact .inr ⟨noNumber, isNumber.symm⟩
    · rintro (⟨written, ⟨begins, _⟩, spells⟩ | ⟨_, isNumber⟩)
      · exact absurd (isNumber_iff.mpr ⟨number, spells⟩) (noNumber written begins)
      · exact isNumber.symm
  | some found =>
    rcases found with ⟨found, rest⟩
    have isFound : leading source = found := by simp [leading, taken]
    rcases exists_spells_of_take? taken with ⟨before, written, same, areBlank, spells⟩
    have isNumber : IsNumber written := isNumber_iff.mpr ⟨found, spells⟩
    have begins : BeginsWith source.toList written := ⟨before, rest, same, areBlank⟩
    have isLongest : ∀ other, BeginsWith source.toList other → IsNumber other →
        other.length ≤ written.length :=
      fun other => length_le_of_take? taken same areBlank isNumber
    rw [isFound]
    constructor
    · rintro rfl
      exact .inl ⟨written, ⟨begins, isLongest⟩, spells⟩
    · rintro (⟨other, ⟨otherBegins, otherLongest⟩, otherSpells⟩ | ⟨noNumber, _⟩)
      · have isOther : IsNumber other := isNumber_iff.mpr ⟨number, otherSpells⟩
        have sameLength : written.length = other.length :=
          Nat.le_antisymm (otherLongest written begins isNumber)
            (isLongest other otherBegins isOther)
        have isPrefix := List.prefix_of_prefix_length_le (isPrefix_of_beginsWith begins isNumber)
          (isPrefix_of_beginsWith otherBegins isOther) sameLength.le
        rw [isPrefix.eq_of_length sameLength] at spells
        exact spells.unique otherSpells
      · exact absurd isNumber (noNumber written begins)

theorem leading_eq_of_parse? {source : String} (parsed : parse? source = some number) :
    leading source = number := by
  unfold parse? at parsed
  split at parsed
  · rename_i taken
    split at parsed
    · cases parsed
      simp [leading, taken]
    · cases parsed
  · cases parsed

/-- A text is numeric if it spells a number between blanks, and then it stands for this number. What
stands in front of a text is the longest number that it begins with, or zero. -/
theorem numeric_texts_recognised (source : String) :
    ((parse? source).isSome = true ↔ ∃ written, IsPadded source.toList written ∧ IsNumber written) ∧
    (∀ number, parse? source = some number ↔
      ∃ written, IsPadded source.toList written ∧ Spells written number) ∧
    (∀ number, leading source = number ↔
      (∃ written, BeginsLongest source.toList written ∧ Spells written number) ∨
      (∀ written, BeginsWith source.toList written → ¬IsNumber written) ∧ number = .int 0) ∧
    ∀ number, parse? source = some number → leading source = number := by
  refine ⟨?_, fun number => parse?_eq_some_iff, fun number => leading_eq_iff,
    fun number => leading_eq_of_parse?⟩
  rw [Option.isSome_iff_exists]
  constructor
  · rintro ⟨number, parsed⟩
    rcases parse?_eq_some_iff.mp parsed with ⟨written, isPadded, spells⟩
    exact ⟨written, isPadded, isNumber_iff.mpr ⟨number, spells⟩⟩
  · rintro ⟨written, isPadded, isNumber⟩
    rcases isNumber_iff.mp isNumber with ⟨number, spells⟩
    exact ⟨number, parse?_eq_some_iff.mpr ⟨written, isPadded, spells⟩⟩

/-- The smallest integer between blanks. -/
theorem numeric_texts_recognised_smallest :
    parse? " \t-9223372036854775808\n" = some (.int Int64.minValue) ∧
      leading " \t-9223372036854775808\n" = .int Int64.minValue := by
  have parsed : parse? " \t-9223372036854775808\n" = some (.int Int64.minValue) := by rfl
  exact ⟨parsed, (numeric_texts_recognised _).2.2.2 _ parsed⟩

end Numeric

end PhpScript
