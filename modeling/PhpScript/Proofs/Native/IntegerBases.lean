import PhpScript.Native.Type
import PhpScript.Proofs.Number.Spelling

/-!
# Integers in a base

An integer in a base is written as blanks, a sign, what announces the radix, and digits.
`TypeFunction.IsRead` says so, and that each part goes as far as it can. The digits are taken in by
steps that must stay in the range of integers. No step makes the number smaller, so a step leaves
the range only if the whole number lies beyond it.
-/

namespace PhpScript.TypeFunction

def digitAlphabet : List Char := "0123456789abcdefghijklmnopqrstuvwxyz".toList

/-- Letters are digits in both cases. -/
def IsDigitOf (radix value : Nat) (character : Char) : Prop :=
  value < radix ∧ digitAlphabet[value]? = some character.toLower

def radixMarks : List (Char × Nat) := [('x', 16), ('o', 8), ('b', 2)]

/-- A zero and a letter in front of digits. They count for the radix they name and for base zero. -/
inductive IsMarked (base : Int) : List Char → Nat → List Char → Prop
  | intro {letter : Char} {radix : Nat} (isMark : (letter.toLower, radix) ∈ radixMarks)
      (agrees : base = 0 ∨ base = radix) (digits : List Char) :
      IsMarked base ('0' :: letter :: digits) radix digits

/-- The radix of an unsigned text and its digits. Base zero leaves the radix to the text. -/
inductive Announces : Int → List Char → Nat → List Char → Prop
  | marked {base : Int} {text digits : List Char} {radix : Nat}
      (isMarked : IsMarked base text radix digits) : Announces base text radix digits
  | octal {digits : List Char} (unmarked : ∀ radix rest, ¬IsMarked 0 ('0' :: digits) radix rest)
      (nonempty : digits ≠ []) : Announces 0 ('0' :: digits) 8 digits
  | decimal {digits : List Char} (noZero : digits.head? = some '0' → digits = ['0']) :
      Announces 0 digits 10 digits
  | given {base : Int} {digits : List Char}
      (unmarked : ∀ radix rest, ¬IsMarked base digits radix rest) (isGiven : base ≠ 0) :
      Announces base digits (min (max base 2) 36).toNat digits

/-- The sign of the integer at the head of a text, its radix, and the values of its digits from the
first to the last. -/
inductive IsRead (base : Int) : List Char → Bool → Nat → List Nat → Prop
  | intro {blanks sign unsigned run rest : List Char} {negative : Bool} {radix : Nat}
      {values : List Nat} (areBlank : ∀ blank ∈ blanks, Text.isWhitespace blank = true)
      (noBlank : ∀ next ∈ (sign ++ unsigned).head?, Text.isWhitespace next = false)
      (isSign : Numeral.IsSign sign negative)
      (noSign : sign = [] → ∀ next ∈ unsigned.head?, next ≠ '+' ∧ next ≠ '-')
      (announces : Announces base unsigned radix (run ++ rest))
      (areDigits : List.Forall₂ (IsDigitOf radix) values run)
      (noDigit : ∀ next ∈ rest.head?, ∀ value, ¬IsDigitOf radix value next) :
      IsRead base (blanks ++ (sign ++ unsigned)) negative radix values

/-! ## The radix -/

section Radix

variable {base : Int} {text digits : List Char} {radix : Nat} {letter : Char}

theorem hasMark_iff :
    hasMark letter text = true ↔
      ∃ mark rest, text = '0' :: mark :: rest ∧ mark.toLower = letter := by
  unfold hasMark
  split
  · simp
  · rename_i isOther
    simp only [Bool.false_eq_true, false_iff]
    rintro ⟨mark, rest, rfl, _⟩
    exact isOther mark rest rfl

theorem isMarked_of_hasMark (isMark : (letter, radix) ∈ radixMarks)
    (marks : ((base = 0 || base = radix) && hasMark letter text) = true) :
    IsMarked base text radix (text.drop 2) := by
  rw [Bool.and_eq_true, Bool.or_eq_true, decide_eq_true_eq, decide_eq_true_eq, hasMark_iff] at marks
  obtain ⟨agrees, mark, rest, rfl, rfl⟩ := marks
  exact .intro isMark agrees rest

theorem hasMark_of_unmarked (unmarked : ∀ radix rest, ¬IsMarked base text radix rest)
    (isMark : (letter, radix) ∈ radixMarks) :
    ((base = 0 || base = radix) && hasMark letter text) = false :=
  Bool.eq_false_iff.mpr fun marks => unmarked radix _ (isMarked_of_hasMark isMark marks)

theorem detectBase_of_unmarked (unmarked : ∀ radix rest, ¬IsMarked base text radix rest) :
    detectBase base text =
      if base = 0 then
        if text.head? = some '0' ∧ text.tail ≠ [] then (8, text.tail) else (10, text)
      else ((min (max base 2) 36).toNat, text) := by
  have noHex : ((base = 0 || base = 16) && hasMark 'x' text) = false :=
    hasMark_of_unmarked unmarked (by decide)
  have noOctal : ((base = 0 || base = 8) && hasMark 'o' text) = false :=
    hasMark_of_unmarked unmarked (by decide)
  have noBinary : ((base = 0 || base = 2) && hasMark 'b' text) = false :=
    hasMark_of_unmarked unmarked (by decide)
  simp only [detectBase, noHex, noOctal, noBinary, Bool.false_eq_true, if_false]
  congr 1
  split
  · rename_i rest
    cases rest <;> rfl
  · rename_i isOther
    cases text with
    | nil => rfl
    | cons first rest =>
      rw [if_neg]
      rintro ⟨isZero, -⟩
      cases isZero
      exact isOther rest rfl

theorem Announces.detectBase_eq (announces : Announces base text radix digits) :
    detectBase base text = (radix, digits) := by
  cases announces with
  | marked isMarked =>
    obtain ⟨isMark, agrees, digits⟩ := isMarked
    simp only [radixMarks, List.mem_cons, Prod.mk.injEq, List.not_mem_nil, or_false] at isMark
    rcases isMark with ⟨lower, rfl⟩ | ⟨lower, rfl⟩ | ⟨lower, rfl⟩ <;>
      rcases agrees with rfl | rfl <;> simp [detectBase, hasMark, lower]
  | octal unmarked nonempty => simp [detectBase_of_unmarked unmarked, nonempty]
  | decimal noZero =>
    have unmarked : ∀ radix rest, ¬IsMarked 0 text radix rest := by
      rintro radix rest ⟨_, _, _⟩
      cases noZero rfl
    rw [detectBase_of_unmarked unmarked, if_pos rfl, if_neg]
    rintro ⟨isZero, nonempty⟩
    rw [noZero isZero] at nonempty
    exact nonempty rfl
  | given unmarked isGiven => rw [detectBase_of_unmarked unmarked, if_neg isGiven]

theorem exists_announces (base : Int) (text : List Char) :
    ∃ radix digits, Announces base text radix digits := by
  by_cases marks : ∃ radix digits, IsMarked base text radix digits
  · obtain ⟨radix, digits, isMarked⟩ := marks
    exact ⟨radix, digits, .marked isMarked⟩
  · have unmarked : ∀ radix rest, ¬IsMarked base text radix rest :=
      fun radix rest isMarked => marks ⟨radix, rest, isMarked⟩
    by_cases isOpen : base = 0
    · subst isOpen
      by_cases noZero : text.head? = some '0' → text = ['0']
      · exact ⟨10, text, .decimal noZero⟩
      · obtain ⟨isZero, isLonger⟩ := Classical.not_imp.mp noZero
        obtain ⟨digits, rfl⟩ := List.head?_eq_some_iff.mp isZero
        exact ⟨8, digits, .octal unmarked fun isEmpty => isLonger (by rw [isEmpty])⟩
    · exact ⟨_, text, .given unmarked isOpen⟩

theorem Announces.radix_pos (announces : Announces base text radix digits) : 0 < radix := by
  cases announces with
  | marked isMarked =>
    obtain ⟨isMark, _, _⟩ := isMarked
    simp only [radixMarks, List.mem_cons, Prod.mk.injEq, List.not_mem_nil, or_false] at isMark
    omega
  | octal | decimal => decide
  | given => omega

end Radix

/-! ## Digits -/

section Digits

variable {radix value : Nat} {character : Char} {run rest : List Char} {values : List Nat}

theorem digitValue?_eq_some_iff :
    digitValue? character = some value ↔ digitAlphabet[value]? = some character.toLower := by
  simp only [digitValue?]
  generalize character.toLower = lower
  constructor
  · intro found
    have isLower : value < 36 ∧
        lower = Char.ofNat (if value < 10 then 48 + value else 87 + value) := by
      have small : '0'.toNat = 48 ∧ 'a'.toNat = 97 := ⟨rfl, rfl⟩
      rw [← Char.ofNat_toNat lower]
      split at found
      · rename_i isDigit
        have bounds : 48 ≤ lower.toNat ∧ lower.toNat ≤ 57 := Char.isDigit_iff_toNat.mp isDigit
        cases found
        rw [if_pos (by omega)]
        exact ⟨by omega, congrArg Char.ofNat (by omega)⟩
      · split at found
        · rename_i isLetter
          rw [Bool.and_eq_true, decide_eq_true_eq, decide_eq_true_eq] at isLetter
          have bounds : 97 ≤ lower.toNat ∧ lower.toNat ≤ 122 := isLetter
          cases found
          rw [if_neg (by omega)]
          exact ⟨by omega, congrArg Char.ofNat (by omega)⟩
        · cases found
    obtain ⟨small, rfl⟩ := isLower
    clear found
    revert value
    decide
  · intro found
    obtain ⟨small, rfl⟩ := List.getElem?_eq_some_iff.mp found
    clear found
    revert value
    decide

theorem isDigitOf_iff :
    IsDigitOf radix value character ↔
      (digitValue? character).filter (· < radix) = some value := by
  rw [Option.filter_eq_some_iff, digitValue?_eq_some_iff, decide_eq_true_eq]
  exact and_comm

theorem accumulate?_of_noDigit {total : Int64}
    (noDigit : ∀ next ∈ rest.head?, ∀ value, ¬IsDigitOf radix value next) :
    accumulate? radix total rest = some total := by
  cases rest with
  | nil => rfl
  | cons next behind =>
    have isNone : (digitValue? next).filter (· < radix) = none :=
      Option.eq_none_iff_forall_ne_some.mpr fun value isValue =>
        noDigit next rfl value (isDigitOf_iff.mpr isValue)
    simp [accumulate?, isNone]

/-- The number that digits stand for behind a number. -/
def extend (radix : Nat) : Nat → List Nat → Nat :=
  List.foldl fun total value => total * radix + value

theorem le_extend (positive : 0 < radix) (start : Nat) (values : List Nat) :
    start ≤ extend radix start values := by
  induction values generalizing start with
  | nil => exact Nat.le_refl start
  | cons value values ih =>
    calc
      start ≤ start * radix := Nat.le_mul_of_pos_right start positive
      _ ≤ start * radix + value := Nat.le_add_right _ value
      _ ≤ extend radix start (value :: values) := ih _

theorem extend_zero (radix : Nat) (values : List Nat) :
    extend radix 0 values = Nat.ofDigits radix values.reverse := by
  rw [Nat.ofDigits_eq_foldr, List.foldr_reverse]
  simp [extend, Nat.add_comm, Nat.mul_comm]

theorem fit?_of_le {number : Nat} (inRange : (number : Int) ≤ Integer.maximum) :
    ∃ word, Integer.fit? number = some word ∧ word.toInt = number := by
  have above : Integer.minimum ≤ number := by
    unfold Integer.minimum
    omega
  have fits : Integer.fit? number = some (Int64.ofInt number) := if_pos ⟨above, inRange⟩
  exact ⟨_, fits, Integer.fit?_eq_some_iff.mp fits⟩

theorem fit?_of_lt {number : Nat} (beyond : Integer.maximum < number) :
    Integer.fit? number = none :=
  if_neg fun range => absurd range.2 (Int.not_le.mpr beyond)

theorem exists_digits (radix : Nat) (digits : List Char) :
    ∃ values run rest, digits = run ++ rest ∧ List.Forall₂ (IsDigitOf radix) values run ∧
      ∀ next ∈ rest.head?, ∀ value, ¬IsDigitOf radix value next := by
  induction digits with
  | nil => exact ⟨[], [], [], rfl, .nil, by simp⟩
  | cons first digits ih =>
    by_cases isDigit : ∃ value, IsDigitOf radix value first
    · obtain ⟨value, isValue⟩ := isDigit
      obtain ⟨values, run, rest, rfl, areDigits, noDigit⟩ := ih
      exact ⟨value :: values, first :: run, rest, rfl, .cons isValue areDigits, noDigit⟩
    · refine ⟨[], [], first :: digits, rfl, .nil, fun next isNext value isValue => ?_⟩
      cases isNext
      exact isDigit ⟨value, isValue⟩

/-- A step leaves the range only if the whole number lies beyond it. -/
theorem accumulate?_eq_fit? (positive : 0 < radix)
    (areDigits : List.Forall₂ (IsDigitOf radix) values run)
    (noDigit : ∀ next ∈ rest.head?, ∀ value, ¬IsDigitOf radix value next) {total : Int64}
    {start : Nat} (isTotal : total.toInt = start) :
    accumulate? radix total (run ++ rest) = Integer.fit? (extend radix start values) := by
  induction areDigits generalizing total start with
  | nil =>
    rw [List.nil_append, accumulate?_of_noDigit noDigit]
    exact (Integer.fit?_eq_some_iff.mpr isTotal).symm
  | @cons value character values run isDigit _ ih =>
    have unfolds : accumulate? radix total (character :: run ++ rest) =
        (Integer.fit? ((start * radix : Nat) : Int)).bind fun product =>
          (Integer.fit? (product.toInt + value)).bind fun sum =>
            accumulate? radix sum (run ++ rest) := by
      simp only [List.cons_append, accumulate?, isDigitOf_iff.mp isDigit, isTotal, Nat.cast_mul]
      rfl
    rw [unfolds]
    by_cases fits : ((start * radix + value : Nat) : Int) ≤ Integer.maximum
    · have productFits : ((start * radix : Nat) : Int) ≤ Integer.maximum := by omega
      obtain ⟨product, isProduct, productValue⟩ := fit?_of_le productFits
      obtain ⟨sum, isSum, sumValue⟩ := fit?_of_le fits
      rw [isProduct, Option.bind_some, productValue, ← Nat.cast_add, isSum, Option.bind_some]
      exact ih sumValue
    · have beyond : Integer.maximum < extend radix start (value :: values) := by
        have grows := le_extend positive (start * radix + value) values
        change Integer.maximum < (extend radix (start * radix + value) values : Nat)
        omega
      rw [fit?_of_lt beyond]
      cases isProduct : Integer.fit? ((start * radix : Nat) : Int) with
      | none => rfl
      | some product =>
        rw [Option.bind_some, Integer.fit?_eq_some_iff.mp isProduct, ← Nat.cast_add,
          fit?_of_lt (Int.not_le.mp fits)]
        rfl

end Digits

/-! ## The whole text -/

/-- The nearest integer in range, if a magnitude is out of it. -/
def saturated (negative : Bool) : Option Int64 → Int64
  | some magnitude => if negative then -magnitude else magnitude
  | none => if negative then Int64.minValue else Int64.maxValue

theorem integerInBase_eq (text : String) (base : Int) :
    integerInBase text base =
      saturated (Numeral.takeSign (Text.trimStart text.toList)).1
        (accumulate? (detectBase base (Numeral.takeSign (Text.trimStart text.toList)).2).1 0
          (detectBase base (Numeral.takeSign (Text.trimStart text.toList)).2).2) := by
  rfl

theorem toInt_saturated (negative : Bool) (number : Nat) :
    (saturated negative (Integer.fit? number)).toInt =
      max Integer.minimum (min Integer.maximum (if negative then -(number : Int) else number)) := by
  by_cases fits : (number : Int) ≤ Integer.maximum
  · obtain ⟨word, isWord, value⟩ := fit?_of_le fits
    unfold Integer.maximum at fits
    simp only [isWord, saturated, Integer.maximum, Integer.minimum]
    cases negative with
    | true =>
      rw [if_pos rfl, if_pos rfl, Int64.toInt_neg, value, Int.bmod_eq_of_le (by omega) (by omega)]
      omega
    | false =>
      rw [if_neg Bool.false_ne_true, if_neg Bool.false_ne_true, value]
      omega
  · rw [fit?_of_lt (Int.not_le.mp fits)]
    unfold Integer.maximum at fits
    have ends : Int64.minValue.toInt = -9223372036854775808 ∧
        Int64.maxValue.toInt = 9223372036854775807 := ⟨rfl, rfl⟩
    simp only [saturated, Integer.maximum, Integer.minimum]
    split <;> omega

theorem exists_sign (text : List Char) :
    ∃ sign unsigned negative, text = sign ++ unsigned ∧ Numeral.IsSign sign negative ∧
      (sign = [] → ∀ next ∈ unsigned.head?, next ≠ '+' ∧ next ≠ '-') := by
  by_cases starts : ∃ rest, text = '-' :: rest ∨ text = '+' :: rest
  · obtain ⟨rest, rfl | rfl⟩ := starts
    · exact ⟨['-'], rest, true, rfl, .minus, by simp⟩
    · exact ⟨['+'], rest, false, rfl, .plus, by simp⟩
  · refine ⟨[], text, false, rfl, .none, fun _ next isNext => ⟨?_, ?_⟩⟩
    all_goals
      rintro rfl
      obtain ⟨rest, rfl⟩ := List.head?_eq_some_iff.mp isNext
      simp at starts

theorem exists_isRead (base : Int) (text : List Char) :
    ∃ negative radix values, IsRead base text negative radix values := by
  obtain ⟨sign, unsigned, negative, isSigned, isSign, noSign⟩ :=
    exists_sign (text.dropWhile Text.isWhitespace)
  obtain ⟨radix, digits, announces⟩ := exists_announces base unsigned
  obtain ⟨values, run, rest, rfl, areDigits, noDigit⟩ := exists_digits radix digits
  have noBlank : ∀ next ∈ (sign ++ unsigned).head?, Text.isWhitespace next = false := by
    intro next isNext
    have stops := List.head?_dropWhile_not Text.isWhitespace text
    rw [isSigned, Option.mem_def.mp isNext] at stops
    exact stops
  refine ⟨negative, radix, values, ?_⟩
  rw [← List.takeWhile_append_dropWhile (p := Text.isWhitespace) (l := text), isSigned]
  exact .intro (fun blank => List.all_eq_true.mp List.all_takeWhile blank) noBlank isSign noSign
    announces areDigits noDigit

section Reading

variable {base : Int} {text : String} {negative : Bool} {radix : Nat} {values : List Nat}

theorem IsRead.integerInBase_eq (isRead : IsRead base text.toList negative radix values) :
    integerInBase text base =
      saturated negative (Integer.fit? (Nat.ofDigits radix values.reverse : Nat)) := by
  rw [TypeFunction.integerInBase_eq]
  generalize text.toList = letters at isRead ⊢
  obtain @⟨blanks, sign, unsigned, run, rest, _, _, _, areBlank, noBlank, isSign, noSign, announces,
    areDigits, noDigit⟩ := isRead
  have trimmed : Text.trimStart (blanks ++ (sign ++ unsigned)) = sign ++ unsigned := by
    rw [Text.trimStart, List.dropWhile_append_of_pos areBlank]
    cases signed : sign ++ unsigned with
    | nil => rfl
    | cons next others =>
      have notBlank := noBlank next (by rw [signed]; rfl)
      rw [List.dropWhile_cons_of_neg (by rw [notBlank]; exact Bool.false_ne_true)]
  have isTotal : (0 : Int64).toInt = (0 : Nat) := rfl
  rw [trimmed, Numeral.takeSign_of_isSign isSign noSign, announces.detectBase_eq,
    accumulate?_eq_fit? announces.radix_pos areDigits noDigit isTotal, extend_zero]

end Reading

/-- Every text can be read in every base. The result is the number read, or the end of the range of
integers next to it. -/
theorem integers_in_bases_saturate (text : String) (base : Int) :
    (∃ negative radix values, IsRead base text.toList negative radix values) ∧
      ∀ negative radix values, IsRead base text.toList negative radix values →
        (integerInBase text base).toInt =
          let number : Int := (Nat.ofDigits radix values.reverse : Nat)
          max Integer.minimum (min Integer.maximum (if negative then -number else number)) := by
  refine ⟨exists_isRead base text.toList, fun negative radix values isRead => ?_⟩
  rw [isRead.integerInBase_eq]
  exact toInt_saturated negative _

/-- Sixteen digits of radix sixteen are one bit too many. -/
theorem integers_in_bases_saturate_sixteen :
    IsRead 16 "\t-0xFFFFffffFFFFffffg".toList true 16 (List.replicate 16 15) ∧
      (integerInBase "\t-0xFFFFffffFFFFffffg" 16).toInt = Integer.minimum := by
  have isMarked : IsMarked 16 "0xFFFFffffFFFFffffg".toList 16 "FFFFffffFFFFffffg".toList :=
    .intro (by decide) (.inr rfl) _
  have areDigits :
      List.Forall₂ (IsDigitOf 16) (List.replicate 16 15) "FFFFffffFFFFffff".toList := by
    repeat' constructor
  have noDigit : ∀ next ∈ ['g'].head?, ∀ value, ¬IsDigitOf 16 value next := by
    rintro next ⟨⟩ value isDigit
    have isValue : none = some value := isDigitOf_iff.mp isDigit
    cases isValue
  have isRead : IsRead 16 (['\t'] ++ (['-'] ++ "0xFFFFffffFFFFffffg".toList)) true 16
      (List.replicate 16 15) :=
    .intro (List.forall_mem_singleton.mpr rfl) (by rintro _ ⟨⟩; rfl) .minus (by decide)
      (.marked isMarked) areDigits noDigit
  have value := (integers_in_bases_saturate "\t-0xFFFFffffFFFFffffg" 16).2 true 16 _ isRead
  exact ⟨isRead, value.trans (by decide)⟩

end PhpScript.TypeFunction
