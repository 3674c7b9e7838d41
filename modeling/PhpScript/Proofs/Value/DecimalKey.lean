import Mathlib.Tactic.IntervalCases
import PhpScript.Proofs.Number.Spelling
import PhpScript.Value.Path

/-!
# Decimal notation and array keys

`Key.integer?` recognizes the decimal notation of the script integers. So the texts that become
integer keys are exactly those that some integer is rendered as, and a text key is never one of
them. A key that is turned into a value and used as a subscript is then the same key again.
-/

namespace PhpScript

namespace Integer

theorem foldDigits_toDigits (number : Nat) : foldDigits (Nat.toDigits 10 number) = number :=
  Nat.ofDigitChars_ten_toDigits

theorem toNat_of_isDigit {digit : Char} (isDigit : digit.isDigit = true) :
    48 ≤ digit.toNat ∧ digit.toNat ≤ 57 := by
  simpa [Char.isDigit, UInt32.le_iff_toNat_le] using isDigit

theorem digitValue_lt_ten {digit : Char} (isDigit : digit.isDigit = true) :
    digitValue digit < 10 := by
  have range := toNat_of_isDigit isDigit
  change digit.toNat - 48 < 10
  omega

theorem digitChar_digitValue {digit : Char} (isDigit : digit.isDigit = true) :
    Nat.digitChar (digitValue digit) = digit := by
  have range := toNat_of_isDigit isDigit
  apply Char.toNat_inj.mp
  rw [Nat.toNat_digitChar_of_lt_ten (digitValue_lt_ten isDigit)]
  change 48 + (digit.toNat - 48) = digit.toNat
  omega

theorem toDigits_foldl {value : Nat} (positive : 0 < value) {digits : List Char}
    (areDigits : ∀ digit ∈ digits, digit.isDigit = true) :
    Nat.toDigits 10 (digits.foldl (fun value digit => 10 * value + digitValue digit) value)
      = Nat.toDigits 10 value ++ digits := by
  induction digits generalizing value with
  | nil => simp
  | cons digit rest ih =>
    rcases List.forall_mem_cons.mp areDigits with ⟨isDigit, others⟩
    have longer := Nat.toDigits_append_toDigits (b := 10) (by decide) positive
      (digitValue_lt_ten isDigit)
    rw [Nat.toDigits_of_lt_base (digitValue_lt_ten isDigit), digitChar_digitValue isDigit]
      at longer
    rw [List.foldl_cons, ih (by omega) others, ← longer, List.append_assoc]
    rfl

end Integer

namespace Key

open Integer

variable {digits : List Char} {number : Nat} {index : Int64} {key : Key}

theorem isPlainNumeral_append (plain : isPlainNumeral digits = true) {digit : Char}
    (isDigit : digit.isDigit = true) : isPlainNumeral (digits ++ [digit]) = true := by
  cases digits with
  | nil => cases plain
  | cons first rest =>
    simp only [isPlainNumeral, List.cons_append, List.all_append, Bool.and_eq_true] at plain ⊢
    exact ⟨plain.1, plain.2, by simp [isDigit]⟩

theorem isPlainNumeral_toDigits (positive : 0 < number) :
    isPlainNumeral (Nat.toDigits 10 number) = true := by
  induction number using Nat.strongRecOn with
  | ind number ih =>
    by_cases small : number < 10
    · rw [Nat.toDigits_of_lt_base small]
      interval_cases number <;> decide
    · rw [Nat.toDigits_of_base_le (by decide) (by omega)]
      refine isPlainNumeral_append (ih (number / 10) (by omega) (by omega)) ?_
      apply Nat.isDigit_of_mem_toDigits (b := 10) (n := number % 10) (by decide) (by decide)
      simp [Nat.toDigits_of_lt_base (Nat.mod_lt number (by decide : 0 < 10))]

theorem isPlainNumeral_iff :
    isPlainNumeral digits = true ↔
      0 < foldDigits digits ∧ Nat.toDigits 10 (foldDigits digits) = digits := by
  constructor
  · intro plain
    cases digits with
    | nil => cases plain
    | cons first rest =>
      simp only [isPlainNumeral, Bool.and_eq_true, decide_eq_true_eq, List.all_eq_true]
        at plain
      rcases plain with ⟨⟨lower, upper⟩, areDigits⟩
      have atLeast : 49 ≤ first.toNat := lower
      have atMost : first.toNat ≤ 57 := upper
      have isDigit : first.isDigit = true := by
        simp only [Char.isDigit, Bool.and_eq_true, decide_eq_true_eq]
        exact ⟨UInt32.le_iff_toNat_le.mpr (by change 48 ≤ first.toNat; omega), upper⟩
      have positive : 0 < digitValue first := by
        change 0 < first.toNat - 48
        omega
      have whole := toDigits_foldl positive areDigits
      rw [Nat.toDigits_of_lt_base (digitValue_lt_ten isDigit), digitChar_digitValue isDigit]
        at whole
      have unfolded : foldDigits (first :: rest) =
          rest.foldl (fun value digit => 10 * value + digitValue digit) (digitValue first) := by
        simp [foldDigits]
      rw [unfolded]
      refine ⟨?_, whole⟩
      rw [foldl_eq_mul_add_foldDigits]
      exact Nat.add_pos_left (Nat.mul_pos positive (Nat.pow_pos (by decide))) _
  · rintro ⟨positive, same⟩
    rw [← same]
    exact isPlainNumeral_toDigits positive

theorem render_eq_of_pos (value : index.toInt = number) :
    Integer.render index = String.ofList (Nat.toDigits 10 number) := by
  rw [Integer.render, value]
  exact Nat.repr_eq_ofList_toDigits

theorem render_eq_of_neg (positive : 0 < number) (value : index.toInt = -number) :
    Integer.render index = String.ofList ('-' :: Nat.toDigits 10 number) := by
  have digits : (-number : Int).repr = "-" ++ number.repr := by
    rw [Int.repr_eq_if, if_neg (by omega)]
    simp
  rw [Integer.render, value]
  change (-number : Int).repr = _
  apply String.toList_injective
  rw [digits, Nat.repr_eq_ofList_toDigits]
  simp

theorem integer?_of_plain (plain : isPlainNumeral digits = true) :
    integer? (String.ofList digits) = fit? (foldDigits digits) := by
  simp only [integer?, String.toList_ofList]
  split
  · cases plain
  · cases plain
  · rw [if_pos plain, ofDigits_eq_foldDigits]

theorem integer?_of_minus (plain : isPlainNumeral digits = true) :
    integer? (String.ofList ('-' :: digits)) = fit? (-(foldDigits digits : Int)) := by
  simp only [integer?, String.toList_ofList]
  rw [if_pos plain, ofDigits_eq_foldDigits]

theorem integer?_eq_some_iff {text : String} :
    integer? text = some index ↔ text = Integer.render index := by
  constructor
  · intro read
    have whole : text = String.ofList text.toList := by simp
    rw [whole]
    -- The cases are those of the notation: zero, digits after a minus sign, digits alone.
    unfold integer? at read
    split at read
    · rename_i zero
      cases read
      rw [zero]
      decide
    · rename_i digits negative
      rw [negative]
      split at read
      · rename_i plain
        rcases isPlainNumeral_iff.mp plain with ⟨positive, same⟩
        rw [fit?_eq_some_iff, ofDigits_eq_foldDigits] at read
        rw [render_eq_of_neg positive read, same]
      · cases read
    · split at read
      · rename_i plain
        rcases isPlainNumeral_iff.mp plain with ⟨positive, same⟩
        rw [fit?_eq_some_iff, ofDigits_eq_foldDigits] at read
        rw [render_eq_of_pos read, same]
      · cases read
  · rintro rfl
    rcases lt_trichotomy index.toInt 0 with negative | zero | positive
    · have value : index.toInt = -(index.toInt.natAbs : Int) := by omega
      have isPositive : 0 < index.toInt.natAbs := by omega
      rw [render_eq_of_neg isPositive value, integer?_of_minus (isPlainNumeral_toDigits isPositive),
        foldDigits_toDigits, fit?_eq_some_iff]
      exact value
    · have isZero : index = 0 := Int64.toInt_inj.mp zero
      subst isZero
      decide
    · have value : index.toInt = (index.toInt.natAbs : Int) := by omega
      have isPositive : 0 < index.toInt.natAbs := by omega
      rw [render_eq_of_pos value, integer?_of_plain (isPlainNumeral_toDigits isPositive),
        foldDigits_toDigits, fit?_eq_some_iff]
      exact value

/-- No integer is rendered as the name of this key. -/
def IsCanonical : Key → Prop
  | .int _ => True
  | .str name => ∀ index : Int64, name ≠ Integer.render index

theorem isCanonical_str_iff {name : String} : (Key.str name).IsCanonical ↔
    integer? name = none := by
  rw [Option.eq_none_iff_forall_ne_some]
  exact forall_congr' fun index => not_congr integer?_eq_some_iff.symm

instance : DecidablePred IsCanonical
  | .int _ => isTrue trivial
  | .str _ => decidable_of_iff _ isCanonical_str_iff.symm

theorem isCanonical_ofString (text : String) : (ofString text).IsCanonical := by
  simp only [ofString]
  cases read : integer? text with
  | some index => trivial
  | none => exact isCanonical_str_iff.mpr read

theorem render_ofString (text : String) : (ofString text).render = text := by
  simp only [ofString]
  cases read : integer? text with
  | some index => exact (integer?_eq_some_iff.mp read).symm
  | none => rfl

theorem isCanonical_of_ofValue {value : Value} (found : ofValue value = .ok key) :
    key.IsCanonical := by
  cases value with
  | str text =>
    cases found
    exact isCanonical_ofString text
  | void => cases found; decide
  | null => cases found; decide
  | bool flag => cases found; trivial
  | int index => cases found; trivial
  | float number => cases found; trivial
  | array elements => cases found

theorem ofValue_toValue (canonical : key.IsCanonical) : ofValue key.toValue = .ok key := by
  cases key with
  | int index => rfl
  | str name =>
    have unread := isCanonical_str_iff.mp canonical
    simp only [toValue, ofValue, ofString, unread]

theorem ofString_render_iff : ofString key.render = key ↔ key.IsCanonical := by
  constructor
  · intro same
    rw [← same]
    exact isCanonical_ofString _
  · intro canonical
    cases key with
    | int index => rw [render, ofString, integer?_eq_some_iff.mpr rfl]
    | str name => rw [render, ofString, isCanonical_str_iff.mp canonical]

theorem spells_render (index : Int64) :
    Numeric.Spells (Integer.render index).toList (.int index) := by
  have spelled (number : Nat) :
      Numeral.IsSpelled (Nat.toDigits 10 number) ⟨Nat.toDigits 10 number, none, none⟩ := by
    have areDigits : Numeral.AreDigits (Nat.toDigits 10 number) :=
      fun digit member => Nat.isDigit_of_mem_toDigits (by decide) (by decide) member
    simpa using Numeral.IsSpelled.intro (.whole areDigits Nat.toDigits_ne_nil) .none
  have value (negative : Bool) (number : Nat) :
      Numeral.wholeValue negative ⟨Nat.toDigits 10 number, none, none⟩ =
        if negative then -(number : Int) else number := by
    simp only [Numeral.wholeValue, ← Numeral.ofDigits_eq, ofDigits_eq_foldDigits,
      foldDigits_toDigits]
  rcases lt_or_ge index.toInt 0 with negative | notNegative
  · have isNumber : index.toInt = -(index.toInt.natAbs : Int) := by omega
    rw [render_eq_of_neg (by omega) isNumber, String.toList_ofList]
    exact ⟨true, _, .intro .minus (spelled _), rfl, rfl, isNumber.trans (value true _).symm⟩
  · have isNumber : index.toInt = (index.toInt.natAbs : Int) := by omega
    rw [render_eq_of_pos isNumber, String.toList_ofList]
    exact ⟨false, _, .intro .none (spelled _), rfl, rfl, isNumber.trans (value false _).symm⟩

/-- A text is the key of an integer exactly if it is the decimal notation of this integer, and
otherwise it is a key of its own. So a canonical key comes back from its text, and an integer from
its notation. -/
theorem decimal_texts_are_integer_keys :
    (∀ text index, ofString text = .int index ↔ text = Integer.render index) ∧
    (∀ text, ofString text = .str text ↔ ∀ index, text ≠ Integer.render index) ∧
    Set.InjOn render {key | key.IsCanonical} ∧
    (∀ key, ofString key.render = key ↔ key.IsCanonical) ∧
    ∀ index, (Value.str (Value.int index).toText).toInt = index := by
  refine ⟨fun text index => ?_, fun text => ?_, fun first isFirst second isSecond same => ?_,
    fun key => ofString_render_iff, fun index => ?_⟩
  · rw [← integer?_eq_some_iff, ofString]
    cases integer? text <;> simp
  · have canonical : (∀ index, text ≠ Integer.render index) ↔ integer? text = none :=
      isCanonical_str_iff
    rw [canonical, ofString]
    cases integer? text <;> simp
  · rw [← ofString_render_iff.mpr isFirst, same, ofString_render_iff.mpr isSecond]
  · have parsed : Numeric.parse? (Integer.render index) = some (.int index) := by
      refine Numeric.parse?_eq_some_iff.mpr ⟨_, ⟨[], [], ?_, ?_, ?_⟩, spells_render index⟩
      all_goals simp [Numeric.AreBlank]
    simp only [Value.toText, Value.toInt, Value.toNumeric, Numeric.leading_eq_of_parse? parsed,
      Numeric.toInt64]

end Key

end PhpScript
