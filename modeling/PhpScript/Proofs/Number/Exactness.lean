import PhpScript.Proofs.Number.Order
import PhpScript.Value.Operation

/-!
# Exact results on integers

Arithmetic on script integers is arithmetic on mathematical integers as long as the result is in
range. A result that is not becomes a float, and only shifts to the left drop bits.

A power with an exponent from `exactExponentLimit` on is computed in floats. Where the base is at
least two in size the power is out of range anyway; the powers of zero, one and minus one are in
range for all exponents.
-/

namespace PhpScript

theorem Integer.inRange (word : Int64) : minimum ≤ word.toInt ∧ word.toInt ≤ maximum :=
  ⟨Int64.minValue_le_toInt word, Int64.toInt_le word⟩

theorem Binary64.isZero_ofInt64_iff {number : Int64} :
    isZero (ofInt64 number) = true ↔ number = 0 := by
  rw [isZero, ofInt64, ofInt, nearest, magnitudeBits_ofMagnitude _ (nearestMagnitude_le _ _),
    decide_eq_true_eq, ← Int64.toInt_inj, Int64.toInt_zero, ← Int.natAbs_eq_zero]
  generalize number.toInt.natAbs = size
  have nonnegative : -1 ≤ binaryExponent size 1 := by
    have one : Nat.log2 1 = 0 := by decide
    simp only [binaryExponent, one]
    split <;> omega
  constructor
  · intro isZero
    by_contra nonzero
    -- The exponent is above the least one, and then the encoding has bits above the significand.
    have above : 1 ≤ (max leastExponent (binaryExponent size 1 - 52) - leastExponent).toNat := by
      simp only [leastExponent]
      omega
    have positive : 0 < hidden := Nat.two_pow_pos 52
    have infinite : 0 < infiniteBits := Nat.mul_pos (by decide) positive
    have bits := Nat.mul_pos above positive
    simp only [nearestMagnitude, nonzero, if_false] at isZero
    omega
  · rintro rfl
    rfl

namespace Numeric

/-- What a number is for an exact integer result: this integer if it is in range, and a float
otherwise. -/
def IsExact (exact : Int) : Numeric → Prop
  | .int value => value.toInt = exact
  | .float _ => ∀ word : Int64, word.toInt ≠ exact

def IsInt (exact : Int) (number : Numeric) : Prop :=
  ∃ value, number = .int value ∧ value.toInt = exact

/-- What a number is for a quotient: it is exact if the division is, and a float otherwise. -/
def IsQuotient (dividend divisor : Int) (number : Numeric) : Prop :=
  (divisor ∣ dividend → number.IsExact (dividend / divisor)) ∧
    (¬divisor ∣ dividend → ∃ value, number = .float value)

theorem isExact_ofExact (exact : Int) (fallback : Float) :
    (ofExact exact fallback).IsExact exact := by
  unfold ofExact
  cases fits : Integer.fit? exact with
  | some value => exact Integer.fit?_eq_some_iff.mp fits
  | none =>
    intro word same
    rw [Integer.fit?_eq_some_iff.mpr same] at fits
    cases fits

variable {exact : Int} {number : Numeric} {base : Int} {exponent : Int64}

theorem IsExact.isInt (isExact : number.IsExact exact)
    (inRange : Integer.minimum ≤ exact ∧ exact ≤ Integer.maximum) : number.IsInt exact := by
  have fits : Integer.fit? exact = some (Int64.ofInt exact) := if_pos inRange
  cases number with
  | int value => exact ⟨value, rfl, isExact⟩
  | float value => exact absurd (Integer.fit?_eq_some_iff.mp fits) (isExact _)

theorem IsExact.isFloat (isExact : number.IsExact exact)
    (outOfRange : exact < Integer.minimum ∨ Integer.maximum < exact) :
    ∃ value, number = .float value := by
  cases number with
  | int value =>
    have inRange := Integer.inRange value
    rw [show value.toInt = exact from isExact] at inRange
    omega
  | float value => exact ⟨value, rfl⟩

theorem isInt_wrap (inRange : Integer.minimum ≤ exact ∧ exact ≤ Integer.maximum) :
    IsInt exact (.int (Integer.wrap exact)) :=
  ⟨_, rfl, Integer.fit?_eq_some_iff.mp (if_pos inRange)⟩

/-! ## Division -/

theorem isQuotient_div (dividend divisor : Int64) :
    (div (.int dividend) (.int divisor)).IsQuotient dividend.toInt divisor.toInt := by
  simp only [div]
  constructor
  · intro divides
    rw [if_pos (Int.tmod_eq_zero_of_dvd divides), Int.tdiv_eq_ediv_of_dvd divides]
    exact isExact_ofExact _ _
  · intro noDivisor
    rw [if_neg fun isZero => noDivisor (Int.dvd_of_tmod_eq_zero isZero)]
    exact ⟨_, rfl⟩

theorem isInt_tmod {dividend divisor : Int64} (nonzero : divisor.toInt ≠ 0) :
    IsInt (dividend.toInt.tmod divisor.toInt)
      (.int (Integer.wrap (dividend.toInt.tmod divisor.toInt))) := by
  apply isInt_wrap
  have size := Int.natAbs_tmod dividend.toInt divisor.toInt
  have less := Nat.mod_lt dividend.toInt.natAbs (Int.natAbs_pos.mpr nonzero)
  have inRange := Integer.inRange divisor
  simp only [Integer.minimum, Integer.maximum] at inRange ⊢
  omega

/-! ## Shifts -/

theorem isInt_shiftLeft (number : Int64) (places : Nat) :
    IsInt ((number.toInt * 2 ^ places).bmod (2 ^ 64))
      (.int (if 64 ≤ places then 0 else Integer.wrap (number.toInt * Int.pow 2 places))) := by
  refine ⟨_, rfl, ?_⟩
  split
  · rename_i beyond
    have divides : ((2 ^ 64 : Nat) : Int) ∣ number.toInt * 2 ^ places :=
      Dvd.dvd.mul_left (pow_dvd_pow 2 beyond) _
    rw [Int64.toInt_zero, Int.bmod_eq_zero_of_dvd divides]
  · exact Int64.toInt_ofInt

theorem inRange_fdiv (number : Int64) (places : Nat) :
    Integer.minimum ≤ number.toInt.fdiv (2 ^ places) ∧
      number.toInt.fdiv (2 ^ places) ≤ Integer.maximum := by
  have inRange := Integer.inRange number
  have positive : (0 : Int) < 2 ^ places := Int.pow_pos (by decide)
  rw [Int.fdiv_eq_ediv_of_nonneg _ positive.le]
  have size := Int.natAbs_ediv_le_natAbs number.toInt (2 ^ places)
  simp only [Integer.minimum, Integer.maximum] at inRange ⊢
  rcases lt_or_ge number.toInt 0 with negative | nonnegative
  · have isNegative := Int.ediv_neg_of_neg_of_pos negative positive
    omega
  · have isNonnegative := Int.ediv_nonneg nonnegative positive.le
    omega

theorem fdiv_two_pow_of_le (number : Int64) {places : Nat} (beyond : 64 ≤ places) :
    number.toInt.fdiv (2 ^ places) = if number.toInt < 0 then -1 else 0 := by
  have inRange := Integer.inRange number
  have large : (2 : Int) ^ 64 ≤ 2 ^ places := pow_le_pow_right₀ (by decide) beyond
  simp only [Integer.minimum, Integer.maximum] at inRange
  rw [Int.fdiv_eq_ediv_of_nonneg _ (by omega)]
  split
  · exact Int.ediv_eq_neg_one_of_neg_of_le ‹_› (by omega)
  · exact Int.ediv_eq_zero_of_lt (by omega) (by omega)

/-- Beyond 63 places only the sign is left, as in the quotient by the power of two. -/
theorem isInt_shiftRight (number : Int64) (places : Nat) :
    IsInt (number.toInt.fdiv (2 ^ places))
      (.int (if 64 ≤ places then (if number.toInt < 0 then -1 else 0)
        else Integer.wrap (number.toInt.fdiv (Int.pow 2 places)))) := by
  split
  · rename_i beyond
    rw [fdiv_two_pow_of_le number beyond]
    split
    · exact ⟨-1, rfl, rfl⟩
    · exact ⟨0, rfl, rfl⟩
  · exact isInt_wrap (inRange_fdiv number places)

/-! ## Powers -/

theorem outOfRange_pow (large : 2 ≤ base.natAbs) {exponent : Nat} (beyond : 64 ≤ exponent) :
    ¬(Integer.minimum ≤ base ^ exponent ∧ base ^ exponent ≤ Integer.maximum) := by
  have size : 2 ^ 64 ≤ (base ^ exponent).natAbs :=
    calc 2 ^ 64 ≤ 2 ^ exponent := Nat.pow_le_pow_right (by decide) beyond
      _ ≤ base.natAbs ^ exponent := Nat.pow_le_pow_left large exponent
      _ = (base ^ exponent).natAbs := (Int.natAbs_pow base exponent).symm
  simp only [Integer.minimum, Integer.maximum]
  omega

theorem pow_sameParity (small : base.natAbs ≤ 1) {exponent : Nat} (positive : exponent ≠ 0) :
    base ^ (exponent % 2 + 2) = base ^ exponent := by
  have cases : base = 0 ∨ base = 1 ∨ base = -1 := by omega
  rcases cases with rfl | rfl | rfl
  · rw [zero_pow positive, zero_pow (by omega)]
  · rw [one_pow, one_pow]
  · rw [neg_one_pow_eq_pow_mod_two, neg_one_pow_eq_pow_mod_two exponent, Nat.add_mod_right,
      Nat.mod_mod]

theorem exactPower?_eq {exponent : Int} (natural : 0 ≤ exponent)
    (below : exponent < exactExponentLimit) :
    exactPower? base exponent = Integer.fit? (base ^ exponent.toNat) := by
  unfold exactPower?
  rw [if_neg (by omega)]
  split
  · rename_i small
    by_cases isZero : exponent = 0
    · rw [isZero]
      rfl
    · have positive : exponent.toNat ≠ 0 := by omega
      simp only [isZero, if_false]
      exact congrArg Integer.fit? (pow_sameParity small positive)
  · split
    · rename_i large beyond
      exact (if_neg (outOfRange_pow (by omega) (by omega))).symm
    · rfl

theorem power_eq_ofExact (base : Int64) (natural : 0 ≤ exponent.toInt)
    (below : exponent.toInt < exactExponentLimit) :
    power (.int base) (.int exponent) = ofExact (base.toInt ^ exponent.toInt.toNat)
      (Float.pow (toFloat (.int base)) (toFloat (.int exponent))) := by
  rw [ofExact, ← exactPower?_eq natural below]
  rfl

theorem isFloat_power (base : Int64) (beyond : exactExponentLimit ≤ exponent.toInt) :
    ∃ value, power (.int base) (.int exponent) = .float value := by
  have notTried : exactPower? base.toInt exponent.toInt = none := if_pos (.inr beyond)
  simp only [power, notTried]
  exact ⟨_, rfl⟩

/-- A power is exact, except that the powers of zero, one and minus one are floats from the limit
on. -/
theorem isExact_power_iff (base : Int64) (natural : 0 ≤ exponent.toInt) :
    (power (.int base) (.int exponent)).IsExact (base.toInt ^ exponent.toInt.toNat) ↔
      ¬(base.toInt.natAbs ≤ 1 ∧ exactExponentLimit ≤ exponent.toInt) := by
  rcases lt_or_ge exponent.toInt exactExponentLimit with below | beyond
  · rw [power_eq_ofExact base natural below]
    exact iff_of_true (isExact_ofExact _ _) (by omega)
  · rcases isFloat_power base beyond with ⟨value, isFloat⟩
    rw [isFloat]
    constructor
    · rintro isExact ⟨small, _⟩
      have size : (base.toInt ^ exponent.toInt.toNat).natAbs ≤ 1 := by
        rw [Int.natAbs_pow]
        exact pow_le_one₀ (Nat.zero_le _) small
      have inRange : Integer.minimum ≤ base.toInt ^ exponent.toInt.toNat ∧
          base.toInt ^ exponent.toInt.toNat ≤ Integer.maximum := by
        simp only [Integer.minimum, Integer.maximum]
        omega
      rcases isExact.isInt inRange with ⟨_, isInt, _⟩
      cases isInt
    · intro notSmall word same
      have large : 2 ≤ base.toInt.natAbs := by omega
      have beyondWord : 64 ≤ exponent.toInt.toNat := by
        simp only [exactExponentLimit] at beyond
        omega
      have inRange := Integer.inRange word
      rw [same] at inRange
      exact outOfRange_pow large beyondWord inRange

end Numeric

end PhpScript
