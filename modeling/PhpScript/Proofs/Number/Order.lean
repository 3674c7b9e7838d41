import Mathlib
import PhpScript.Number.Numeric

/-!
# The order of numbers

Two numbers can be ordered unless one of them is a float that stands for no number. No numeric text
denotes such a float: the bits of the nearest float never go beyond those of the infinite one. So
whatever was read from a text is equal to itself, and exchanging two numbers turns their order
around.
-/

namespace PhpScript

namespace Binary64

open Float.Model (Format)
open Float.Model.UnpackedFloat

/-! ## Floats that stand for a number -/

theorem isNaNBits_eq_false {bits : BitVec Format.binary64.numBits}
    (small : bits.toNat % Nat.pow 2 63 ≤ infiniteBits) : isNaNBits bits = false := by
  have field : (unpackExponent bits).toNat = bits.toNat / 2 ^ 52 % 2 ^ 11 := by
    rw [unpackExponent_def, BitVec.extractLsb'_toNat, Nat.shiftRight_eq_div_pow]
  have fraction : (unpackMantissa bits).toNat = bits.toNat % 2 ^ 52 := by
    rw [unpackMantissa_def, BitVec.extractLsb'_toNat, Nat.shiftRight_zero]
  have bound : bits.toNat % 2 ^ 63 ≤ 2047 * 2 ^ 52 := small
  rw [isNaNBits, decide_eq_false_iff_not]
  rintro ⟨full, nonzero⟩
  have full : bits.toNat / 2 ^ 52 % 2 ^ 11 = 2047 := field.symm.trans (congrArg BitVec.toNat full)
  have nonzero : bits.toNat % 2 ^ 52 ≠ 0 := fun zero =>
    nonzero (BitVec.toNat_inj.mp (fraction.trans zero))
  omega

theorem toBits_ofBits {word : UInt64} (small : word.toNat % Nat.pow 2 63 ≤ infiniteBits) :
    (Float.ofBits word).toBits = word := by
  have packed := @pack_unpack Format.binary64 word.toBitVec (by decide)
  rw [isNaNBits_eq_false small] at packed
  exact UInt64.toBitVec_inj.mp packed

theorem magnitudeBits_ofMagnitude (negative : Bool) {bits : Nat} (small : bits ≤ infiniteBits) :
    magnitudeBits (ofMagnitude negative bits) = bits := by
  have bound : bits ≤ 2047 * 2 ^ 52 := small
  have magnitude : (UInt64.ofNat (if negative then Nat.pow 2 63 + bits else bits)).toNat %
      Nat.pow 2 63 = bits := by
    have top : Nat.pow 2 63 = 2 ^ 63 := rfl
    rw [UInt64.toNat_ofNat', top]
    split <;> omega
  have kept := toBits_ofBits (magnitude.trans_le small)
  rw [magnitudeBits, ofMagnitude, kept, magnitude]

theorem isNan_ofMagnitude (negative : Bool) {bits : Nat} (small : bits ≤ infiniteBits) :
    isNan (ofMagnitude negative bits) = false := by
  rw [isNan, magnitudeBits_ofMagnitude negative small, decide_eq_false_iff_not, not_lt]
  exact small

theorem nearestMagnitude_le (numerator denominator : Nat) :
    nearestMagnitude numerator denominator ≤ infiniteBits := by
  unfold nearestMagnitude
  split
  · exact Nat.zero_le _
  · exact Nat.min_le_left _ _

theorem isNan_nearest (negative : Bool) (numerator denominator : Nat) :
    isNan (nearest negative numerator denominator) = false :=
  isNan_ofMagnitude negative (nearestMagnitude_le numerator denominator)

theorem isNan_ofDecimal (negative : Bool) (significand : Nat) (exponent : Int) :
    isNan (ofDecimal negative significand exponent) = false := by
  simp only [ofDecimal]
  split
  · exact isNan_ofMagnitude negative (Nat.zero_le _)
  · split
    · exact isNan_ofMagnitude negative le_rfl
    · split
      · exact isNan_nearest negative _ _
      · exact isNan_nearest negative _ _

/-! ## The order of floats -/

theorem compare?_self {number : Float} (isNumber : isNan number = false) :
    compare? number number = some .eq := by
  have found : ∃ place, orderKey number = some place := by
    unfold orderKey
    rw [isNumber]
    split
    · contradiction
    · split <;> exact ⟨_, rfl⟩
  rcases found with ⟨place, isPlace⟩
  simp [compare?, isPlace]

theorem compare?_swap (left right : Float) :
    compare? right left = (compare? left right).map Ordering.swap := by
  unfold compare?
  cases orderKey left with
  | none => cases orderKey right <;> rfl
  | some leftPlace =>
    cases orderKey right with
    | none => rfl
    | some rightPlace => exact congrArg some Std.OrientedOrd.eq_swap

end Binary64

namespace Numeric

variable {number : Numeric} {text : String}

theorem isNan_toFloat_of_parse? (parsed : parse? text = some number) :
    Binary64.isNan number.toFloat = false := by
  have ofNumeral : ∀ negative numeral,
      Binary64.isNan (Numeral.toNumeric negative numeral).toFloat = false := by
    intro negative numeral
    unfold Numeral.toNumeric
    split
    · dsimp only
      split
      · exact Binary64.isNan_nearest _ _ _
      · exact Binary64.isNan_ofDecimal _ _ _
    · exact Binary64.isNan_ofDecimal _ _ _
  unfold parse? at parsed
  split at parsed
  · rename_i found
    split at parsed
    · cases parsed
      rcases Option.map_eq_some_iff.mp found with ⟨⟨numeral, rest⟩, _, denoted⟩
      cases denoted
      exact ofNumeral _ numeral
    · cases parsed
  · cases parsed

theorem compare?_self (isNumber : Binary64.isNan number.toFloat = false) :
    number.compare? number = some .eq := by
  cases number with
  | int value => simp [compare?]
  | float value => exact Binary64.compare?_self isNumber

theorem compare?_swap (left right : Numeric) :
    right.compare? left = (left.compare? right).map Ordering.swap := by
  cases left with
  | float _ => cases right <;> exact Binary64.compare?_swap _ _
  | int leftValue =>
    cases right with
    | float _ => exact Binary64.compare?_swap _ _
    | int rightValue => exact congrArg some Std.OrientedOrd.eq_swap

end Numeric

end PhpScript
