import PhpScript.Proofs.Number.Exactness
import PhpScript.Proofs.Number.Spelling
import PhpScript.Run.Native

/-!
# Arithmetic on integer operands

An operand that is an integer, or a text that spells one, takes part in arithmetic as this integer.
What becomes of a result that is out of range is settled by each operator: sums, differences,
products, changes of sign and steps become floats, remainders are never out of range, and shifts
lose bits.
-/

namespace PhpScript

namespace Checked

/-- A computation ends with a number with a property, and it reports nothing. -/
def Computes (holds : Numeric → Prop) (computation : Checked Value) : Prop :=
  ∃ number : Numeric, computation = pure number.toValue ∧ holds number

/-- A computation fails with a problem under a condition, and gives a number with a property in all
other cases. -/
def ComputesUnless (condition : Prop) (problem : Problem) (holds : Numeric → Prop)
    (computation : Checked Value) : Prop :=
  (condition → computation = throw problem) ∧ (¬condition → computation.Computes holds)

end Checked

namespace Value

/-- An integer as an operand: the integer itself, or a text that spells it between blanks. -/
inductive IsInteger : Value → Int64 → Prop
  | int (number : Int64) : IsInteger (.int number) number
  | text {source : String} {written : List Char} {number : Int64}
      (isPadded : Numeric.IsPadded source.toList written)
      (spells : Numeric.Spells written (.int number)) : IsInteger (.str source) number

section Operands

variable {value left right : Value} {number x y : Int64}

theorem isArray_of_isInteger (isInteger : value.IsInteger number) : value.isArray = false := by
  cases isInteger <;> rfl

theorem operand_of_isInteger (isInteger : value.IsInteger number) :
    value.operand = pure (.int number) := by
  cases isInteger with
  | int => rfl
  | text isPadded spells =>
    simp only [operand, Numeric.parse?_eq_some_iff.mpr ⟨_, isPadded, spells⟩]

theorem operands_of_isInteger (isLeft : left.IsInteger x) (isRight : right.IsInteger y)
    (operator : BinaryOperator) : operands left operator right = pure (.int x, .int y) := by
  simp [operands, isArray_of_isInteger isLeft, isArray_of_isInteger isRight,
    operand_of_isInteger isLeft, operand_of_isInteger isRight]

def arithmeticOperators : List BinaryOperator :=
  [.add, .sub, .mul, .div, .mod, .pow, .shiftLeft, .shiftRight]

theorem binary_of_isInteger {operator : BinaryOperator}
    (isArithmetic : operator ∈ arithmeticOperators) (isLeft : left.IsInteger x)
    (isRight : right.IsInteger y) :
    binary operator left right =
      (do return (← arithmetic operator (.int x) (.int y)).toValue) := by
  have numbers : binary operator left right = (do
      let numbers ← operands left operator right
      let result ← arithmetic operator numbers.1 numbers.2
      return result.toValue) := by
    simp only [arithmeticOperators, List.mem_cons, List.not_mem_nil, or_false] at isArithmetic
    rcases isArithmetic with rfl | rfl | rfl | rfl | rfl | rfl | rfl | rfl
    -- Only a sum looks at its operands first: two arrays are united.
    · cases isLeft <;> rfl
    all_goals rfl
  rw [numbers, operands_of_isInteger isLeft isRight, pure_bind]

variable {operator : BinaryOperator} {holds : Numeric → Prop} {result : Numeric}

theorem computes_of_isInteger (isArithmetic : operator ∈ arithmeticOperators)
    (isLeft : left.IsInteger x) (isRight : right.IsInteger y)
    (computed : arithmetic operator (.int x) (.int y) = pure result) (valid : holds result) :
    (binary operator left right).Computes holds := by
  refine ⟨result, ?_, valid⟩
  rw [binary_of_isInteger isArithmetic isLeft isRight, computed, pure_bind]

theorem computesUnless_of_isInteger {condition : Prop} {problem : Problem}
    (isArithmetic : operator ∈ arithmeticOperators) (isLeft : left.IsInteger x)
    (isRight : right.IsInteger y)
    (fails : condition → arithmetic operator (.int x) (.int y) = throw problem)
    (computed : ¬condition → arithmetic operator (.int x) (.int y) = pure result)
    (valid : ¬condition → holds result) :
    (binary operator left right).ComputesUnless condition problem holds := by
  constructor
  · intro isCase
    rw [binary_of_isInteger isArithmetic isLeft isRight, fails isCase]
    rfl
  · intro isOther
    exact computes_of_isInteger isArithmetic isLeft isRight (computed isOther) (valid isOther)

end Operands

theorem unary_neg_of_isInteger {value : Value} {number : Int64}
    (isInteger : value.IsInteger number) :
    unary .neg value = pure (Numeric.neg (.int number)).toValue := by
  have signed : unary .neg value = (do
      if value.isArray then throw (.unsupportedOperands value.type .mul .int)
      let number ← value.operand
      return number.neg.toValue) := rfl
  rw [signed, isArray_of_isInteger isInteger, operand_of_isInteger isInteger]
  rfl

theorem step_of_isInteger (operator : StepOperator) {value : Value} {number : Int64}
    (isInteger : value.IsInteger number) :
    step operator value = pure (stepNumber operator (.int number)).toValue := by
  cases isInteger with
  | int => rfl
  | @text source written _ isPadded spells =>
    have parsed := Numeric.parse?_eq_some_iff.mpr ⟨_, isPadded, spells⟩
    have nonempty : source ≠ "" := by
      rintro rfl
      cases parsed
    simp only [step, nonempty, if_false, parsed]

/-- Integer operands give what the mathematical result is. Where it is out of range, the results of
addition, subtraction, multiplication, division, change of sign and steps are floats; a shift to the
left keeps the lowest 64 bits. Only a divisor of zero and a negative distance make an operator
fail. -/
theorem integer_arithmetic_is_exact {left right : Value} {x y : Int64} (isLeft : left.IsInteger x)
    (isRight : right.IsInteger y) :
    (binary .add left right).Computes (·.IsExact (x.toInt + y.toInt)) ∧
    (binary .sub left right).Computes (·.IsExact (x.toInt - y.toInt)) ∧
    (binary .mul left right).Computes (·.IsExact (x.toInt * y.toInt)) ∧
    (unary .neg left).Computes (·.IsExact (-x.toInt)) ∧
    (step .increment left).Computes (·.IsExact (x.toInt + 1)) ∧
    (step .decrement left).Computes (·.IsExact (x.toInt - 1)) ∧
    (binary .div left right).ComputesUnless (y.toInt = 0) .divisionByZero
      (·.IsQuotient x.toInt y.toInt) ∧
    (binary .mod left right).ComputesUnless (y.toInt = 0) .moduloByZero
      (·.IsInt (x.toInt.tmod y.toInt)) ∧
    (binary .shiftLeft left right).ComputesUnless (y.toInt < 0) .negativeShift
      (·.IsInt ((x.toInt * 2 ^ y.toInt.toNat).bmod (2 ^ 64))) ∧
    (binary .shiftRight left right).ComputesUnless (y.toInt < 0) .negativeShift
      (·.IsInt (x.toInt.fdiv (2 ^ y.toInt.toNat))) := by
  have isZero_iff : Binary64.isZero (Numeric.toFloat (.int y)) = true ↔ y.toInt = 0 := by
    rw [Numeric.toFloat, Binary64.isZero_ofInt64_iff, ← Int64.toInt_inj, Int64.toInt_zero]
  refine ⟨?_, ?_, ?_, ?_, ?_, ?_, ?_, ?_, ?_, ?_⟩
  · exact computes_of_isInteger (by decide) isLeft isRight rfl (Numeric.isExact_ofExact _ _)
  · exact computes_of_isInteger (by decide) isLeft isRight rfl (Numeric.isExact_ofExact _ _)
  · exact computes_of_isInteger (by decide) isLeft isRight rfl (Numeric.isExact_ofExact _ _)
  · exact ⟨_, unary_neg_of_isInteger isLeft, Numeric.isExact_ofExact _ _⟩
  · exact ⟨_, step_of_isInteger .increment isLeft, Numeric.isExact_ofExact _ _⟩
  · exact ⟨_, step_of_isInteger .decrement isLeft, Numeric.isExact_ofExact _ _⟩
  · exact computesUnless_of_isInteger (by decide) isLeft isRight
      (fun isZero => if_pos (isZero_iff.mpr isZero))
      (fun nonzero => if_neg fun isZero => nonzero (isZero_iff.mp isZero))
      fun _ => Numeric.isQuotient_div x y
  · exact computesUnless_of_isInteger (by decide) isLeft isRight
      (fun isZero => if_pos isZero) (fun nonzero => if_neg nonzero)
      fun nonzero => Numeric.isInt_tmod nonzero
  · exact computesUnless_of_isInteger (by decide) isLeft isRight
      (fun negative => if_pos negative) (fun natural => if_neg natural)
      fun _ => Numeric.isInt_shiftLeft x y.toInt.toNat
  · exact computesUnless_of_isInteger (by decide) isLeft isRight
      (fun negative => if_pos negative) (fun natural => if_neg natural)
      fun _ => Numeric.isInt_shiftRight x y.toInt.toNat

/-- The smallest integer, written as a text, divided by minus one: the quotient is out of range, and
the remainder is zero. -/
theorem integer_arithmetic_is_exact_smallest :
    (∃ value, binary .div (.str " -9223372036854775808") (.int (-1)) = pure (.float value)) ∧
      binary .mod (.str " -9223372036854775808") (.int (-1)) = pure (.int 0) := by
  have parsed : Numeric.parse? " -9223372036854775808" = some (.int Int64.minValue) := by rfl
  rcases Numeric.parse?_eq_some_iff.mp parsed with ⟨written, isPadded, spells⟩
  rcases integer_arithmetic_is_exact (.text isPadded spells) (.int (-1)) with
    ⟨_, _, _, _, _, _, quotient, remainder, _⟩
  constructor
  · rcases quotient.2 (by decide) with ⟨number, computed, isQuotient⟩
    rcases (isQuotient.1 (by decide)).isFloat (by decide) with ⟨value, rfl⟩
    exact ⟨value, computed⟩
  · rcases remainder.2 (by decide) with ⟨_, computed, value, rfl, same⟩
    rw [computed, Numeric.toValue, show value = 0 from Int64.toInt_inj.mp same]

/-! ## Powers -/

theorem binary_pow (base exponent : Int64) :
    binary .pow (.int base) (.int exponent) =
      pure (Numeric.power (.int base) (.int exponent)).toValue := rfl

theorem call_pow {base exponent result : Value} (computed : binary .pow base exponent = pure result)
    (span : Span) : Native.call (.math .pow) span [base, exponent] = pure (result, none) := by
  have called : Native.call (.math .pow) span [base, exponent] =
      (do return (← Run.check span (binary .pow base exponent), none)) := rfl
  rw [called, computed]
  rfl

/-- A power with a natural exponent is exact, as an operator and as a native function, except that
the powers of zero, one and minus one are floats where the exponent does not fit in 32 bits. -/
theorem integer_powers_exact_below_limit (base : Int64) {exponent : Int64}
    (natural : 0 ≤ exponent.toInt) :
    ∃ number : Numeric,
      binary .pow (.int base) (.int exponent) = pure number.toValue ∧
      (∀ span, Native.call (.math .pow) span [.int base, .int exponent] =
        pure (number.toValue, none)) ∧
      (number.IsExact (base.toInt ^ exponent.toInt.toNat) ↔
        ¬(base.toInt.natAbs ≤ 1 ∧ 2 ^ 32 ≤ exponent.toInt)) ∧
      (2 ^ 32 ≤ exponent.toInt → ∃ value, number = .float value) :=
  ⟨_, binary_pow base exponent, call_pow (binary_pow base exponent),
    Numeric.isExact_power_iff base natural, Numeric.isFloat_power base⟩

/-- The smallest integer is a power of minus two. -/
theorem integer_powers_exact_below_limit_smallest :
    binary .pow (.int (-2)) (.int 63) = pure (.int Int64.minValue) := by
  rcases integer_powers_exact_below_limit (-2) (by decide : 0 ≤ (63 : Int64).toInt) with
    ⟨number, computed, _, isExact_iff, _⟩
  rcases (isExact_iff.mpr (by decide)).isInt (by decide) with ⟨value, rfl, same⟩
  rw [computed, Numeric.toValue, show value = Int64.minValue from Int64.toInt_inj.mp same]

/-- All powers of one are one, but one with a large exponent is a float. -/
theorem large_power_of_one_is_float :
    (1 : Int64).toInt ^ (4294967296 : Int64).toInt.toNat = (1 : Int64).toInt ∧
      ∃ value, binary .pow (.int 1) (.int 4294967296) = pure (.float value) ∧
        ∀ span, Native.call (.math .pow) span [.int 1, .int 4294967296] =
          pure (.float value, none) := by
  have beyond : Numeric.exactExponentLimit ≤ (4294967296 : Int64).toInt := by decide
  rcases Numeric.isFloat_power 1 beyond with ⟨value, isFloat⟩
  have computed := binary_pow 1 4294967296
  rw [isFloat, Numeric.toValue] at computed
  exact ⟨one_pow _, value, computed, call_pow computed⟩

end Value

end PhpScript
