import Mathlib.Algebra.Field.Rat
import PhpScript.Proofs.Number.Order
import PhpScript.Proofs.Number.Spelling
import PhpScript.Proofs.Value.DecimalKey

/-!
# The text of a float

A float is written from decimal digits and the power of ten of the first one. Zeros at the end are
left out, the point moves into the digits or past them, or an exponent is put behind them. None of
this changes the number that the digits stand for, and the text is numeric as a whole.
-/

namespace PhpScript

namespace Numeral

def exponentValue (numeral : Numeral) : Int :=
  match numeral.exponent with
  | none => 0
  | some (true, digits) => -(Integer.foldDigits digits : Int)
  | some (false, digits) => Integer.foldDigits digits

/-- The number that a numeral stands for. A digit behind the point counts a tenth of the one in
front of it. -/
def value (numeral : Numeral) : ℚ :=
  let fraction := numeral.fraction.getD []
  Integer.foldDigits (numeral.whole ++ fraction) * 10 ^ (numeral.exponentValue - fraction.length)

/-- A text without sign that stands for a number. -/
def Writes (text : List Char) (number : ℚ) : Prop :=
  ∃ numeral, IsSpelled text numeral ∧ numeral.value = number

end Numeral

namespace Scientific

/-- The number with these digits whose first digit counts `10 ^ exponent`. -/
def valueOf (digits : List Char) (exponent : Int) : ℚ :=
  Integer.foldDigits digits * 10 ^ (exponent + 1 - digits.length)

def value (number : Scientific) : ℚ := valueOf number.digits number.exponent

def zeros (count : Nat) : List Char := List.replicate count '0'

theorem foldDigits_zeros (count : Nat) : Integer.foldDigits (zeros count) = 0 := by
  induction count with
  | zero => rfl
  | succ count ih => exact ih

theorem foldDigits_append_zeros (digits : List Char) (count : Nat) :
    (Integer.foldDigits (digits ++ zeros count) : ℚ) = Integer.foldDigits digits * 10 ^ count := by
  rw [Integer.foldDigits_append, foldDigits_zeros]
  simp [zeros]

theorem foldDigits_zeros_append (count : Nat) (digits : List Char) :
    Integer.foldDigits (zeros count ++ digits) = Integer.foldDigits digits := by
  rw [Integer.foldDigits_append, foldDigits_zeros]
  simp

theorem valueOf_append_zeros (digits : List Char) (count : Nat) (exponent : Int) :
    valueOf (digits ++ zeros count) exponent = valueOf digits exponent := by
  have power : exponent + 1 - digits.length =
      count + (exponent + 1 - (digits ++ zeros count).length) := by
    rw [List.length_append, zeros, List.length_replicate]
    omega
  rw [valueOf, valueOf, power, foldDigits_append_zeros, zpow_add₀ (by decide), zpow_natCast,
    mul_assoc]

theorem exists_append_zeros (digits : List Char) :
    ∃ count, digits = (digits.reverse.dropWhile (· = '0')).reverse ++ zeros count := by
  refine ⟨(digits.reverse.takeWhile (· = '0')).length, ?_⟩
  have areZeros : digits.reverse.takeWhile (· = '0') =
      zeros (digits.reverse.takeWhile (· = '0')).length :=
    List.eq_replicate_of_mem fun digit isMember => by
      simpa using List.all_eq_true.mp List.all_takeWhile digit isMember
  have whole := congrArg List.reverse
    (List.takeWhile_append_dropWhile (p := (· = '0')) (l := digits.reverse))
  rw [List.reverse_append, List.reverse_reverse, areZeros, zeros, List.reverse_replicate] at whole
  exact whole.symm

theorem exists_digits_eq (number : Scientific) :
    ∃ count, number.digits = number.trimmedDigits ++ zeros count := by
  unfold trimmedDigits
  cases number.digits with
  | nil => exact ⟨0, rfl⟩
  | cons first rest =>
    obtain ⟨count, isTrimmed⟩ := exists_append_zeros rest
    exact ⟨count, congrArg (first :: ·) isTrimmed⟩

theorem valueOf_trimmedDigits (number : Scientific) :
    valueOf number.trimmedDigits number.exponent = number.value := by
  obtain ⟨count, isTrimmed⟩ := number.exists_digits_eq
  rw [value, isTrimmed, valueOf_append_zeros]

theorem areDigits_trimmedDigits (number : Scientific) : Numeral.AreDigits number.trimmedDigits := by
  obtain ⟨count, isTrimmed⟩ := number.exists_digits_eq
  intro digit isMember
  have isDigit : digit ∈ number.digits := isTrimmed ▸ List.mem_append_left _ isMember
  exact Nat.isDigit_of_mem_toDigits (by decide) (by decide) isDigit

theorem trimmedDigits_ne_nil (number : Scientific) : number.trimmedDigits ≠ [] := by
  unfold trimmedDigits
  split
  · rename_i isEmpty
    exact absurd isEmpty Nat.toDigits_ne_nil
  · exact List.cons_ne_nil _ _

end Scientific

namespace Numeral

theorem areDigits_zeros (count : Nat) : AreDigits (Scientific.zeros count) := by
  intro digit isMember
  rw [List.eq_of_mem_replicate isMember]
  rfl

/-! ## The layouts -/

theorem IsMantissa.writes {mantissa whole : List Char} {fraction : Option (List Char)} {number : ℚ}
    (isMantissa : IsMantissa mantissa whole fraction)
    (isValue : value ⟨whole, fraction, none⟩ = number) : Writes mantissa number := by
  have isSpelled : IsSpelled (mantissa ++ []) ⟨whole, fraction, none⟩ := .intro isMantissa .none
  rw [List.append_nil] at isSpelled
  exact ⟨_, isSpelled, isValue⟩

section Layouts

variable {digits behind : List Char} (areDigits : AreDigits digits)
include areDigits

theorem writes_below_one (count : Nat) :
    Writes ('0' :: '.' :: (Scientific.zeros count ++ digits))
      (Scientific.valueOf digits (-(count + 1))) := by
  have areBehind : AreDigits (Scientific.zeros count ++ digits) := by
    intro digit isMember
    exact (List.mem_append.mp isMember).elim (areDigits_zeros count digit) (areDigits digit)
  have isMantissa := IsMantissa.pointed (areDigits_zeros 1) (List.cons_ne_nil '0' []) areBehind
  apply isMantissa.writes
  have power : (0 : Int) - (Scientific.zeros count ++ digits).length =
      -(count + 1) + 1 - digits.length := by
    rw [List.length_append, Scientific.zeros, List.length_replicate]
    omega
  have kept := Scientific.foldDigits_zeros_append (count + 1) digits
  simp only [value, exponentValue, Scientific.valueOf, Option.getD_some, power]
  exact congrArg (fun number : Nat => (number : ℚ) * _) kept

variable (nonempty : digits ≠ [])
include nonempty

theorem writes_whole (count : Nat) :
    Writes (digits ++ Scientific.zeros count)
      (Scientific.valueOf digits (digits.length + count - 1)) := by
  have areWhole : AreDigits (digits ++ Scientific.zeros count) := by
    intro digit isMember
    exact (List.mem_append.mp isMember).elim (areDigits digit) (areDigits_zeros count digit)
  have isMantissa := IsMantissa.whole areWhole (List.append_ne_nil_of_left_ne_nil nonempty _)
  apply isMantissa.writes
  have power : (digits.length + count - 1 + 1 - (digits ++ Scientific.zeros count).length : Int) =
      0 - ([] : List Char).length := by
    rw [List.length_append, Scientific.zeros, List.length_replicate, List.length_nil]
    omega
  rw [← Scientific.valueOf_append_zeros digits count]
  simp only [value, exponentValue, Scientific.valueOf, Option.getD_none, power, List.append_nil]

theorem writes_pointed (areBehind : AreDigits behind) :
    Writes (digits ++ '.' :: behind)
      (Scientific.valueOf (digits ++ behind) (digits.length - 1)) := by
  apply (IsMantissa.pointed areDigits nonempty areBehind).writes
  have power : (digits.length - 1 + 1 - (digits ++ behind).length : Int) = 0 - behind.length := by
    rw [List.length_append]
    omega
  simp only [value, exponentValue, Scientific.valueOf, Option.getD_some, power]

theorem writes_positional (exponent : Int) :
    Writes (Scientific.positional digits exponent).toList (Scientific.valueOf digits exponent) := by
  simp only [Scientific.positional]
  split
  · have writes := writes_below_one areDigits (-exponent - 1).toNat
    have isExponent : -(((-exponent - 1).toNat : Int) + 1) = exponent := by omega
    rw [isExponent] at writes
    simpa [Scientific.zeros] using writes
  · split
    · have writes := writes_whole areDigits nonempty (exponent + 1 - digits.length).toNat
      have isExponent :
          (digits.length + (exponent + 1 - digits.length).toNat - 1 : Int) = exponent := by
        omega
      rw [isExponent] at writes
      simpa [Scientific.zeros] using writes
    · have size := List.length_take_of_le (l := digits) (i := (exponent + 1).toNat) (by omega)
      have isExponent : ((exponent + 1).toNat - 1 : Int) = exponent := by omega
      have areBefore : AreDigits (digits.take (exponent + 1).toNat) :=
        fun digit isMember => areDigits digit (List.mem_of_mem_take isMember)
      have areBehind : AreDigits (digits.drop (exponent + 1).toNat) :=
        fun digit isMember => areDigits digit (List.mem_of_mem_drop isMember)
      have isBefore : digits.take (exponent + 1).toNat ≠ [] :=
        List.ne_nil_of_length_pos (by omega)
      have writes := writes_pointed areBefore isBefore areBehind
      rw [List.take_append_drop, size, isExponent] at writes
      simpa using writes

end Layouts

theorem writes_exponential {first : Char} {behind sign : List Char} {negative : Bool} (size : Nat)
    (areDigits : AreDigits (first :: behind)) (isSign : IsSign sign negative) :
    Writes (first :: '.' :: behind ++ 'E' :: (sign ++ Nat.toDigits 10 size))
      (Scientific.valueOf (first :: behind) (if negative then -(size : Int) else size)) := by
  have isFirst : AreDigits [first] := fun digit isMember =>
    areDigits digit (List.mem_cons.mpr (.inl (List.mem_singleton.mp isMember)))
  have areBehind : AreDigits behind := fun digit isMember =>
    areDigits digit (List.mem_cons_of_mem first isMember)
  have areSize : AreDigits (Nat.toDigits 10 size) := fun digit isMember =>
    Nat.isDigit_of_mem_toDigits (by decide) (by decide) isMember
  have isMantissa := IsMantissa.pointed isFirst (List.cons_ne_nil first []) areBehind
  have isExponent := IsExponent.some (.inr rfl) isSign areSize Nat.toDigits_ne_nil
  refine ⟨_, .intro isMantissa isExponent, ?_⟩
  have power : exponentValue ⟨[first], some behind, some (negative, Nat.toDigits 10 size)⟩ =
      if negative then -(size : Int) else size := by
    cases negative <;> simp [exponentValue, Integer.foldDigits_toDigits]
  simp only [value, Scientific.valueOf, Option.getD_some, power, List.length_cons, Nat.cast_add,
    Nat.cast_one, add_sub_add_right_eq_sub, List.singleton_append]

theorem toList_writeExponential (limit : Int) (first : Char) (behind : List Char) (exponent : Int) :
    ((FloatFormat.script limit).writeExponential (first :: behind) exponent).toList =
      first :: '.' :: (if behind = [] then ['0'] else behind) ++
        'E' :: ((if exponent < 0 then ['-'] else ['+']) ++ Nat.toDigits 10 exponent.natAbs) := by
  have power : (toString exponent.natAbs).toList = Nat.toDigits 10 exponent.natAbs := by
    rw [Nat.toString_eq_repr, Nat.repr_eq_ofList_toDigits, String.toList_ofList]
  have mark : (if exponent < 0 then "E-" else "E+").toList =
      'E' :: if exponent < 0 then ['-'] else ['+'] := by
    split <;> rfl
  simp only [FloatFormat.writeExponential, FloatFormat.script, String.toList_append, power, mark]
  have zero : ".0".toList = ['.', '0'] := rfl
  cases behind <;> simp [zero]

theorem writes_digits (limit : Int) {digits : List Char} (areDigits : AreDigits digits)
    (nonempty : digits ≠ []) (exponent : Int) :
    Writes ((FloatFormat.script limit).writeDigits digits exponent).toList
      (Scientific.valueOf digits exponent) := by
  change Writes
    (if _ then (FloatFormat.script limit).writePositional digits exponent else _).toList _
  split
  · exact writes_positional areDigits nonempty exponent
  · obtain ⟨first, behind, rfl⟩ := List.exists_cons_of_ne_nil nonempty
    have isSign : IsSign (if exponent < 0 then ['-'] else ['+']) (exponent < 0) := by
      split
      · rename_i isNegative
        rw [decide_eq_true isNegative]
        exact .minus
      · rename_i isPositive
        rw [decide_eq_false isPositive]
        exact .plus
    have isExponent : (if decide (exponent < 0) then -(exponent.natAbs : Int)
        else exponent.natAbs) = exponent := by
      simp only [decide_eq_true_eq]
      omega
    rw [toList_writeExponential]
    cases behind with
    | nil =>
      have areShown : AreDigits [first, '0'] := by
        simpa [AreDigits] using areDigits
      have writes := writes_exponential exponent.natAbs areShown isSign
      rw [isExponent] at writes
      rw [← Scientific.valueOf_append_zeros [first] 1 exponent]
      exact writes
    | cons =>
      have writes := writes_exponential exponent.natAbs areDigits isSign
      rw [isExponent] at writes
      exact writes

end Numeral

namespace FloatFormat

/-- The digits of a magnitude that are shown, with the exponent of the first. -/
def scientific (precision : Precision) (significand : Nat) (exponent : Int) : Scientific :=
  match precision with
  | .digits count =>
    let (numerator, denominator) := Binary64.ratio significand exponent
    Scientific.rounded count numerator denominator
  | .shortest => Scientific.shortest significand exponent

section Finite

variable {float : Float} {negative : Bool} {significand : Nat} {exponent : Int}
  (decodes : Binary64.decode float = .finite negative significand exponent)
  (nonzero : significand ≠ 0)
include decodes nonzero

theorem write_eq (limit : Int) (precision : Precision) :
    (script limit).write precision float =
      (if negative then "-" else "") ++
        (script limit).writeDigits (scientific precision significand exponent).trimmedDigits
          (scientific precision significand exponent).exponent := by
  obtain ⟨size, rfl⟩ := Nat.exists_eq_succ_of_ne_zero nonzero
  unfold write
  rw [decodes]
  cases precision <;> rfl

theorem exists_isSpelled_write (limit : Int) (precision : Precision) :
    ∃ numeral, Numeric.IsSpelled ((script limit).write precision float).toList negative numeral ∧
      numeral.value = (scientific precision significand exponent).value := by
  generalize isNumber : scientific precision significand exponent = number
  obtain ⟨numeral, isSpelled, isValue⟩ := Numeral.writes_digits limit
    number.areDigits_trimmedDigits number.trimmedDigits_ne_nil number.exponent
  refine ⟨numeral, ?_, isValue.trans number.valueOf_trimmedDigits⟩
  rw [write_eq decodes nonzero, isNumber, String.toList_append]
  cases negative with
  | true => exact .intro .minus isSpelled
  | false => exact .intro .none isSpelled

end Finite

end FloatFormat

namespace FloatText

/-- A numeric text with a sign and a magnitude. -/
def Shows (text : String) (negative : Bool) (magnitude : ℚ) : Prop :=
  ∃ numeral, Numeric.IsSpelled text.toList negative numeral ∧ numeral.value = magnitude ∧
    Numeric.parse? text = some (numeral.toNumeric negative)

theorem shows_of_isSpelled {text : String} {negative : Bool} {magnitude : ℚ}
    (isWritten : ∃ numeral, Numeric.IsSpelled text.toList negative numeral ∧
      numeral.value = magnitude) : Shows text negative magnitude := by
  obtain ⟨numeral, isSpelled, isValue⟩ := isWritten
  have isPadded : Numeric.IsPadded text.toList text.toList :=
    ⟨[], [], by simp, List.nil_subset _, List.nil_subset _⟩
  exact ⟨numeral, isSpelled, isValue, Numeric.parse?_eq_some_iff.mpr
    ⟨_, isPadded, negative, numeral, isSpelled, Numeral.denotes_iff.mpr rfl⟩⟩

/-- Both texts of a finite float other than zero are numeric texts with the sign of the float, and
they stand for exactly the number that the digits chosen for it form. -/
theorem texts_keep_digits {float : Float} {negative : Bool} {significand : Nat} {exponent : Int}
    (decodes : Binary64.decode float = .finite negative significand exponent)
    (nonzero : significand ≠ 0) :
    Shows (shown float) negative
        (FloatFormat.scientific (.digits 14) significand exponent).value ∧
      Shows (exact float) negative
        (FloatFormat.scientific .shortest significand exponent).value :=
  ⟨shows_of_isSpelled (FloatFormat.exists_isSpelled_write decodes nonzero 14 (.digits 14)),
    shows_of_isSpelled (FloatFormat.exists_isSpelled_write decodes nonzero 15 .shortest)⟩

/-- The sum of a tenth and two tenths, with a minus. -/
theorem texts_keep_digits_tenths :
    Shows (shown (Float.ofBits 0xBFD3333333333334)) true (3 / 10) ∧
      Shows (exact (Float.ofBits 0xBFD3333333333334)) true (30000000000000004 / 10 ^ 17) := by
  have decodes : Binary64.decode (Float.ofBits 0xBFD3333333333334) =
      .finite true 0x13333333333334 (-54) := by
    have bits : (Float.ofBits 0xBFD3333333333334).toBits = 0xBFD3333333333334 :=
      Binary64.toBits_ofBits (by decide)
    simp only [Binary64.decode, Binary64.magnitudeBits, Binary64.isNegative, bits]
    decide
  have rounded : FloatFormat.scientific (.digits 14) 0x13333333333334 (-54) =
      ⟨30000000000000, -1⟩ := by decide +kernel
  have shortest : FloatFormat.scientific .shortest 0x13333333333334 (-54) =
      ⟨30000000000000004, -1⟩ := by decide +kernel
  have shows := texts_keep_digits decodes (by decide)
  rw [rounded, shortest] at shows
  have roundedValue : Scientific.value ⟨30000000000000, -1⟩ = 3 / 10 := by
    decide +kernel
  have shortestValue : Scientific.value ⟨30000000000000004, -1⟩ = 30000000000000004 / 10 ^ 17 := by
    decide +kernel
  rwa [roundedValue, shortestValue] at shows

end FloatText

end PhpScript
