/-!
# Integers of a script

Script integers are 64-bit words read as signed numbers. Arithmetic is done on mathematical integers
first; `Integer.fit?` says whether the result is again a script integer.
-/

namespace PhpScript.Integer

def minimum : Int := -9223372036854775808

def maximum : Int := 9223372036854775807

/-- The integer of a script, if in range. -/
def fit? (number : Int) : Option Int64 :=
  if minimum ≤ number ∧ number ≤ maximum then some (Int64.ofInt number) else none

/-- An integer as the bits of a script integer hold it. -/
def wrap (number : Int) : Int64 := Int64.ofInt number

def render (number : Int64) : String := toString number.toInt

def digitValue (digit : Char) : Nat := digit.toNat - '0'.toNat

def foldDigits (digits : List Char) : Nat :=
  digits.foldl (fun value digit => 10 * value + digitValue digit) 0

/-- The number of digits by halves, which is fast for many. -/
def ofDigitsHalved (depth : Nat) (digits : List Char) : Nat :=
  match depth with
  | 0 => foldDigits digits
  | depth + 1 =>
    let half := digits.length / 2
    if half < 32 then foldDigits digits
    else
      let low := digits.drop half
      ofDigitsHalved depth (digits.take half) * Nat.pow 10 low.length + ofDigitsHalved depth low

def ofDigits (digits : List Char) : Nat := ofDigitsHalved 32 digits

theorem foldl_eq_mul_add_foldDigits (value : Nat) (digits : List Char) :
    digits.foldl (fun value digit => 10 * value + digitValue digit) value
      = value * Nat.pow 10 digits.length + foldDigits digits := by
  induction digits generalizing value with
  | nil => simp [foldDigits]
  | cons digit rest ih =>
    unfold foldDigits
    rw [List.foldl_cons, List.foldl_cons, ih, ih (10 * 0 + digitValue digit), List.length_cons]
    simp only [Nat.pow]
    grind

theorem foldDigits_append (high low : List Char) :
    foldDigits (high ++ low) = foldDigits high * Nat.pow 10 low.length + foldDigits low := by
  rw [foldDigits, List.foldl_append, foldl_eq_mul_add_foldDigits]
  rfl

theorem ofDigitsHalved_eq_foldDigits (depth : Nat) (digits : List Char) :
    ofDigitsHalved depth digits = foldDigits digits := by
  induction depth generalizing digits with
  | zero => rfl
  | succ depth ih =>
    unfold ofDigitsHalved
    simp only [ih]
    split
    · rfl
    · have joined := foldDigits_append (digits.take (digits.length / 2))
        (digits.drop (digits.length / 2))
      rw [List.take_append_drop] at joined
      exact joined.symm

theorem ofDigits_eq_foldDigits (digits : List Char) : ofDigits digits = foldDigits digits :=
  ofDigitsHalved_eq_foldDigits 32 digits

theorem fit?_eq_some_iff {number : Int} {word : Int64} :
    fit? number = some word ↔ word.toInt = number := by
  unfold fit? minimum maximum
  constructor
  · intro found
    split at found
    · rename_i range
      cases found
      exact Int64.toInt_ofInt_of_le (by omega) (by omega)
    · cases found
  · intro same
    subst same
    have lower := Int64.minValue_le_toInt word
    have upper := Int64.toInt_le word
    simp only [Int64.ofInt_toInt]
    rw [if_pos]
    constructor
    · exact lower
    · exact upper

theorem fit?_toInt (word : Int64) : fit? word.toInt = some word :=
  fit?_eq_some_iff.2 rfl

end PhpScript.Integer
