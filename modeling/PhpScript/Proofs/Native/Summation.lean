import PhpScript.Proofs.Number.Spelling
import PhpScript.Proofs.Run.QuietReads

/-!
# Sums of arrays

The native function that sums up an array has a loop of its own, which takes a text for the number
in front of it and reports nothing. Both it and the operator add the same numbers, so the sum of an
array is what adding up its values with the operator gives.
-/

namespace PhpScript

theorem Checked.Gives.map {α β : Type} {computation : Checked α} {reports : List Problem}
    {value : α} (gives : computation.Gives reports value) (transform : α → β) :
    (computation >>= fun value => pure (transform value)).Gives reports (transform value) := by
  have joined : (computation >>= fun value => pure (transform value)).Gives (reports ++ [])
      (transform value) := gives.bind (gives_pure _)
  simpa using joined

namespace Value

def doubts : Value → List Problem
  | .str text => if (Numeric.parse? text).isSome then [] else [.nonNumericValue]
  | _ => []

theorem gives_operand (value : Value) : value.operand.Gives value.doubts value.toNumeric := by
  cases value with
  | str text =>
    cases parsed : Numeric.parse? text with
    | some number =>
      simp only [operand, doubts, toNumeric, parsed, Numeric.leading_eq_of_parse? parsed]
      exact Checked.gives_pure number
    | none =>
      simp only [operand, doubts, toNumeric, parsed]
      exact (Checked.gives_warn _).bind (Checked.gives_pure _)
  | _ => exact Checked.gives_pure _

variable {left right : Value} {values : List Value}

theorem gives_operands (leftSingle : left.isArray = false) (rightSingle : right.isArray = false)
    (operator : BinaryOperator) :
    (operands left operator right).Gives (left.doubts ++ right.doubts)
      (left.toNumeric, right.toNumeric) := by
  have converted : operands left operator right = (do
      let leftNumber ← left.operand
      let rightNumber ← right.operand
      return (leftNumber, rightNumber)) := by
    simp [operands, leftSingle, rightSingle]
  rw [converted]
  apply (gives_operand left).bind
  exact (gives_operand right).map (Prod.mk left.toNumeric)

theorem gives_binary_add (leftSingle : left.isArray = false) (rightSingle : right.isArray = false) :
    (binary .add left right).Gives (left.doubts ++ right.doubts)
      (left.toNumeric.add right.toNumeric).toValue := by
  have added : binary .add left right = (do
      let numbers ← operands left .add right
      return (numbers.1.add numbers.2).toValue) := by
    cases left with
    | array elements => cases leftSingle
    | _ => rfl
  rw [added]
  exact (gives_operands leftSingle rightSingle .add).map fun numbers =>
    (numbers.1.add numbers.2).toValue

theorem gives_foldlM_add (total : Numeric)
    (single : ∀ value ∈ values, value.isArray = false) :
    (values.foldlM (binary .add) total.toValue).Gives (values.flatMap doubts)
      (values.foldl (fun total value => total.add value.toNumeric) total).toValue := by
  induction values generalizing total with
  | nil => exact Checked.gives_pure total.toValue
  | cons value values ih =>
    rcases List.forall_mem_cons.mp single with ⟨isSingle, othersSingle⟩
    have added : (binary .add total.toValue value).Gives value.doubts
        (total.add value.toNumeric).toValue := by
      cases total <;> exact gives_binary_add rfl isSingle
    exact added.bind (ih _ othersSingle)

end Value

namespace ArrayFunction

theorem sumFrom_eq_foldl (total : Numeric) {values : List Value}
    (single : ∀ value ∈ values, value.isArray = false) :
    sumFrom total values =
      pure (values.foldl (fun total value => total.add value.toNumeric) total) := by
  induction values generalizing total with
  | nil => rfl
  | cons value values ih =>
    rcases List.forall_mem_cons.mp single with ⟨isSingle, othersSingle⟩
    simp [sumFrom, isSingle, ih _ othersSingle]

/-- The sum of an array without inner arrays is the number that the operator gives when it adds up
the values from zero on. The operator reports the texts that are not numeric, and the native
function reports nothing. -/
theorem sum_is_repeated_addition {elements : Table Key Value}
    (single : ∀ value ∈ elements.values, value.isArray = false) :
    ∃ total : Numeric,
      (∀ span, Native.call (.array .sum) span [.array elements] = pure (total.toValue, none)) ∧
      (elements.values.foldlM (Value.binary .add) (.int 0)).outcome =
        (elements.values.flatMap Value.doubts, .ok total.toValue) := by
  have gives := Value.gives_foldlM_add (.int 0) single
  refine ⟨_, ?_, (Checked.outcome_eq_ok_iff (.inr ⟨_, _, gives⟩)).mpr gives⟩
  intro span
  have called : Native.call (.array .sum) span [.array elements] =
      (do return (← Run.check span (do return (← sumFrom (.int 0) elements.values).toValue),
        none)) := rfl
  rw [called, sumFrom_eq_foldl _ single]
  rfl

/-- The sum leaves the range of integers at the first text, and the second text is not numeric. -/
theorem sum_is_repeated_addition_overflowing :
    let elements : Table Key Value :=
      .ofValues [.int Int64.maxValue, .str " 1", .bool true, .null, .str "2 apples"]
    (∀ value ∈ elements.values, value.isArray = false) ∧
      ∃ number : Float,
        (∀ span, Native.call (.array .sum) span [.array elements] = pure (.float number, none)) ∧
        (elements.values.foldlM (Value.binary .add) (.int 0)).outcome =
          ([.nonNumericValue], .ok (.float number)) := by
  intro elements
  have values : elements.values =
      [.int Int64.maxValue, .str " 1", .bool true, .null, .str "2 apples"] := rfl
  have single : ∀ value ∈ elements.values, value.isArray = false := by
    simp [values, Value.isArray]
  refine ⟨single, ?_⟩
  rcases sum_is_repeated_addition single with ⟨total, called, added⟩
  have ⟨number, isFloat⟩ : ∃ number, (elements.values.foldlM (Value.binary .add) (.int 0)).outcome =
      ([.nonNumericValue], .ok (.float number)) := ⟨_, rfl⟩
  have same : total.toValue = .float number :=
    Except.ok.inj (congrArg Prod.snd (added.symm.trans isFloat))
  refine ⟨number, ?_, isFloat⟩
  intro span
  rw [called, same]

end ArrayFunction

end PhpScript
