import PhpScript.Proofs.Value.Regular
import PhpScript.Value.Coercion
import PhpScript.Value.Operation

/-!
# Computations on values

The operators, the reads and the writes give regular values for regular operands, and where they
fail, the problem is fatal: what is not fatal is reported, and the computation goes on.
-/

namespace PhpScript

/-- What can fail gives a value with one property, or it fails with a problem that has another. -/
def Ends {α : Type} (holds : α → Prop) (stops : Problem → Prop) : Except Problem α → Prop
  | .ok value => holds value
  | .error problem => stops problem

namespace Ends

variable {α β : Type} {holds : α → Prop} {post : β → Prop} {stops wider : Problem → Prop}
  {result : Except Problem α}

theorem bind {next : α → Except Problem β} (first : Ends holds stops result)
    (second : ∀ value, holds value → Ends post stops (next value)) :
    Ends post stops (result >>= next) := by
  cases result with
  | ok value => exact second value first
  | error problem => exact first

theorem mono (ends : Ends holds stops result) (weaker : ∀ problem, stops problem → wider problem) :
    Ends holds wider result := by
  cases result with
  | ok value => exact ends
  | error problem => exact weaker problem ends

end Ends

namespace Checked

variable {α β : Type} {holds : α → Prop} {post : β → Prop}

/-- What a computation on values gives has a property, and the problem with which it fails, if it
fails, is fatal. -/
structure Yields (holds : α → Prop) (computation : Checked α) : Prop where
  value : ∀ {before value after}, computation before = .ok value after → holds value
  fatal : ∀ {before problem after}, computation before = .error problem after →
    problem.isFatal = true

namespace Yields

theorem pure {value : α} (valid : holds value) : Yields holds (Pure.pure value : Checked α) where
  value := by
    rintro _ _ _ ⟨⟩
    exact valid
  fatal := by rintro _ _ _ ⟨⟩

theorem throw {problem : Problem} (fatal : problem.isFatal = true) :
    Yields holds (MonadExcept.throw problem : Checked α) where
  value := by rintro _ _ _ ⟨⟩
  fatal := by
    rintro _ _ _ ⟨⟩
    exact fatal

theorem warn (problem : Problem) : Yields (fun _ => True) (Checked.warn problem) where
  value := fun _ => trivial
  fatal := by rintro _ _ _ ⟨⟩

variable {computation : Checked α} {next : α → Checked β}

theorem bind (first : computation.Yields holds)
    (second : ∀ value, holds value → (next value).Yields post) :
    (computation >>= next).Yields post := by
  constructor
  · intro before result after ends
    cases earlier : computation before with
    | ok value middle =>
      simp only [Bind.bind, EStateM.bind, earlier] at ends
      exact (second value (first.value earlier)).value ends
    | error problem middle =>
      simp only [Bind.bind, EStateM.bind, earlier] at ends
      cases ends
  · intro before problem after ends
    cases earlier : computation before with
    | ok value middle =>
      simp only [Bind.bind, EStateM.bind, earlier] at ends
      exact (second value (first.value earlier)).fatal ends
    | error own middle =>
      simp only [Bind.bind, EStateM.bind, earlier] at ends
      cases ends
      exact first.fatal earlier

theorem throw_bind {problem : Problem} (fatal : problem.isFatal = true) :
    Yields post ((MonadExcept.throw problem : Checked α) >>= next) :=
  bind (.throw fatal : Yields (fun _ => False) _) fun _ impossible => impossible.elim

theorem ite {condition : Prop} [Decidable condition] {yes no : Checked α}
    (first : yes.Yields holds) (second : no.Yields holds) :
    Yields holds (if condition then yes else no) := by
  split
  · exact first
  · exact second

theorem ofExcept {result : Except Problem α} (ends : Ends holds (·.isFatal) result) :
    Yields holds (MonadExcept.ofExcept result : Checked α) := by
  cases result with
  | ok value => exact .pure ends
  | error problem => exact .throw ends

theorem forIn {elements : List α} {body : α → β → Checked (ForInStep β)}
    (each : ∀ element state, (body element state).Yields fun _ => True) (state : β) :
    Yields (fun _ => True) (ForIn.forIn elements state body) := by
  induction elements generalizing state with
  | nil => exact .pure trivial
  | cons element rest ih =>
    rw [List.forIn_cons]
    refine .bind (each element state) fun step _ => ?_
    cases step with
    | done final => exact .pure trivial
    | yield next => exact ih next

theorem ends_outcome (yields : computation.Yields holds) :
    Ends holds (·.isFatal) computation.outcome.2 := by
  cases result : computation [] with
  | ok value problems =>
    simp only [outcome, result]
    exact yields.value result
  | error problem problems =>
    simp only [outcome, result]
    exact yields.fatal result

end Yields

end Checked

theorem Key.ends_ofValue (value : Value) :
    Ends Key.IsCanonical (·.isFatal) (Key.ofValue value) := by
  cases found : Key.ofValue value with
  | ok key => exact Key.isCanonical_of_ofValue found
  | error problem =>
    cases value <;> cases found
    rfl

namespace Value

variable {value slot : Value}

/-! ## Operators -/

theorem yields_stringify (value : Value) : value.stringify.Yields fun _ => True := by
  simp only [stringify]
  split
  · exact .bind (.warn _) fun _ _ => .pure trivial
  · exact .pure trivial

theorem yields_operand (value : Value) : value.operand.Yields fun _ => True := by
  simp only [operand]
  split
  · split
    · exact .pure trivial
    · exact .bind (.warn _) fun _ _ => .pure trivial
  · exact .pure trivial

theorem yields_operands (left : Value) (operator : BinaryOperator) (right : Value) :
    (operands left operator right).Yields fun _ => True := by
  have numbers : (do
      let leftNumber ← left.operand
      let rightNumber ← right.operand
      return (leftNumber, rightNumber) : Checked (Numeric × Numeric)).Yields fun _ => True :=
    .bind left.yields_operand fun _ _ => .bind right.yields_operand fun _ _ => .pure trivial
  simp only [operands]
  split
  · exact .throw_bind rfl
  · exact numbers

theorem yields_shift (leftwards : Bool) (number distance : Int64) :
    (Numeric.shift leftwards number distance).Yields fun _ => True := by
  simp only [Numeric.shift]
  split
  · exact .throw rfl
  · split <;> exact .pure trivial

theorem yields_arithmetic (operator : BinaryOperator) (left right : Numeric) :
    (arithmetic operator left right).Yields fun _ => True := by
  unfold arithmetic
  split
  case h_4 =>
    simp only [Numeric.divide]
    split
    · exact .throw rfl
    · exact .pure trivial
  case h_5 =>
    simp only [Numeric.modulo]
    split
    · exact .throw rfl
    · exact .pure trivial
  case h_10 => exact yields_shift _ _ _
  case h_11 => exact yields_shift _ _ _
  all_goals exact .pure trivial

theorem regular_comparison (operator : BinaryOperator) (left right : Value) :
    (comparison operator left right).Regular := by
  cases operator <;> simp [comparison]

theorem yields_binary (operator : BinaryOperator) {left right : Value} (leftRegular : left.Regular)
    (rightRegular : right.Regular) : (binary operator left right).Yields Regular := by
  unfold binary
  split
  · exact .pure (regular_bool _)
  · exact .pure (regular_bool _)
  · exact .pure (regular_bool _)
  · exact .bind left.yields_stringify fun _ _ => .bind right.yields_stringify fun _ _ =>
      .pure (regular_str _)
  · split
    · exact .pure (regular_comparison _ _ _)
    · split
      · rw [regular_array_iff] at leftRegular rightRegular
        exact .pure (regular_array_iff.mpr (leftRegular.union rightRegular))
      · exact .bind (yields_operands left operator right) fun _ _ =>
          .bind (yields_arithmetic _ _ _) fun _ _ => .pure (regular_ofNumeric _)

theorem yields_unary (operator : UnaryOperator) (value : Value) :
    (unary operator value).Yields Regular := by
  have signed : ∀ change : Numeric → Numeric, (do
      let number ← value.operand
      return (change number).toValue : Checked Value).Yields Regular :=
    fun _ => .bind value.yields_operand fun _ _ => .pure (regular_ofNumeric _)
  cases operator with
  | not => exact .pure (regular_bool _)
  | plus =>
    simp only [unary]
    split
    · exact .throw_bind rfl
    · exact signed id
  | neg =>
    simp only [unary]
    split
    · exact .throw_bind rfl
    · exact signed Numeric.neg
  | bitNot =>
    simp only [unary]
    split
    · exact .pure (regular_int _)
    · exact .pure (regular_int _)
    · exact .pure (regular_str _)
    · exact .throw rfl

theorem yields_step (operator : StepOperator) (value : Value) :
    (step operator value).Yields Regular := by
  unfold step
  split
  · exact .pure (by split <;> simp)
  · exact .pure (by split <;> simp)
  · exact .pure (regular_bool _)
  · exact .pure (regular_ofNumeric _)
  · exact .pure (regular_ofNumeric _)
  · split
    · exact .pure (by split <;> simp)
    · split
      · exact .pure (regular_ofNumeric _)
      · exact .pure (regular_str _)
  · exact .throw rfl

/-! ## Paths -/

theorem yields_textIndex (key : Value) : key.textIndex.Yields fun _ => True := by
  unfold textIndex
  split
  · exact .pure trivial
  · split
    · exact .pure trivial
    · exact .throw rfl
  · exact .throw rfl
  · exact .bind (.warn _) fun _ _ => .pure trivial

theorem regular_of_byteAt? {text : String} {index : Int64} {byte : Value}
    (found : byteAt? text index = some byte) : byte.Regular := by
  simp only [byteAt?, Option.bind_eq_bind, Option.bind_eq_some_iff] at found
  rcases found with ⟨_, _, _, _, made⟩
  cases made
  exact regular_str _

theorem yields_readOffset {container : Value} (regular : container.Regular) (key : Value) :
    (container.readOffset key).Yields Regular := by
  unfold readOffset
  split
  · rename_i elements
    refine .bind (.ofExcept (Key.ends_ofValue key)) fun resolved _ => ?_
    cases found : elements.get? resolved with
    | some element => exact .pure ((regular_array_iff.mp regular).of_get? found).2
    | none => exact .bind (.warn _) fun _ _ => .pure regular_null
  · refine .bind key.yields_textIndex fun index _ => ?_
    split
    · rename_i byte found
      exact .pure (regular_of_byteAt? found)
    · exact .bind (.warn _) fun _ _ => .pure (regular_str _)
  · exact .bind (.warn _) fun _ _ => .pure regular_null

theorem yields_readPath {root : Value} (regular : root.Regular) (keys : List Value) :
    (root.readPath keys).Yields Regular := by
  induction keys generalizing root with
  | nil => exact .pure regular
  | cons key rest ih => exact .bind (yields_readOffset regular key) fun _ inner => ih inner

theorem regular_of_quietOffset? {container key : Value} (regular : container.Regular)
    (found : container.quietOffset? key = some value) : value.Regular := by
  unfold quietOffset? at found
  split at found
  · split at found
    · exact ((regular_array_iff.mp regular).of_get? found).2
    · cases found
  · rcases Option.bind_eq_some_iff.mp found with ⟨_, _, byte⟩
    exact regular_of_byteAt? byte
  · cases found

theorem regular_of_quietPath? {root : Value} (regular : root.Regular) {keys : List Value}
    (found : root.quietPath? keys = some value) : value.Regular := by
  induction keys generalizing root with
  | nil =>
    cases found
    exact regular
  | cons key rest ih =>
    rcases Option.bind_eq_some_iff.mp found with ⟨inner, step, later⟩
    exact ih (regular_of_quietOffset? regular step) later

theorem yields_writeByte (text : String) (key value : Value) :
    (writeByte text key value).Yields fun _ => True := by
  unfold writeByte
  refine .bind key.yields_textIndex fun index _ => ?_
  dsimp only
  cases Text.byteAt? value.toText 0 with
  | none => exact .throw rfl
  | some byte =>
    refine .ite (.bind (.warn _) fun _ _ => ?_) ?_ <;>
      exact .ite (.bind (.warn _) fun _ _ => .pure trivial) (.ite (.throw_bind rfl) (.pure trivial))

theorem Regular.vivify (regular : slot.Regular) : slot.vivify.1.Regular := by
  have opened : (Value.array Table.empty).Regular := regular_array_iff.mpr .empty
  unfold Value.vivify
  split
  · exact opened
  · exact opened
  · exact opened
  · exact regular

/-- What a write leaves in its place is regular, and what stops it is fatal. -/
structure Written.IsRegular (written : Written) : Prop where
  slot : written.slot.Regular
  fatal : ∀ problem, written.failure = some problem → problem.isFatal = true

theorem isRegular_writePath (valueRegular : value.Regular) (slotRegular : slot.Regular)
    (keys : List (Option Value)) : (writePath value slot keys).IsRegular := by
  induction keys generalizing slot with
  | nil => exact ⟨valueRegular, by rintro _ ⟨⟩⟩
  | cons key rest ih =>
    have container := slotRegular.vivify
    have stopped : ∀ {problem : Problem}, problem.isFatal = true → ∀ warnings,
        Written.IsRegular { slot, warnings, failure := some problem } := by
      intro problem fatal warnings
      refine ⟨slotRegular, ?_⟩
      rintro _ ⟨⟩
      exact fatal
    unfold writePath
    dsimp only
    split
    · rename_i elements made
      rw [made, regular_array_iff] at container
      split
      · rename_i resolved found
        have canonical : resolved.IsCanonical := by
          cases key with
          | some key => exact Key.isCanonical_of_ofValue found
          | none =>
            simp only [Table.nextKey?] at found
            cases next : Integer.fit? elements.nextIndex with
            | some index =>
              rw [next] at found
              cases found
              trivial
            | none =>
              rw [next] at found
              cases found
        have inner := ih (container.regular_getD resolved regular_null)
        exact ⟨regular_array_iff.mpr (container.insert ⟨canonical, inner.slot⟩), inner.fatal⟩
      · rename_i problem failed
        split
        · rename_i fatal
          refine ⟨slotRegular.vivify, ?_⟩
          rintro _ ⟨⟩
          exact fatal
        · exact ⟨slotRegular.vivify, by rintro _ ⟨⟩⟩
    · rename_i text made
      split
      · exact stopped rfl _
      · split
        · exact stopped rfl _
        · rename_i key
          have written := (yields_writeByte text key value).ends_outcome
          split
          · exact ⟨regular_str _, by rintro _ ⟨⟩⟩
          · rename_i failed
            rw [failed] at written
            exact stopped written _
    · exact stopped rfl _

theorem ends_unsetPath (regular : slot.Regular) (keys : List Value) :
    Ends Regular (·.isFatal) (slot.unsetPath keys) := by
  induction keys generalizing slot with
  | nil => exact regular
  | cons key rest ih =>
    unfold unsetPath
    split
    · rename_i elements
      have admitted := regular_array_iff.mp regular
      have subscript := Key.ends_ofValue key
      split
      · rename_i failed
        rw [failed] at subscript
        exact subscript
      · rename_i resolved found
        split
        · exact regular_array_iff.mpr (admitted.erase resolved)
        · split
          · exact regular
          · rename_i element stored
            have entry := admitted.of_get? stored
            have inner := ih entry.2
            split
            · rename_i changed removed
              rw [removed] at inner
              exact regular_array_iff.mpr (admitted.insert ⟨entry.1, inner⟩)
            · rename_i problem failed
              rw [failed] at inner
              exact inner
    · split
      · exact rfl
      · exact regular
    · exact regular

/-! ## Declared types -/

theorem regular_of_map {α : Type} {make : α → Value} (regular : ∀ content, (make content).Regular)
    {content : Option α} (made : content.map make = some value) : value.Regular := by
  rcases Option.map_eq_some_iff.mp made with ⟨own, _, rfl⟩
  exact regular own

theorem regular_of_convert? {converted : Value} {type : TypeName}
    (conversion : value.convert? type = some converted) : converted.Regular := by
  unfold convert? at conversion
  split at conversion
  case h_2 => exact regular_of_map regular_int conversion
  case h_3 =>
    split at conversion
    · cases conversion
      exact regular_int _
    · exact regular_of_map regular_int conversion
    · cases conversion
  case h_6 => exact regular_of_map (fun _ => regular_float _) conversion
  all_goals
    cases conversion
    try simp

theorem Regular.coerce? {accepted : Value} (regular : value.Regular) {types : List TypeName}
    (coerced : value.coerce? types = some accepted) : accepted.Regular := by
  have converted : ∀ {order : List TypeName}, order.findSome? value.convert? = some accepted →
      accepted.Regular := by
    intro order found
    rcases List.exists_of_findSome?_eq_some found with ⟨_, _, conversion⟩
    exact regular_of_convert? conversion
  unfold Value.coerce? at coerced
  split at coerced
  · cases coerced
    exact regular
  · split at coerced
    · split at coerced
      · cases coerced
        exact regular_float _
      · exact converted coerced
    · exact converted coerced

end Value

end PhpScript
