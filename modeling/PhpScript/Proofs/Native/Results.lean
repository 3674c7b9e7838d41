import PhpScript.Native.Basic
import PhpScript.Proofs.Value.Computation

/-!
# What native functions are given and what they return

A signature binds regular arguments to regular values: a parameter that is left without an argument
has a default. Only the arguments that a variadic parameter collects can be too many for an array,
and that problem is the only one of a call that is not fatal. The functions that only compute give
regular values in turn.
-/

namespace PhpScript

/-- As many elements as an array has indexes. -/
def elementLimit : Nat := 9223372036854775808

def FatalIfFew (count : Nat) (problem : Problem) : Prop :=
  count < elementLimit → problem.isFatal = true

def AllRegular (values : List Value) : Prop := ∀ value ∈ values, value.Regular

theorem allRegular_nil : AllRegular [] := fun _ member => absurd member List.not_mem_nil

theorem allRegular_cons {value : Value} {rest : List Value} :
    AllRegular (value :: rest) ↔ value.Regular ∧ AllRegular rest :=
  List.forall_mem_cons

/-! ## Signatures -/

theorem fit?_natCast {index : Nat} (few : index < elementLimit) :
    Integer.fit? index = some (Int64.ofNat index) := by
  have range : Integer.minimum ≤ (index : Int) ∧ (index : Int) ≤ Integer.maximum := by
    simp only [elementLimit] at few
    simp only [Integer.minimum, Integer.maximum]
    omega
  rw [Integer.fit?, if_pos range, Int64.ofInt_eq_ofNat]

theorem fit?_ne_none {index : Nat} (few : index < elementLimit) : Integer.fit? index ≠ none := by
  simp [fit?_natCast few]

theorem ends_acceptRemaining {accept : Nat → Value → Except Problem Value} {arguments : List Value}
    (each : ∀ position, ∀ argument ∈ arguments,
      Ends Value.Regular (·.isFatal) (accept position argument))
    (position index : Nat) :
    Ends AllRegular (FatalIfFew (index + arguments.length))
      (acceptRemaining accept position index arguments) := by
  induction arguments generalizing position index with
  | nil => exact allRegular_nil
  | cons argument rest ih =>
    have first : Ends Value.Regular (FatalIfFew (index + (argument :: rest).length))
        (accept position argument) :=
      (each position argument List.mem_cons_self).mono fun _ fatal _ => fatal
    have others : Ends AllRegular (FatalIfFew (index + (argument :: rest).length))
        (acceptRemaining accept (position + 1) (index + 1) rest) := by
      refine (ih (fun position other member => each position other (.tail _ member)) _ _).mono ?_
      intro problem fatal few
      rw [List.length_cons] at few
      exact fatal (by omega)
    simp only [acceptRemaining]
    refine first.bind fun value regular => ?_
    split
    · rename_i noKey
      intro few
      rw [List.length_cons] at few
      exact absurd (Option.isNone_iff_eq_none.mp noKey) (fit?_ne_none (by omega))
    · exact others.bind fun values regulars => allRegular_cons.mpr ⟨regular, regulars⟩

namespace Signature

/-- The parameters that need an argument come first, and the defaults of the others are plain. -/
structure IsProper (signature : Signature) : Prop where
  requiredFirst : ∀ parameter ∈ signature.parameters.dropWhile Parameter.isRequired,
    parameter.isRequired = false
  defaults : ∀ parameter ∈ signature.parameters, parameter.fallback.all Value.isPlain = true

variable {signature : Signature} {parameters : List Parameter} {arguments : List Value}

theorem ends_accept (parameter : Parameter) (position : Nat) {argument : Value}
    (regular : argument.Regular) :
    Ends Value.Regular (·.isFatal) (signature.accept parameter position argument) := by
  simp only [accept]
  split
  · rename_i coerced
    exact regular.coerce? coerced
  · exact rfl

theorem ends_acceptFrom
    (defaults : ∀ parameter ∈ parameters, parameter.fallback.all Value.isPlain = true)
    (left : ∀ parameter ∈ parameters.drop arguments.length, parameter.isRequired = false)
    (regular : AllRegular arguments) (position : Nat) :
    Ends AllRegular (FatalIfFew arguments.length)
      (signature.acceptFrom position parameters arguments) := by
  induction parameters generalizing arguments position with
  | nil => exact allRegular_nil
  | cons parameter rest ih =>
    rcases List.forall_mem_cons.mp defaults with ⟨ownDefault, otherDefaults⟩
    simp only [acceptFrom]
    split
    · have collected : Ends AllRegular (FatalIfFew (0 + arguments.length))
          (signature.acceptAll parameter position arguments) :=
        ends_acceptRemaining (fun position argument member =>
          ends_accept parameter position (regular argument member)) position 0
      rw [Nat.zero_add] at collected
      refine collected.bind fun values regulars => ?_
      exact allRegular_cons.mpr ⟨Value.regular_array_iff.mpr
        (Value.admits_elements_of_values regulars), allRegular_nil⟩
    · rename_i notVariadic
      cases arguments with
      | cons argument others =>
        rcases allRegular_cons.mp regular with ⟨ownRegular, othersRegular⟩
        have first : Ends Value.Regular (FatalIfFew (argument :: others).length)
            (signature.accept parameter position argument) :=
          (ends_accept parameter position ownRegular).mono fun _ fatal _ => fatal
        have later : Ends AllRegular (FatalIfFew (argument :: others).length)
            (signature.acceptFrom (position + 1) rest others) := by
          refine (ih otherDefaults left othersRegular (position + 1)).mono ?_
          intro problem fatal few
          rw [List.length_cons] at few
          exact fatal (by omega)
        exact first.bind fun value ownRegular => later.bind fun values regulars =>
          allRegular_cons.mpr ⟨ownRegular, regulars⟩
      | nil =>
        rcases List.forall_mem_cons.mp left with ⟨notRequired, othersLeft⟩
        have later : Ends AllRegular (FatalIfFew 0)
            (signature.acceptFrom (position + 1) rest []) :=
          @ih [] otherDefaults othersLeft allRegular_nil (position + 1)
        refine later.bind fun values regulars => allRegular_cons.mpr ⟨?_, regulars⟩
        -- A parameter that needs no argument and is not variadic has a default.
        cases fallback : parameter.fallback with
        | some value =>
          rw [fallback] at ownDefault
          exact Value.regular_of_isPlain ownDefault
        | none => simp [Parameter.isRequired, fallback, notVariadic] at notRequired

theorem isRequired_of_mem_drop
    (requiredFirst : ∀ parameter ∈ signature.parameters.dropWhile Parameter.isRequired,
      parameter.isRequired = false)
    {given : Nat} (enough : signature.requiredCount ≤ given) :
    ∀ parameter ∈ signature.parameters.drop given, parameter.isRequired = false := by
  intro parameter member
  have whole := List.takeWhile_append_dropWhile (p := Parameter.isRequired)
    (l := signature.parameters)
  rw [← whole, List.drop_append, List.drop_eq_nil_of_le enough, List.nil_append] at member
  exact requiredFirst parameter (List.mem_of_mem_drop member)

theorem IsProper.ends_bind (proper : signature.IsProper) (regular : AllRegular arguments) :
    Ends AllRegular (FatalIfFew arguments.length) (signature.bind arguments) := by
  simp only [bind]
  split
  · intro _
    simp only [countProblem]
    split <;> rfl
  · rename_i enough
    simp only [Bool.or_eq_true, decide_eq_true_eq, not_or, Nat.not_lt] at enough
    exact ends_acceptFrom proper.defaults (isRequired_of_mem_drop proper.requiredFirst enough.1)
      regular 1

end Signature

theorem Native.isProper_signature (native : Native) : native.signature.IsProper := by
  rcases native with function | function | function | function | function | function |
    function | function | function <;> cases function <;> exact ⟨by decide, by decide⟩

/-! ## Results -/

namespace TextFunction

theorem yields_joined (separator : String) (pieces : List Value) :
    (joined separator pieces).Yields Value.Regular := by
  have reported : ∀ piece (state : PUnit), (do
      if Value.isArray piece then Checked.warn .arrayToString
      pure (ForInStep.yield PUnit.unit) : Checked (ForInStep PUnit)).Yields fun _ => True :=
    fun _ _ => .ite (.bind (.warn _) fun _ _ => .pure trivial) (.pure trivial)
  exact .bind (.forIn reported _) fun _ _ => .pure (Value.regular_str _)

theorem ends_repeated (text : String) (times : Int) :
    Ends (fun _ => True) (·.isFatal) (repeated text times) := by
  simp only [repeated]
  split
  · exact rfl
  · split
    · trivial
    · split
      · trivial
      · exact rfl

theorem yields_apply (function : TextFunction) (arguments : List Value) :
    (function.apply arguments).Yields Value.Regular := by
  unfold apply
  split
  all_goals try (refine .pure ?_; simp [digestValue])
  · refine .ite (.bind (.warn _) fun _ _ => .pure (Value.regular_bool _)) ?_
    split
    · exact .pure (Value.regular_str _)
    · exact .bind (.warn _) fun _ _ => .pure (Value.regular_bool _)
  · exact yields_joined _ _
  · exact yields_joined _ _
  · exact .throw rfl
  · exact .bind (.ofExcept (ends_repeated _ _)) fun _ _ => .pure (Value.regular_str _)

end TextFunction

namespace ArrayFunction

theorem admits_elements {array : Value} (regular : array.Regular) :
    (elements array).Admits RegularEntry := by
  unfold elements
  split
  · exact Value.regular_array_iff.mp regular
  · exact .empty

theorem allRegular_values {table : Table Key Value} (admitted : table.Admits RegularEntry) :
    AllRegular table.values := by
  intro value member
  rcases List.mem_map.mp member with ⟨entry, listed, rfl⟩
  exact (admitted.entries entry listed).2

theorem regular_keyValue (key : Option Key) : (keyValue key).Regular := by
  cases key with
  | none => exact Value.regular_null
  | some key => exact Value.regular_ofKey key

theorem yields_sumFrom (total : Numeric) (values : List Value) :
    (sumFrom total values).Yields fun _ => True := by
  induction values generalizing total with
  | nil => exact .pure trivial
  | cons value rest ih => exact .ite (.bind (.warn _) fun _ _ => ih _) (ih _)

theorem yields_apply (function : ArrayFunction) (given : Nat) {arguments : List Value}
    (regular : AllRegular arguments) : (function.apply given arguments).Yields Value.Regular := by
  unfold apply
  split
  all_goals try (refine .pure ?_; simp; done)
  · exact .bind (.ofExcept (Key.ends_ofValue _)) fun _ _ => .pure (Value.regular_bool _)
  · exact .pure (regular_keyValue _)
  · exact .pure (regular_keyValue _)
  · refine .pure (Value.regular_array_iff.mpr (Value.admits_elements_of_values
      fun value member => ?_))
    rcases List.mem_map.mp member with ⟨⟨key, _⟩, _, rfl⟩
    exact Value.regular_ofKey key
  · exact .bind (yields_sumFrom _ _) fun _ _ => .pure (Value.regular_ofNumeric _)
  · have admitted := admits_elements (regular _ List.mem_cons_self)
    exact .pure (Value.regular_array_iff.mpr
      (Value.admits_elements_of_values (allRegular_values admitted)))

end ArrayFunction

namespace ReferenceFunction

theorem admits_pushAll? {table longer : Table Key Value} (admitted : table.Admits RegularEntry)
    {values : List Value} (regular : AllRegular values)
    (pushed : pushAll? table values = some longer) : longer.Admits RegularEntry := by
  induction values generalizing table with
  | nil =>
    cases pushed
    exact admitted
  | cons value rest ih =>
    rcases allRegular_cons.mp regular with ⟨own, others⟩
    rcases Option.bind_eq_some_iff.mp pushed with ⟨middle, first, later⟩
    exact ih (admitted.push? (fun _ => ⟨trivial, own⟩) first) others later

theorem yields_apply (function : ReferenceFunction) {arguments : List Value}
    (regular : AllRegular arguments) :
    (function.apply arguments).Yields fun result =>
      result.1.Regular ∧ ∀ changed, result.2 = some changed → changed.Regular := by
  unfold apply
  split
  · rename_i array
    have admitted := ArrayFunction.admits_elements (regular array List.mem_cons_self)
    simp only [popLast]
    split
    · refine .pure ⟨Value.regular_null, ?_⟩
      rintro _ ⟨⟩
      exact Value.regular_array_iff.mpr admitted
    · rename_i key value last
      refine .pure ⟨(admitted.entries _ (List.mem_of_getLast? last)).2, ?_⟩
      rintro _ ⟨⟩
      exact Value.regular_array_iff.mpr (admitted.erase key)
  · rename_i array values
    rcases allRegular_cons.mp regular with ⟨first, others⟩
    have admitted := ArrayFunction.admits_elements first
    have pushed := ArrayFunction.allRegular_values
      (ArrayFunction.admits_elements (others values List.mem_cons_self))
    split
    · rename_i longer found
      refine .pure ⟨Value.regular_int _, ?_⟩
      rintro _ ⟨⟩
      exact Value.regular_array_iff.mpr (admits_pushAll? admitted pushed found)
    · exact .bind (.warn _) fun _ _ => .pure ⟨Value.regular_bool _, by rintro _ ⟨⟩⟩
  · exact .pure ⟨Value.regular_null, by rintro _ ⟨⟩⟩

end ReferenceFunction

namespace MathFunction

theorem ends_integerDivision (dividend divisor : Int64) :
    Ends Value.Regular (·.isFatal) (integerDivision dividend divisor) := by
  simp only [integerDivision]
  split
  · exact rfl
  · split
    · exact Value.regular_int _
    · exact rfl

theorem ends_candidates (function : String) {first : Value} {others : List Value}
    (regular : AllRegular (first :: others)) :
    Ends (fun chosen => AllRegular (chosen.1 :: chosen.2)) (·.isFatal)
      (candidates function first others) := by
  unfold candidates
  split
  · rename_i elements
    have admitted := Value.regular_array_iff.mp (regular _ List.mem_cons_self)
    have values := ArrayFunction.allRegular_values admitted
    split
    · exact rfl
    · rename_i listed
      rw [listed] at values
      exact values
  · exact rfl
  · exact regular

theorem ends_extreme (function : String) (wanted : Ordering) {first rest : Value}
    (firstRegular : first.Regular) (restRegular : rest.Regular) :
    Ends Value.Regular (·.isFatal) (extreme function wanted first rest) := by
  have others := ArrayFunction.allRegular_values restRegular.toTable
  refine (ends_candidates function (allRegular_cons.mpr ⟨firstRegular, others⟩)).bind ?_
  rintro ⟨best, remaining⟩ regular
  change Value.Regular (remaining.foldl _ best)
  change AllRegular (best :: remaining) at regular
  induction remaining generalizing best with
  | nil => exact regular best List.mem_cons_self
  | cons candidate later ih =>
    rcases allRegular_cons.mp regular with ⟨bestRegular, following⟩
    rcases allRegular_cons.mp following with ⟨own, laterRegular⟩
    refine ih _ (allRegular_cons.mpr ⟨?_, laterRegular⟩)
    dsimp only
    split
    · exact own
    · exact bestRegular

theorem yields_apply (function : MathFunction) {arguments : List Value}
    (regular : AllRegular arguments) : (function.apply arguments).Yields Value.Regular := by
  unfold apply
  split
  all_goals try (refine .pure ?_; simp)
  · refine .pure ?_
    simp only [absolute]
    split
    · split <;> simp
    · simp
  · exact .ofExcept (ends_integerDivision _ _)
  · rcases allRegular_cons.mp regular with ⟨first, others⟩
    exact .ofExcept (ends_extreme _ _ first (others _ List.mem_cons_self))
  · rcases allRegular_cons.mp regular with ⟨first, others⟩
    exact .ofExcept (ends_extreme _ _ first (others _ List.mem_cons_self))
  · rcases allRegular_cons.mp regular with ⟨first, others⟩
    exact Value.yields_binary _ first (others _ List.mem_cons_self)
  · refine .pure ?_
    simp only [roundTo]
    split
    · split <;> simp
    · simp

end MathFunction

theorem TypeFunction.yields_apply (function : TypeFunction) (arguments : List Value) :
    (function.apply arguments).Yields Value.Regular := by
  unfold apply
  split
  all_goals try (refine .pure ?_; simp)
  · exact .ite (.pure (Value.regular_int _)) (.pure (Value.regular_int _))
  · exact .bind (Value.yields_stringify _) fun _ _ => .pure (Value.regular_str _)

namespace TimeFunction

theorem admits_dateTable (moment : Moment) : (dateTable moment).Admits RegularEntry := by
  refine .ofList (regularEntry_of_mem ?_ ?_)
  · simp only [List.map_cons, List.map_nil]
    decide
  · simp

theorem regularEntry_timeParts (moment : Moment) :
    ∀ entry ∈ (timeParts moment).map fun (name, part) =>
      (Key.str name, Value.int (Integer.wrap part)), RegularEntry entry.1 entry.2 := by
  refine regularEntry_of_mem ?_ ?_
  · simp only [timeParts, List.map_cons, List.map_nil]
    decide
  · simp [timeParts]

theorem regular_apply (function : TimeFunction) (now : Moment) (arguments : List Value) :
    (function.apply now arguments).Regular := by
  unfold apply
  split
  · exact Value.regular_bool _
  · exact Value.regular_str _
  · exact Value.regular_array_iff.mpr (admits_dateTable _)
  · rename_i timestamp named
    have parts := regularEntry_timeParts (momentOf now timestamp)
    dsimp only
    split
    · exact Value.regular_array_iff.mpr (.ofList parts)
    · refine Value.regular_array_iff.mpr (Value.admits_elements_of_values fun value member => ?_)
      rcases List.mem_map.mp member with ⟨entry, listed, rfl⟩
      exact (parts entry listed).2
  · split <;> simp
  · dsimp only
    split <;> simp
  · exact Value.regular_int _
  · exact Value.regular_null

end TimeFunction

end PhpScript
