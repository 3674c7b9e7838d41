import PhpScript.Proofs.Native.Results
import PhpScript.Run.Function

/-!
# What a declared type accepts

A declared type accepts a value as it is if one of its alternatives admits it. Another value is
converted, and what comes out of a conversion is admitted by the alternative for which it was made.
From this follows what becomes of the arguments of a call and of its result.
-/

namespace PhpScript

namespace TypeHint

/-- A value has a declared type. -/
def Admits (hint : TypeHint) (value : Value) : Prop := hint.types.any value.hasType = true

/-- What becomes of a value that is accepted: it is admitted, and if it was admitted before, it is
still the same. -/
structure Accepts (hint : TypeHint) (given accepted : Value) : Prop where
  admitted : hint.Admits accepted
  unchanged : hint.Admits given → accepted = given

end TypeHint

namespace Value

theorem hasType_of_convert? {value result : Value} {type : TypeName}
    (converts : value.convert? type = some result) : result.hasType type = true := by
  unfold convert? at converts
  split at converts
  case h_3 =>
    split at converts
    · cases converts
      rfl
    · rcases Option.map_eq_some_iff.mp converts with ⟨_, _, rfl⟩
      rfl
    · cases converts
  case h_2 | h_6 =>
    rcases Option.map_eq_some_iff.mp converts with ⟨_, _, rfl⟩
    rfl
  all_goals
    cases converts
    try rfl

theorem coerce?_of_admitted {value : Value} {types : List TypeName}
    (admitted : types.any value.hasType = true) : value.coerce? types = some value := by
  unfold coerce?
  rw [if_pos]
  rw [admitted, Bool.or_true]

theorem exists_convert?_of_coerce? {value result : Value} {types : List TypeName}
    (nonempty : types ≠ []) (differs : types.any value.hasType = false)
    (coerced : value.coerce? types = some result) :
    ∃ type ∈ types, value.convert? type = some result := by
  have searched (found : (conversionOrder.filter types.contains).findSome? value.convert? =
      some result) : ∃ type ∈ types, value.convert? type = some result := by
    rcases List.exists_of_findSome?_eq_some found with ⟨type, member, converts⟩
    exact ⟨type, by simpa using (List.mem_filter.mp member).2, converts⟩
  unfold coerce? at coerced
  rw [if_neg (by simp [differs, nonempty])] at coerced
  split at coerced
  · split at coerced
    · rename_i hasFloat
      cases coerced
      exact ⟨.float, by simpa using hasFloat, rfl⟩
    · exact searched coerced
  · exact searched coerced

end Value

namespace TypeHint

variable {hint : TypeHint} {given accepted : Value}

theorem accepts_of_coerce? (nonempty : hint.types ≠ [])
    (coerced : given.coerce? hint.types = some accepted) : hint.Accepts given accepted := by
  by_cases admitted : hint.types.any given.hasType = true
  · rw [Value.coerce?_of_admitted admitted] at coerced
    cases coerced
    exact ⟨admitted, fun _ => rfl⟩
  · have differs := Bool.eq_false_iff.mpr admitted
    rcases Value.exists_convert?_of_coerce? nonempty differs coerced with ⟨type, member, converts⟩
    refine ⟨List.any_eq_true.mpr ⟨type, member, Value.hasType_of_convert? converts⟩, ?_⟩
    exact fun before => absurd before admitted

end TypeHint

theorem Table.values_ofValues {α : Type} {values : List α}
    (fits : ∀ index < values.length, Integer.fit? index ≠ none) :
    (Table.ofValues values).values = values := by
  have each : ∀ entry ∈ values.zipIdx,
      ((Integer.fit? entry.2).map fun _ => entry.1) = some entry.1 := by
    intro entry member
    have found := List.mem_zipIdx_iff_getElem?.mp member
    rcases List.getElem?_eq_some_iff.mp found with ⟨inside, _⟩
    rcases Option.ne_none_iff_exists'.mp (fits entry.2 inside) with ⟨word, isWord⟩
    rw [isWord]
    rfl
  calc (Table.ofValues values).values
    _ = values.zipIdx.filterMap fun entry =>
          (Integer.fit? entry.2).map fun _ => entry.1 := by
        simp only [Table.values, Table.ofValues, List.map_filterMap, Option.map_map]
        rfl
    _ = values.zipIdx.map Prod.fst := by
        rw [List.filterMap_congr each, ← List.filterMap_eq_map]
        rfl
    _ = values := List.zipIdx_map_fst 0 values

/-! ## Arguments -/

section Remaining

variable {accept : Nat → Value → Except Problem Value} {position index : Nat}
  {argument value : Value} {rest arguments values : List Value} {problem : Problem}

theorem acceptRemaining_of_error (refused : accept position argument = .error problem) :
    acceptRemaining accept position index (argument :: rest) = .error problem := by
  simp only [acceptRemaining, refused]
  rfl

theorem acceptRemaining_of_ok (accepted : accept position argument = .ok value)
    (fits : Integer.fit? index ≠ none) :
    acceptRemaining accept position index (argument :: rest) =
      (acceptRemaining accept (position + 1) (index + 1) rest).map (value :: ·) := by
  simp only [acceptRemaining, accepted, Option.isNone_iff_eq_none, fits]
  rfl

theorem acceptRemaining_of_no_key (accepted : accept position argument = .ok value)
    (noKey : Integer.fit? index = none) :
    acceptRemaining accept position index (argument :: rest) = .error .nextElementOccupied := by
  simp only [acceptRemaining, accepted, noKey]
  rfl

theorem acceptRemaining_eq_ok {relation : Value → Value → Prop}
    (each : ∀ position argument value, accept position argument = .ok value →
      relation argument value)
    (accepted : acceptRemaining accept position index arguments = .ok values) :
    List.Forall₂ relation arguments values ∧
      ∀ offset < values.length, Integer.fit? ((index + offset : Nat) : Int) ≠ none := by
  induction arguments generalizing position index values with
  | nil =>
    cases accepted
    exact ⟨.nil, (by simp)⟩
  | cons argument rest ih =>
    cases first : accept position argument with
    | error problem =>
      rw [acceptRemaining_of_error first] at accepted
      cases accepted
    | ok value =>
      by_cases fits : Integer.fit? index = none
      · rw [acceptRemaining_of_no_key first fits] at accepted
        cases accepted
      · rw [acceptRemaining_of_ok first fits] at accepted
        cases others : acceptRemaining accept (position + 1) (index + 1) rest with
        | error problem =>
          rw [others] at accepted
          cases accepted
        | ok values =>
          rw [others] at accepted
          cases accepted
          rcases ih others with ⟨related, fitOthers⟩
          refine ⟨.cons (each _ _ _ first) related, ?_⟩
          intro offset inside
          cases offset with
          | zero => exact fits
          | succ offset =>
            have later := fitOthers offset (Nat.lt_of_succ_lt_succ inside)
            rwa [Nat.add_right_comm, Nat.add_assoc] at later

def RefusedAt (accept : Nat → Value → Except Problem Value) (position : Nat)
    (arguments : List Value) (offset : Nat) (problem : Problem) : Prop :=
  ∃ argument, arguments[offset]? = some argument ∧
    accept (position + offset) argument = .error problem

theorem refusedAt_zero_iff :
    RefusedAt accept position (argument :: rest) 0 problem ↔
      accept position argument = .error problem := by
  simp [RefusedAt]

theorem refusedAt_succ_iff {offset : Nat} :
    RefusedAt accept position (argument :: rest) (offset + 1) problem ↔
      RefusedAt accept (position + 1) rest offset problem := by
  simp only [RefusedAt, List.getElem?_cons_succ, Nat.add_assoc, Nat.add_comm 1 offset]

/-- Something happens at a place, and nothing like it at an earlier one. -/
structure IsFirst {α : Type} (happens : Nat → α → Prop) (place : Nat) (what : α) : Prop where
  here : happens place what
  notBefore : ∀ earlier < place, ∀ other, ¬happens earlier other

theorem IsFirst.of_tail {α : Type} {happens inTail : Nat → α → Prop} {place : Nat} {what : α}
    (shifted : ∀ place what, happens (place + 1) what ↔ inTail place what)
    (notFirst : ∀ other, ¬happens 0 other) (first : IsFirst inTail place what) :
    IsFirst happens (place + 1) what := by
  refine ⟨(shifted place what).mpr first.here, ?_⟩
  intro earlier isEarlier other
  cases earlier with
  | zero => exact notFirst other
  | succ earlier =>
    intro happened
    exact first.notBefore earlier (by omega) other ((shifted earlier other).mp happened)

theorem exists_acceptRemaining_eq_error (index : Nat) {offset : Nat}
    (refused : RefusedAt accept position arguments offset problem) :
    ∃ problem, acceptRemaining accept position index arguments = .error problem ∧
      (index + arguments.length ≤ elementLimit →
        ∃ offset, IsFirst (RefusedAt accept position arguments) offset problem) := by
  induction arguments generalizing position index offset with
  | nil =>
    rcases refused with ⟨argument, found, _⟩
    simp at found
  | cons argument rest ih =>
    cases first : accept position argument with
    | error problem =>
      refine ⟨problem, acceptRemaining_of_error first, fun _ => ⟨0, ?_, ?_⟩⟩
      · exact refusedAt_zero_iff.mpr first
      · omega
    | ok value =>
      have notFirst (other : Problem) : ¬RefusedAt accept position (argument :: rest) 0 other := by
        simp [refusedAt_zero_iff, first]
      cases offset with
      | zero => exact absurd refused (notFirst problem)
      | succ offset =>
        by_cases noKey : Integer.fit? index = none
        · refine ⟨_, acceptRemaining_of_no_key first noKey, ?_⟩
          intro few
          rw [List.length_cons] at few
          exact absurd noKey (fit?_ne_none (by omega))
        · rcases ih (index + 1) (refusedAt_succ_iff.mp refused) with ⟨problem, fails, isFirst⟩
          refine ⟨problem, ?_, ?_⟩
          · rw [acceptRemaining_of_ok first noKey, fails]
            rfl
          · intro few
            rw [List.length_cons] at few
            rcases isFirst (by omega) with ⟨offset, isFirst⟩
            exact ⟨offset + 1, isFirst.of_tail (fun _ _ => refusedAt_succ_iff) notFirst⟩

end Remaining

namespace ParameterDecl

variable {parameter : ParameterDecl} {hint : TypeHint} {function : String} {position : Nat}
  {argument value : Value} {arguments values : List Value} {problem : Problem}

theorem accept_eq_error_iff :
    parameter.accept function position argument = .error problem ↔
      ∃ hint, parameter.type = some hint ∧ argument.coerce? hint.types = none ∧
        problem = .argumentType function position parameter.name.node hint.render
          argument.type := by
  unfold accept
  cases parameter.type with
  | none => simp
  | some hint =>
    cases coerced : argument.coerce? hint.types with
    | none => simp [coerced, eq_comm]
    | some value => simp [coerced]

theorem accepts_of_accept (typed : parameter.type = some hint) (nonempty : hint.types ≠ [])
    (accepted : parameter.accept function position argument = .ok value) :
    hint.Accepts argument value := by
  unfold accept at accepted
  rw [typed] at accepted
  dsimp only at accepted
  split at accepted
  · rename_i coerced
    cases accepted
    exact TypeHint.accepts_of_coerce? nonempty coerced
  · cases accepted

theorem accepts_of_acceptAll (typed : parameter.type = some hint) (nonempty : hint.types ≠ [])
    (accepted : parameter.acceptAll function position arguments = .ok values) :
    List.Forall₂ hint.Accepts arguments (Table.ofValues values).values := by
  have each (position : Nat) (argument value : Value)
      (accepted : parameter.accept function position argument = .ok value) :
      hint.Accepts argument value := accepts_of_accept typed nonempty accepted
  rcases acceptRemaining_eq_ok each accepted with ⟨related, fits⟩
  simp only [Nat.zero_add] at fits
  rwa [Table.values_ofValues fits]

end ParameterDecl

/-! ## Results -/

def Problem.IsTypeError (problem : Problem) : Prop :=
  ∃ text, problem.message = "Uncaught TypeError: " ++ text

theorem Problem.isTypeError_argumentType (function : String) (position : Nat) (parameter : String)
    (types : String) (given : TypeName) :
    (Problem.argumentType function position parameter types given).IsTypeError := by
  have shown : (Problem.argumentType function position parameter types given).message =
      "Uncaught TypeError: " ++ function ++ "(): Argument #" ++ toString position ++ " (" ++
        parameter ++ ") must be of type " ++ (types ++ ", " ++ given.render ++ " given") := rfl
  simp only [String.append_assoc] at shown
  exact ⟨_, shown⟩

theorem Problem.isTypeError_returnMissing (function types : String) :
    (Problem.returnMissing function types).IsTypeError := by
  have shown : (Problem.returnMissing function types).message =
      "Uncaught TypeError: " ++ function ++ "(): Return value must be of type " ++ types ++
        ", none returned" := rfl
  simp only [String.append_assoc] at shown
  exact ⟨_, shown⟩

theorem Problem.isTypeError_returnType (function types : String) (given : TypeName) :
    (Problem.returnType function types given).IsTypeError := by
  have shown : (Problem.returnType function types given).message =
      "Uncaught TypeError: " ++ function ++ "(): Return value must be of type " ++ types ++ ", " ++
        (given.render ++ " returned") := rfl
  simp only [String.append_assoc] at shown
  exact ⟨_, shown⟩

namespace FunctionDecl

variable {σ : Type} {function : FunctionDecl σ} {hint : TypeHint} {value result : Value}

theorem admits_of_checkReturn (typed : function.returnType = some hint)
    (nonempty : hint.types ≠ []) (checked : function.checkReturn value = .ok result) :
    if TypeName.void ∈ hint.types then result = .null else hint.Admits result := by
  unfold checkReturn at checked
  rw [typed] at checked
  dsimp only at checked
  split at checked
  · rename_i isVoid
    cases checked
    rw [if_pos (List.contains_iff_mem.mp isVoid)]
  · rename_i notVoid
    rw [if_neg fun member => notVoid (List.contains_iff_mem.mpr member)]
    split at checked
    · cases checked
    · split at checked
      · rename_i coerced
        cases checked
        exact (TypeHint.accepts_of_coerce? nonempty coerced).admitted
      · cases checked

theorem checkReturn_eq_error (typed : function.returnType = some hint)
    (notVoid : TypeName.void ∉ hint.types)
    (mismatch : value = .void ∨ value.coerce? hint.types = none) :
    ∃ problem, function.checkReturn value = .error problem ∧ problem.IsTypeError := by
  have noVoid : ¬hint.types.contains .void = true :=
    fun listed => notVoid (List.contains_iff_mem.mp listed)
  unfold checkReturn
  rw [typed]
  dsimp only
  rw [if_neg noVoid]
  split
  · exact ⟨_, rfl, Problem.isTypeError_returnMissing _ _⟩
  · rename_i isValue
    rcases mismatch with isVoid | refused
    · exact absurd isVoid isValue
    · rw [refused]
      exact ⟨_, rfl, Problem.isTypeError_returnType _ _ _⟩

end FunctionDecl

end PhpScript
