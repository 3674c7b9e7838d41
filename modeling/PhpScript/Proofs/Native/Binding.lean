import PhpScript.Proofs.Value.Acceptance

/-!
# Binding arguments to parameters

Which parameter an argument is for depends on its place alone. So the call of a native function is
settled argument by argument: there are too few or too many, or the first one that its parameter
does not accept is reported, or each parameter gets a value.
-/

namespace PhpScript

/-- The value of a parameter, given the arguments from its own place on: what its argument is
converted to, the default without one, or the list of all of them for a variadic parameter. -/
inductive Parameter.IsBound (parameter : Parameter) : List Value → Value → Prop
  | argument {argument value : Value} {rest : List Value} (single : parameter.isVariadic = false)
      (accepted : argument.coerce? parameter.types = some value) :
      parameter.IsBound (argument :: rest) value
  | omitted {value : Value} (single : parameter.isVariadic = false)
      (fallback : parameter.fallback = some value) : parameter.IsBound [] value
  | collected {arguments values : List Value} {elements : Table Key Value}
      (isVariadic : parameter.isVariadic = true)
      (accepted : List.Forall₂ (fun argument value => argument.coerce? parameter.types = some value)
        arguments values)
      (listed : elements.entries =
        values.zipIdx.map fun entry => (.int (Int64.ofNat entry.2), entry.1)) :
      parameter.IsBound arguments (.array elements)

theorem Table.entries_ofValues {α : Type} {values : List α} (few : values.length ≤ elementLimit) :
    (ofValues values).entries =
      values.zipIdx.map fun entry => (.int (Int64.ofNat entry.2), entry.1) := by
  rw [ofValues, ← List.filterMap_eq_map]
  refine List.filterMap_congr fun entry member => ?_
  rcases List.getElem?_eq_some_iff.mp (List.mem_zipIdx_iff_getElem?.mp member) with ⟨inside, _⟩
  rcases entry with ⟨value, index⟩
  simp only [fit?_natCast (inside.trans_le few)]
  rfl

namespace Signature

/-- The parameters that need an argument come first, and only the last one can be variadic. -/
structure IsOrdered (signature : Signature) : Prop where
  requiredFirst : ∀ parameter ∈ signature.parameters.dropWhile Parameter.isRequired,
    parameter.isRequired = false
  variadicLast : ∀ parameter ∈ signature.parameters.dropLast, parameter.isVariadic = false

/-- The parameter for the argument at a place. -/
def parameterAt? (parameters : List Parameter) (place : Nat) : Option Parameter :=
  parameters[place]?.or (parameters.getLast?.filter Parameter.isVariadic)

/-- The argument at a place, if there is one, is accepted by its parameter. -/
def AcceptedAt (parameterAt? : Nat → Option Parameter) (arguments : List Value) (place : Nat) :
    Prop :=
  ∀ argument, arguments[place]? = some argument →
    ∃ parameter, parameterAt? place = some parameter ∧
      (argument.coerce? parameter.types).isSome = true

/-- The first argument that its parameter refuses. -/
structure FirstRefused (parameterAt? : Nat → Option Parameter) (arguments : List Value)
    (place : Nat) (parameter : Parameter) (argument : Value) : Prop where
  here : arguments[place]? = some argument
  declared : parameterAt? place = some parameter
  refused : argument.coerce? parameter.types = none
  notBefore : ∀ earlier < place, AcceptedAt parameterAt? arguments earlier

/-- A signature takes so many arguments. -/
def CountFits (signature : Signature) (given : Nat) : Prop :=
  signature.parameters.countP Parameter.isRequired ≤ given ∧
    (given ≤ signature.parameters.length ∨
      ∃ parameter ∈ signature.parameters, parameter.isVariadic = true)

/-- Every parameter is bound to its value. -/
structure Binds (parameters : List Parameter) (arguments values : List Value) : Prop where
  length : values.length = parameters.length
  each : ∀ place (parameter : Parameter) value, parameters[place]? = some parameter →
    values[place]? = some value → parameter.IsBound (arguments.drop place) value

/-- The complaint about the first argument that is not accepted. -/
def Refusal (signature : Signature) (parameterAt? : Nat → Option Parameter) (position : Nat)
    (arguments : List Value) (problem : Problem) : Prop :=
  ∃ place parameter argument, FirstRefused parameterAt? arguments place parameter argument ∧
    problem = .argumentType signature.function (position + place) parameter.name
      (TypeName.renderUnion parameter.types) argument.type

variable {signature : Signature} {parameterFor? : Nat → Option Parameter} {parameter : Parameter}
  {parameters : List Parameter} {position index : Nat} {argument value : Value}
  {arguments values rest : List Value} {problem : Problem}

theorem acceptedAt_zero (declared : parameterFor? 0 = some parameter)
    (accepted : argument.coerce? parameter.types = some value) :
    AcceptedAt parameterFor? (argument :: rest) 0 := by
  rintro _ ⟨⟩
  exact ⟨parameter, declared, by rw [accepted]; rfl⟩

theorem Refusal.of_head (declared : parameterFor? 0 = some parameter)
    (refused : argument.coerce? parameter.types = none) :
    signature.Refusal parameterFor? position (argument :: rest)
      (.argumentType signature.function position parameter.name
        (TypeName.renderUnion parameter.types) argument.type) :=
  ⟨0, parameter, argument,
    ⟨rfl, declared, refused, fun _ isEarlier => absurd isEarlier (Nat.not_lt_zero _)⟩, rfl⟩

theorem Refusal.of_tail (first : AcceptedAt parameterFor? (argument :: rest) 0)
    (later : signature.Refusal (fun place => parameterFor? (place + 1)) (position + 1) rest
      problem) :
    signature.Refusal parameterFor? position (argument :: rest) problem := by
  rcases later with ⟨place, parameter, other, ⟨here, declared, refused, notBefore⟩, rfl⟩
  refine ⟨place + 1, parameter, other, ⟨here, declared, refused, ?_⟩, ?_⟩
  · intro earlier isEarlier
    cases earlier with
    | zero => exact first
    | succ earlier => exact notBefore earlier (Nat.lt_of_succ_lt_succ isEarlier)
  · rw [Nat.add_assoc, Nat.add_comm 1 place]

theorem accept_of_none (refused : argument.coerce? parameter.types = none) :
    signature.accept parameter position argument =
      .error (.argumentType signature.function position parameter.name
        (TypeName.renderUnion parameter.types) argument.type) := by
  rw [accept, refused]

theorem accept_of_some (accepted : argument.coerce? parameter.types = some value) :
    signature.accept parameter position argument = .ok value := by
  rw [accept, accepted]

theorem ends_acceptAll (few : index + arguments.length ≤ elementLimit) :
    Ends
      (List.Forall₂ (fun argument value => argument.coerce? parameter.types = some value) arguments)
      (signature.Refusal (fun _ => some parameter) position arguments)
      (acceptRemaining (signature.accept parameter) position index arguments) := by
  induction arguments generalizing position index with
  | nil => exact .nil
  | cons argument rest ih =>
    rw [List.length_cons] at few
    cases coerced : argument.coerce? parameter.types with
    | none =>
      rw [acceptRemaining_of_error (accept_of_none coerced)]
      exact .of_head rfl coerced
    | some value =>
      rw [acceptRemaining_of_ok (accept_of_some coerced) (fit?_ne_none (by omega))]
      have later := @ih (position + 1) (index + 1) (by omega)
      cases others :
        acceptRemaining (signature.accept parameter) (position + 1) (index + 1) rest with
      | ok values =>
        rw [others] at later
        exact .cons coerced later
      | error problem =>
        rw [others] at later
        exact .of_tail (acceptedAt_zero rfl coerced) later

theorem Binds.nil (arguments : List Value) : Binds [] arguments [] :=
  ⟨rfl, fun _ _ _ found => by simp at found⟩

theorem Binds.cons (others : Binds parameters (arguments.drop 1) values)
    (first : parameter.IsBound arguments value) :
    Binds (parameter :: parameters) arguments (value :: values) := by
  refine ⟨congrArg Nat.succ others.length, fun place => ?_⟩
  cases place with
  | zero =>
    rintro _ _ ⟨⟩ ⟨⟩
    exact first
  | succ place =>
    intro other bound isOther isBound
    have later := others.each place other bound isOther isBound
    rwa [List.drop_drop, Nat.add_comm 1 place] at later

theorem parameterAt?_of_isVariadic (isVariadic : parameter.isVariadic = true) :
    parameterAt? [parameter] = fun _ => some parameter := by
  funext place
  cases place <;> simp [parameterAt?, isVariadic]

theorem parameterAt?_succ (single : parameter.isVariadic = false) :
    (fun place => parameterAt? (parameter :: parameters) (place + 1)) =
      parameterAt? parameters := by
  funext place
  cases parameters with
  | nil => simp [parameterAt?, single]
  | cons next later => simp [parameterAt?]

theorem acceptFrom_of_isVariadic (isVariadic : parameter.isVariadic = true) :
    signature.acceptFrom position (parameter :: parameters) arguments =
      (signature.acceptAll parameter position arguments >>= fun values =>
        .ok [.array (Table.ofValues values)]) := by
  cases arguments <;> simp only [acceptFrom, isVariadic] <;> rfl

theorem acceptFrom_cons (single : parameter.isVariadic = false) :
    signature.acceptFrom position (parameter :: parameters) (argument :: rest) =
      (signature.accept parameter position argument >>= fun value =>
        signature.acceptFrom (position + 1) parameters rest >>= fun values =>
          .ok (value :: values)) := by
  simp only [acceptFrom, single]
  rfl

theorem acceptFrom_omitted (single : parameter.isVariadic = false) :
    signature.acceptFrom position (parameter :: parameters) [] =
      (signature.acceptFrom (position + 1) parameters [] >>= fun values =>
        .ok (parameter.fallback.getD .void :: values)) := by
  simp only [acceptFrom, single]
  rfl

/-- No argument is one too many, and none is missing. -/
structure Suits (parameters : List Parameter) (arguments : List Value) : Prop where
  variadicLast : ∀ parameter ∈ parameters.dropLast, parameter.isVariadic = false
  covers : arguments.length ≤ parameters.length ∨
    ∃ parameter ∈ parameters, parameter.isVariadic = true
  omittable : ∀ parameter ∈ parameters.drop arguments.length, parameter.isRequired = false

theorem Suits.tail (suits : Suits (parameter :: parameters) arguments)
    (single : parameter.isVariadic = false) : Suits parameters (arguments.drop 1) where
  variadicLast other member := by
    have isLonger : parameters ≠ [] := by
      rintro rfl
      cases member
    apply suits.variadicLast
    rw [List.dropLast_cons_of_ne_nil isLonger]
    exact List.mem_cons_of_mem _ member
  covers := by
    rcases suits.covers with enough | ⟨other, member, isVariadic⟩
    · rw [List.length_cons] at enough
      exact .inl (by rw [List.length_drop]; omega)
    · rcases List.mem_cons.mp member with rfl | later
      · cases single.symm.trans isVariadic
      · exact .inr ⟨other, later, isVariadic⟩
  omittable other member := by
    apply suits.omittable
    cases arguments with
    | nil => exact List.mem_cons_of_mem _ member
    | cons argument rest => exact member

theorem Suits.eq_nil (suits : Suits (parameter :: parameters) arguments)
    (isVariadic : parameter.isVariadic = true) : parameters = [] := by
  by_contra isLonger
  have inFront : parameter ∈ (parameter :: parameters).dropLast := by
    simp [List.dropLast_cons_of_ne_nil isLonger]
  cases isVariadic.symm.trans (suits.variadicLast parameter inFront)

theorem acceptedAt_nil (place : Nat) : AcceptedAt parameterFor? [] place := by
  intro argument found
  simp at found

theorem acceptedAt_of_forall₂ (accepted : List.Forall₂
      (fun argument value => argument.coerce? parameter.types = some value) arguments values)
    (place : Nat) : AcceptedAt (fun _ => some parameter) arguments place := by
  induction accepted generalizing place with
  | nil => exact acceptedAt_nil place
  | cons first _ ih =>
    cases place with
    | zero => exact acceptedAt_zero rfl first
    | succ place => exact ih place

theorem ends_acceptFrom_exactly (suits : Suits parameters arguments)
    (few : arguments.length < elementLimit) (position : Nat) :
    Ends (fun values => (∀ place, AcceptedAt (parameterAt? parameters) arguments place) ∧
        Binds parameters arguments values)
      (signature.Refusal (parameterAt? parameters) position arguments)
      (signature.acceptFrom position parameters arguments) := by
  induction parameters generalizing arguments position with
  | nil =>
    have isEmpty : arguments = [] := by simpa using suits.covers
    subst isEmpty
    exact ⟨acceptedAt_nil, .nil []⟩
  | cons parameter parameters ih =>
    by_cases isVariadic : parameter.isVariadic = true
    · cases suits.eq_nil isVariadic
      rw [acceptFrom_of_isVariadic isVariadic, parameterAt?_of_isVariadic isVariadic]
      have all : Ends _ _ (signature.acceptAll parameter position arguments) :=
        ends_acceptAll (by omega)
      refine all.bind fun values accepted => ⟨acceptedAt_of_forall₂ accepted, .cons (.nil _) ?_⟩
      have fewValues : values.length ≤ elementLimit := accepted.length_eq ▸ few.le
      exact .collected isVariadic accepted (Table.entries_ofValues fewValues)
    · have single : parameter.isVariadic = false := Bool.eq_false_of_not_eq_true isVariadic
      cases arguments with
      | cons argument rest =>
        rw [acceptFrom_cons single]
        cases coerced : argument.coerce? parameter.types with
        | none =>
          rw [accept_of_none coerced]
          exact .of_head rfl coerced
        | some value =>
          rw [accept_of_some coerced]
          have first : AcceptedAt (parameterAt? (parameter :: parameters))
              (argument :: rest) 0 :=
            acceptedAt_zero rfl coerced
          have later := ih (suits.tail single) (Nat.lt_of_succ_lt few) (position + 1)
          rw [← parameterAt?_succ single] at later
          refine (later.mono fun _ refusal => .of_tail first refusal).bind ?_
          intro values settled
          refine ⟨fun place => ?_, settled.2.cons (.argument single coerced)⟩
          cases place with
          | zero => exact first
          | succ place => exact settled.1 place
      | nil =>
        rw [acceptFrom_omitted single]
        have later := ih (suits.tail single) few (position + 1)
        refine (later.mono ?_).bind fun values settled => ⟨acceptedAt_nil, settled.2.cons ?_⟩
        · rintro _ ⟨place, _, _, refused, _⟩
          exact absurd refused.here (by simp)
        · have notRequired := suits.omittable parameter List.mem_cons_self
          cases fallback : parameter.fallback with
          | some value => exact .omitted single fallback
          | none => simp [Parameter.isRequired, fallback, single] at notRequired

theorem FirstRefused.not_acceptedAt {place : Nat}
    (first : FirstRefused parameterFor? arguments place parameter argument) :
    ¬AcceptedAt parameterFor? arguments place := by
  intro accepted
  rcases accepted argument first.here with ⟨other, declared, isSome⟩
  cases first.declared.symm.trans declared
  rw [first.refused] at isSome
  cases isSome

theorem IsOrdered.requiredCount_eq (ordered : signature.IsOrdered) :
    signature.requiredCount = signature.parameters.countP Parameter.isRequired := by
  have inFront : (signature.parameters.takeWhile Parameter.isRequired).countP Parameter.isRequired =
      signature.requiredCount :=
    List.countP_eq_length.mpr (List.all_eq_true.mp List.all_takeWhile)
  have behind :
      (signature.parameters.dropWhile Parameter.isRequired).countP Parameter.isRequired = 0 :=
    List.countP_eq_zero.mpr fun parameter member => by simp [ordered.requiredFirst parameter member]
  rw [← inFront, ← Nat.add_zero (List.countP _ _), ← behind, ← List.countP_append,
    List.takeWhile_append_dropWhile]

theorem IsOrdered.isVariadic_iff (ordered : signature.IsOrdered) :
    signature.isVariadic = true ↔
      ∃ parameter ∈ signature.parameters, parameter.isVariadic = true := by
  have inFront := ordered.variadicLast
  rw [isVariadic]
  cases last : signature.parameters.getLast? with
  | none => simp [List.getLast?_eq_none_iff.mp last]
  | some parameter =>
    rcases List.getLast?_eq_some_iff.mp last with ⟨others, whole⟩
    rw [whole, List.dropLast_concat] at inFront
    rw [whole]
    constructor
    · intro isVariadic
      exact ⟨parameter, List.mem_append_right _ List.mem_cons_self, isVariadic⟩
    · rintro ⟨other, member, isVariadic⟩
      rcases List.mem_append.mp member with earlier | isLast
      · cases isVariadic.symm.trans (inFront other earlier)
      · cases List.mem_singleton.mp isLast
        exact isVariadic

theorem IsOrdered.countFits_iff (ordered : signature.IsOrdered) {given : Nat} :
    signature.CountFits given ↔
      ¬(given < signature.requiredCount ||
        (!signature.isVariadic && signature.parameters.length < given)) = true := by
  rw [CountFits, ← ordered.isVariadic_iff, ← ordered.requiredCount_eq]
  cases signature.isVariadic <;> simp

theorem exists_countProblem_eq (signature : Signature) (given : Nat) :
    ∃ bound expected, signature.countProblem given =
      .argumentCount signature.function bound expected given := by
  unfold countProblem
  dsimp only
  split
  · exact ⟨_, _, rfl⟩
  · exact ⟨_, _, rfl⟩

theorem IsOrdered.suits (ordered : signature.IsOrdered)
    (fits : signature.CountFits arguments.length) : Suits signature.parameters arguments where
  variadicLast := ordered.variadicLast
  covers := fits.2
  omittable := isRequired_of_mem_drop ordered.requiredFirst (ordered.requiredCount_eq ▸ fits.1)

/-- A call of a native function succeeds if and only if there are neither too few nor too many
arguments and each of them is accepted. Then each parameter has its value. Otherwise the number of
arguments is reported, or else the first argument that is not accepted. -/
theorem native_binding_is_exact (ordered : signature.IsOrdered)
    (few : arguments.length < 2 ^ 63) :
    ((∃ values, signature.bind arguments = .ok values) ↔
      signature.CountFits arguments.length ∧
        ∀ place, AcceptedAt (parameterAt? signature.parameters) arguments place) ∧
    (∀ values, signature.bind arguments = .ok values →
      Binds signature.parameters arguments values) ∧
    (¬signature.CountFits arguments.length →
      ∃ bound expected, signature.bind arguments =
        .error (.argumentCount signature.function bound expected arguments.length)) ∧
    (signature.CountFits arguments.length →
      (¬∀ place, AcceptedAt (parameterAt? signature.parameters) arguments place) →
      ∃ place parameter argument,
        FirstRefused (parameterAt? signature.parameters) arguments place parameter argument ∧
        signature.bind arguments =
          .error (.argumentType signature.function (place + 1) parameter.name
            (TypeName.renderUnion parameter.types) argument.type)) := by
  by_cases fits : signature.CountFits arguments.length
  · have binds : signature.bind arguments = signature.acceptFrom 1 signature.parameters arguments :=
      if_neg (ordered.countFits_iff.mp fits)
    have settled := @ends_acceptFrom_exactly signature _ _ (ordered.suits fits) few 1
    rw [← binds] at settled
    cases bound : signature.bind arguments with
    | ok values =>
        rw [bound] at settled
        refine ⟨⟨fun _ => ⟨fits, settled.1⟩, fun _ => ⟨values, rfl⟩⟩, ?_,
          fun misfits => absurd fits misfits, fun _ refuses => absurd settled.1 refuses⟩
        rintro _ ⟨⟩
        exact settled.2
    | error problem =>
        rw [bound] at settled
        rcases settled with ⟨place, parameter, argument, first, rfl⟩
        refine ⟨⟨?_, ?_⟩, ?_, fun misfits => absurd fits misfits, fun _ _ => ?_⟩
        · rintro ⟨_, ⟨⟩⟩
        · exact fun accepted => absurd (accepted.2 place) first.not_acceptedAt
        · rintro _ ⟨⟩
        · exact ⟨place, parameter, argument, first, by rw [Nat.add_comm 1 place]⟩
  · have fails : signature.bind arguments = .error (signature.countProblem arguments.length) :=
      if_pos (not_not.mp fun fitting => fits (ordered.countFits_iff.mpr fitting))
    rcases signature.exists_countProblem_eq arguments.length with ⟨bound, expected, isProblem⟩
    rw [fails, isProblem]
    refine ⟨⟨?_, fun fitting => absurd fitting.1 fits⟩, ?_, fun _ => ⟨bound, expected, rfl⟩,
      fun fitting => absurd fitting fits⟩
    · rintro ⟨_, ⟨⟩⟩
    · rintro _ ⟨⟩

/-- Two arguments are left for a variadic parameter behind an optional one. -/
theorem native_binding_is_exact_variadic :
    let signature : Signature :=
      { function := "f"
        parameters := [.required "$a" [.int], .optional "$b" [.bool] (.bool true),
          .variadic "$c" [.int]] }
    let arguments : List Value := [.bool true, .int 0, .bool false, .int 5]
    let values := [.int 1, .bool false, .array ⟨[(.int 0, .int 0), (.int 1, .int 5)]⟩]
    signature.IsOrdered ∧ arguments.length < 2 ^ 63 ∧ signature.bind arguments = .ok values ∧
      Binds signature.parameters arguments values ∧ signature.CountFits arguments.length := by
  intro signature arguments values
  have ordered : signature.IsOrdered := ⟨by decide, by decide⟩
  have few : arguments.length < 2 ^ 63 := by decide
  have binds : signature.bind arguments = .ok values := rfl
  have exactly := native_binding_is_exact ordered few
  exact ⟨ordered, few, binds, exactly.2.1 values binds, (exactly.1.mp ⟨values, binds⟩).1⟩

end Signature

end PhpScript
