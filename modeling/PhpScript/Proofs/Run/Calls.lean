import PhpScript.Proofs.Run.SteadyCode

/-!
# Calls, and runs as a whole

`Frame.Calls` says which call a part of the code makes; with this, the step of a call is steady, and
so is every step. By induction on the depth of steps every part of a run is performed on a regular
machine, and ends there as on any machine that is alike.
-/

namespace PhpScript

variable {calls : String → List Value → Prop}

namespace Evaluator

variable (self : Evaluator)

def calleeName : Callee Expr → Run String
  | .name name => return name
  | .dynamic code => do
    match ← self.expression code with
    | .str name => return name
    | _ => Run.fail .notCallable

/-- The values that a call by a name passes. A native function that changes its first argument is
passed what there is in the place of it. -/
def passedValues (name : String) (arguments : List (Located Expr)) : Run (List Value) := do
  match (← get).scopes.root.native? name, arguments with
  | some (.reference _), first :: rest =>
    if !first.node.isPlace then Run.fail (.notByReference name)
    else
      let place ← self.place first
      let current := (← place.quiet?).getD .null
      let others ← self.values rest
      return current :: others
  | _, _ => self.values arguments

theorem call_eq (callee : Callee Expr) (span : Span) (arguments : List (Located Expr)) :
    self.call callee span arguments =
      self.calleeName callee >>= fun name => self.callNamed name span arguments := by
  cases callee with
  | name name => rfl
  | dynamic code =>
    simp only [call, calleeName, bind_assoc]
    congr 1
    funext value
    cases value <;> rfl

end Evaluator

/-- A part of the code is a call that passes some values to the function of a name. -/
def Frame.Calls (evaluator : Evaluator) (frame : Frame) (name : String) (values : List Value) :
    Prop :=
  ∃ callee arguments span named after,
    frame.task = .expression ⟨.call callee arguments, span⟩ ∧
      evaluator.calleeName callee frame.machine = .ok name named ∧
      evaluator.passedValues name arguments named = .ok values after

namespace Evaluator

/-! ## Calls of declared functions -/

section Declared

variable {α : Type} {arguments : List Value} {holds : α → Prop} {body : Evaluator → Run α}

theorem ends_accept (parameter : ParameterDecl) (function : String) (position : Nat)
    {argument : Value} (regular : argument.Regular) :
    Ends Value.Regular (·.isFatal) (parameter.accept function position argument) := by
  simp only [ParameterDecl.accept]
  split
  · exact regular
  · split
    · rename_i coerced
      exact regular.coerce? coerced
    · exact rfl

theorem Steady.bindParameters (function : String) (position : Nat)
    (parameters : List ParameterDecl) (regular : AllRegular arguments)
    (few : PassesFew calls → arguments.length < elementLimit) :
    Steady calls (fun _ => True) fun self =>
      self.bindParameters function position parameters arguments := by
  induction parameters generalizing position arguments with
  | nil => exact .pure trivial
  | cons parameter rest ih =>
    have withoutArguments : ∀ position, Steady calls (fun _ => True) fun self =>
        self.bindParameters function position rest [] :=
      fun position => @ih [] position allRegular_nil fun _ => by decide
    simp only [Evaluator.bindParameters]
    split
    · have collected : Ends AllRegular (FatalIfFew (0 + arguments.length))
          (parameter.acceptAll function position arguments) :=
        ends_acceptRemaining (fun position argument member =>
          ends_accept parameter function position (regular argument member)) position 0
      rw [Nat.zero_add] at collected
      refine .bind (.effect (.ofExcept (collected.mono fun _ fatal passesFew =>
        fatal (few passesFew)))) fun values valuesRegular => ?_
      have array := Value.regular_array_iff.mpr (Value.admits_elements_of_values valuesRegular)
      exact .bind (.effect (.store _ array)) fun _ _ => withoutArguments _
    · cases arguments with
      | cons argument others =>
        rcases allRegular_cons.mp regular with ⟨own, othersRegular⟩
        refine .bind (.effect (.ofFatal (ends_accept parameter function position own)))
          fun value valueRegular => ?_
        refine .bind (.effect (.store _ valueRegular)) fun _ _ => ih _ othersRegular ?_
        exact fun passesFew => Nat.lt_of_succ_lt (few passesFew)
      | nil =>
        dsimp only
        cases parameter.fallback with
        | some code =>
          exact .bind (.expression code) fun _ valueRegular =>
            .bind (.effect (.store _ valueRegular)) fun _ _ => withoutArguments _
        | none =>
          exact .bind (.pure Value.regular_null) fun _ valueRegular =>
            .bind (.effect (.store _ valueRegular)) fun _ _ => withoutArguments _

theorem ends_checkReturn {σ : Type} (function : FunctionDecl σ) {value : Value}
    (regular : value.orNull.Regular) :
    Ends Value.Regular (·.isFatal) (function.checkReturn value) := by
  unfold FunctionDecl.checkReturn
  split
  · exact regular
  · split
    · exact Value.regular_null
    · split
      · exact rfl
      · rename_i notVoid
        have own : value.Regular := by
          cases value with
          | void => exact absurd rfl notVoid
          | null | bool _ | int _ | float _ | str _ | array _ => exact regular
        split
        · rename_i coerced
          exact own.coerce? coerced
        · exact rfl

theorem Steady.inCall (function : String) (inside : Steady calls holds body) :
    Steady calls holds fun self => Run.inCall function (body self) := by
  intro self machine
  refine .bracket (fun _ _ _ => rfl) ⟨fun _ _ _ _ => rfl, fun _ => rfl⟩
    (fun _ => ⟨fun _ _ _ _ => rfl, fun _ => rfl⟩) (fun regular => ⟨regular.root, ?_⟩)
    (fun regular after regularAfter => ⟨regularAfter.root, regular.locals⟩) (inside self _)
  exact List.forall_mem_cons.mpr ⟨.empty, fun _ member => absurd member List.not_mem_nil⟩

theorem Steady.inBody (inside : Steady calls holds body) :
    Steady calls holds fun self => Run.inBody (body self) := by
  intro self machine
  simp only [Run.inBody, Run.between]
  exact .bracket (fun _ _ _ => rfl) ⟨fun _ _ _ _ => rfl, fun _ => rfl⟩
    (fun _ => ⟨fun _ _ _ _ => rfl, fun _ => rfl⟩) (fun regular => regular)
    (fun _ _ regularAfter => regularAfter) (Steady.around .noLoops inside self _)

theorem Steady.runFunction (function : UserFunction) (regular : AllRegular arguments)
    (few : PassesFew calls → arguments.length < elementLimit) :
    Steady calls Flow.Regular fun self => self.runFunction function arguments :=
  .inCall _ (.bind (.bindParameters _ 1 function.parameters regular few) fun _ _ =>
    .inBody (.block function.body))

theorem Steady.callDeclared (function : DeclaredFunction) (regular : AllRegular arguments)
    (few : PassesFew calls → arguments.length < elementLimit) :
    Steady calls Value.Regular fun self => self.callDeclared function arguments := by
  refine .bind_get rfl fun machine _ => ?_
  split
  · exact .fail rfl
  · simp only [runDeclared]
    split
    · exact .fail rfl
    · refine .bind (.around (.file function.file) (.runFunction function.declaration regular few))
        fun flow flowRegular => .effect (.ofFatal (ends_checkReturn _ ?_))
      cases flow with
      | ret value => exact flowRegular
      | normal => exact Value.regular_null
      | jump kind levels => exact Value.regular_null

end Declared

/-! ## Calls by a name -/

section Named

variable {self : Evaluator} {machine : Machine} {name : String} {values : List Value}
  {arguments : List (Located Expr)}

theorem SteadyFrom.callFunction (span : Span) (made : calls name values)
    (regular : AllRegular values) :
    SteadyFrom calls Value.Regular (fun self => self.callFunction name span values) self
      machine := by
  refine .bind_get (fun _ _ _ _ => rfl) fun machineRegular => ?_
  dsimp only
  cases found : machine.scopes.root.native? name with
  | some native =>
    have unasked : AsksNothing calls → native.observes = false := by
      intro asks
      cases observes : native.observes with
      | false => rfl
      | true =>
        exact absurd (machineRegular.root.observer_of_native? found observes)
          (asks name values made)
    exact .bind (.effect (native.steady_call span regular (fun few => few name values made)
      unasked)) fun _ _ _ result => .effect (.pure result.1)
  | none =>
    dsimp only
    cases machine.scopes.root.function? name with
    | some function =>
      refine .perform (.call function values) fun machineRegular => ⟨machineRegular, ?_⟩
      rintro _ _ ⟨⟩
      exact ⟨regular, fun few => few name values made⟩
    | none => exact .effect (.fail fun _ => rfl)

theorem passedValues_of_values
    (byValue : ∀ function first rest, machine.scopes.root.native? name =
      some (.reference function) → arguments = first :: rest → False) :
    self.passedValues name arguments machine = self.values arguments machine := by
  rw [passedValues, Run.get_bind]
  apply congrFun
  split
  · rename_i function first rest found
    exact (byValue function first rest found rfl).elim
  · rfl

theorem callNamed_of_values {span : Span}
    (byValue : ∀ function, machine.scopes.root.native? name ≠ some (.reference function)) :
    self.callNamed name span arguments machine =
      (self.values arguments >>= fun values => self.callFunction name span values) machine := by
  rw [callNamed, Run.get_bind]
  apply congrFun
  split
  · rename_i function _ _ found
    exact absurd found (byValue function)
  · rfl

theorem callFunction_of_native {span : Span} {native : Native}
    (found : machine.scopes.root.native? name = some native) :
    self.callFunction name span values machine =
      (native.call span values >>= fun result => Pure.pure result.1) machine := by
  rw [callFunction, Run.get_bind, found]

theorem passedValues_of_place {function : ReferenceFunction} {first : Located Expr}
    {rest : List (Located Expr)} {place : Place} {current : Option Value} {others : List Value}
    {placed looked after : Machine}
    (found : machine.scopes.root.native? name = some (.reference function))
    (isPlace : first.node.isPlace = true) (hasPlace : self.place first machine = .ok place placed)
    (read : place.quiet? placed = .ok current looked)
    (evaluated : self.values rest looked = .ok others after) :
    self.passedValues name (first :: rest) machine = .ok (current.getD .null :: others) after := by
  have looking : self.passedValues name (first :: rest) machine =
      (self.place first >>= fun place => place.quiet? >>= fun current => self.values rest >>=
        fun others => Pure.pure (current.getD .null :: others) : Run (List Value)) machine := by
    rw [passedValues, Run.get_bind, found]
    simp only [isPlace]
    rfl
  rw [looking, Run.bind_of_ok hasPlace, Run.bind_of_ok read, Run.bind_of_ok evaluated]
  rfl

theorem SteadyFrom.callOnPlace (function : ReferenceFunction) (span : Span) (first : Located Expr)
    (rest : List (Located Expr))
    (found : machine.scopes.root.native? name = some (.reference function))
    (made : ∀ values after, self.passedValues name (first :: rest) machine = .ok values after →
      calls name values) :
    SteadyFrom calls Value.Regular
      (fun self => self.callOnPlace (.reference function) name span first rest) self machine := by
  simp only [Evaluator.callOnPlace]
  split
  · exact .effect (.fail fun _ => rfl)
  · rename_i notPlace
    have isPlace : first.node.isPlace = true := by simpa using notPlace
    refine .bind (Steady.place first self machine) fun place placed hasPlace _ => ?_
    refine .bind (.effect place.steady_quiet?) fun current looked read currentRegular => ?_
    refine .bind (Steady.values rest self looked) fun others after evaluated othersRegular => ?_
    have passed := made _ _ (passedValues_of_place found isPlace hasPlace read evaluated)
    have regular : AllRegular (current.getD .null :: others) :=
      allRegular_cons.mpr ⟨currentRegular.getD_null, othersRegular⟩
    have called := Native.steady_call (.reference function) span regular
      (fun few => few name _ passed) fun _ => rfl
    refine .bind (.effect called) fun result _ _ resultRegular => ?_
    rcases result with ⟨value, changed⟩
    cases changed with
    | some stored =>
      exact .bind (.effect (place.steady_store (resultRegular.2 stored rfl)))
        fun _ _ _ _ => .effect (.pure resultRegular.1)
    | none => exact .effect (.pure resultRegular.1)

theorem SteadyFrom.callNamed (span : Span) (arguments : List (Located Expr))
    (made : ∀ values after, self.passedValues name arguments machine = .ok values after →
      calls name values) :
    SteadyFrom calls Value.Regular (fun self => self.callNamed name span arguments) self
      machine := by
  refine .bind_get (fun _ _ _ _ => rfl) fun _ => ?_
  split
  · rename_i function first rest found
    exact .callOnPlace function span first rest found made
  · rename_i given _ _ byValue
    refine .bind (Steady.values given self machine) fun values after evaluated regular => ?_
    refine .callFunction span (made values after ?_) regular
    rw [passedValues_of_values byValue]
    exact evaluated

theorem Steady.calleeName (callee : Callee Expr) :
    Steady calls (fun _ => True) fun self => self.calleeName callee := by
  cases callee with
  | name name => exact .pure trivial
  | dynamic code =>
    refine .bind (.expression code) fun value _ => ?_
    split
    · exact .pure trivial
    · exact .fail rfl

theorem SteadyFrom.call (callee : Callee Expr) (span : Span) (arguments : List (Located Expr))
    (made : ∀ name values,
      Frame.Calls self ⟨.expression ⟨.call callee arguments, span⟩, machine⟩ name values →
      calls name values) :
    SteadyFrom calls Value.Regular (fun self => self.call callee span arguments) self machine := by
  simp only [call_eq]
  refine .bind (Steady.calleeName callee self machine) fun name middle evaluated _ => ?_
  exact .callNamed span arguments fun values after passed =>
    made name values ⟨callee, arguments, span, middle, after, rfl, evaluated, passed⟩

theorem Steady.passedValues (name : String) (arguments : List (Located Expr)) :
    Steady calls AllRegular fun self => self.passedValues name arguments := by
  refine .bind_get rfl fun machine _ => ?_
  split
  · rename_i first rest _
    split
    · exact .fail rfl
    · refine .bind (.place first) fun place _ => .bind (.effect place.steady_quiet?) ?_
      intro current currentRegular
      refine .bind (.values rest) fun others othersRegular => .pure (allRegular_cons.mpr ?_)
      exact ⟨currentRegular.getD_null, othersRegular⟩
  · exact .values _

end Named

end Evaluator

end PhpScript
