import PhpScript.Proofs.Run.Parameters

/-!
# What a call checks

A call of a declared function counts its arguments, checks them while it binds the parameters, and
checks the result. So the body is entered only with arguments of the declared types, and what comes
out has the declared type.

There are two gaps. The default of a later parameter can assign another value to a parameter before
the body is entered. And only the parameters in front are counted: one that stands behind a default
is null if it is left out.
-/

namespace PhpScript

def Machine.callOf (machine : Machine) (declared : DeclaredFunction) : Machine :=
  { machine with file := declared.file }.inCall declared.declaration.name.node

def Flow.result : Flow → Value
  | .ret value => value
  | _ => .void

namespace Run

variable {α : Type} {body : Run α} {machine after : Machine} {value : α}

theorem inCall_of_ok {function : String} (ends : body (machine.inCall function) = .ok value after) :
    inCall function body machine =
      .ok value { after with scopes := { after.scopes with locals := machine.scopes.locals } } := by
  unfold Machine.inCall at ends
  simp only [inCall, bracket, ends]

theorem inCall_of_error {function : String} {halt : Halt}
    (ends : body (machine.inCall function) = .error halt after) :
    inCall function body machine =
      .error halt
        { after with scopes := { after.scopes with locals := machine.scopes.locals } } := by
  unfold Machine.inCall at ends
  simp only [inCall, bracket, ends]

theorem inFile_of_ok {file : SourceFile} (ends : body { machine with file } = .ok value after) :
    inFile file body machine = .ok value { after with file := machine.file } := by
  simp only [inFile, bracket, ends]

theorem exists_inBody_of_ok (ends : body machine.inBody = .ok value after) :
    ∃ left, inBody body machine = .ok value left := by
  unfold Machine.inBody at ends
  simp only [inBody, between, outsideLoops, bracket, ends]
  exact ⟨_, rfl⟩

theorem ok_of_run'_eq_some {run : Run α} (ends : EStateM.run' run machine = some value) :
    run machine = .ok value (run.machineAfter machine) := by
  delta EStateM.run' EStateM.run at ends
  cases result : run machine with
  | ok own after =>
    rw [result] at ends
    cases ends
    rw [machineAfter_of_ok result]
  | error halt after =>
    rw [result] at ends
    cases ends

theorem exists_ok_of_isSome {run : Run α} (ends : (EStateM.run' run machine).isSome = true) :
    ∃ value, run machine = .ok value (run.machineAfter machine) := by
  rcases Option.isSome_iff_exists.mp ends with ⟨value, ends⟩
  exact ⟨value, ok_of_run'_eq_some ends⟩

end Run

namespace Evaluator

variable {self : Evaluator} {declared : DeclaredFunction} {arguments : List Value}
  {parameter : ParameterDecl} {machine entered after : Machine}

/-- A call of a function comes to the body: the limit leaves room for it, there are arguments for
the parameters in front, and all parameters are bound. -/
structure EntersBody (evaluator : Evaluator) (declared : DeclaredFunction) (arguments : List Value)
    (machine entered : Machine) : Prop where
  room : machine.depth < machine.settings.nestingLimit
  enough : declared.declaration.requiredCount ≤ arguments.length
  binds : ∃ bound,
    evaluator.bindParameters declared.declaration.name.node 1 declared.declaration.parameters
      arguments (machine.callOf declared) = .ok () bound ∧ bound.inBody = entered

/-- On the way to the body of a function the parameter at an index is bound to a value. The body
finds it there, unless a later parameter has the same name or a default changes it. -/
structure BindsTo (evaluator : Evaluator) (declared : DeclaredFunction) (arguments : List Value)
    (machine entered : Machine) (index : Nat) (parameter : ParameterDecl) (value : Value) :
    Prop where
  bound : ∃ bound after, bound.scopes.lookup parameter.variableName = some value ∧
    evaluator.bindParameters declared.declaration.name.node (index + 2)
      (declared.declaration.parameters.drop (index + 1)) (arguments.drop (index + 1)) bound =
        .ok () after ∧ after.inBody = entered
  held : (∀ later ∈ declared.declaration.parameters.drop (index + 1),
      later.variableName ≠ parameter.variableName) →
    (∀ code before result after,
      Performs (fun self => self.callDeclared declared arguments) evaluator machine
        ⟨.expression code, before⟩ →
      evaluator.expression code before = .ok result after →
      after.scopes.lookup parameter.variableName = before.scopes.lookup parameter.variableName) →
    entered.scopes.lookup parameter.variableName = some value

theorem EntersBody.exists_bindsTo (enters : EntersBody self declared arguments machine entered)
    (onlyLast : ParameterDecl.OnlyLast declared.declaration.parameters) {index : Nat}
    (found : declared.declaration.parameters[index]? = some parameter) :
    ∃ before value middle,
      Obtains self declared.declaration.name.node (index + 1) parameter (arguments.drop index)
        before value middle ∧
      BindsTo self declared arguments machine entered index parameter value := by
  rcases enters with ⟨room, enough, after, binds, rfl⟩
  rcases exists_obtains_of_bindParameters onlyLast binds found with
    ⟨before, value, middle, obtains, others, performed⟩
  have places : 1 + index = index + 1 := Nat.add_comm 1 index
  rw [places] at obtains others performed
  have holds : (middle.setVariable parameter.variableName value).scopes.lookup
      parameter.variableName = some value := by
    rw [Machine.lookup_setVariable, if_pos rfl]
  refine ⟨before, value, middle, obtains, ⟨_, after, holds, others, rfl⟩, ?_⟩
  intro differ keeps
  change after.scopes.lookup parameter.variableName = some value
  rw [lookup_of_bindParameters (onlyLast.drop (index + 1)) others differ, holds]
  intro code middle result later performs
  apply keeps
  apply performs_callDeclared_iff.mpr
  refine ⟨room, enough, performs_runFunction_iff.mpr (.inl ?_)⟩
  exact performed _ performs

theorem callDeclared_of_few
    (few : arguments.length < declared.declaration.requiredCount) :
    self.callDeclared declared arguments machine = .error (.problem
      (if machine.settings.nestingLimit ≤ machine.depth then
        .nestingLimit machine.settings.nestingLimit
      else declared.declaration.countProblem arguments.length)) machine := by
  rw [callDeclared_eq]
  split
  · rfl
  · rw [runDeclared, if_pos few]
    rfl

section Ends

variable (room : machine.depth < machine.settings.nestingLimit)
  (enough : declared.declaration.requiredCount ≤ arguments.length)
include room enough

theorem callDeclared_of_room :
    self.callDeclared declared arguments machine =
      (do
        let flow ← Run.inFile declared.file (self.runFunction declared.declaration arguments)
        Run.ofExcept (declared.declaration.checkReturn flow.result)) machine := by
  rw [callDeclared_eq, if_neg (Nat.not_le.mpr room), runDeclared, if_neg (Nat.not_lt.mpr enough)]
  refine congrFun (congrArg _ (funext fun flow => ?_)) machine
  cases flow with
  | ret value => rfl
  | normal => rfl
  | jump kind levels => rfl

theorem callDeclared_of_binding_error {halt : Halt}
    (fails : self.bindParameters declared.declaration.name.node 1 declared.declaration.parameters
      arguments (machine.callOf declared) = .error halt after) :
    self.callDeclared declared arguments machine = .error halt
      { after with
        scopes := { after.scopes with locals := machine.scopes.locals }
        file := machine.file } := by
  have inCall : self.runFunction declared.declaration arguments
      { machine with file := declared.file } =
        .error halt
          { after with scopes := { after.scopes with locals := machine.scopes.locals } } :=
    Run.inCall_of_error (Run.bind_of_error fails)
  rw [callDeclared_of_room room enough]
  exact Run.bind_of_error (by simp only [Run.inFile, Run.bracket, inCall])

end Ends

theorem EntersBody.exists_callDeclared_eq
    (enters : EntersBody self declared arguments machine entered) {flow : Flow}
    (ends : self.block declared.declaration.body entered = .ok flow after) :
    ∃ restored, self.callDeclared declared arguments machine =
      Run.ofExcept (declared.declaration.checkReturn flow.result) restored := by
  rcases enters with ⟨room, enough, bound, binds, rfl⟩
  rcases Run.exists_inBody_of_ok ends with ⟨left, inBody⟩
  have inCall : self.runFunction declared.declaration arguments
      { machine with file := declared.file } =
        .ok flow { left with scopes := { left.scopes with locals := machine.scopes.locals } } :=
    Run.inCall_of_ok ((Run.bind_of_ok binds).trans inBody)
  rw [callDeclared_of_room room enough]
  exact ⟨_, Run.bind_of_ok (Run.inFile_of_ok inCall)⟩

theorem exists_checkReturn_of_callDeclared {value : Value}
    (returns : self.callDeclared declared arguments machine = .ok value after) :
    ∃ result, declared.declaration.checkReturn result = .ok value := by
  by_cases enough : declared.declaration.requiredCount ≤ arguments.length
  · by_cases room : machine.depth < machine.settings.nestingLimit
    · rw [callDeclared_of_room room enough] at returns
      rcases Run.bind_eq_ok returns with ⟨flow, restored, _, checks⟩
      exact ⟨flow.result, (Run.ofExcept_eq_ok checks).1⟩
    · rw [callDeclared_eq, if_pos (Nat.not_lt.mp room)] at returns
      cases returns
  · rw [callDeclared_of_few (Nat.not_le.mp enough)] at returns
    cases returns

end Evaluator

/-! ## Arguments that are not accepted -/

theorem ParameterDecl.RefusesAt.isTypeError {function : String} {position index : Nat}
    {parameters : List ParameterDecl} {arguments : List Value} {problem : Problem}
    (refused : RefusesAt function position parameters arguments index problem) :
    problem.IsTypeError := by
  rcases refused with ⟨parameter, argument, _, _, notAccepted⟩
  rcases accept_eq_error_iff.mp notAccepted with ⟨hint, _, _, rfl⟩
  exact Problem.isTypeError_argumentType _ _ _ _ _

namespace Evaluator

section Refusals

variable {self : Evaluator} {declared : DeclaredFunction} {arguments : List Value} {index : Nat}
  {problem : Problem} {machine entered : Machine}

theorem EntersBody.not_refusesAt (enters : EntersBody self declared arguments machine entered) :
    ¬ParameterDecl.RefusesAt declared.declaration.name.node 1 declared.declaration.parameters
      arguments index problem := by
  intro refused
  rcases exists_bindParameters_eq_error (machine.callOf declared) refused with ⟨_, _, fails, _⟩
  rcases enters.binds with ⟨bound, binds, _⟩
  rw [fails self] at binds
  cases binds

theorem exists_callDeclared_eq_error (declared : DeclaredFunction) (machine : Machine)
    (refused : ParameterDecl.RefusesAt declared.declaration.name.node 1
      declared.declaration.parameters arguments index problem) :
    ∃ problem after,
      (∀ self : Evaluator, self.callDeclared declared arguments machine =
        .error (.problem problem) after) ∧
      (machine.depth < machine.settings.nestingLimit →
        declared.declaration.requiredCount ≤ arguments.length →
        arguments.length ≤ elementLimit → ∃ index,
          IsFirst (ParameterDecl.RefusesAt declared.declaration.name.node 1
            declared.declaration.parameters arguments) index problem) := by
  by_cases enough : declared.declaration.requiredCount ≤ arguments.length
  · by_cases room : machine.depth < machine.settings.nestingLimit
    · rcases exists_bindParameters_eq_error (machine.callOf declared) refused with
        ⟨own, after, fails, isFirst⟩
      exact ⟨own, _, fun self => callDeclared_of_binding_error room enough (fails self),
        fun _ _ => isFirst⟩
    · refine ⟨.nestingLimit machine.settings.nestingLimit, machine, fun self => ?_,
        fun space => absurd space room⟩
      rw [callDeclared_eq, if_pos (Nat.not_lt.mp room)]
  · exact ⟨_, machine, fun _ => callDeclared_of_few (Nat.not_le.mp enough),
      fun _ count => absurd count enough⟩

end Refusals

end Evaluator

/-! ## Arguments that are left out -/

theorem lt_length_takeWhile_iff {α : Type} {holds : α → Bool} {list : List α} {index : Nat} :
    index < (list.takeWhile holds).length ↔
      ∀ earlier ≤ index, ∃ element, list[earlier]? = some element ∧ holds element = true := by
  induction list generalizing index with
  | nil => simpa using ⟨index, Nat.le_refl index⟩
  | cons first rest ih =>
    by_cases holdsFirst : holds first = true
    · rw [List.takeWhile_cons_of_pos holdsFirst, List.length_cons]
      cases index with
      | zero => simpa using holdsFirst
      | succ index =>
        rw [Nat.add_lt_add_iff_right, ih]
        constructor
        · intro others earlier within
          cases earlier with
          | zero => exact ⟨first, rfl, holdsFirst⟩
          | succ earlier => exact others earlier (by omega)
        · intro all earlier within
          exact all (earlier + 1) (by omega)
    · rw [List.takeWhile_cons_of_neg holdsFirst]
      refine iff_of_false (Nat.not_lt_zero index) ?_
      intro all
      rcases all 0 (Nat.zero_le index) with ⟨_, found, isHeld⟩
      cases found
      exact holdsFirst isHeld

namespace FunctionDecl

variable {σ : Type} {function : FunctionDecl σ} {arguments : List Value}

/-- A parameter for which nothing can stand in receives no argument. -/
structure LeavesOut (function : FunctionDecl σ) (arguments : List Value) (index : Nat)
    (parameter : ParameterDecl) : Prop where
  found : function.parameters[index]? = some parameter
  required : parameter.isRequired = true
  leftOut : arguments.length ≤ index

def HasDefaultBefore (function : FunctionDecl σ) (index : Nat) : Prop :=
  ∃ earlier < index, ∃ parameter, function.parameters[earlier]? = some parameter ∧
    parameter.fallback ≠ none

theorem length_lt_requiredCount_iff (wellFormed : function.IsWellFormed) :
    arguments.length < function.requiredCount ↔
      ∃ index parameter, function.LeavesOut arguments index parameter ∧
        ¬function.HasDefaultBefore index := by
  constructor
  · intro few
    have required := lt_length_takeWhile_iff.mp few
    rcases required arguments.length (Nat.le_refl _) with ⟨parameter, found, isRequired⟩
    refine ⟨arguments.length, parameter, ⟨found, isRequired, Nat.le_refl _⟩, ?_⟩
    rintro ⟨earlier, isEarlier, other, foundOther, hasDefault⟩
    rcases required earlier (Nat.le_of_lt isEarlier) with ⟨same, foundSame, otherRequired⟩
    rw [foundOther] at foundSame
    cases foundSame
    simp [hasDefault] at otherRequired
  · rintro ⟨index, parameter, ⟨found, required, leftOut⟩, noDefault⟩
    refine Nat.lt_of_le_of_lt leftOut (lt_length_takeWhile_iff.mpr ?_)
    intro earlier within
    rcases Nat.lt_or_eq_of_le within with isEarlier | rfl
    · have inside : index < function.parameters.length := (List.getElem?_eq_some_iff.mp found).1
      have foundOther : function.parameters[earlier]? = some function.parameters[earlier] :=
        List.getElem?_eq_getElem (by omega)
      refine ⟨_, foundOther, ?_⟩
      have single := wellFormed.onlyLast.isVariadic_eq_false foundOther (by omega)
      have noFallback : function.parameters[earlier].fallback = none := by
        by_contra hasDefault
        exact noDefault ⟨earlier, isEarlier, _, foundOther, hasDefault⟩
      simp [single, noFallback]
    · exact ⟨parameter, found, required⟩

end FunctionDecl

theorem Problem.message_tooFewArguments (function : String) (given required : Nat)
    (bound : CountBound) :
    ∃ text, (Problem.tooFewArguments function given bound required).message =
      "Uncaught ArgumentCountError: " ++ text := by
  have shown : (Problem.tooFewArguments function given bound required).message =
      "Uncaught ArgumentCountError: Too few arguments to function " ++ function ++ "(), " ++
        toString given ++ " passed " ++
        ("and " ++ bound.render ++ " " ++ toString required ++ " expected") := rfl
  have parted : "Uncaught ArgumentCountError: Too few arguments to function " =
      "Uncaught ArgumentCountError: " ++ "Too few arguments to function " := rfl
  rw [parted] at shown
  simp only [String.append_assoc] at shown
  exact ⟨_, shown⟩

theorem Program.exists_declares_of_isSome {filename source : String} {nextId : Nat}
    {test : UserFunction → Bool}
    (found : ((Program.read .sections filename source nextId).1.toOption.bind fun program =>
      (Stmt.topFunctionsOf program.statements).head?.filter test).isSome = true) :
    ∃ program next declaration,
      Program.read .sections filename source nextId = (.ok program, next) ∧
        program.Declares declaration ∧ test declaration = true := by
  rcases Option.isSome_iff_exists.mp found with ⟨declaration, isFound⟩
  rcases Option.bind_eq_some_iff.mp isFound with ⟨program, isProgram, isFirst⟩
  rcases Option.filter_eq_some_iff.mp isFirst with ⟨isHead, passes⟩
  rcases reads : Program.read .sections filename source nextId with ⟨result, next⟩
  rw [reads] at isProgram
  cases result with
  | error stop => cases isProgram
  | ok own =>
    cases isProgram
    exact ⟨program, next, declaration, rfl,
      Program.declares_of_mem_topFunctionsOf (List.mem_of_head? isHead), passes⟩

namespace Evaluator

section Checks

variable {kind : SourceKind} {filename source : String} {nextId next : Nat} {program : Program}
  {declaration : UserFunction}

/-- A call is refused for its count, before anything of the function runs, exactly if a parameter
that needs an argument receives none and no parameter in front of it has a default. Behind a default
such a parameter is null. -/
theorem required_arguments_present
    (read : Program.read kind filename source nextId = (.ok program, next))
    (declares : program.Declares declaration) (self : Evaluator) (file : SourceFile)
    (arguments : List Value) (machine : Machine) :
    let declared : DeclaredFunction := ⟨declaration, file⟩
    (∀ index parameter, declaration.LeavesOut arguments index parameter →
      ¬declaration.HasDefaultBefore index →
      (∀ entered, ¬EntersBody self declared arguments machine entered) ∧
      self.callDeclared declared arguments machine = .error (.problem
        (if machine.settings.nestingLimit ≤ machine.depth then
          .nestingLimit machine.settings.nestingLimit
        else declaration.countProblem arguments.length)) machine ∧
      ∀ frame,
        ¬Performs (fun self => self.callDeclared declared arguments) self machine frame) ∧
    (∀ index parameter entered, declaration.LeavesOut arguments index parameter →
      EntersBody self declared arguments machine entered →
      declaration.HasDefaultBefore index ∧
        BindsTo self declared arguments machine entered index parameter .null) ∧
    ((∀ index parameter, declaration.LeavesOut arguments index parameter →
        declaration.HasDefaultBefore index) →
      machine.depth < machine.settings.nestingLimit →
      self.callDeclared declared arguments machine =
        (do
          let flow ← Run.inFile file (self.runFunction declaration arguments)
          Run.ofExcept (declaration.checkReturn flow.result)) machine) ∧
    ∃ text, (declaration.countProblem arguments.length).message =
      "Uncaught ArgumentCountError: " ++ text := by
  intro declared
  have wellFormed := declares.isWellFormed read
  have counts := @FunctionDecl.length_lt_requiredCount_iff _ declaration arguments wellFormed
  refine ⟨?_, ?_, ?_, Problem.message_tooFewArguments _ _ _ _⟩
  · intro index parameter leavesOut noDefault
    have few := counts.mpr ⟨index, parameter, leavesOut, noDefault⟩
    refine ⟨?_, ?_, ?_⟩
    · intro entered enters
      exact absurd enters.enough (Nat.not_le.mpr few)
    · exact callDeclared_of_few few
    · intro frame performs
      exact absurd (performs_callDeclared_iff.mp performs).2.1 (Nat.not_le.mpr few)
  · intro index parameter entered leavesOut enters
    refine ⟨?_, ?_⟩
    · by_contra noDefault
      have few := counts.mpr ⟨index, parameter, leavesOut, noDefault⟩
      exact absurd enters.enough (Nat.not_le.mpr few)
    · rcases enters.exists_bindsTo wellFormed.onlyLast leavesOut.found with
        ⟨before, value, middle, obtains, bindsTo⟩
      rw [List.drop_eq_nil_of_le leavesOut.leftOut] at obtains
      rw [obtains.eq_null leavesOut.required] at bindsTo
      exact bindsTo
  · intro onlyBehind room
    apply callDeclared_of_room room
    by_contra few
    rcases counts.mp (Nat.not_le.mp few) with ⟨index, parameter, leavesOut, noDefault⟩
    exact noDefault (onlyBehind index parameter leavesOut)

/-- Both cases in one function: its first parameter is in front of the default, its last one
behind. -/
theorem required_arguments_present_behind_default :
    let source := "<?php function f($a, $b = 1, $c) \x7b return $c; \x7d"
    let machine := Machine.start {} {} (fun _ => none) ⟨0, 0⟩
    ∃ program next declaration first last entered,
      Program.read .sections "" source 0 = (.ok program, next) ∧ program.Declares declaration ∧
      declaration.LeavesOut [] 0 first ∧ ¬declaration.HasDefaultBefore 0 ∧
      (∀ entered, ¬EntersBody (ofDepth 2) ⟨declaration, { name := "" }⟩ [] machine entered) ∧
      declaration.LeavesOut [.int 1] 2 last ∧
      EntersBody (ofDepth 2) ⟨declaration, { name := "" }⟩ [.int 1] machine entered ∧
      BindsTo (ofDepth 2) ⟨declaration, { name := "" }⟩ [.int 1] machine entered 2 last .null := by
  intro source machine
  have found : ((Program.read .sections "" source 0).1.toOption.bind fun program =>
      (Stmt.topFunctionsOf program.statements).head?.filter fun declaration =>
        declaration.parameters.map ParameterDecl.isRequired == [true, false, true] &&
        declaration.requiredCount == 1 &&
        (((ofDepth 2).bindParameters declaration.name.node 1 declaration.parameters
          [.int 1]).run' (machine.callOf ⟨declaration, { name := "" }⟩)).isSome).isSome = true := by
    decide +kernel
  rcases Program.exists_declares_of_isSome found with
    ⟨program, next, declaration, read, declares, test⟩
  simp only [Bool.and_eq_true, beq_iff_eq] at test
  rcases test with ⟨⟨shape, count⟩, binds⟩
  have required (index : Nat) : (declaration.parameters[index]?.map ParameterDecl.isRequired) =
      [true, false, true][index]? := by
    rw [← List.getElem?_map, shape]
  rcases Option.map_eq_some_iff.mp (required 0) with ⟨first, foundFirst, firstRequired⟩
  rcases Option.map_eq_some_iff.mp (required 2) with ⟨last, foundLast, lastRequired⟩
  have leavesFirst : declaration.LeavesOut [] 0 first := ⟨foundFirst, firstRequired, Nat.le_refl 0⟩
  have leavesLast : declaration.LeavesOut [.int 1] 2 last := ⟨foundLast, lastRequired, by decide⟩
  have inFront : ¬declaration.HasDefaultBefore 0 := by
    rintro ⟨earlier, isEarlier, _⟩
    exact Nat.not_lt_zero earlier isEarlier
  rcases Run.exists_ok_of_isSome binds with ⟨_, binds⟩
  have enters : EntersBody (ofDepth 2) ⟨declaration, { name := "" }⟩ [.int 1] machine _ :=
    ⟨by decide, Nat.le_of_eq count, _, binds, rfl⟩
  rcases required_arguments_present read declares (ofDepth 2) { name := "" } [] machine with
    ⟨refused, _⟩
  rcases required_arguments_present read declares (ofDepth 2) { name := "" } [.int 1] machine with
    ⟨_, behind, _⟩
  exact ⟨program, next, declaration, first, last, _, read, declares, leavesFirst, inFront,
    (refused 0 first leavesFirst inFront).1, leavesLast, enters,
    (behind 2 last _ leavesLast enters).2⟩

/-- A parameter of type `int` that was given an integer holds a text when the body is entered: the
default of the next parameter has assigned it. -/
theorem default_replaces_typed_argument :
    let source := "<?php function f(int $x, $y = ($x = 'abc')) \x7b return $x; \x7d"
    let machine := Machine.start {} {} (fun _ => none) ⟨0, 0⟩
    ∃ program next declaration parameter entered text,
      Program.read .sections "" source 0 = (.ok program, next) ∧ program.Declares declaration ∧
      declaration.parameters[0]? = some parameter ∧ parameter.type = some ⟨[.int]⟩ ∧
      EntersBody (ofDepth 4) ⟨declaration, { name := "" }⟩ [.int 1] machine entered ∧
      entered.scopes.lookup parameter.variableName = some (.str text) ∧
      ¬TypeHint.Admits ⟨[.int]⟩ (.str text) := by
  intro source machine
  have found : ((Program.read .sections "" source 0).1.toOption.bind fun program =>
      (Stmt.topFunctionsOf program.statements).head?.filter fun declaration =>
        let binding := (ofDepth 4).bindParameters declaration.name.node 1 declaration.parameters
          [.int 1]
        let start := machine.callOf ⟨declaration, { name := "" }⟩
        declaration.requiredCount == 1 && (EStateM.run' binding start).isSome &&
        (declaration.parameters[0]?).any fun parameter =>
          parameter.type == some ⟨[.int]⟩ &&
          ((binding.machineAfter start).scopes.lookup parameter.variableName).any
            (·.hasType .string)).isSome = true := by
    decide +kernel
  rcases Program.exists_declares_of_isSome found with
    ⟨program, next, declaration, read, declares, test⟩
  simp only [Bool.and_eq_true, beq_iff_eq, Option.any_eq_true] at test
  rcases test with ⟨⟨count, binds⟩, parameter, isFirst, typed, value, isValue, isText⟩
  rcases Run.exists_ok_of_isSome binds with ⟨_, binds⟩
  cases value with
  | str text =>
      refine ⟨program, next, declaration, parameter, _, text, read, declares, isFirst, typed,
        ⟨by decide, Nat.le_of_eq count, _, binds, rfl⟩, isValue, ?_⟩
      exact Bool.false_ne_true
  | _ => cases isText

/-- Calls respect the declared types. On the way to the body each parameter with a type is bound to
what the type accepts in place of the argument, or of all that are left; and what a call gives is
admitted by the type of the function. Where an argument is not accepted, nothing of the function
runs, and the first such argument is reported, unless the count or the limit is a reason before. -/
theorem calls_respect_types
    (read : Program.read kind filename source nextId = (.ok program, next))
    (declares : program.Declares declaration) (self : Evaluator) (file : SourceFile)
    (arguments : List Value) (machine : Machine) :
    let declared : DeclaredFunction := ⟨declaration, file⟩
    let refuses :=
      ParameterDecl.RefusesAt declaration.name.node 1 declaration.parameters arguments
    (∀ entered, EntersBody self declared arguments machine entered →
      ∀ index parameter hint, declaration.parameters[index]? = some parameter →
        parameter.type = some hint →
        (parameter.isVariadic = false → ∀ argument, arguments[index]? = some argument →
          ∃ value, hint.Accepts argument value ∧
            BindsTo self declared arguments machine entered index parameter value) ∧
        (parameter.isVariadic = true →
          ∃ elements : Table Key Value,
            List.Forall₂ hint.Accepts (arguments.drop index) elements.values ∧
            BindsTo self declared arguments machine entered index parameter (.array elements))) ∧
    (∀ hint value after, declaration.returnType = some hint →
      self.callDeclared declared arguments machine = .ok value after →
      if TypeName.void ∈ hint.types then value = .null else hint.Admits value) ∧
    (∀ index parameter hint argument,
      ParameterDecl.receiver? declaration.parameters index = some parameter →
      parameter.type = some hint → arguments[index]? = some argument →
      argument.coerce? hint.types = none →
      (∀ entered, ¬EntersBody self declared arguments machine entered) ∧
      (∀ frame,
        ¬Performs (fun self => self.callDeclared declared arguments) self machine frame) ∧
      ∃ problem after,
        self.callDeclared declared arguments machine = .error (.problem problem) after ∧
        (machine.depth < machine.settings.nestingLimit →
          declaration.requiredCount ≤ arguments.length → arguments.length ≤ elementLimit →
          problem.IsTypeError ∧ ∃ index, IsFirst refuses index problem)) ∧
    (∀ entered flow after hint, EntersBody self declared arguments machine entered →
      self.block declaration.body entered = .ok flow after →
      declaration.returnType = some hint → TypeName.void ∉ hint.types →
      flow.result = .void ∨ flow.result.coerce? hint.types = none →
      ∃ problem after,
        self.callDeclared declared arguments machine = .error (.problem problem) after ∧
        problem.IsTypeError) := by
  intro declared refuses
  have wellFormed := declares.isWellFormed read
  refine ⟨?_, ?_, ?_, ?_⟩
  · intro entered enters index parameter hint found typed
    have nonempty : hint.types ≠ [] :=
      (wellFormed.parameters parameter (List.mem_of_getElem? found)).typed hint typed
    rcases enters.exists_bindsTo wellFormed.onlyLast found with
      ⟨before, value, middle, obtains, bindsTo⟩
    refine ⟨?_, ?_⟩
    · intro single argument isArgument
      rcases List.getElem?_eq_some_iff.mp isArgument with ⟨inside, rfl⟩
      rw [List.drop_eq_getElem_cons inside] at obtains
      have accepted := obtains.accept_eq_ok single
      exact ⟨value, ParameterDecl.accepts_of_accept typed nonempty accepted, bindsTo⟩
    · intro isVariadic
      rcases obtains.exists_acceptAll isVariadic with ⟨values, accepted, rfl⟩
      exact ⟨_, ParameterDecl.accepts_of_acceptAll typed nonempty accepted, bindsTo⟩
  · intro hint value after typed returns
    rcases exists_checkReturn_of_callDeclared returns with ⟨result, checked⟩
    exact FunctionDecl.admits_of_checkReturn typed (wellFormed.returned hint typed) checked
  · intro index parameter hint argument isReceiver typed isArgument notAccepted
    have refused : refuses index _ :=
      ⟨parameter, argument, isReceiver, isArgument,
        ParameterDecl.accept_eq_error_iff.mpr ⟨hint, typed, notAccepted, rfl⟩⟩
    refine ⟨fun entered enters => enters.not_refusesAt refused, ?_⟩
    rcases exists_callDeclared_eq_error declared machine refused with
      ⟨problem, after, fails, isFirst⟩
    refine ⟨?_, problem, after, fails self, ?_⟩
    · intro frame
      apply Unaffected.not_performs
      intro halt
      exact (fails _).trans (fails self).symm
    · intro room enough few
      rcases isFirst room enough few with ⟨index, isFirst⟩
      exact ⟨isFirst.here.isTypeError, index, isFirst⟩
  · intro entered flow after hint enters ends typed notVoid mismatch
    rcases FunctionDecl.checkReturn_eq_error typed notVoid mismatch with
      ⟨problem, checked, isTypeError⟩
    rcases enters.exists_callDeclared_eq ends with ⟨restored, calls⟩
    refine ⟨problem, restored, ?_, isTypeError⟩
    rw [calls, checked]
    rfl

/-- A call that converts its arguments and its result, one whose result is refused, and one whose
argument is. -/
theorem calls_respect_types_variadic :
    let source := "<?php function f(int $x, string ...$rest): int \x7b return $rest[0]; \x7d"
    let machine := Machine.start {} {} (fun _ => none) ⟨0, 0⟩
    let file : SourceFile := { name := "" }
    ∃ program next declaration single variadic entered value elements,
      Program.read .sections "" source 0 = (.ok program, next) ∧ program.Declares declaration ∧
      EntersBody (ofDepth 4) ⟨declaration, file⟩ [.str "7", .int 3] machine entered ∧
      TypeHint.Accepts ⟨[.int]⟩ (.str "7") value ∧
      BindsTo (ofDepth 4) ⟨declaration, file⟩ [.str "7", .int 3] machine entered 0 single value ∧
      List.Forall₂ (TypeHint.Accepts ⟨[.string]⟩) [.int 3] (Table.values elements) ∧
      BindsTo (ofDepth 4) ⟨declaration, file⟩ [.str "7", .int 3] machine entered 1 variadic
        (.array elements) ∧
      (∃ result after,
        (ofDepth 4).callDeclared ⟨declaration, file⟩ [.str "7", .int 3] machine =
          .ok result after ∧ TypeHint.Admits ⟨[.int]⟩ result) ∧
      (∃ problem after,
        (ofDepth 4).callDeclared ⟨declaration, file⟩ [.int 1, .str "abc"] machine =
          .error (.problem problem) after ∧ problem.IsTypeError) ∧
      ∃ problem after,
        (ofDepth 4).callDeclared ⟨declaration, file⟩ [.str "abc"] machine =
          .error (.problem problem) after ∧ problem.IsTypeError := by
  intro source machine file
  have found : ((Program.read .sections "" source 0).1.toOption.bind fun program =>
      (Stmt.topFunctionsOf program.statements).head?.filter fun declaration =>
        let binding := (ofDepth 4).bindParameters declaration.name.node 1 declaration.parameters
        let start := machine.callOf ⟨declaration, file⟩
        let other := ((binding [.int 1, .str "abc"]).machineAfter start).inBody
        declaration.parameters.map (fun parameter => (parameter.type, parameter.isVariadic)) ==
          [(some ⟨[.int]⟩, false), (some ⟨[.string]⟩, true)] &&
        declaration.requiredCount == 1 && declaration.returnType == some ⟨[.int]⟩ &&
        (EStateM.run' (binding [.str "7", .int 3]) start).isSome &&
        (EStateM.run' ((ofDepth 4).callDeclared ⟨declaration, file⟩ [.str "7", .int 3])
          machine).isSome &&
        (EStateM.run' (binding [.int 1, .str "abc"]) start).isSome &&
        (EStateM.run' ((ofDepth 4).block declaration.body) other).any fun flow =>
          (flow.result.coerce? [.int]).isNone).isSome = true := by
    decide +kernel
  rcases Program.exists_declares_of_isSome found with
    ⟨program, next, declaration, read, declares, test⟩
  simp only [Bool.and_eq_true, beq_iff_eq, Option.any_eq_true, Option.isNone_iff_eq_none] at test
  rcases test with
    ⟨⟨⟨⟨⟨⟨shape, count⟩, returnType⟩, binds⟩, calls⟩, bindsOther⟩, flow, ends, mismatch⟩
  have typed (index : Nat) : (declaration.parameters[index]?.map fun parameter =>
      (parameter.type, parameter.isVariadic)) =
        [(some ⟨[.int]⟩, false), (some ⟨[.string]⟩, true)][index]? := by
    rw [← List.getElem?_map, shape]
  rcases Option.map_eq_some_iff.mp (typed 0) with ⟨single, isFirst, singleShape⟩
  rcases Option.map_eq_some_iff.mp (typed 1) with ⟨variadic, isSecond, variadicShape⟩
  rw [Prod.mk.injEq] at singleShape variadicShape
  rcases Run.exists_ok_of_isSome binds with ⟨_, binds⟩
  rcases Run.exists_ok_of_isSome calls with ⟨result, calls⟩
  rcases Run.exists_ok_of_isSome bindsOther with ⟨_, bindsOther⟩
  have enters : EntersBody (ofDepth 4) ⟨declaration, file⟩ [.str "7", .int 3] machine _ :=
    ⟨by decide, Nat.le_trans (Nat.le_of_eq count) (by decide), _, binds, rfl⟩
  have entersOther : EntersBody (ofDepth 4) ⟨declaration, file⟩ [.int 1, .str "abc"] machine _ :=
    ⟨by decide, Nat.le_trans (Nat.le_of_eq count) (by decide), _, bindsOther, rfl⟩
  rcases calls_respect_types read declares (ofDepth 4) file [.str "7", .int 3] machine with
    ⟨bound, returned, _, _⟩
  rcases calls_respect_types read declares (ofDepth 4) file [.int 1, .str "abc"] machine with
    ⟨_, _, _, resultRefused⟩
  rcases calls_respect_types read declares (ofDepth 4) file [.str "abc"] machine with
    ⟨_, _, refused, _⟩
  rcases (bound _ enters 0 single _ isFirst singleShape.1).1 singleShape.2 _ rfl with
    ⟨value, accepts, bindsSingle⟩
  rcases (bound _ enters 1 variadic _ isSecond variadicShape.1).2 variadicShape.2 with
    ⟨elements, acceptsAll, bindsVariadic⟩
  have admitted := returned _ _ _ returnType calls
  rw [if_neg (by decide)] at admitted
  have isReceiver := (declares.isWellFormed read).onlyLast.receiver?_eq isFirst
  rcases refused 0 single _ _ isReceiver singleShape.1 rfl (by decide +kernel) with
    ⟨_, _, problem, after, fails, isTypeError⟩
  refine ⟨program, next, declaration, single, variadic, _, value, elements, read, declares, enters,
    accepts, bindsSingle, acceptsAll, bindsVariadic, ⟨result, _, calls, admitted⟩, ?_, problem,
    after, fails, ?_⟩
  · exact resultRefused _ flow _ _ entersOther (Run.ok_of_run'_eq_some ends) returnType
      (by decide) (.inr mismatch)
  · exact (isTypeError (by decide) (Nat.le_of_eq count) (by decide)).1

end Checks

end Evaluator

end PhpScript
