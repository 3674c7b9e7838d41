import PhpScript.Proofs.Run.ArrayKeys
import PhpScript.Proofs.Syntax.Numbering
import PhpScript.Proofs.Value.Acceptance

/-!
# How a call binds its parameters

The parameters of a function are bound one after the other. A parameter obtains its value from an
argument or from all that are left; once there are none, from its default, which is evaluated where
the parameters before it are bound already, or it is null. Only the number of arguments is looked at
before this begins.
-/

namespace PhpScript

namespace ParameterDecl

def isRequired (parameter : ParameterDecl) : Bool :=
  parameter.fallback.isNone && !parameter.isVariadic

def receiver? : List ParameterDecl → Nat → Option ParameterDecl
  | [], _ => none
  | parameter :: rest, index =>
    if parameter.isVariadic then some parameter
    else
      match index with
      | 0 => some parameter
      | index + 1 => receiver? rest index

/-- The argument at an index is refused by the parameter that receives it. Positions count from the
first parameter of the list. -/
def RefusesAt (function : String) (position : Nat) (parameters : List ParameterDecl)
    (arguments : List Value) (index : Nat) (problem : Problem) : Prop :=
  ∃ parameter argument, receiver? parameters index = some parameter ∧
    arguments[index]? = some argument ∧
    parameter.accept function (position + index) argument = .error problem

section Lists

variable {function : String} {position index : Nat} {parameter : ParameterDecl}
  {rest parameters : List ParameterDecl} {argument : Value} {arguments others : List Value}
  {problem : Problem}

theorem OnlyLast.eq_nil_of_isVariadic (onlyLast : OnlyLast (parameter :: rest))
    (isVariadic : parameter.isVariadic = true) : rest = [] := by
  cases rest with
  | nil => rfl
  | cons next rest =>
    have single := onlyLast parameter (by simp)
    rw [single] at isVariadic
    cases isVariadic

theorem OnlyLast.tail (onlyLast : OnlyLast (parameter :: rest)) : OnlyLast rest := by
  intro later member
  cases rest with
  | nil => cases member
  | cons next rest => exact onlyLast later (by simp [member])

theorem OnlyLast.drop (onlyLast : OnlyLast parameters) (count : Nat) :
    OnlyLast (parameters.drop count) := by
  induction count generalizing parameters with
  | zero => exact onlyLast
  | succ count ih =>
    cases parameters with
    | nil => exact onlyLast
    | cons first rest => exact ih onlyLast.tail

theorem OnlyLast.isVariadic_eq_false (onlyLast : OnlyLast parameters)
    (found : parameters[index]? = some parameter) (notLast : index + 1 < parameters.length) :
    parameter.isVariadic = false := by
  apply onlyLast
  apply List.mem_of_getElem? (i := index)
  rw [List.getElem?_dropLast, if_pos (by omega)]
  exact found

theorem OnlyLast.receiver?_eq (onlyLast : OnlyLast parameters)
    (found : parameters[index]? = some parameter) :
    receiver? parameters index = some parameter := by
  induction parameters generalizing index with
  | nil => simp at found
  | cons first rest ih =>
    cases isVariadic : first.isVariadic with
    | true =>
      rw [onlyLast.eq_nil_of_isVariadic isVariadic] at found
      rcases List.getElem?_eq_some_iff.mp found with ⟨inside, isFirst⟩
      simp at inside
      subst inside
      simpa [receiver?, isVariadic] using isFirst
    | false =>
      cases index with
      | zero => simpa [receiver?, isVariadic] using found
      | succ index =>
        simp only [receiver?, isVariadic, Bool.false_eq_true, if_false]
        exact ih onlyLast.tail found

theorem refusesAt_of_isVariadic (isVariadic : parameter.isVariadic = true) :
    RefusesAt function position (parameter :: rest) arguments =
      RefusedAt (parameter.accept function) position arguments := by
  funext index problem
  simp [RefusesAt, RefusedAt, receiver?, isVariadic]

theorem refusesAt_zero_iff (single : parameter.isVariadic = false) :
    RefusesAt function position (parameter :: rest) (argument :: others) 0 problem ↔
      parameter.accept function position argument = .error problem := by
  simp [RefusesAt, receiver?, single]

theorem refusesAt_succ_iff (single : parameter.isVariadic = false) :
    RefusesAt function position (parameter :: rest) (argument :: others) (index + 1) problem ↔
      RefusesAt function (position + 1) rest others index problem := by
  simp [RefusesAt, receiver?, single, Nat.add_assoc, Nat.add_comm 1 index]

end Lists

end ParameterDecl

namespace Machine

def setVariable (machine : Machine) (name : String) (value : Value) : Machine :=
  { machine with scopes := machine.scopes.store name value }

theorem lookup_setVariable (machine : Machine) (name other : String) (value : Value) :
    (machine.setVariable name value).scopes.lookup other =
      if name = other then some value else machine.scopes.lookup other :=
  Scopes.lookup_store machine.scopes name other value

end Machine

namespace Evaluator

variable {self : Evaluator} {function : String} {position : Nat} {parameter : ParameterDecl}
  {parameters : List ParameterDecl} {arguments : List Value} {machine after : Machine}

/-- Where some arguments are left, a parameter obtains a value, which can change the machine. -/
inductive Obtains (self : Evaluator) (function : String) (position : Nat)
    (parameter : ParameterDecl) : List Value → Machine → Value → Machine → Prop
  | remaining {arguments values : List Value} {machine : Machine}
      (isVariadic : parameter.isVariadic = true)
      (accepted : parameter.acceptAll function position arguments = .ok values) :
      Obtains self function position parameter arguments machine (.array (Table.ofValues values))
        machine
  | argument {argument value : Value} {rest : List Value} {machine : Machine}
      (single : parameter.isVariadic = false)
      (accepted : parameter.accept function position argument = .ok value) :
      Obtains self function position parameter (argument :: rest) machine value machine
  | fallback {code : Located Expr} {value : Value} {machine after : Machine}
      (single : parameter.isVariadic = false) (isDefault : parameter.fallback = some code)
      (evaluates : self.expression code machine = .ok value after) :
      Obtains self function position parameter [] machine value after
  | absent {machine : Machine} (single : parameter.isVariadic = false)
      (noDefault : parameter.fallback = none) :
      Obtains self function position parameter [] machine .null machine

section Obtains

variable {before middle : Machine} {value argument : Value} {rest : List Value}

theorem Obtains.exists_acceptAll (isVariadic : parameter.isVariadic = true)
    (obtains : Obtains self function position parameter arguments before value middle) :
    ∃ values, parameter.acceptAll function position arguments = .ok values ∧
      value = .array (Table.ofValues values) := by
  cases obtains with
  | remaining _ accepted => exact ⟨_, accepted, rfl⟩
  | argument single _ => simp [single] at isVariadic
  | fallback single _ _ => simp [single] at isVariadic
  | absent single _ => simp [single] at isVariadic

theorem Obtains.accept_eq_ok (single : parameter.isVariadic = false)
    (obtains : Obtains self function position parameter (argument :: rest) before value middle) :
    parameter.accept function position argument = .ok value := by
  cases obtains with
  | remaining isVariadic _ => simp [single] at isVariadic
  | argument _ accepted => exact accepted

theorem Obtains.eq_null (required : parameter.isRequired = true)
    (obtains : Obtains self function position parameter [] before value middle) :
    value = .null := by
  rcases Bool.and_eq_true_iff.mp required with ⟨noDefault, single⟩
  cases obtains with
  | remaining isVariadic _ => simp [isVariadic] at single
  | fallback _ isDefault _ => simp [isDefault] at noDefault
  | absent _ _ => rfl

end Obtains

variable {rest : List ParameterDecl}

theorem bindParameters_cons_eq_ok (last : parameter.isVariadic = true → rest = [])
    (binds : self.bindParameters function position (parameter :: rest) arguments machine =
      .ok () after) :
    ∃ value middle, Obtains self function position parameter arguments machine value middle ∧
      self.bindParameters function (position + 1) rest arguments.tail
        (middle.setVariable parameter.variableName value) = .ok () after := by
  cases isVariadic : parameter.isVariadic with
  | true =>
    simp only [bindParameters, isVariadic, if_true] at binds
    rcases Run.bind_eq_ok binds with ⟨values, middle, accepts, collects⟩
    rcases Run.ofExcept_eq_ok accepts with ⟨accepted, rfl⟩
    rcases Run.bind_eq_ok collects with ⟨_, stored, stores, others⟩
    cases stores
    rw [last isVariadic] at others ⊢
    exact ⟨_, _, .remaining isVariadic accepted, others⟩
  | false =>
    simp only [bindParameters, isVariadic, Bool.false_eq_true, if_false] at binds
    cases arguments with
    | cons argument others =>
      rcases Run.bind_eq_ok binds with ⟨value, middle, accepts, takes⟩
      rcases Run.ofExcept_eq_ok accepts with ⟨accepted, rfl⟩
      rcases Run.bind_eq_ok takes with ⟨_, stored, stores, others⟩
      cases stores
      exact ⟨_, _, .argument isVariadic accepted, others⟩
    | nil =>
      cases isDefault : parameter.fallback with
      | some code =>
        simp only [isDefault] at binds
        rcases Run.bind_eq_ok binds with ⟨value, middle, evaluates, takes⟩
        rcases Run.bind_eq_ok takes with ⟨_, stored, stores, others⟩
        cases stores
        exact ⟨_, _, .fallback isVariadic isDefault evaluates, others⟩
      | none =>
        simp only [isDefault] at binds
        rcases Run.bind_eq_ok binds with ⟨_, stored, stores, others⟩
        cases stores
        exact ⟨_, _, .absent isVariadic isDefault, others⟩

theorem Obtains.performs_later {value : Value} {middle : Machine} {frame : Frame}
    (obtains : Obtains self function position parameter arguments machine value middle)
    (last : parameter.isVariadic = true → rest = []) (later : Performs
      (fun self => self.bindParameters function (position + 1) rest arguments.tail) self
      (middle.setVariable parameter.variableName value) frame) :
    Performs (fun self => self.bindParameters function position (parameter :: rest) arguments) self
      machine frame := by
  cases obtains with
  | remaining isVariadic accepted =>
    rw [last isVariadic] at later
    exact absurd later (unaffected_const _).not_performs
  | argument single accepted =>
    simp only [bindParameters, single, Bool.false_eq_true, if_false]
    refine performs_effect_bind_iff.mpr ⟨value, machine, ?_, ?_⟩
    · rw [accepted]
      rfl
    · exact performs_effect_bind_iff.mpr ⟨(), _, rfl, later⟩
  | fallback single isDefault evaluates =>
    simp only [bindParameters, single, isDefault, Bool.false_eq_true, if_false]
    apply (performs_bind_iff (.perform (.expression _))).mpr
    refine .inr ⟨value, middle, evaluates, ?_⟩
    exact performs_effect_bind_iff.mpr ⟨(), _, rfl, later⟩
  | absent single noDefault =>
    simp only [bindParameters, single, noDefault, Bool.false_eq_true, if_false]
    refine performs_effect_bind_iff.mpr ⟨.null, machine, rfl, ?_⟩
    exact performs_effect_bind_iff.mpr ⟨(), _, rfl, later⟩

theorem performs_fallback {code : Located Expr} (single : parameter.isVariadic = false)
    (isDefault : parameter.fallback = some code) :
    Performs (fun self => self.bindParameters function position (parameter :: rest) []) self
      machine ⟨.expression code, machine⟩ := by
  simp only [bindParameters, single, isDefault, Bool.false_eq_true, if_false]
  exact ((performs_perform_iff (.expression code)).mpr rfl).bind_first

theorem exists_obtains_of_bindParameters (onlyLast : ParameterDecl.OnlyLast parameters)
    (binds : self.bindParameters function position parameters arguments machine = .ok () after)
    {index : Nat} (found : parameters[index]? = some parameter) :
    ∃ before value middle,
      Obtains self function (position + index) parameter (arguments.drop index) before value
        middle ∧
      self.bindParameters function (position + index + 1) (parameters.drop (index + 1))
        (arguments.drop (index + 1)) (middle.setVariable parameter.variableName value) =
          .ok () after ∧
      ∀ frame, Performs (fun self => self.bindParameters function (position + index + 1)
          (parameters.drop (index + 1)) (arguments.drop (index + 1))) self
          (middle.setVariable parameter.variableName value) frame →
        Performs (fun self => self.bindParameters function position parameters arguments) self
          machine frame := by
  induction parameters generalizing position arguments machine index with
  | nil => simp at found
  | cons first rest ih =>
    have last := onlyLast.eq_nil_of_isVariadic
    rcases bindParameters_cons_eq_ok last binds with ⟨value, middle, obtains, others⟩
    cases index with
    | zero =>
      cases found
      refine ⟨machine, value, middle, obtains, ?_, ?_⟩
      · simpa using others
      · intro frame later
        apply obtains.performs_later last
        simpa using later
    | succ index =>
      rw [List.getElem?_cons_succ] at found
      rcases ih onlyLast.tail others found with ⟨before, own, bound, obtainsOwn, ends, performed⟩
      have places : position + 1 + index = position + (index + 1) := by omega
      rw [places, List.drop_tail] at obtainsOwn
      rw [places, List.drop_tail] at ends performed
      refine ⟨before, own, bound, obtainsOwn, ends, ?_⟩
      intro frame later
      exact obtains.performs_later last (performed frame later)

theorem lookup_of_bindParameters {name : String} (onlyLast : ParameterDecl.OnlyLast parameters)
    (binds : self.bindParameters function position parameters arguments machine = .ok () after)
    (others : ∀ parameter ∈ parameters, parameter.variableName ≠ name)
    (keeps : ∀ code before value later,
      Performs (fun self => self.bindParameters function position parameters arguments) self machine
        ⟨.expression code, before⟩ →
      self.expression code before = .ok value later →
      later.scopes.lookup name = before.scopes.lookup name) :
    after.scopes.lookup name = machine.scopes.lookup name := by
  induction parameters generalizing position arguments machine with
  | nil =>
    cases binds
    rfl
  | cons parameter rest ih =>
    have last := onlyLast.eq_nil_of_isVariadic
    rcases bindParameters_cons_eq_ok last binds with ⟨value, middle, obtains, binds⟩
    rcases List.forall_mem_cons.mp others with ⟨differs, others⟩
    have kept : middle.scopes.lookup name = machine.scopes.lookup name := by
      cases obtains with
      | remaining _ _ => rfl
      | argument _ _ => rfl
      | fallback single isDefault evaluates =>
        exact keeps _ _ _ _ (performs_fallback single isDefault) evaluates
      | absent _ _ => rfl
    rw [ih onlyLast.tail binds others, Machine.lookup_setVariable, if_neg differs, kept]
    intro code before value later performs
    apply keeps
    exact obtains.performs_later last performs

/-- A refused argument ends the binding where it would be bound, before any default is evaluated:
the evaluator does not matter. -/
theorem exists_bindParameters_eq_error {index : Nat} {problem : Problem} (machine : Machine)
    (refused : ParameterDecl.RefusesAt function position parameters arguments index problem) :
    ∃ problem after,
      (∀ self : Evaluator, self.bindParameters function position parameters arguments machine =
        .error (.problem problem) after) ∧
      (arguments.length ≤ elementLimit → ∃ index,
        IsFirst (ParameterDecl.RefusesAt function position parameters arguments) index
          problem) := by
  induction parameters generalizing position arguments machine index with
  | nil =>
    rcases refused with ⟨_, _, noReceiver, _⟩
    cases noReceiver
  | cons parameter rest ih =>
    cases isVariadic : parameter.isVariadic with
    | true =>
      rw [ParameterDecl.refusesAt_of_isVariadic isVariadic] at refused ⊢
      rcases exists_acceptRemaining_eq_error 0 refused with ⟨problem, fails, isFirst⟩
      refine ⟨problem, machine, ?_, ?_⟩
      · intro self
        simp only [bindParameters, isVariadic, if_true]
        apply Run.bind_of_error
        rw [ParameterDecl.acceptAll, fails]
        rfl
      · simpa using isFirst
    | false =>
      cases arguments with
      | nil =>
        rcases refused with ⟨_, _, _, noArgument, _⟩
        simp at noArgument
      | cons argument others =>
        simp only [bindParameters, isVariadic, Bool.false_eq_true, if_false]
        cases accepts : parameter.accept function position argument with
        | error own =>
          refine ⟨own, machine, fun self => rfl, fun _ => ⟨0, ?_, by omega⟩⟩
          exact (ParameterDecl.refusesAt_zero_iff isVariadic).mpr accepts
        | ok value =>
          have notFirst (other : Problem) : ¬ParameterDecl.RefusesAt function position
              (parameter :: rest) (argument :: others) 0 other := by
            simp [ParameterDecl.refusesAt_zero_iff isVariadic, accepts]
          have shifted (index : Nat) (problem : Problem) :=
            @ParameterDecl.refusesAt_succ_iff function position index parameter rest
              argument others problem isVariadic
          cases index with
          | zero => exact absurd refused (notFirst problem)
          | succ index =>
            rcases ih (machine.setVariable parameter.variableName value)
              ((shifted index problem).mp refused) with ⟨problem, after, fails, isFirst⟩
            refine ⟨problem, after, fun self => fails self, ?_⟩
            intro few
            rw [List.length_cons] at few
            rcases isFirst (by omega) with ⟨index, isFirst⟩
            exact ⟨index + 1, isFirst.of_tail shifted notFirst⟩

end Evaluator

end PhpScript
