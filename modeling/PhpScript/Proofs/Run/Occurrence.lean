import PhpScript.Proofs.Run.Points

/-!
# Values that occur in a run

The values that a script can come across: those of its variables and constants before and after each
part of the code, the values of its expressions, and what is passed to functions and returned by
them. All of them are regular, whatever the request is and whichever scripts ran before.
-/

namespace PhpScript

theorem Run.Steady.compile {calls : String → List Value → Prop} (source : String) :
    Run.Steady calls (fun _ => True) (Run.compile source) :=
  .bind_get rfl fun _ _ => .read .sections _ source

namespace Machine

/-- A variable or a constant has the value. -/
inductive Holds (machine : Machine) (value : Value) : Prop
  | ofGlobal {name : String} (found : machine.scopes.root.bindings.get? name = some value)
  | ofLocal {scope : LocalScope} {name : String} (inView : scope ∈ machine.scopes.locals)
      (found : scope.bindings.get? name = some value)
  | ofConstant {name : String} (found : machine.scopes.root.constants.get? name = some value)

/-- The machines of a session: a new one, and what is left when a script has been read, when it has
been run and when its output has been taken. -/
inductive InSession : Machine → Prop
  | start (settings : Settings) (request : Request) (files : FileSystem) (clock : Moment) :
      InSession (Machine.start settings request files clock)
  | compile {machine : Machine} (source : String) (session : InSession machine) :
      InSession ((Run.compile source).machineAfter machine)
  | run {machine : Machine} (depth : Nat) (program : Program) (session : InSession machine) :
      InSession (machine.run depth program).2
  | takeOutput {machine : Machine} (session : InSession machine) : InSession machine.takeOutput.2

variable {machine : Machine} {value : Value}

theorem Regular.of_holds (regular : machine.Regular) (held : machine.Holds value) :
    value.Regular := by
  cases held with
  | ofGlobal found => exact regular.root.bindings.of_get? found
  | ofLocal inView found => exact (regular.locals _ inView).of_get? found
  | ofConstant found => exact regular.root.constants.of_get? found

theorem regular_start (settings : Settings) (request : Request) (files : FileSystem)
    (clock : Moment) : (start settings request files clock).Regular :=
  ⟨⟨Predefined.admits_bindings request settings.filename clock, Predefined.admits_constants, rfl⟩,
    fun _ member => absurd member List.not_mem_nil⟩

theorem Regular.run (regular : machine.Regular) (depth : Nat) (program : Program) :
    (machine.run depth program).2.Regular := by
  have own := Evaluator.agree_script depth program regular .same
  simp only [Machine.run]
  generalize (Evaluator.ofDepth depth).script program machine = result at own ⊢
  cases own with
  | ok _ regularAfter _ => exact regularAfter
  | @error halt _ _ _ regularAfter _ => cases halt <;> exact regularAfter

theorem InSession.regular (session : machine.InSession) : machine.Regular := by
  induction session with
  | start settings request files clock => exact regular_start settings request files clock
  | @compile before source _ ih =>
    have agree : Agree Evaluator.anyCall _ _ _ := Run.Steady.compile source before before ih .same
    exact agree.regular_machineAfter
  | run depth program _ ih => exact ih.run depth program
  | takeOutput _ ih => exact ih

end Machine

namespace Evaluator

/-- A value is held, given or passed while a program runs. -/
inductive Occurs (depth : Nat) (program : Program) (machine : Machine) (value : Value) : Prop
  | before {level : Nat} {frame : Frame} (reached : Reaches depth program machine level frame)
      (held : frame.machine.Holds value)
  | after {level : Nat} {frame : Frame} (reached : Reaches depth program machine level frame)
      (held : (((ofDepth level).perform frame.task).machineAfter frame.machine).Holds value)
  | final (held : (machine.run depth program).2.Holds value)
  | result {level : Nat} {code : Located Expr} {start ended : Machine}
      (reached : Reaches depth program machine level ⟨.expression code, start⟩)
      (ends : (ofDepth level).expression code start = .ok value ended)
  | passed {level : Nat} {frame : Frame} {name : String} {values : List Value}
      (reached : Reaches depth program machine (level + 1) frame)
      (calls : frame.Calls (ofDepth level) name values) (member : value ∈ values)
  | returned {level : Nat} {function : DeclaredFunction} {arguments : List Value}
      {start ended : Machine}
      (reached : Reaches depth program machine level ⟨.call function arguments, start⟩)
      (ends : (ofDepth level).function function arguments start = .ok value ended)

variable {depth : Nat} {program : Program} {machine : Machine} {value : Value}

theorem Occurs.regular (session : machine.InSession)
    (occurs : Occurs depth program machine value) : value.Regular := by
  have machineRegular := session.regular
  cases occurs with
  | before reached held => exact (regular_of_reaches machineRegular reached).machine.of_holds held
  | after reached held =>
    exact (agree_of_reaches machineRegular reached).regular_machineAfter.of_holds held
  | final held => exact (machineRegular.run depth program).of_holds held
  | result reached ends =>
    have agree := agree_of_reaches machineRegular reached
    exact agree.holds_of_ok ends
  | passed reached calls member =>
    rcases calls with ⟨callee, arguments, span, named, after, isCall, evaluated, passed⟩
    have regular := (regular_of_reaches machineRegular reached).machine
    have middle := (Steady.calleeName callee).yields regular evaluated
    exact ((Steady.passedValues _ arguments).yields middle.2 passed).1 value member
  | returned reached ends =>
    have agree := agree_of_reaches machineRegular reached
    exact agree.holds_of_ok ends

end Evaluator

end PhpScript
