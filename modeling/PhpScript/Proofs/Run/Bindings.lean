import PhpScript.Proofs.Run.Isolation
import PhpScript.Proofs.Run.Moments

/-!
# Bindings that last

Whatever declares a constant or a function asks first whether the name is taken, so a constant keeps
its value and a name keeps its function for the whole session, and no declared function takes the
name of a native one. On which names are taken, the functions that scripts ask and the calls
themselves agree.
-/

namespace PhpScript

namespace GlobalScope

/-- All that is bound in a scope is bound to the same in a later one. -/
structure Extends (after before : GlobalScope) : Prop where
  constants : ∀ name value, before.constants.get? name = some value →
    after.constants.get? name = some value
  functions : ∀ key function, before.functions.get? key = some function →
    after.functions.get? key = some function
  natives : after.natives = before.natives

/-- Every declared function stands under its own name in lower case, which is no name of a native
function. -/
def NamesApart (scope : GlobalScope) : Prop :=
  ∀ key function, scope.functions.get? key = some function →
    key = Text.lowercase function.declaration.name.node ∧ scope.natives.get? key = none

variable {before middle after : GlobalScope} {function : DeclaredFunction} {value : Value}
  {name : String}

theorem Extends.refl (scope : GlobalScope) : scope.Extends scope :=
  ⟨fun _ _ found => found, fun _ _ found => found, rfl⟩

theorem Extends.trans (first : middle.Extends before) (second : after.Extends middle) :
    after.Extends before where
  constants name value found := second.constants name value (first.constants name value found)
  functions key function found :=
    second.functions key function (first.functions key function found)
  natives := second.natives.trans first.natives

theorem functionExists_eq_false_iff :
    before.functionExists name = false ↔
      before.native? name = none ∧ before.function? name = none := by
  simp [functionExists]

theorem extends_of_declareFunction (declared : before.declareFunction function = .ok after) :
    after.Extends before := by
  rcases declareFunction_eq_ok_iff.mp declared with ⟨free, rfl⟩
  refine ⟨fun _ _ found => found, fun key other found => ?_, rfl⟩
  have differs : Text.lowercase function.declaration.name.node ≠ key := by
    rintro rfl
    have absent : before.functions.get? _ = none := (functionExists_eq_false_iff.mp free).2
    rw [absent] at found
    cases found
  rw [Table.get?_insert, if_neg differs, found]

theorem namesApart_of_declareFunction (apart : before.NamesApart)
    (declared : before.declareFunction function = .ok after) : after.NamesApart := by
  rcases declareFunction_eq_ok_iff.mp declared with ⟨free, rfl⟩
  intro key other found
  rw [Table.get?_insert] at found
  split at found
  · rename_i isOwn
    cases found
    exact ⟨isOwn.symm, isOwn ▸ (functionExists_eq_false_iff.mp free).1⟩
  · exact apart key other found

theorem extends_of_declareConstant (declared : before.declareConstant name value = .ok after) :
    after.Extends before := by
  rcases declareConstant_eq_ok_iff.mp declared with ⟨free, rfl⟩
  refine ⟨fun other kept found => ?_, fun _ _ found => found, rfl⟩
  have differs : name ≠ other := by
    rintro rfl
    rw [free] at found
    cases found
  rw [Table.get?_insert, if_neg differs, found]

theorem namesApart_of_declareConstant (apart : before.NamesApart)
    (declared : before.declareConstant name value = .ok after) : after.NamesApart := by
  rcases declareConstant_eq_ok_iff.mp declared with ⟨_, rfl⟩
  exact apart

def SameDeclarations (after before : GlobalScope) : Prop :=
  ∃ bindings, after = { before with bindings }

theorem SameDeclarations.extends (same : after.SameDeclarations before) : after.Extends before := by
  rcases same with ⟨bindings, rfl⟩
  exact ⟨fun _ _ found => found, fun _ _ found => found, rfl⟩

theorem SameDeclarations.functions (same : after.SameDeclarations before) :
    after.functions = before.functions := by
  rcases same with ⟨bindings, rfl⟩
  rfl

theorem SameDeclarations.namesApart (same : after.SameDeclarations before)
    (apart : before.NamesApart) : after.NamesApart := by
  rcases same with ⟨bindings, rfl⟩
  exact apart

end GlobalScope

namespace Scopes

theorem Alters.sameDeclarations {name : String} {alter : Table String Value → Table String Value}
    {before after : Scopes} (alters : Alters name alter before after) :
    after.root.SameDeclarations before.root := by
  rcases alters.root_eq with same | ⟨_, same⟩
  · exact ⟨before.root.bindings, same⟩
  · exact ⟨_, same⟩

end Scopes

/-- What is bound at one moment is bound at another, and the names of native functions are left to
them. -/
structure Machine.KeepsBindings (before after : Machine) : Prop where
  extends_root : after.scopes.root.Extends before.scopes.root
  namesApart : before.scopes.root.NamesApart → after.scopes.root.NamesApart

namespace Machine.KeepsBindings

variable {machine after : Machine}

theorem of_root_eq (same : after.scopes.root = machine.scopes.root) : machine.KeepsBindings after :=
  ⟨same ▸ .refl _, fun apart => same ▸ apart⟩

theorem of_sameDeclarations (same : after.scopes.root.SameDeclarations machine.scopes.root) :
    machine.KeepsBindings after :=
  ⟨same.extends, same.namesApart⟩

theorem of_change {imports : String → Prop} (change : Change imports machine after) :
    machine.KeepsBindings after := by
  cases change with
  | output _ | reporting _ | clock _ | nextId _ | pullIn _ | refuse _ _ => exact .of_root_eq rfl
  | declare declaration root _ added =>
    exact ⟨GlobalScope.extends_of_declareFunction added, fun apart =>
      GlobalScope.namesApart_of_declareFunction apart added⟩
  | constant name value root added =>
    exact ⟨GlobalScope.extends_of_declareConstant added, fun apart =>
      GlobalScope.namesApart_of_declareConstant apart added⟩
  | store name value =>
    exact .of_sameDeclarations (Scopes.alters_store _ name value).sameDeclarations
  | unset name => exact .of_sameDeclarations (Scopes.alters_unset _ name).sameDeclarations
  | importName name _ => exact .of_root_eq (Scopes.importName_root _ name)

end Machine.KeepsBindings

def Evolution.bindings : Evolution .all where
  Leads := Machine.KeepsBindings
  refl _ := .of_root_eq rfl
  trans first second :=
    ⟨first.extends_root.trans second.extends_root, second.namesApart ∘ first.namesApart⟩
  change := .of_change
  surroundings _ _ _ _ := .of_root_eq rfl

theorem Evolution.ofSession_bindings : Evolution.bindings.OfSession where
  locals _ _ := .of_root_eq rfl
  depth _ _ := .of_root_eq rfl
  exitCode _ _ := .of_root_eq rfl

/-- Whether a name stands for a function is answered alike by the functions that scripts ask, under
any spelling of their names, and by a call: it fails where there is no function, and otherwise runs
the one that the name stands for. -/
structure Machine.AgreesOn (machine : Machine) (name : String) : Prop where
  asked : ∀ (evaluator : Evaluator) span spelling,
    Text.lowercase spelling = "function_exists" ∨ Text.lowercase spelling = "is_callable" →
    evaluator.callFunction spelling span [.str name] machine =
      .ok (.bool (machine.scopes.root.functionExists name)) machine
  absent : machine.scopes.root.functionExists name = false →
    ∀ (evaluator : Evaluator) span arguments,
      evaluator.callFunction name span arguments machine =
        .error (.problem (.undefinedFunction name)) machine
  present : machine.scopes.root.functionExists name = true →
    (∃ native, machine.scopes.root.native? name = some native ∧
      ∀ (evaluator : Evaluator) span arguments,
        evaluator.callFunction name span arguments machine =
          (Prod.fst <$> native.call span arguments) machine) ∨
    ∃ function, machine.scopes.root.function? name = some function ∧
      ∀ (evaluator : Evaluator) span arguments,
        evaluator.callFunction name span arguments machine =
          evaluator.function function arguments machine

section Agreement

variable {machine : Machine} {name : String}

theorem Evaluator.callFunction_of_none (self : Evaluator) (span : Span) (arguments : List Value)
    (notNative : machine.scopes.root.native? name = none)
    (notDeclared : machine.scopes.root.function? name = none) :
    self.callFunction name span arguments machine =
      .error (.problem (.undefinedFunction name)) machine := by
  rw [callFunction, Run.get_bind, notNative]
  dsimp only
  rw [notDeclared]
  rfl

theorem Evaluator.callFunction_of_declared (self : Evaluator) (span : Span)
    (arguments : List Value) {function : DeclaredFunction}
    (notNative : machine.scopes.root.native? name = none)
    (declared : machine.scopes.root.function? name = some function) :
    self.callFunction name span arguments machine =
      self.function function arguments machine := by
  rw [callFunction, Run.get_bind, notNative]
  dsimp only
  rw [declared]

theorem Evaluator.callFunction_eq_of_native (self : Evaluator) (span : Span)
    (arguments : List Value) {native : Native}
    (isNative : machine.scopes.root.native? name = some native) :
    self.callFunction name span arguments machine =
      (Prod.fst <$> native.call span arguments) machine := by
  rw [callFunction, Run.get_bind, isNative]
  rfl

theorem Machine.agreesOn_of_natives
    (natives : machine.scopes.root.natives = Table.ofList Native.names) (name : String) :
    machine.AgreesOn name where
  asked := by
    intro evaluator span spelling isAsked
    have known : machine.scopes.root.native? spelling = some (.name .functionExists) ∨
        machine.scopes.root.native? spelling = some (.name .isCallable) := by
      unfold GlobalScope.native?
      rw [natives]
      rcases isAsked with isAsked | isAsked
      · exact .inl (isAsked ▸ rfl)
      · exact .inr (isAsked ▸ rfl)
    rcases known with known | known <;> rw [evaluator.callFunction_eq_of_native _ _ known] <;> rfl
  absent := by
    intro isAbsent evaluator span arguments
    rcases GlobalScope.functionExists_eq_false_iff.mp isAbsent with ⟨notNative, notDeclared⟩
    exact evaluator.callFunction_of_none span arguments notNative notDeclared
  present := by
    intro isPresent
    cases isNative : machine.scopes.root.native? name with
    | some native =>
      exact .inl ⟨native, rfl, fun evaluator span arguments =>
        evaluator.callFunction_eq_of_native span arguments isNative⟩
    | none =>
      cases isDeclared : machine.scopes.root.function? name with
      | some function =>
        exact .inr ⟨function, rfl, fun evaluator span arguments =>
          evaluator.callFunction_of_declared span arguments isNative isDeclared⟩
      | none => simp [GlobalScope.functionExists, isNative, isDeclared] at isPresent

end Agreement

namespace Machine

/-- At every moment of a session and for ever after, a constant keeps its value and a name keeps its
function, in any spelling. No function stands under a name of a native one, and all agree on which
names stand for functions. -/
theorem bindings_last (settings : Settings) (request : Request) (files : FileSystem)
    (clock : Moment) {machine later : Machine}
    (reached : (Machine.start settings request files clock).Later machine)
    (afterwards : machine.Later later) :
    (∀ name value, machine.scopes.root.constant? name = some value →
      later.scopes.root.constant? name = some value) ∧
    (∀ name spelling function, Text.lowercase spelling = Text.lowercase name →
      machine.scopes.root.function? name = some function →
        later.scopes.root.function? spelling = some function) ∧
    machine.scopes.root.NamesApart ∧ (∀ name, machine.AgreesOn name) := by
  have before := Evolution.ofSession_bindings.leads_of_later reached
  have after := Evolution.ofSession_bindings.leads_of_later afterwards
  refine ⟨after.extends_root.constants, fun name spelling function same found => ?_, ?_, ?_⟩
  · have kept := after.extends_root.functions _ function found
    unfold GlobalScope.function?
    rw [same, kept]
  · exact before.namesApart fun key function found => nomatch found
  · exact agreesOn_of_natives before.extends_root.natives

/-- A second script gives a constant another value and declares a function under another spelling of
a name that is taken. -/
theorem bindings_last_second_script :
    let span : Span := ⟨0, 0⟩
    let function (id : Nat) (name : String) : Located Stmt :=
      ⟨.function ⟨id, ⟨name, span⟩, [], none, [], span⟩, span⟩
    let constant (value : Int64) : Located Stmt :=
      ⟨.constants [⟨⟨"A", span⟩, ⟨.int value, span⟩⟩], span⟩
    let start := Machine.start {} {} (fun _ => none) ⟨0, 0⟩
    let machine := (start.run 3 ⟨"a", [constant 1, function 0 "f"], {}⟩).2
    let later := (machine.run 3 ⟨"b", [constant 2, function 1 "F"], {}⟩).2
    (machine.scopes.root.constant? "A").map (·.toInt) = some 1 ∧
      later.scopes.root.constant? "A" = machine.scopes.root.constant? "A" ∧
      (machine.scopes.root.function? "f").map (·.declaration.id) = some 0 ∧
      later.scopes.root.function? "F" = machine.scopes.root.function? "f" ∧
      machine.AgreesOn "F" := by
  intro span function constant start machine later
  have reached : start.Later machine := .single (.run _ _)
  have afterwards : machine.Later later := .single (.run _ _)
  have first : (machine.scopes.root.constant? "A").map (·.toInt) = some 1 ∧
      (machine.scopes.root.function? "f").map (·.declaration.id) = some 0 := by decide +kernel
  rcases Option.map_eq_some_iff.mp first.1 with ⟨value, bound, _⟩
  rcases Option.map_eq_some_iff.mp first.2 with ⟨declared, found, _⟩
  rcases bindings_last {} {} (fun _ => none) ⟨0, 0⟩ reached afterwards with
    ⟨constants, functions, _, agree⟩
  refine ⟨first.1, ?_, first.2, ?_, agree "F"⟩
  · rw [constants "A" value bound, bound]
  · rw [functions "f" "F" declared (by decide +kernel) found, found]

end Machine

end PhpScript
