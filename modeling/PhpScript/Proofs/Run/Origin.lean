import PhpScript.Proofs.Run.Bindings
import PhpScript.Proofs.Run.MissingValues

/-!
# The source text of running code

Every part that is performed stands in a program, and the machine on which it is performed has the
name and the lines of this program: inside a call it is the program that declares the function,
inside a text that was pulled in or evaluated it is this text, and otherwise it is the script. What
is registered with a function decides this for its calls, so the invariant is about the functions as
well.
-/

namespace PhpScript

def Program.sourceFile (program : Program) : SourceFile := ⟨program.filename, program.lines⟩

def Code.task : Code → Task
  | .expression code => .expression code
  | .statement code => .statement code

/-- A function is declared in a known program, and has its source. -/
def DeclaredFunction.IsFrom (known : Program → Prop) (function : DeclaredFunction) : Prop :=
  ∃ program, known program ∧ program.Declares function.declaration ∧
    function.file = program.sourceFile

def Machine.FunctionsFrom (known : Program → Prop) (machine : Machine) : Prop :=
  ∀ key function, machine.scopes.root.functions.get? key = some function → function.IsFrom known

/-- All functions are declared in some programs, also the one that is called. -/
structure Frame.FunctionsFrom (known : Program → Prop) (frame : Frame) : Prop where
  machine : frame.machine.FunctionsFrom known
  called : ∀ function arguments, frame.task = .call function arguments → function.IsFrom known

/-- What the code of a program may do. -/
def Rules.ofProgram (program : Program) (performs : Code → Prop) : Rules where
  imports _ := True
  declares := program.Declares
  pulls _ := False
  performs := performs
  calls := False
  switches _ := False

def Rules.expressionsOf (program : Program) : Rules :=
  .ofProgram program fun code => ∃ own, code = .expression own ∧ program.Holds code

theorem Rules.admits_expressionsOf {program : Program} {code : Located Expr}
    (held : program.Holds (.expression code)) : (expressionsOf program).Admits (.expression code) :=
  fun _ within =>
    let ⟨own, isExpression⟩ := Code.exists_expression_of_within within
    ⟨own, isExpression, held.of_within within⟩

theorem Rules.admitsAll_expressionsOf {program : Program} {codes : List (Located Expr)}
    (held : ∀ code ∈ codes, program.Holds (.expression code)) :
    (expressionsOf program).AdmitsAll codes :=
  fun code member => admits_expressionsOf (held code member)

section Functions

variable {known : Program → Prop} {machine after : Machine}

namespace Machine.FunctionsFrom

theorem of_eq (functions : machine.FunctionsFrom known)
    (same : after.scopes.root.functions = machine.scopes.root.functions) :
    after.FunctionsFrom known := by
  intro key function found
  rw [same] at found
  exact functions key function found

theorem of_change {powers : Powers} (functions : machine.FunctionsFrom known)
    (declares : ∀ declaration, powers.declares declaration →
      DeclaredFunction.IsFrom known ⟨declaration, machine.file⟩)
    (change : Change powers machine after) : after.FunctionsFrom known := by
  cases change with
  | output _ | reporting _ | clock _ | nextId _ | pullIn _ | refuse _ _ => exact functions
  | declare declaration root _ added allowed =>
    rcases GlobalScope.declareFunction_eq_ok_iff.mp added with ⟨_, rfl⟩
    intro key function found
    dsimp only at found
    rw [Table.get?_insert] at found
    split at found
    · cases found
      exact declares declaration allowed
    · exact functions key function found
  | constant name value root added =>
    rcases GlobalScope.declareConstant_eq_ok_iff.mp added with ⟨_, rfl⟩
    exact functions
  | store name value =>
    exact functions.of_eq (Scopes.alters_store _ name value).sameDeclarations.functions
  | unset name => exact functions.of_eq (Scopes.alters_unset _ name).sameDeclarations.functions
  | importName name _ =>
    exact functions.of_eq (congrArg GlobalScope.functions (Scopes.importName_root _ name))

theorem of_changes {powers : Powers} (functions : machine.FunctionsFrom known)
    (declares : ∀ declaration, powers.declares declaration →
      DeclaredFunction.IsFrom known ⟨declaration, machine.file⟩)
    (changes : Changes powers machine after) : after.FunctionsFrom known := by
  induction changes with
  | refl => exact functions
  | tail earlier change ih =>
    refine ih.of_change (fun declaration allowed => ?_) change
    rw [(Machine.Changes.sameContext earlier).file]
    exact declares declaration allowed

theorem mono {wider : Program → Prop} (functions : machine.FunctionsFrom known)
    (widens : ∀ program, known program → wider program) : machine.FunctionsFrom wider := by
  intro key function found
  rcases functions key function found with ⟨program, isKnown, declares, file⟩
  exact ⟨program, widens program isKnown, declares, file⟩

end Machine.FunctionsFrom

end Functions

namespace Evaluator

variable {α β : Type} {known : Program → Prop} {placed : Frame → Prop} {depth : Nat}
  {machine : Machine}

/-- If the parts that a computation performs declare no foreign functions, then neither does the
computation, and its parts are where they should be. -/
def StaysFrom (known : Program → Prop) (placed : Frame → Prop) (run : Evaluator → Run α)
    (depth : Nat) (machine : Machine) : Prop :=
  machine.FunctionsFrom known →
    (∀ frame, Performs run (ofDepth depth) machine frame → placed frame →
      frame.FunctionsFrom known → ((ofDepth depth).after frame).FunctionsFrom known) →
    ((run (ofDepth depth)).machineAfter machine).FunctionsFrom known ∧
      ∀ frame, Performs run (ofDepth depth) machine frame →
        placed frame ∧ frame.FunctionsFrom known

namespace StaysFrom

theorem effect {run : Run α}
    (kept : machine.FunctionsFrom known → (run.machineAfter machine).FunctionsFrom known) :
    StaysFrom known placed (fun _ => run) depth machine :=
  fun functions _ => ⟨kept functions, fun _ performs =>
    absurd performs (unaffected_const run).not_performs⟩

theorem quiet {run : Run α}
    (effect : run.HasEffect ⟨fun _ => True, fun _ => False, fun _ => False⟩) :
    StaysFrom known placed (fun _ => run) depth machine :=
  .effect fun functions => functions.of_changes (fun _ => False.elim) (effect machine)

theorem perform {task : Task} (isPlaced : placed ⟨task, machine⟩)
    (called : ∀ function arguments, task = .call function arguments → machine.FunctionsFrom known →
      function.IsFrom known) :
    StaysFrom known placed (fun self => self.perform task) depth machine := by
  intro functions parts
  have isPerformed : ∀ frame, Performs (fun self => self.perform task) (ofDepth depth) machine
      frame ↔ frame = ⟨task, machine⟩ := fun _ => performs_perform_iff task
  have sound : Frame.FunctionsFrom known ⟨task, machine⟩ :=
    ⟨functions, fun function arguments isCall => called function arguments isCall functions⟩
  refine ⟨parts ⟨task, machine⟩ ((isPerformed _).mpr rfl) isPlaced sound, fun frame performs => ?_⟩
  rw [(isPerformed frame).mp performs]
  exact ⟨isPlaced, sound⟩

theorem bind {run : Evaluator → Run α} {next : α → Evaluator → Run β}
    (transparent : Transparent run) (first : StaysFrom known placed run depth machine)
    (second : ∀ value middle, run (ofDepth depth) machine = .ok value middle →
      StaysFrom known placed (next value) depth middle) :
    StaysFrom known placed (sequence run next) depth
      machine := by
  intro functions parts
  rcases first functions fun frame performs => parts frame performs.bind_first with
    ⟨afterFirst, duringFirst⟩
  cases ends : run (ofDepth depth) machine with
  | error halt middle =>
    rw [Run.machineAfter_of_error ends] at afterFirst
    rw [Run.machineAfter_bind_of_error ends]
    refine ⟨afterFirst, fun frame performs => ?_⟩
    exact duringFirst frame ((performs_bind_iff_of_error transparent ends).mp performs)
  | ok value middle =>
    rw [Run.machineAfter_of_ok ends] at afterFirst
    rw [Run.machineAfter_bind_of_ok ends]
    have later := second value middle ends afterFirst fun frame performs =>
      parts frame ((performs_bind_iff_of_ok transparent ends).mpr (.inr performs))
    refine ⟨later.1, fun frame performs => ?_⟩
    rcases (performs_bind_iff_of_ok transparent ends).mp performs with early | late
    · exact duringFirst frame early
    · exact later.2 frame late

theorem bracket {saved : Type} {save : Machine → saved} {enter : Machine → Machine}
    {restore : saved → Machine → Machine} {body : Evaluator → Run α}
    (enters : (enter machine).scopes.root.functions = machine.scopes.root.functions)
    (restores : ∀ kept machine,
      (restore kept machine).scopes.root.functions = machine.scopes.root.functions)
    (inside : StaysFrom known placed body depth (enter machine)) :
    StaysFrom known placed (fun self => Run.bracket save enter restore (body self)) depth
      machine := by
  intro functions parts
  rcases inside (functions.of_eq enters) fun frame performs =>
    parts frame (performs_bracket_iff.mpr performs) with ⟨after, during⟩
  rw [Run.machineAfter_bracket]
  exact ⟨after.of_eq (restores _ _), fun frame performs =>
    during frame (performs_bracket_iff.mp performs)⟩

theorem around {body : Evaluator → Run α} (surrounding : Surrounding)
    (inside : StaysFrom known placed body depth (surrounding.enter machine)) :
    StaysFrom known placed (fun self => surrounding.around (body self)) depth machine := by
  simp only [surrounding.around_eq_bracket]
  refine .bracket ?_ (fun _ _ => ?_) inside
  · cases surrounding <;> rfl
  · cases surrounding <;> rfl

end StaysFrom

variable {run : Evaluator → Run α} {program : Program}

theorem ComposedWithin.file_of_ok {rules : Rules} {value : α} {middle : Machine}
    (composed : ComposedWithin rules run) (ends : run (ofDepth depth) machine = .ok value middle) :
    middle.file = machine.file := by
  have same := (composed.keepsContext_ofDepth depth machine).file
  rwa [Run.machineAfter_of_ok ends] at same

theorem ComposedWithin.staysFrom {performs : Code → Prop}
    (composed : ComposedWithin (.ofProgram program performs) run) (isKnown : known program)
    (isPlaced : ∀ code middle, performs code → middle.file = program.sourceFile →
      placed ⟨code.task, middle⟩) (file : machine.file = program.sourceFile) :
    StaysFrom known placed run depth machine := by
  induction composed generalizing machine with
  | effect allowed =>
    exact .effect fun functions => functions.of_changes
      (fun _ declares => ⟨program, isKnown, declares, file⟩) (allowed _)
  | perform task allowed =>
    refine .perform ?_ fun function arguments isCall => ?_
    · cases task with
      | expression code => exact isPlaced (.expression code) machine allowed file
      | statement code => exact isPlaced (.statement code) machine allowed file
      | call function arguments => exact absurd allowed id
    · rw [isCall] at allowed
      exact absurd allowed id
  | bind first _ ihFirst ihSecond =>
    refine .bind first.transparent (ihFirst file) fun value middle ends => ?_
    exact ihSecond value ((first.file_of_ok ends).trans file)
  | around surrounding allowed _ ih =>
    refine .around surrounding (ih ?_)
    cases surrounding with
    | silence | loop | noLoops => exact file
    | file source => exact absurd allowed id
  | passes _ ih => exact ih (ofDepth depth).passes file

/-- A program is known, and the statements of it are where they should be. -/
structure BroughtInto (known : Program → Prop) (placed : Frame → Prop) (program : Program) :
    Prop where
  known : known program
  placed : ∀ code ∈ program.statements, ∀ middle, middle.file = program.sourceFile →
    placed ⟨.statement code, middle⟩

theorem transparent_program : Transparent fun self => self.program program := by
  have isOpen : (Rules.within .all).IsOpen := Composed.isOpen_within fun _ => trivial
  exact (ComposedWithin.program isOpen program).transparent

theorem StaysFrom.ofProgram (brought : BroughtInto known placed program) :
    StaysFrom known placed (fun self => self.program program) depth machine := by
  have runs : ComposedWithin
      (.ofProgram program fun code => ∃ own ∈ program.statements, code = .statement own)
      fun self => Run.hoist program.statements >>= fun _ =>
        Run.outsideLoops (self.block program.statements) :=
    .bind (.effect (.hoist_of_declares fun _ => Program.declares_of_mem_topFunctionsOf)) fun _ =>
      .around .noLoops trivial (.block fun code member => ⟨code, member, rfl⟩)
  refine .around (.file _) (runs.staysFrom brought.known ?_ rfl)
  rintro _ middle ⟨own, member, rfl⟩ file
  exact brought.placed own member middle file

theorem StaysFrom.callDeclared {function : DeclaredFunction} (isKnown : known program)
    (declares : program.Declares function.declaration)
    (ownFile : function.file = program.sourceFile)
    (isPlaced : ∀ code middle, program.Holds code → middle.file = program.sourceFile →
      placed ⟨code.task, middle⟩) (arguments : List Value) :
    StaysFrom known placed (fun self => self.callDeclared function arguments) depth machine := by
  have parameters : ComposedWithin (.ofProgram program program.Holds) fun self =>
      self.bindParameters function.declaration.name.node 1 function.declaration.parameters
        arguments := by
    refine .bindParameters _ _ arguments fun code member part within => ?_
    rcases List.mem_filterMap.mp member with ⟨parameter, isParameter, isFallback⟩
    exact (declares.holds_fallback isParameter isFallback).of_within within
  have body : ComposedWithin (.ofProgram program program.Holds) fun self =>
      self.block function.declaration.body :=
    .block fun statement member => declares.holds_body member
  refine .bind (.const _) (.effect id) fun _ _ ends => ?_
  cases ends
  split
  · exact .effect id
  · simp only [runDeclared]
    split
    · exact .effect id
    · refine .bind (transparent_runFunction.around (.file function.file)) ?_
        fun flow _ _ => .quiet (.ofExcept _)
      refine .around (.file function.file) ?_
      simp only [runFunction, Run.inCall, Run.inBody, Run.between, Run.outsideLoops]
      refine .bracket rfl (fun _ _ => rfl) ?_
      refine .bind parameters.transparent (parameters.staysFrom isKnown isPlaced ownFile) ?_
      intro _ middle ends
      have middleFile := (parameters.file_of_ok ends).trans ownFile
      exact .bracket rfl (fun _ _ => rfl) (.bracket rfl (fun _ _ => rfl)
        (body.staysFrom isKnown isPlaced middleFile))

/-! ## The steps -/

section Steps

variable {program : Program} (isKnown : known program)
  (expressions : ∀ code middle, program.Holds (.expression code) →
    middle.file = program.sourceFile → placed ⟨.expression code, middle⟩)
include isKnown expressions

theorem ComposedWithin.staysFrom_of_expressions {run : Evaluator → Run α}
    (composed : ComposedWithin (.expressionsOf program) run)
    (file : machine.file = program.sourceFile) : StaysFrom known placed run depth machine := by
  refine composed.staysFrom isKnown ?_ file
  rintro _ middle ⟨own, rfl, held⟩ middleFile
  exact expressions own middle held middleFile

section Call

variable (calls : ∀ function arguments middle, placed ⟨.call function arguments, middle⟩)
  {arguments : List (Located Expr)}
include calls

omit isKnown expressions in
theorem StaysFrom.callFunction (name : String) (span : Span) (arguments : List Value) :
    StaysFrom known placed (fun self => self.callFunction name span arguments) depth machine := by
  refine .bind (.const _) (.effect id) fun before middle ends => ?_
  cases ends
  dsimp only
  cases machine.scopes.root.native? name with
  | some native => exact .quiet (.bind (native.hasEffect_call span arguments) fun _ => .pure _)
  | none =>
    dsimp only
    cases found : machine.scopes.root.function? name with
    | none => exact .effect id
    | some function =>
      refine .perform (calls function arguments machine) fun other _ isCall functions => ?_
      cases isCall
      exact functions _ function found

theorem StaysFrom.callNamed (name : String) (span : Span)
    (held : ∀ argument ∈ arguments, program.Holds (.expression argument))
    (file : machine.file = program.sourceFile) :
    StaysFrom known placed (fun self => self.callNamed name span arguments) depth machine := by
  have admits := Rules.admitsAll_expressionsOf held
  refine .bind (.const _) (.effect id) fun before middle ends => ?_
  cases ends
  split
  · exact ComposedWithin.staysFrom_of_expressions isKnown expressions
      (.callOnPlace _ name span admits) file
  · have values := ComposedWithin.values admits
    exact .bind values.transparent (values.staysFrom_of_expressions isKnown expressions file)
      fun passed _ _ => .callFunction calls name span passed

theorem StaysFrom.call {callee : Callee Expr} {span : Span}
    (held : program.Holds (.expression ⟨.call callee arguments, span⟩))
    (file : machine.file = program.sourceFile) :
    StaysFrom known placed (fun self => self.call callee span arguments) depth machine := by
  have inside : ∀ part ∈ callee.parts ++ arguments, program.Holds (.expression part) :=
    fun part member => held.of_within (Code.within_of_mem (List.mem_map_of_mem member))
  rcases List.forall_mem_append.mp inside with ⟨inCallee, inArguments⟩
  cases callee with
  | name name => exact .callNamed isKnown expressions calls name span inArguments file
  | dynamic code =>
    have evaluates : ComposedWithin (.expressionsOf program) fun self => self.expression code :=
      .expression (Rules.admitsAll_expressionsOf inCallee code List.mem_cons_self)
    refine .bind evaluates.transparent
      (evaluates.staysFrom_of_expressions isKnown expressions file) fun value middle ends => ?_
    split
    · have middleFile := (evaluates.file_of_ok ends).trans file
      exact .callNamed isKnown expressions calls _ span inArguments middleFile
    · exact .effect id

end Call

section Foreign

variable {operand : Located Expr} {span : Span}

theorem StaysFrom.evaluateText
    (brought : ∀ other middle,
      BringsIn (ofDepth depth) machine other middle ⟨.evaluate operand, span⟩ →
      BroughtInto known placed other)
    (held : program.Holds (.expression operand)) (file : machine.file = program.sourceFile) :
    StaysFrom known placed (fun self => self.evaluateText span operand) depth machine := by
  have texts := ComposedWithin.text (Rules.admits_expressionsOf held)
  refine .bind texts.transparent (texts.staysFrom_of_expressions isKnown expressions file) ?_
  intro source evaluated isText
  refine .bind (.const _) (.quiet (.lineOf span)) fun line _ ends => ?_
  cases ends
  refine .bind (.const _) (.effect id) fun _ _ ends => ?_
  cases ends
  refine .bind (.const _) (.quiet (.read .code _ source)) fun other middle reads => ?_
  refine .bind transparent_program (.ofProgram (brought other middle (.text isText reads))) ?_
  intro flow _ _
  split <;> exact .effect id

theorem StaysFrom.includeFile {mode : IncludeMode}
    (brought : ∀ other middle,
      BringsIn (ofDepth depth) machine other middle ⟨.includeFile mode operand, span⟩ →
      BroughtInto known placed other)
    (held : program.Holds (.expression operand)) (file : machine.file = program.sourceFile) :
    StaysFrom known placed (fun self => self.includeFile mode operand) depth machine := by
  have texts := ComposedWithin.text (Rules.admits_expressionsOf held)
  refine .bind texts.transparent (texts.staysFrom_of_expressions isKnown expressions file) ?_
  intro filename named isText
  split
  · exact .effect id
  · rename_i nonempty
    refine .bind (.const _) (.quiet (.resolvePath filename)) fun path found resolves => ?_
    refine .bind (.const _) (.quiet (.look path)) fun view looked looks => ?_
    refine .bind (.const _) (.effect id) fun _ _ ends => ?_
    cases ends
    split
    · exact .effect id
    · rename_i isWanted
      cases holds : view.contents with
      | error error => exact .quiet (.reportUnreadable mode filename error operand.span)
      | ok source =>
        refine .bind (.const _) (.effect id) fun _ _ ends => ?_
        cases ends
        refine .bind (.const _) (.quiet (.read .sections path source)) ?_
        intro other middle reads
        have brings : BringsIn (ofDepth depth) machine other middle
            ⟨.includeFile mode operand, span⟩ :=
          .file isText (by simpa using nonempty) resolves looks (by simpa using isWanted) holds
            reads
        refine .bind transparent_program (.ofProgram (brought other middle brings)) ?_
        intro flow _ _
        split <;> exact .effect id

end Foreign

theorem StaysFrom.expressionStep {code : Located Expr}
    (calls : ∀ function arguments middle, placed ⟨.call function arguments, middle⟩)
    (brought : ∀ other middle, BringsIn (ofDepth depth) machine other middle code →
      BroughtInto known placed other)
    (held : program.Holds (.expression code)) (file : machine.file = program.sourceFile) :
    StaysFrom known placed (fun self => self.expressionStep code) depth machine := by
  have inside : ∀ part ∈ code.node.parts, program.Holds (.expression part) :=
    fun part member => held.of_within (Code.within_of_mem (List.mem_map_of_mem member))
  by_cases isOwn : code.node.isCall = false ∧ code.node.isForeign = false
  · refine ComposedWithin.staysFrom_of_expressions isKnown expressions (.expressionStep
      (Rules.admits_expressionsOf held) ?_ ?_ ?_) file
    · simp [isOwn.1]
    · simp [isOwn.2]
    · intro mode operand isInclude
      rw [isInclude] at isOwn
      cases isOwn.2
  · obtain ⟨node, span⟩ := code
    cases node with
    | call callee arguments => exact .call isKnown expressions calls held file
    | evaluate operand =>
      exact .evaluateText isKnown expressions brought (inside operand List.mem_cons_self) file
    | includeFile mode operand =>
      exact .includeFile isKnown expressions brought (inside operand List.mem_cons_self) file
    | _ => exact absurd ⟨rfl, rfl⟩ isOwn

end Steps

end Evaluator

/-! ## Where code stands -/

/-- What the code that runs belongs to: to what was started from outside, to a function that is
called, or to a text that an expression has brought in. -/
inductive Home where
  | top
  | call (function : DeclaredFunction)
  | brought (code : Located Expr) (start : Machine)

namespace Home

/-- Where a part stands that is performed inside of another one. Only from outside the program come
statements into an expression. -/
def inside (home : Home) (outer inner : Frame) : Home :=
  match outer.task, inner.task with
  | .call function _, _ => .call function
  | .expression code, .statement _ => .brought code outer.machine
  | _, _ => home

/-- Where the innermost of some open parts stands. -/
def ofParts : List Frame → Home
  | inner :: outer :: rest => (ofParts (outer :: rest)).inside outer inner
  | _ => .top

/-- The program that holds the code: a script, the one that declares the function, or the one that
was read from the text. -/
def IsIn (script : Program → Prop) (program : Program) : Home → Prop
  | .top => script program
  | .call function => program.Declares function.declaration
  | .brought code start =>
    ∃ level middle, Evaluator.BringsIn (.ofDepth level) start program middle code

end Home

/-- Code stands in the program that holds it, and is performed with the source text of it. -/
structure Code.RunsIn (code : Code) (program : Program) (machine : Machine) : Prop where
  holds : program.Holds code
  file : machine.file = program.sourceFile

/-- Code that is performed stands in a program and runs in its source. -/
def Frame.IsPlaced (known script : Program → Prop) (home : Home) (frame : Frame) : Prop :=
  ∀ code : Code, frame.task = code.task →
    ∃ program, known program ∧ home.IsIn script program ∧ code.RunsIn program frame.machine

namespace Evaluator

section Runs

variable {known script : Program → Prop} {home : Home} {program : Program} {depth : Nat}

theorem isPlaced_code {code : Code} {machine : Machine} (isKnown : known program)
    (isIn : home.IsIn script program) (held : program.Holds code)
    (file : machine.file = program.sourceFile) :
    Frame.IsPlaced known script home ⟨code.task, machine⟩ := by
  intro other same
  cases code <;> cases other <;> cases same <;> exact ⟨program, isKnown, isIn, held, file⟩

theorem isPlaced_call (function : DeclaredFunction) (arguments : List Value) (machine : Machine) :
    Frame.IsPlaced known script home ⟨.call function arguments, machine⟩ := by
  intro code same
  cases code <;> cases same

theorem StaysFrom.step {outer : Frame} (isPlaced : outer.IsPlaced known script home)
    (functions : outer.FunctionsFrom known)
    (brought : ∀ code, outer.task = .expression code → ∀ other middle,
      BringsIn (ofDepth depth) outer.machine other middle code → known other) :
    StaysFrom known (fun inner => inner.IsPlaced known script (home.inside outer inner))
      (fun self => outer.task.step self) depth outer.machine := by
  rcases outer with ⟨task, machine⟩
  cases task with
  | call function arguments =>
    rcases functions.called function arguments rfl with ⟨origin, isKnown, declares, file⟩
    have isIn : Home.IsIn script origin (.call function) := declares
    exact .callDeclared isKnown declares file (fun code middle => isPlaced_code isKnown isIn)
      arguments
  | statement code =>
    rcases isPlaced (.statement code) rfl with ⟨origin, isKnown, isIn, held, file⟩
    have composed : ComposedWithin (.ofProgram origin origin.Holds) fun self =>
        self.statementStep code := by
      refine .statementStep (fun _ => held.of_within) (fun _ _ => trivial) ?_
      rintro declaration isFunction
      exact ⟨code.span, isFunction ▸ held⟩
    refine composed.staysFrom isKnown (fun part middle => ?_) file
    cases part <;> exact isPlaced_code isKnown isIn
  | expression code =>
    rcases isPlaced (.expression code) rfl with ⟨origin, isKnown, isIn, held, file⟩
    have expressions : ∀ part middle, origin.Holds (.expression part) →
        middle.file = origin.sourceFile → Frame.IsPlaced known script
          (home.inside ⟨.expression code, machine⟩ ⟨.expression part, middle⟩)
          ⟨.expression part, middle⟩ :=
      fun part middle => isPlaced_code isKnown isIn
    have bringsInto : ∀ other middle, BringsIn (ofDepth depth) machine other middle code →
        BroughtInto known (fun inner => inner.IsPlaced known script
          (home.inside ⟨.expression code, machine⟩ inner)) other := by
      intro other middle brings
      have otherKnown := brought code rfl other middle brings
      have otherIn : Home.IsIn script other (.brought code machine) := ⟨depth, middle, brings⟩
      exact ⟨otherKnown, fun statement member inner =>
        isPlaced_code otherKnown otherIn (Program.holds_of_mem member)⟩
    exact .expressionStep isKnown expressions (isPlaced_call · · ·) bringsInto held file

/-- While a part is performed, only programs that are known are brought in. -/
def BringsInOnly (known : Program → Prop) (depth : Nat) (outermost : Frame) : Prop :=
  ∀ level code start rest,
    OpenParts depth outermost (level + 1) (⟨.expression code, start⟩ :: rest) →
      ∀ other middle, BringsIn (ofDepth level) start other middle code → known other

theorem BringsInOnly.of_openParts {level : Nat} {outermost frame : Frame} {rest : List Frame}
    (admitted : BringsInOnly known depth outermost)
    (opened : OpenParts depth outermost level (frame :: rest)) : BringsInOnly known level frame :=
  fun lower code start above inside =>
    admitted lower code start (above ++ rest) (opened.trans inside)

theorem BringsInOnly.step {outer : Frame} (admitted : BringsInOnly known (depth + 1) outer)
    (isPlaced : outer.IsPlaced known script home) (functions : outer.FunctionsFrom known) :
    StaysFrom known (fun inner => inner.IsPlaced known script (home.inside outer inner))
      (fun self => outer.task.step self) depth outer.machine := by
  refine .step isPlaced functions fun code isExpression => ?_
  rcases outer with ⟨_, machine⟩
  cases isExpression
  exact admitted depth code machine [] .outermost

theorem functionsFrom_after {frame : Frame} (admitted : BringsInOnly known depth frame)
    (isPlaced : frame.IsPlaced known script home) (functions : frame.FunctionsFrom known) :
    ((ofDepth depth).after frame).FunctionsFrom known := by
  induction depth generalizing home frame with
  | zero =>
    rw [after, Run.machineAfter_of_error (perform_zero _ _)]
    exact functions.machine
  | succ depth ih =>
    rw [after, machineAfter_perform_succ]
    refine (admitted.step isPlaced functions functions.machine ?_).1
    intro inner performs innerPlaced innerFunctions
    exact ih (admitted.of_openParts (.part .outermost performs)) innerPlaced innerFunctions

theorem isPlaced_of_openParts {level : Nat} {outermost : Frame} {stack : List Frame}
    (admitted : BringsInOnly known depth outermost)
    (isPlaced : outermost.IsPlaced known script .top) (functions : outermost.FunctionsFrom known)
    (opened : OpenParts depth outermost level stack) :
    ∀ frame ∈ stack.head?, frame.IsPlaced known script (.ofParts stack) ∧
      frame.FunctionsFrom known := by
  induction opened with
  | outermost =>
    rintro _ ⟨⟩
    exact ⟨isPlaced, functions⟩
  | @part level outer inner rest opened performs ih =>
    rintro _ ⟨⟩
    rcases ih outer rfl with ⟨outerPlaced, outerFunctions⟩
    have below := admitted.of_openParts opened
    refine (below.step outerPlaced outerFunctions outerFunctions.machine ?_).2 inner performs
    intro frame framePerforms framePlaced frameFunctions
    exact functionsFrom_after (below.of_openParts (.part .outermost framePerforms)) framePlaced
      frameFunctions

end Runs

/-! ## Activities -/

section Activities

variable {known : Program → Prop} {depth : Nat} {machine : Machine} {activity : Activity}

/-- What is asked for from outside: a program that is known is run, or a function is called. -/
def Activity.StartsFrom (known : Program → Prop) : Activity → Prop
  | .part _ => False
  | .script program => known program
  | .call .. => True

theorem Activity.StartsFrom.mono {wider : Program → Prop} (starts : activity.StartsFrom known)
    (widens : ∀ program, known program → wider program) : activity.StartsFrom wider := by
  cases activity with
  | part _ => exact starts
  | script program => exact widens program starts
  | call name span arguments => exact trivial

/-- A program that an expression brings in, at some point of an activity. -/
def BroughtIn (activity : Activity) (depth : Nat) (machine : Machine) (program : Program) : Prop :=
  ∃ outermost level code start rest middle,
    Performs activity.run (ofDepth depth) machine outermost ∧
      OpenParts depth outermost (level + 1) (⟨.expression code, start⟩ :: rest) ∧
        BringsIn (ofDepth level) start program middle code

theorem staysFrom_activity (starts : activity.StartsFrom known) :
    StaysFrom known
      (fun frame => frame.IsPlaced known (fun program => activity = .script program) .top)
      activity.run depth machine := by
  match activity with
  | .part _ => exact absurd starts id
  | .call name span arguments => exact .callFunction (isPlaced_call · · ·) name span arguments
  | .script program =>
    have runs : ComposedWithin (.ofProgram program program.Holds) fun self =>
        Run.hoist program.statements >>= fun _ => self.block program.statements :=
      .bind (.effect (.hoist_of_declares fun _ => Program.declares_of_mem_topFunctionsOf))
        fun _ => .block fun code member => Program.holds_of_mem member
    refine .bind (.const _) (.effect id) fun _ _ ends => ?_
    cases ends
    exact runs.staysFrom starts (fun code middle => isPlaced_code starts rfl) rfl

theorem bringsInOnly_of_performs {outermost : Frame}
    (performs : Performs activity.run (ofDepth depth) machine outermost) :
    BringsInOnly (fun program => known program ∨ BroughtIn activity depth machine program) depth
      outermost :=
  fun level code start rest opened _ middle brings =>
    .inr ⟨outermost, level, code, start, rest, middle, performs, opened, brings⟩

theorem functionsFrom_activity (activity : Activity) (depth : Nat)
    (starts : activity.StartsFrom known)
    (functions : machine.FunctionsFrom known) :
    let knownThen program := known program ∨ BroughtIn activity depth machine program
    ((activity.run (ofDepth depth)).machineAfter machine).FunctionsFrom knownThen ∧
      ∀ frame, Performs activity.run (ofDepth depth) machine frame →
        frame.IsPlaced knownThen (fun program => activity = .script program) .top ∧
          frame.FunctionsFrom knownThen := by
  intro knownThen
  refine staysFrom_activity (starts.mono fun _ => .inl) (functions.mono fun _ => .inl) ?_
  intro frame performs isPlaced frameFunctions
  exact functionsFrom_after (bringsInOnly_of_performs performs) isPlaced frameFunctions

end Activities

end Evaluator

/-! ## Sessions -/

/-- A program was read from a text, and has the lines of this text. -/
def Program.WasRead (program : Program) : Prop :=
  ∃ kind source nextId next,
    Program.read kind program.filename source nextId = (.ok program, next) ∧
      program.lines = .ofText source

variable {program : Program}

theorem Program.wasRead_of_read {kind : SourceKind} {filename source : String} {nextId next : Nat}
    (reads : Program.read kind filename source nextId = (.ok program, next)) : program.WasRead := by
  have own : program.filename = filename ∧ program.lines = .ofText source := by
    simp only [Program.read, Program.ofTokens] at reads
    split at reads
    · cases reads
    · split at reads
      · cases reads
        exact ⟨rfl, rfl⟩
      · cases reads
  exact ⟨kind, source, nextId, next, own.1 ▸ reads, own.2⟩

theorem Run.wasRead_of_read {kind : SourceKind} {filename source : String} {machine after : Machine}
    (reads : Run.read kind filename source machine = .ok program after) : program.WasRead := by
  rcases Run.read_eq_ok_iff.mp reads with ⟨next, parsed, _⟩
  exact Program.wasRead_of_read parsed

theorem Evaluator.BringsIn.wasRead {self : Evaluator} {start middle : Machine} {code : Located Expr}
    (brings : BringsIn self start program middle code) : program.WasRead := by
  cases brings with
  | file _ _ _ _ _ _ reads => exact Run.wasRead_of_read reads
  | text _ reads => exact Run.wasRead_of_read reads

namespace Machine

open Evaluator

/-- A machine of a session, and the programs that have been read in it until then: as scripts, and
by code that ran. -/
inductive SessionOf : (Program → Prop) → Machine → Prop
  | start (settings : Settings) (request : Request) (files : FileSystem) (clock : Moment) :
      SessionOf (fun _ => False) (Machine.start settings request files clock)
  | compile {known : Program → Prop} {machine : Machine} (source : String)
      (session : SessionOf known machine) :
      SessionOf (fun program => known program ∨
          ∃ after, Run.compile source machine = .ok program after)
        ((Run.compile source).machineAfter machine)
  | run {known : Program → Prop} {machine : Machine} {program : Program} (depth : Nat)
      (isKnown : known program) (session : SessionOf known machine) :
      SessionOf (fun other => known other ∨ BroughtIn (.script program) depth machine other)
        (machine.run depth program).2
  | call {known : Program → Prop} {machine : Machine} (depth : Nat) (name : String) (span : Span)
      (arguments : List Value) (session : SessionOf known machine) :
      SessionOf
        (fun other => known other ∨ BroughtIn (.call name span arguments) depth machine other)
        (((ofDepth depth).callFunction name span arguments).machineAfter machine)
  | takeOutput {known : Program → Prop} {machine : Machine} (session : SessionOf known machine) :
      SessionOf known machine.takeOutput.2

variable {known : Program → Prop} {machine : Machine}

theorem scopes_conclude (run : Run Flow) (machine : Machine) :
    (conclude (run machine)).2.scopes = (run.machineAfter machine).scopes := by
  unfold Run.machineAfter
  cases run machine with
  | ok flow after => rfl
  | error halt after => cases halt <;> rfl

namespace SessionOf

theorem functionsFrom (session : machine.SessionOf known) : machine.FunctionsFrom known := by
  induction session with
  | start settings request files clock => exact fun key function found => nomatch found
  | @compile _ before source _ ih =>
    have effect : (Run.compile source).HasEffect ⟨fun _ => True, fun _ => False, fun _ => False⟩ :=
      .bind .get fun _ => .read .sections _ source
    exact (ih.mono fun _ => .inl).of_changes (fun _ => False.elim) (effect before)
  | @run _ before program depth isKnown _ ih =>
    have after := (functionsFrom_activity (.script program) depth isKnown ih).1
    exact after.of_eq (congrArg (·.root.functions) (scopes_conclude _ before))
  | call depth name span arguments _ ih =>
    exact (functionsFrom_activity (.call name span arguments) depth trivial ih).1
  | takeOutput _ ih => exact ih

theorem wasRead (session : machine.SessionOf known) {program : Program}
    (isKnown : known program) : program.WasRead := by
  induction session generalizing program with
  | start settings request files clock => exact isKnown.elim
  | compile source _ ih =>
    rcases isKnown with earlier | ⟨after, reads⟩
    · exact ih earlier
    · rw [Run.compile, Run.get_bind] at reads
      exact Run.wasRead_of_read reads
  | run depth _ _ ih | call depth _ _ _ _ ih =>
    rcases isKnown with earlier | ⟨_, _, _, _, _, _, _, _, brings⟩
    · exact ih earlier
    · exact brings.wasRead
  | takeOutput _ ih => exact ih isKnown

end SessionOf

end Machine

/-- The places of code are looked up in a program: constants have its name and the lines of its
text, and so have reports. -/
structure Machine.ResolvesIn (machine : Machine) (program : Program) : Prop where
  file : machine.file = program.sourceFile
  fileConstant : ∀ span, Evaluator.magic span .file machine = .ok (.str program.filename) machine
  lineConstant : ∀ span, Evaluator.magic span .line machine =
    .ok (.int (Int64.ofNat (program.lines.line span.start))) machine
  report : ∀ problem span, machine.reports problem.severity = true →
    machine.warn problem span = machine.print ("\n" ++ problem.diagnostic.render ++ " in " ++
      program.sourceFile.place span.start ++ "\n")

theorem Machine.ResolvesIn.of_file {machine : Machine} {program : Program}
    (file : machine.file = program.sourceFile) : machine.ResolvesIn program where
  file := file
  fileConstant span := by
    rw [Evaluator.magic, Run.get_bind, file]
    rfl
  lineConstant span := by
    rw [Evaluator.magic, Run.get_bind, file]
    rfl
  report problem span reported := by
    rw [Machine.warn, if_pos reported, file]

namespace Evaluator

/-- Whatever is run in a session and whatever code it brings in: the places of code that runs are
looked up in the text that holds this code. Inside of a call this is the text that declares the
function. -/
theorem code_runs_in_its_source {known : Program → Prop} {machine : Machine}
    (session : machine.SessionOf known) (activity : Activity)
    (starts : activity.StartsFrom known) {depth level : Nat} {outermost : Frame} (code : Code)
    {here : Machine} {rest : List Frame}
    (performs : Performs activity.run (ofDepth depth) machine outermost)
    (opened : OpenParts depth outermost level (⟨code.task, here⟩ :: rest)) :
    let knownThen program := known program ∨ BroughtIn activity depth machine program
    here.FunctionsFrom knownThen ∧
      ∃ origin : Program, knownThen origin ∧ origin.WasRead ∧ origin.Holds code ∧
        (Home.ofParts (⟨code.task, here⟩ :: rest)).IsIn (fun script => activity = .script script)
          origin ∧
        here.ResolvesIn origin ∧ ((ofDepth level).after ⟨code.task, here⟩).ResolvesIn origin := by
  intro knownThen
  rcases (functionsFrom_activity activity depth starts session.functionsFrom).2 outermost performs
    with ⟨outermostPlaced, outermostFunctions⟩
  rcases isPlaced_of_openParts (bringsInOnly_of_performs performs) outermostPlaced
    outermostFunctions opened _ rfl with ⟨isPlaced, functions⟩
  rcases isPlaced code rfl with ⟨origin, isKnown, isIn, held, file⟩
  refine ⟨functions.machine, origin, isKnown, ?_, held, isIn, .of_file file,
    .of_file ?_⟩
  · rcases isKnown with earlier | ⟨_, _, _, _, _, _, _, _, brings⟩
    · exact session.wasRead earlier
    · exact brings.wasRead
  · have kept := keepsContext_perform level code.task here
    exact kept.file.trans file

/-- A script evaluates a text that declares a function, and the function is called from outside. -/
theorem code_runs_in_its_source_evaluated :
    let start := Machine.start { filename := "a" } {} (fun _ => none) ⟨0, 0⟩
    let source := "<?php\neval('function f() { return 1; }');"
    let program := (Program.read .sections "a" source 0).1.toOption.getD ⟨"", [], {}⟩
    ∃ machine function code here origin,
      machine = (((Run.compile source).machineAfter start).run 5 program).2 ∧
        machine.scopes.root.function? "f" = some function ∧
        OpenParts 1 ⟨.call function [], machine⟩ 0
          [⟨Code.task (.statement code), here⟩, ⟨.call function [], machine⟩] ∧
        origin.filename = "a(2) : eval()'d code" ∧ origin.Declares function.declaration ∧
        origin.Holds (.statement code) ∧ here.ResolvesIn origin := by
  intro start source program
  have isRead : (Program.read .sections "a" source 0).1.isOk = true := by decide +kernel
  have known : ∃ after, Run.compile source start = .ok program after := by
    cases parsed : (Program.read .sections "a" source 0).1 with
    | error stop =>
        rw [parsed] at isRead
        cases isRead
    | ok own =>
        have same : program = own := by simp only [program, parsed, Except.toOption, Option.getD]
        have isProgram : Program.read .sections "a" source start.nextId = (.ok program, _) :=
          Prod.ext (same ▸ parsed) rfl
        rw [Run.compile, Run.get_bind]
        exact ⟨_, Run.read_eq_ok_iff.mpr ⟨_, isProgram, rfl⟩⟩
  have fresh : start.SessionOf fun _ => False := .start _ _ _ _
  have session := Machine.SessionOf.run 5 (.inr known) (fresh.compile source)
  have declared :
      let machine := (((Run.compile source).machineAfter start).run 5 program).2
      (machine.scopes.root.function? "f").map (fun function =>
        (function.declaration.parameters.length, function.declaration.body.length,
          function.file.name)) = some (0, 1, "a(2) : eval()'d code") ∧
        (machine.scopes.root.native? "f").isNone = true ∧
        machine.depth < machine.settings.nestingLimit := by decide +kernel
  -- The machine need not be computed again.
  generalize (((Run.compile source).machineAfter start).run 5 program).2 = machine
    at session declared ⊢
  rcases declared with ⟨declared, notNative, room⟩
  rcases Option.map_eq_some_iff.mp declared with ⟨function, found, shape⟩
  simp only [Prod.mk.injEq, List.length_eq_zero_iff, List.length_eq_one_iff] at shape
  rcases shape with ⟨noParameters, ⟨code, body⟩, name⟩
  let entered := Machine.inCall { machine with file := function.file }
    function.declaration.name.node
  have performs : Performs (Activity.call "f" ⟨0, 0⟩ []).run (ofDepth 1) machine
      ⟨.call function [], machine⟩ := by
    have calls (self : Evaluator) := self.callFunction_of_declared ⟨0, 0⟩ []
      (Option.isNone_iff_eq_none.mp notNative) found
    simp only [Activity.run, Performs, calls]
    exact (performs_perform_iff (.call function [])).mpr rfl
  have inside : Performs (fun self => (Task.call function []).step self) (ofDepth 0) machine
      ⟨.statement code, entered.inBody⟩ := by
    refine performs_callDeclared_iff.mpr ⟨room, ?_,
      performs_runFunction_iff.mpr (.inr ⟨entered, ?_, ?_⟩)⟩
    · simp [FunctionDecl.requiredCount, noParameters]
    · rw [noParameters]
      rfl
    · rw [body]
      exact Performs.bind_first ((performs_perform_iff (.statement code)).mpr rfl)
  have opened : OpenParts 1 ⟨.call function [], machine⟩ 0
      [⟨.statement code, entered.inBody⟩, ⟨.call function [], machine⟩] :=
    .part .outermost inside
  rcases code_runs_in_its_source session (.call "f" ⟨0, 0⟩ []) trivial (.statement code) performs
    opened with ⟨_, origin, _, _, held, declares, resolves, _⟩
  refine ⟨machine, function, code, entered.inBody, origin, rfl, found, opened, ?_, declares, held,
    resolves⟩
  exact (congrArg SourceFile.name resolves.file).symm.trans name

end Evaluator

end PhpScript
