import PhpScript.Proofs.Run.Occurrence

/-!
# Missing values

Code can end without a value: at its end, or with a `return` that has no operand. Inside the machine
this is a value of its own, which no script ever sees: it is replaced where the code was called,
pulled in or evaluated, and nothing else brings it forth.
-/

namespace PhpScript

/-- Code ends without a value. -/
def Flow.LacksValue : Flow → Prop
  | .ret value => value = .void
  | _ => True

def SourceFile.evaluatedAt (file : SourceFile) (span : Span) : String :=
  s!"{file.name}({file.lines.line span.start}) : eval()'d code"

namespace Evaluator

section Endings

variable {self : Evaluator} {start middle after : Machine} {flow : Flow} {program : Program}

theorem callDeclared_of_lacksValue {function : DeclaredFunction} {arguments : List Value}
    (lacks : flow.LacksValue) (room : start.depth < start.settings.nestingLimit)
    (enough : function.declaration.requiredCount ≤ arguments.length)
    (ends : Run.inFile function.file (self.runFunction function.declaration arguments) start =
      .ok flow after) :
    self.callDeclared function arguments start =
      Run.ofExcept (function.declaration.checkReturn .void) after := by
  rw [callDeclared_eq, if_neg (Nat.not_le.mpr room), runDeclared, if_neg (Nat.not_lt.mpr enough),
    Run.bind_of_ok ends]
  cases flow with
  | ret value =>
    cases lacks
    rfl
  | normal => rfl
  | jump kind levels => rfl

theorem runFile_of_ends {path source : String}
    (reads : Run.read .sections path source start = .ok program middle)
    (ends : self.program program middle = .ok flow after) :
    (flow = .ret .void → self.runFile path source start = .ok .null after) ∧
      ((∀ value, flow ≠ .ret value) → self.runFile path source start = .ok (.int 1) after) := by
  rw [runFile, Run.bind_of_ok reads, Run.bind_of_ok ends]
  refine ⟨?_, fun noReturn => ?_⟩
  · rintro rfl
    rfl
  · cases flow with
    | ret value => exact absurd rfl (noReturn value)
    | normal => rfl
    | jump kind levels => rfl

/-- An expression that runs code from outside the program gets as far as this code: what the
expression names is found, can be read and is not skipped. -/
inductive BringsIn (self : Evaluator) (start : Machine) (program : Program) (middle : Machine) :
    Located Expr → Prop
  | file {mode : IncludeMode} {path : Located Expr} {span : Span}
      {filename resolved source : String} {view : FileView} {named found looked : Machine}
      (isText : self.text path start = .ok filename named)
      (nonempty : filename.isEmpty = false)
      (resolves : Run.resolvePath filename named = .ok resolved found)
      (looks : Run.look resolved found = .ok view looked)
      (isWanted :
        (mode.once && looked.included.contains (view.canonical.getD resolved)) = false)
      (holds : view.contents = .ok source)
      (reads : Run.read .sections resolved source
        { looked with included := view.canonical.getD resolved :: looked.included } =
          .ok program middle) :
      BringsIn self start program middle ⟨.includeFile mode path, span⟩
  | text {code : Located Expr} {span : Span} {source : String} {evaluated : Machine}
      (isText : self.text code start = .ok source evaluated)
      (reads : Run.read .code (evaluated.file.evaluatedAt span) source evaluated =
        .ok program middle) :
      BringsIn self start program middle ⟨.evaluate code, span⟩

theorem BringsIn.includeFile_of_ends {mode : IncludeMode} {path : Located Expr} {span : Span}
    (brings : BringsIn self start program middle ⟨.includeFile mode path, span⟩)
    (ends : self.program program middle = .ok flow after) :
    (flow = .ret .void → self.includeFile mode path start = .ok .null after) ∧
      ((∀ value, flow ≠ .ret value) → self.includeFile mode path start = .ok (.int 1) after) := by
  cases brings with
  | file isText nonempty resolves looks isWanted holds reads =>
    rw [includeFile, Run.bind_of_ok isText, nonempty, if_neg Bool.false_ne_true, includeNamed,
      Run.bind_of_ok resolves, Run.bind_of_ok looks, Run.get_bind, isWanted,
      if_neg Bool.false_ne_true, holds]
    exact runFile_of_ends reads ends

theorem BringsIn.evaluateText_of_lacksValue {code : Located Expr} {span : Span}
    (brings : BringsIn self start program middle ⟨.evaluate code, span⟩) (lacks : flow.LacksValue)
    (ends : self.program program middle = .ok flow after) :
    self.evaluateText span code start = .ok .null after := by
  cases brings with
  | @text _ _ source evaluated isText reads =>
    unfold SourceFile.evaluatedAt at reads
    have line : Run.lineOf span evaluated =
      .ok (evaluated.file.lines.line span.start) evaluated := rfl
    rw [evaluateText, Run.bind_of_ok isText, Run.bind_of_ok line, Run.get_bind,
      Run.bind_of_ok reads, Run.bind_of_ok ends]
    cases flow with
    | ret value =>
      cases lacks
      rfl
    | normal => rfl
    | jump kind levels => rfl

end Endings

theorem checkReturn_void_of_all {σ : Type} {function : FunctionDecl σ}
    (nothingDeclared : function.returnType.all (·.types.contains .void) = true) :
    function.checkReturn .void = .ok .null := by
  unfold FunctionDecl.checkReturn
  split
  · rfl
  · rename_i hint declared
    rw [declared] at nothingDeclared
    exact if_pos nothingDeclared

theorem checkReturn_void_of_not_contains {σ : Type} {function : FunctionDecl σ} {hint : TypeHint}
    (declared : function.returnType = some hint) (wanted : .void ∉ hint.types) :
    function.checkReturn .void = .error (.returnMissing function.name.node hint.render) := by
  unfold FunctionDecl.checkReturn
  rw [declared]
  exact if_neg (by simpa using wanted)

/-- No value that occurs in a session, and none that a native function is given, has a missing value
in it. Where code ends without a value, a call gives null, or a type error where another type is
declared; a file without a return gives one, and all else null. -/
theorem void_never_surfaces {machine : Machine} (session : machine.InSession) (depth : Nat)
    (program : Program) :
    (∀ value, Occurs depth program machine value → value.VoidFree) ∧
    (∀ name values native bound, CallsIn depth program machine name values →
      (Table.ofList Native.names).get? (Text.lowercase name) = some native →
      native.signature.bind values = .ok bound → ∀ value ∈ bound, value.VoidFree) ∧
    ∀ (level : Nat) (start middle after : Machine) (flow : Flow), flow.LacksValue →
      (∀ function arguments, start.depth < start.settings.nestingLimit →
        function.declaration.requiredCount ≤ arguments.length →
        Run.inFile function.file
          ((ofDepth level).runFunction function.declaration arguments) start = .ok flow after →
        (function.declaration.returnType.all (·.types.contains .void) = true →
          (ofDepth (level + 1)).function function arguments start = .ok .null after) ∧
        ∀ hint, function.declaration.returnType = some hint → .void ∉ hint.types →
          ∃ problem, (ofDepth (level + 1)).function function arguments start =
              .error (.problem problem) after ∧
            problem.message = "Uncaught TypeError: " ++ function.declaration.name.node ++
              "(): Return value must be of type " ++ hint.render ++ ", none returned") ∧
      (∀ mode path span included,
        BringsIn (ofDepth level) start included middle ⟨.includeFile mode path, span⟩ →
        (ofDepth level).program included middle = .ok flow after →
        (flow = .ret .void →
          (ofDepth (level + 1)).expression ⟨.includeFile mode path, span⟩ start =
            .ok .null after) ∧
        ((∀ value, flow ≠ .ret value) →
          (ofDepth (level + 1)).expression ⟨.includeFile mode path, span⟩ start =
            .ok (.int 1) after)) ∧
      ∀ code span evaluated,
        BringsIn (ofDepth level) start evaluated middle ⟨.evaluate code, span⟩ →
        (ofDepth level).program evaluated middle = .ok flow after →
        (ofDepth (level + 1)).expression ⟨.evaluate code, span⟩ start = .ok .null after := by
  refine ⟨fun value occurs => (occurs.regular session).voidFree, ?_, ?_⟩
  -- A signature fills the places of absent arguments with its defaults, which are never missing.
  · intro name values native bound made _ binds value member
    have regular : AllRegular values := by
      rcases made with ⟨level, frame, reached, calls⟩
      exact fun value member => Occurs.regular session (.passed reached calls member)
    have ends := native.isProper_signature.ends_bind regular
    rw [binds] at ends
    exact (ends value member).voidFree
  · intro level start middle after flow lacks
    refine ⟨fun function arguments room enough ends => ?_, ?_, ?_⟩
    · have gives : (ofDepth (level + 1)).function function arguments start =
          Run.ofExcept (function.declaration.checkReturn .void) after :=
        callDeclared_of_lacksValue lacks room enough ends
      rw [gives]
      refine ⟨fun nothingDeclared => ?_, fun hint declared wanted => ?_⟩
      · rw [checkReturn_void_of_all nothingDeclared]
        rfl
      · rw [checkReturn_void_of_not_contains declared wanted]
        exact ⟨_, rfl, rfl⟩
    · exact fun mode path span included brings ends => brings.includeFile_of_ends ends
    · exact fun code span evaluated brings ends => brings.evaluateText_of_lacksValue lacks ends

/-- A call of a function with an empty body and a text without code give null; a file without code
gives one. -/
theorem void_never_surfaces_empty :
    let machine := Machine.start {} {} (fun _ => some ⟨true, none, .ok ""⟩) ⟨0, 0⟩
    let function : DeclaredFunction := ⟨⟨0, ⟨"f", ⟨0, 0⟩⟩, [], none, [], ⟨0, 0⟩⟩, ⟨"", {}⟩⟩
    let file : Located Expr := ⟨.includeFile ⟨true, true⟩ ⟨.str "/a", ⟨0, 0⟩⟩, ⟨0, 0⟩⟩
    let text : Located Expr := ⟨.evaluate ⟨.str "", ⟨0, 0⟩⟩, ⟨0, 0⟩⟩
    machine.InSession ∧ (ofDepth 2).function function [] machine = .ok .null machine ∧
      (∃ after, (ofDepth 2).expression file machine = .ok (.int 1) after) ∧
      ∃ after, (ofDepth 2).expression text machine = .ok .null after := by
  intro machine function file text
  have session : machine.InSession := .start _ _ _ _
  rcases void_never_surfaces session 1 ⟨"", [], {}⟩ with ⟨_, _, endings⟩
  refine ⟨session, ?_, ?_, ?_⟩
  · rcases endings 1 machine machine machine .normal trivial with ⟨calls, _, _⟩
    exact (calls function [] (by decide) (by decide) rfl).1 rfl
  · rcases endings 1 machine _ _ .normal trivial with ⟨_, files, _⟩
    have brings : BringsIn (ofDepth 1) machine _ _ file :=
      .file rfl (by decide) rfl rfl (by decide) rfl (by with_unfolding_all rfl)
    exact ⟨_, (files _ _ _ _ brings (by with_unfolding_all rfl)).2 fun _ => Flow.noConfusion⟩
  · rcases endings 1 machine _ _ .normal trivial with ⟨_, _, texts⟩
    have brings : BringsIn (ofDepth 1) machine _ _ text := .text rfl (by with_unfolding_all rfl)
    exact ⟨_, texts _ _ _ brings (by with_unfolding_all rfl)⟩

end Evaluator

end PhpScript
