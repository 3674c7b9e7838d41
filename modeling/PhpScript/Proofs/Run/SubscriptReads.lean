import Mathlib.Data.List.Induction
import PhpScript.Proofs.Run.QuietReads

/-!
# Subscripts of variables and of other operands

A path behind a variable is read as a whole and then reported. The subscripts of any other operand
are read one by one, each with its reports. Both ways give the same value or fail with the same
problem. They report the same where they give a value, but a read of a variable that fails drops the
reports of the steps before.
-/

namespace PhpScript

namespace Value

variable {root inner : Value} {keys : List Value} {reports : List Problem}

theorem readPath_append (root : Value) (keys : List Value) (key : Value) :
    root.readPath (keys ++ [key]) = root.readPath keys >>= fun inner => inner.readOffset key := by
  induction keys generalizing root with
  | nil => simp [readPath]
  | cons first rest ih => simp [readPath, ih]

theorem outcome_readPath_append_of_error {problem : Problem} (key : Value)
    (fails : (root.readPath keys).outcome = (reports, .error problem)) :
    (root.readPath (keys ++ [key])).outcome = (reports, .error problem) := by
  unfold Checked.outcome at fails
  split at fails
  · cases fails
  · rename_i ends
    cases fails
    simp [readPath_append, Checked.outcome, Bind.bind, EStateM.bind, ends]

theorem outcome_readPath_append_of_ok (key : Value)
    (gives : (root.readPath keys).outcome = (reports, .ok inner)) :
    (root.readPath (keys ++ [key])).outcome =
      (reports ++ (inner.readOffset key).outcome.1, (inner.readOffset key).outcome.2) := by
  rw [Checked.outcome_eq_ok_iff (root.isSteady_readPath keys)] at gives
  rcases inner.isSteady_readOffset key with ⟨problem, later, ends⟩ | ⟨later, result, ends⟩
  · simp [readPath_append, Checked.outcome, Bind.bind, EStateM.bind, gives [], ends]
  · simp [readPath_append, Checked.outcome, Bind.bind, EStateM.bind, gives [], ends _]

end Value

/-- A subscript, and the value that its index has. -/
structure Subscript where
  index : Located Expr
  span : Span
  key : Value

namespace Subscript

def behind (base : Located Expr) (subscripts : List Subscript) : Located Expr :=
  subscripts.foldl (fun code subscript =>
    ⟨.subscript code (some subscript.index), subscript.span⟩) base

theorem behind_append (base : Located Expr) (subscripts : List Subscript) (last : Subscript) :
    behind base (subscripts ++ [last]) =
      ⟨.subscript (behind base subscripts) (some last.index), last.span⟩ := by
  simp [behind]

theorem isPlace_behind (base : Located Expr) (subscripts : List Subscript) :
    (behind base subscripts).node.isPlace = base.node.isPlace := by
  induction subscripts using List.reverseRecOn with
  | nil => rfl
  | append_singleton subscripts last ih =>
    rw [behind_append]
    exact ih

end Subscript

namespace Machine

def report (machine : Machine) (reports : List (Problem × Span)) : Machine :=
  reports.foldl (fun machine report => machine.warn report.1 report.2) machine

theorem report_eq (machine : Machine) (reports : List (Problem × Span)) :
    ∃ output, machine.report reports = { machine with output } := by
  induction reports generalizing machine with
  | nil => exact ⟨machine.output, rfl⟩
  | cons first rest ih =>
    rw [report, List.foldl_cons, warn]
    split
    · exact ih (machine.print _)
    · exact ih machine

theorem warnAll_report (machine : Machine) (reports : List (Problem × Span))
    (problems : List Problem) (span : Span) :
    (machine.report reports).warnAll problems span =
      machine.report (reports ++ problems.map (·, span)) := by
  simp only [warnAll, report, List.foldl_append, List.foldl_map]

end Machine

/-- A computation reports some problems, changes nothing else, and ends with a result. -/
def Run.Reports {α : Type} (run : Run α) (machine : Machine) (reports : List (Problem × Span))
    (result : Except Problem α) : Prop :=
  run machine = Run.ofExcept result (machine.report reports)

theorem Place.keysOr_map_some (problem : Problem) (name : String) (keys : List Value)
    (span : Span) : keysOr problem ⟨name, keys.map some, span⟩ = .ok keys := by
  rw [keysOr]
  induction keys with
  | nil => rfl
  | cons key rest ih =>
    rw [List.map_cons, List.mapM_cons, ih]
    rfl

namespace Evaluator

open Subscript

theorem expressionStep_of_isPlace {self : Evaluator} {code : Located Expr}
    (isPlace : code.node.isPlace = true) : self.expressionStep code = self.loadPlace code := by
  rcases code with ⟨node, span⟩
  cases node with
  | «variable» name => rfl
  | subscript base index => exact if_pos isPlace
  | _ => cases isPlace

/-- Code has a value, and its evaluation changes nothing, whatever has been written before. -/
def IsSettled (depth : Nat) (machine : Machine) (code : Located Expr) (value : Value) : Prop :=
  ∀ further output, (ofDepth (depth + further)).expression code { machine with output } =
    .ok value { machine with output }

variable {depth : Nat} {machine : Machine} {base : Located Expr} {value : Value}
  {subscripts : List Subscript}

theorem expression_subscript {index : Located Expr} (noPlace : base.node.isPlace = false)
    (span : Span) :
    (ofDepth (depth + 1)).expression ⟨.subscript base (some index), span⟩ = (do
      let container ← (ofDepth depth).expression base
      let key ← (ofDepth depth).expression index
      Run.check span (container.readOffset key)) := by
  have isOther : ¬(Expr.subscript base (some index)).isPlace = true := Bool.eq_false_iff.mp noPlace
  exact funext fun machine => congrFun (if_neg isOther) machine

variable
  (settled : ∀ subscript ∈ subscripts, IsSettled depth machine subscript.index subscript.key)
include settled

theorem reports_subscripts (noPlace : base.node.isPlace = false)
    (isBase : IsSettled depth machine base value) :
    ∃ reports, ((ofDepth (depth + subscripts.length + 1)).expression
        (behind base subscripts)).Reports machine reports
          (value.readPath (subscripts.map key)).outcome.2 ∧
      reports.map Prod.fst = (value.readPath (subscripts.map key)).outcome.1 := by
  induction subscripts using List.reverseRecOn with
  | nil => exact ⟨[], isBase 1 machine.output, rfl⟩
  | append_singleton subscripts last ih =>
    rw [List.forall_mem_append, List.forall_mem_singleton] at settled
    rcases ih settled.1 with ⟨reports, reads, messages⟩
    rw [behind_append, List.map_append, List.map_singleton, List.length_append,
      List.length_singleton, ← Nat.add_assoc,
      expression_subscript ((isPlace_behind base subscripts).trans noPlace)]
    rcases outcome : (value.readPath (subscripts.map key)).outcome with ⟨problems, result⟩
    rw [outcome] at reads messages
    cases result with
    | error problem =>
      rw [Value.outcome_readPath_append_of_error _ outcome]
      exact ⟨reports, Run.bind_of_error reads, messages⟩
    | ok inner =>
      rw [Value.outcome_readPath_append_of_ok _ outcome]
      refine ⟨reports ++ (inner.readOffset last.key).outcome.1.map (·, last.span), ?_, ?_⟩
      · rcases machine.report_eq reports with ⟨output, same⟩
        have index := settled.2 (subscripts.length + 1) output
        rw [← same] at index
        rw [Run.Reports, Run.bind_of_ok reads, ← Machine.warnAll_report]
        exact Run.bind_of_ok index
      · simp [messages, Function.comp_def]

theorem place_behind (name : String) (span : Span) (further : Nat) :
    (ofDepth (depth + further)).place (behind ⟨.variable (.simple name), span⟩ subscripts) machine =
      .ok ⟨name, (subscripts.map key).map some, span⟩ machine := by
  induction subscripts using List.reverseRecOn with
  | nil => rfl
  | append_singleton subscripts last ih =>
    rw [List.forall_mem_append, List.forall_mem_singleton] at settled
    rw [behind_append, List.map_append, List.map_append]
    refine (Run.bind_of_ok (ih settled.1)).trans ?_
    exact Run.bind_of_ok (settled.2 further machine.output)

/-- Reading some subscripts behind a variable and behind any other operand that has the value of the
variable ends with the same result, the one of reading the path. If this is a value, both ways
report the same problems in the same order. If it is a failure, the read of the variable reports
nothing, while the other one reports what the steps before have to report. -/
theorem reads_report_alike {name : String} (held : machine.scopes.lookup name = some value)
    (noPlace : base.node.isPlace = false) (isBase : IsSettled depth machine base value)
    (span : Span) :
    ∃ direct loaded result,
      ((ofDepth (depth + subscripts.length + 1)).expression
        (behind base subscripts)).Reports machine direct result ∧
      ((ofDepth (depth + subscripts.length + 1)).expression
        (behind ⟨.variable (.simple name), span⟩ subscripts)).Reports machine loaded result ∧
      (value.readPath (subscripts.map key)).outcome = (direct.map Prod.fst, result) ∧
      (∀ found, result = .ok found → loaded.map Prod.fst = direct.map Prod.fst) ∧
      ∀ problem, result = .error problem → loaded = [] := by
  rcases reports_subscripts settled noPlace isBase with ⟨direct, reads, messages⟩
  have loads : (ofDepth (depth + subscripts.length + 1)).expression
      (behind ⟨.variable (.simple name), span⟩ subscripts) machine =
        Place.follow ⟨name, (subscripts.map key).map some, span⟩ value
          (subscripts.map key) machine := by
    have isPlace : (behind ⟨.variable (.simple name), span⟩ subscripts).node.isPlace = true :=
      isPlace_behind _ subscripts
    refine (congrFun (expressionStep_of_isPlace isPlace) machine).trans ?_
    have keys := Place.readKeys_eq_ok
      (Place.keysOr_map_some _ name (subscripts.map key) span) machine
    rw [loadPlace, Run.bind_of_ok (place_behind settled name span _), Place.load,
      Run.bind_of_ok keys, Run.get_bind, held]
  rcases outcome : (value.readPath (subscripts.map key)).outcome with ⟨problems, result⟩
  rw [outcome] at reads messages
  refine ⟨direct, ?_⟩
  cases result with
  | ok found =>
    refine ⟨problems.map (·, span), _, reads, ?_, by rw [messages], fun _ _ => ?_, by rintro _ ⟨⟩⟩
    · refine loads.trans ?_
      simp only [Place.follow, outcome]
      exact congrArg (EStateM.Result.ok found) (machine.warnAll_report [] problems span)
    · simp [messages, Function.comp_def]
  | error problem =>
    refine ⟨[], _, reads, ?_, by rw [messages], by rintro _ ⟨⟩, fun _ _ => rfl⟩
    refine loads.trans ?_
    simp only [Place.follow, outcome]
    rfl

omit settled in
/-- A byte behind the end of a text is reported and read as the empty text, which has no position
that a word could stand for. -/
theorem reads_report_alike_behind_text :
    let start := Machine.start {} {} (fun _ => none) ⟨0, 0⟩
    let machine := { start with scopes := start.scopes.store "text" (.str "abc") }
    let subscripts : List Subscript :=
      [⟨⟨.int 10, ⟨6, 8⟩⟩, ⟨0, 9⟩, .int 10⟩, ⟨⟨.str "x", ⟨10, 13⟩⟩, ⟨0, 14⟩, .str "x"⟩]
    ∃ direct, direct.map Prod.fst = [.uninitializedStringOffset 10] ∧
      ((ofDepth 4).expression (behind ⟨.str "abc", ⟨0, 5⟩⟩ subscripts)).Reports machine direct
        (.error (.offsetOnString .string)) ∧
      ((ofDepth 4).expression (behind ⟨.variable (.simple "text"), ⟨0, 5⟩⟩ subscripts)).Reports
        machine [] (.error (.offsetOnString .string)) := by
  intro start machine subscripts
  have literal {code : Expr} {value : Value} (span : Span)
      (reads : ∀ self : Evaluator, self.expressionStep ⟨code, span⟩ = pure value) :
      IsSettled 1 machine ⟨code, span⟩ value := by
    intro further output
    rw [Nat.add_comm]
    exact congrFun (reads _) _
  have settled : ∀ subscript ∈ subscripts, IsSettled 1 machine subscript.index subscript.key :=
    List.forall_mem_cons.mpr ⟨literal _ fun _ => rfl,
      List.forall_mem_singleton.mpr (literal _ fun _ => rfl)⟩
  have isBase : IsSettled 1 machine ⟨.str "abc", ⟨0, 5⟩⟩ (.str "abc") := literal _ fun _ => rfl
  have held : machine.scopes.lookup "text" = some (.str "abc") := rfl
  rcases reads_report_alike settled held rfl isBase ⟨0, 5⟩ with
    ⟨direct, loaded, result, reads, loads, outcome, _, drops⟩
  have fails : ((Value.str "abc").readPath (subscripts.map key)).outcome =
      ([.uninitializedStringOffset 10], .error (.offsetOnString .string)) := rfl
  rw [fails, Prod.mk.injEq] at outcome
  rcases outcome with ⟨messages, rfl⟩
  rw [drops _ rfl] at loads
  exact ⟨direct, messages.symm, reads, loads⟩

end Evaluator

end PhpScript
