import PhpScript.Proofs.Run.Composition
import PhpScript.Proofs.Run.FailedStores
import PhpScript.Proofs.Syntax.Numbering

/-!
# Targets of loops over arrays

A loop over an array stores each key and each value in a target. Where all its targets are places,
the loop by itself never fails for want of a place. Not every target that is read is a place, and
with one that is not, the loop fails at the first element.
-/

namespace PhpScript

/-! ## Runs that never end in a certain way -/

/-- A computation never fails with an error. -/
def Avoids {ε σ α : Type} (error : ε) (run : EStateM ε σ α) : Prop :=
  ∀ before after, run before ≠ .error error after

namespace Avoids

variable {ε σ α β : Type} {error : ε} {run : EStateM ε σ α}

theorem pure (value : α) : Avoids error (Pure.pure value : EStateM ε σ α) := by rintro _ _ ⟨⟩

theorem throw {other : ε} (isOther : other ≠ error := by rintro ⟨⟩) :
    Avoids error (MonadExcept.throw other : EStateM ε σ α) := by
  rintro _ _ ⟨⟩
  exact isOther rfl

theorem bind {next : α → EStateM ε σ β} (first : Avoids error run)
    (second : ∀ value, Avoids error (next value)) : Avoids error (run >>= next) := by
  intro before after fails
  cases ends : run before with
  | ok value middle =>
    simp only [Bind.bind, EStateM.bind, ends] at fails
    exact second value middle after fails
  | error own middle =>
    simp only [Bind.bind, EStateM.bind, ends] at fails
    cases fails
    exact first before after ends

theorem ite {condition : Prop} [Decidable condition] {yes no : EStateM ε σ α}
    (first : Avoids error yes) (second : Avoids error no) :
    Avoids error (if condition then yes else no) := by
  split
  · exact first
  · exact second

theorem modify (change : σ → σ) :
    Avoids error (modifyGet fun state => ((), change state) : EStateM ε σ Unit) := by
  rintro _ _ ⟨⟩

theorem outcome_ne {computation : Checked α} {problem : Problem} {warnings : List Problem}
    (avoids : Avoids problem computation) : computation.outcome ≠ (warnings, .error problem) := by
  intro fails
  simp only [Checked.outcome] at fails
  split at fails
  · cases fails
  · rename_i ends
    cases fails
    exact avoids _ _ ends

theorem inLoop {halt : Halt} {run : Run α} (avoids : Avoids halt run) :
    Avoids halt (Run.inLoop run) := by
  intro machine after fails
  simp only [Run.inLoop, Run.between, Run.bracket] at fails
  split at fails
  · cases fails
  · rename_i ends
    cases fails
    exact avoids _ _ ends

end Avoids

namespace Value

theorem avoids_writeByte (text : String) (key value : Value) :
    Avoids .assignToExpression (writeByte text key value) := by
  have warns (problem : Problem) : Avoids .assignToExpression (Checked.warn problem) :=
    .modify _
  have index : Avoids .assignToExpression key.textIndex := by
    unfold textIndex
    split
    · exact .pure _
    · split
      · exact .pure _
      · exact .throw
    · exact .throw
    · exact .bind (warns _) fun _ => .pure _
  unfold writeByte
  refine .bind index fun index => ?_
  dsimp only
  cases Text.byteAt? value.toText 0 with
  | none => exact .throw
  | some byte =>
    refine .ite (.bind (warns _) fun _ => ?_) ?_ <;>
      exact .ite (.bind (warns _) fun _ => .pure _)
        (.ite (.bind .throw fun _ => .pure _) (.pure _))

theorem failure_writePath_ne (value slot : Value) (keys : List (Option Value)) :
    (writePath value slot keys).failure ≠ some .assignToExpression := by
  induction keys generalizing slot with
  | nil => rintro ⟨⟩
  | cons key rest ih =>
    rcases slot.opens_or_stops with ⟨elements, opens⟩ | ⟨text, rfl⟩ | ⟨_, stops⟩
    · cases resolves : elements.resolve key with
      | ok resolved =>
        rw [writePath_of_resolves opens resolves]
        exact ih _
      | error problem =>
        rw [writePath_of_unresolved opens resolves]
        rcases Table.resolve_of_error resolves with rfl | ⟨rfl, _⟩ <;> rintro ⟨⟩
    · simp only [writePath, vivify]
      split
      · rintro ⟨⟩
      · split
        · rintro ⟨⟩
        · rename_i key
          split
          · rintro ⟨⟩
          · rename_i failed
            rintro ⟨⟩
            exact (avoids_writeByte text key value).outcome_ne failed
    · rw [stops]
      rintro ⟨⟩

end Value

/-! ## Loops -/

/-- A run never fails because what is to be assigned to is not a place. -/
abbrev Run.FindsPlaces {α : Type} (run : Run α) : Prop := Avoids (.problem .assignToExpression) run

theorem Place.findsPlaces_store (place : Place) (value : Value) :
    (place.store value).FindsPlaces := by
  intro machine after fails
  rcases store_of_error fails with ⟨problem, failure, isProblem, _⟩
  cases isProblem
  exact Value.failure_writePath_ne _ _ _ failure

/-- The parts of a place that are evaluated where the place is found. -/
def Expr.indices : Expr → List (Located Expr)
  | .variable name => name.parts
  | .subscript ⟨base, _⟩ index => base.indices ++ index.toList
  | _ => []

namespace Evaluator

variable (self : Evaluator)

theorem findsPlaces_stringify (span : Span) (value : Value) :
    (Run.stringify span value).FindsPlaces := by
  cases value <;> rintro _ _ ⟨⟩

theorem findsPlaces_placeAt (span : Span) (target : Expr) (isPlace : target.isPlace = true)
    (indices : ∀ index ∈ target.indices, (self.expression index).FindsPlaces) :
    (self.placeAt span target).FindsPlaces := by
  match target with
  | .variable (.simple name) => exact .pure _
  | .variable (.dynamic code) =>
    exact .bind (.bind (indices code (List.mem_singleton_self code)) fun value =>
      findsPlaces_stringify span value) fun _ => .pure _
  | .subscript ⟨base, baseSpan⟩ index =>
    have inBase := findsPlaces_placeAt baseSpan base isPlace fun own member =>
      indices own (List.mem_append_left _ member)
    refine .bind inBase fun _ => ?_
    cases index with
    | some index =>
      exact .bind (indices index (List.mem_append_right _ (List.mem_singleton_self index))) fun _ =>
        .pure _
    | none => exact .pure _

variable {loop : ForeachLoop Stmt} {target : Located Expr}

theorem storeIn_of_not_isPlace (noPlace : target.node.isPlace = false) (value : Value) :
    self.storeIn target value = Run.fail .assignToExpression := by
  simp only [storeIn, place, self.placeAt_of_not_isPlace _ _ noPlace]
  rfl

theorem foreachPasses_of_not_isPlace (isTarget : target ∈ (Stmt.foreachLoop loop).targets)
    (noPlace : target.node.isPlace = false) (key : Key) (value : Value)
    (rest : List (Key × Value)) :
    self.foreachPasses loop ((key, value) :: rest) =
      loop.key.elim (pure ()) (self.storeIn · key.toValue) >>= fun _ =>
        Run.fail .assignToExpression := by
  simp only [Stmt.targets, List.mem_append, Option.mem_toList, List.mem_singleton] at isTarget
  have fails := self.storeIn_of_not_isPlace noPlace
  cases hasKey : loop.key with
  | none =>
    rcases isTarget with isKey | rfl
    · cases hasKey.symm.trans isKey
    · simp only [foreachPasses, hasKey, fails]
      rfl
  | some own =>
    simp only [foreachPasses, hasKey, Option.elim_some]
    rcases isTarget with isKey | rfl
    · cases hasKey.symm.trans isKey
      rw [fails]
      rfl
    · simp only [fails]
      rfl

theorem findsPlaces_storeIn (isPlace : target.node.isPlace = true)
    (indices : ∀ index ∈ target.node.indices, (self.expression index).FindsPlaces) (value : Value) :
    (self.storeIn target value).FindsPlaces :=
  .bind (self.findsPlaces_placeAt target.span target.node isPlace indices) fun place =>
    place.findsPlaces_store value

theorem findsPlaces_foreachPasses
    (stores : ∀ target ∈ (Stmt.foreachLoop loop).targets, ∀ value,
      (self.storeIn target value).FindsPlaces)
    (inBody : (self.statement loop.body).FindsPlaces) (elements : List (Key × Value)) :
    (self.foreachPasses loop elements).FindsPlaces := by
  induction elements with
  | nil => exact .pure _
  | cons element rest ih =>
    have proceeds (flow : Flow) :
        (Run.proceed flow (self.foreachPasses loop rest)).FindsPlaces := by
      unfold Run.proceed
      split
      · exact .pure _
      · exact ih
    have inValue := stores loop.value (List.mem_append_right _ (List.mem_singleton_self _))
    have pass := Avoids.bind (inValue element.2) fun _ => .bind inBody proceeds
    simp only [foreachPasses]
    split
    · rename_i target isKey
      have inKey := stores target (List.mem_append_left _ (Option.mem_toList.mpr isKey))
      exact .bind (inKey _) fun _ => pass
    · exact pass

end Evaluator

namespace Program

variable {filename source : String} {nextId next : Nat} {tokens : List (Located Token)}
  {program : Program} {loop : ForeachLoop Stmt} {span : Span}

/-- In an accepted program each target of a loop over an array is led by a variable. If all of them
are places, the loop fails for want of a place only where its subject, its body or an index in a
target does so. If one is not a place, a loop over some elements stores at most the first key and
fails in front of its body. -/
theorem loop_targets_checked_late
    (reads : ofTokens filename source nextId tokens = (.ok program, next))
    (held : program.Holds (.statement ⟨.foreachLoop loop, span⟩)) :
    (∀ target ∈ (Stmt.foreachLoop loop).targets, target.node.IsTarget) ∧
      ∀ self : Evaluator,
        ((∀ target ∈ (Stmt.foreachLoop loop).targets, target.node.isPlace = true ∧
            ∀ index ∈ target.node.indices, (self.expression index).FindsPlaces) →
          (self.expression loop.subject).FindsPlaces → (self.statement loop.body).FindsPlaces →
          (self.foreachLoop loop).FindsPlaces) ∧
        ∀ target ∈ (Stmt.foreachLoop loop).targets, target.node.isPlace = false →
          ∀ machine middle elements key value rest,
            self.expression loop.subject machine = .ok (.array elements) middle →
            elements.entries = (key, value) :: rest →
            self.foreachLoop loop machine =
              Run.inLoop (do
                loop.key.elim (pure ()) (self.storeIn · key.toValue)
                Run.fail .assignToExpression) middle := by
  cases isSound_of_ofTokens reads held with
  | intro _ _ _ targets =>
    refine ⟨targets, fun self => ⟨?_, ?_⟩⟩
    · intro places inSubject inBody
      have stores : ∀ target ∈ (Stmt.foreachLoop loop).targets, ∀ value,
          (self.storeIn target value).FindsPlaces := by
        intro target isTarget value
        rcases places target isTarget with ⟨isPlace, indices⟩
        exact self.findsPlaces_storeIn isPlace indices value
      refine .bind inSubject fun subject => ?_
      cases subject with
      | array elements => exact .inLoop (self.findsPlaces_foreachPasses stores inBody _)
      | _ => exact .bind (.modify _) fun _ => .pure _
    · intro target isTarget noPlace machine middle elements key value rest evaluates holds
      have passes := self.foreachPasses_of_not_isPlace isTarget noPlace key value rest
      rw [← holds] at passes
      rw [Evaluator.foreachLoop, Run.bind_of_ok evaluates, ← passes]

def steppedTarget : List (Located Token) :=
  [.keyword .kwForeach, .symbol .leftParen, .variable "a", .keyword .kwAs, .variable "x",
    .symbol .inc, .symbol .rightParen, .symbol .semicolon].map fun token => ⟨token, ⟨0, 0⟩⟩

theorem loop_targets_checked_late_stepped :
    ∃ program loop, ofTokens "" "" 0 steppedTarget = (.ok program, 0) ∧
      program.statements = [⟨.foreachLoop loop, ⟨0, 0⟩⟩] ∧ loop.value.node.isPlace = false ∧
      ∀ (self : Evaluator) machine middle elements key value rest,
        self.expression loop.subject machine = .ok (.array elements) middle →
        elements.entries = (key, value) :: rest →
        self.foreachLoop loop machine = .error (.problem .assignToExpression) middle := by
  refine ⟨_, _, rfl, rfl, rfl, ?_⟩
  intro self machine middle elements key value rest evaluates holds
  have late := loop_targets_checked_late (rfl : ofTokens "" "" 0 steppedTarget = _)
    (holds_of_mem (List.mem_singleton_self _))
  rw [(late.2 self).2 _ (List.mem_singleton_self _) rfl _ _ _ _ _ _ evaluates holds]
  rfl

end Program

end PhpScript
