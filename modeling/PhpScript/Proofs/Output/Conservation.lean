import PhpScript.Proofs.Run.Effect

/-!
# Output is conserved

Text that a script prints stays where it was put until it is discarded or taken: the result text and
the contents of the open buffers, from the outermost to the innermost, are all that has been
written, in the order of writing. Handing contents one level down moves a boundary in this text.
What is discarded is the end of it, behind the last boundary.
-/

namespace PhpScript

namespace OutputBuffers

/-- The result text, and then the contents of the open buffers from the outermost to the
innermost. -/
def whole (buffers : OutputBuffers) : String :=
  String.join (buffers.result :: buffers.stack.reverse)

@[simp]
theorem whole_nil (result : String) : whole ⟨result, []⟩ = result := by
  simp [whole]

@[simp]
theorem whole_cons (result top : String) (below : List String) :
    whole ⟨result, top :: below⟩ = whole ⟨result, below⟩ ++ top := by
  simp [whole, String.append_assoc]

@[simp]
theorem whole_write (buffers : OutputBuffers) (text : String) :
    (buffers.write text).whole = buffers.whole ++ text := by
  rcases buffers with ⟨result, stack⟩
  cases stack with
  | nil => simp [write]
  | cons top below => simp [write, String.append_assoc]

@[simp]
theorem whole_push (buffers : OutputBuffers) : buffers.push.whole = buffers.whole := by
  simp [push]

theorem flush?_eq (buffers : OutputBuffers) :
    buffers.flush? = buffers.pop?.map fun (contents, below) => (below.write contents).push := by
  rcases buffers with ⟨result, _ | ⟨contents, _ | ⟨next, below⟩⟩⟩ <;> rfl

theorem endFlush?_eq (buffers : OutputBuffers) :
    buffers.endFlush? = buffers.pop?.map fun (contents, below) => below.write contents := by
  rcases buffers with ⟨result, _ | ⟨contents, _ | ⟨next, below⟩⟩⟩ <;> rfl

theorem endFlush?_eq_none_iff {buffers : OutputBuffers} :
    buffers.endFlush? = none ↔ buffers.level = 0 := by
  rcases buffers with ⟨result, stack⟩
  cases stack <;> simp [endFlush?_eq, pop?, level]

theorem level_of_endFlush? {buffers below : OutputBuffers}
    (flushed : buffers.endFlush? = some below) : buffers.level = below.level + 1 := by
  rcases buffers with ⟨result, _ | ⟨contents, _ | ⟨next, others⟩⟩⟩ <;> cases flushed <;> rfl

/-- The loop that flushes all buffers is over when none is open. -/
theorem flushAll_of_none {buffers : OutputBuffers} (noneOpen : buffers.endFlush? = none) :
    buffers.flushAll = buffers := by
  rw [flushAll, endFlush?_eq_none_iff.mp noneOpen, flushUpTo]

/-- A turn of the loop that flushes all buffers. -/
theorem flushAll_of_some {buffers below : OutputBuffers}
    (flushed : buffers.endFlush? = some below) : buffers.flushAll = below.flushAll := by
  rw [flushAll, level_of_endFlush? flushed, flushUpTo, flushed, flushAll]

theorem whole_of_endFlush? {buffers below : OutputBuffers}
    (flushed : buffers.endFlush? = some below) : below.whole = buffers.whole := by
  rcases buffers with ⟨result, _ | ⟨contents, others⟩⟩
  · cases flushed
  · rw [endFlush?_eq] at flushed
    cases flushed
    rw [whole_write, whole_cons]

theorem result_of_endFlush? {buffers below : OutputBuffers}
    (flushed : buffers.endFlush? = some below) :
    ∃ more, below.result = buffers.result ++ more := by
  rcases buffers with ⟨result, _ | ⟨contents, _ | ⟨next, others⟩⟩⟩ <;> cases flushed
  · exact ⟨contents, rfl⟩
  · exact ⟨"", by simp⟩

/-- What a turn of the loop keeps is kept by the loop. -/
theorem flushAll_induction {motive : OutputBuffers → OutputBuffers → Prop}
    (ends : ∀ buffers, buffers.level = 0 → motive buffers buffers)
    (turn : ∀ buffers below last, buffers.endFlush? = some below → motive below last →
      motive buffers last) (buffers : OutputBuffers) : motive buffers buffers.flushAll := by
  induction open? : buffers.level generalizing buffers with
  | zero =>
    rw [flushAll_of_none (endFlush?_eq_none_iff.mpr open?)]
    exact ends buffers open?
  | succ level ih =>
    cases flushed : buffers.endFlush? with
    | none => rw [endFlush?_eq_none_iff.mp flushed] at open?; cases open?
    | some below =>
      rw [flushAll_of_some flushed]
      have isBelow : below.level = level := by
        rw [level_of_endFlush? flushed] at open?
        exact Nat.succ.inj open?
      exact turn buffers below _ flushed (ih below isBelow)

theorem flushAll_eq (buffers : OutputBuffers) : buffers.flushAll = ⟨buffers.whole, []⟩ := by
  refine flushAll_induction (motive := fun before last => last = ⟨before.whole, []⟩) ?_ ?_ buffers
  · rintro ⟨result, stack⟩ isClosed
    cases List.length_eq_zero_iff.mp isClosed
    rw [whole_nil]
  · rintro before below last flushed rfl
    rw [whole_of_endFlush? flushed]

theorem takeResult_eq (buffers : OutputBuffers) : buffers.takeResult = (buffers.whole, {}) := by
  rw [takeResult, flushAll_eq]

theorem result_write (buffers : OutputBuffers) (text : String) :
    ∃ more, (buffers.write text).result = buffers.result ++ more := by
  rcases buffers with ⟨result, stack⟩
  cases stack with
  | nil => exact ⟨text, rfl⟩
  | cons top below => exact ⟨"", by simp [write]⟩

theorem result_flushAll (buffers : OutputBuffers) :
    ∃ more, buffers.flushAll.result = buffers.result ++ more := by
  refine flushAll_induction (motive := fun before last =>
    ∃ more, last.result = before.result ++ more) ?_ ?_ buffers
  · exact fun before _ => ⟨"", by simp⟩
  · rintro before below last flushed ⟨later, grown⟩
    rcases result_of_endFlush? flushed with ⟨first, moved⟩
    exact ⟨first ++ later, by rw [grown, moved, String.append_assoc]⟩

theorem contents?_eq_none_iff {buffers : OutputBuffers} :
    buffers.contents? = none ↔ buffers.level = 0 := by
  simp [contents?, level]

theorem map_fst_pop? (buffers : OutputBuffers) : buffers.pop?.map (·.1) = buffers.contents? := by
  rcases buffers with ⟨result, stack⟩
  cases stack <;> rfl

/-- The operations on output buffers. -/
inductive Operation where
  | write (text : String)
  | push
  | clean
  | pop
  | flush
  | endFlush
  | flushAll
  | takeResult
deriving DecidableEq

namespace Operation

/-- The buffers after an operation. There are none when an operation on the innermost buffer finds
no open buffer. -/
def change? (operation : Operation) (buffers : OutputBuffers) : Option OutputBuffers :=
  match operation with
  | .write text => some (buffers.write text)
  | .push => some buffers.push
  | .clean => buffers.clean?
  | .pop => buffers.pop?.map (·.2)
  | .flush => buffers.flush?
  | .endFlush => buffers.endFlush?
  | .flushAll => some buffers.flushAll
  | .takeResult => some buffers.takeResult.2

/-- Whether an operation succeeds, and the buffers that are left: the same ones if it fails. -/
def perform (operation : Operation) (buffers : OutputBuffers) : Bool × OutputBuffers :=
  ((operation.change? buffers).isSome, (operation.change? buffers).getD buffers)

def needsBuffer : Operation → Bool
  | .clean | .pop | .flush | .endFlush => true
  | _ => false

def discards : Operation → Bool
  | .clean | .pop => true
  | _ => false

def written : Operation → String
  | .write text => text
  | _ => ""

def taken (operation : Operation) (buffers : OutputBuffers) : String :=
  if operation = .takeResult then buffers.takeResult.1 else ""

def discarded (operation : Operation) (buffers : OutputBuffers) : String :=
  if operation.discards then buffers.contents?.getD "" else ""

theorem change?_eq_none_iff (operation : Operation) (buffers : OutputBuffers) :
    operation.change? buffers = none ↔ operation.needsBuffer = true ∧ buffers.level = 0 := by
  rcases buffers with ⟨result, stack⟩
  cases operation <;> cases stack <;>
    simp [change?, needsBuffer, level, clean?, pop?, flush?_eq, endFlush?_eq]

theorem balance (operation : Operation) (buffers : OutputBuffers) :
    operation.taken buffers ++ (operation.perform buffers).2.whole ++ operation.discarded buffers =
      buffers.whole ++ operation.written := by
  rcases buffers with ⟨result, stack⟩
  cases operation with
  | write text => simp [perform, change?, taken, discarded, discards, written]
  | push => simp [perform, change?, taken, discarded, discards, written]
  | flushAll => simp [perform, change?, taken, discarded, discards, written, flushAll_eq]
  | takeResult => simp [perform, change?, taken, discarded, discards, written, takeResult_eq]
  | clean =>
    cases stack <;>
      simp [perform, change?, taken, discarded, discards, written, clean?, contents?]
  | pop =>
    cases stack <;> simp [perform, change?, taken, discarded, discards, written, pop?, contents?]
  | flush =>
    cases stack <;>
      simp [perform, change?, taken, discarded, discards, written, flush?_eq, pop?]
  | endFlush =>
    cases stack <;>
      simp [perform, change?, taken, discarded, discards, written, endFlush?_eq, pop?]

theorem result_perform {operation : Operation} (kept : operation ≠ .takeResult)
    (buffers : OutputBuffers) :
    ∃ more, (operation.perform buffers).2.result = buffers.result ++ more := by
  have same : ∀ {after : OutputBuffers}, after.result = buffers.result →
      ∃ more, after.result = buffers.result ++ more := fun equal => ⟨"", by simp [equal]⟩
  rcases buffers with ⟨result, stack⟩
  cases operation with
  | write text => exact result_write _ text
  | push => exact same rfl
  | flushAll => exact result_flushAll ⟨result, stack⟩
  | takeResult => exact absurd rfl kept
  | clean => cases stack <;> exact same rfl
  | pop => cases stack <;> exact same rfl
  | flush =>
    rw [perform, change?, flush?_eq]
    cases stack with
    | nil => exact same rfl
    | cons top below => exact result_write ⟨result, below⟩ top
  | endFlush =>
    rw [perform, change?, endFlush?_eq]
    cases stack with
    | nil => exact same rfl
    | cons top below => exact result_write ⟨result, below⟩ top

end Operation

/-! ## Sequences of operations -/

/-- The texts that a sequence of operations takes out, joined, and the buffers that are left. -/
def performAll : List Operation → OutputBuffers → String × OutputBuffers
  | [], buffers => ("", buffers)
  | operation :: rest, buffers =>
    let after := (operation.perform buffers).2
    (operation.taken buffers ++ (performAll rest after).1, (performAll rest after).2)

def writtenBy (operations : List Operation) : String :=
  String.join (operations.map Operation.written)

theorem writtenBy_cons (operation : Operation) (rest : List Operation) :
    writtenBy (operation :: rest) = operation.written ++ writtenBy rest := by
  simp [writtenBy]

theorem taken_append_whole (operations : List Operation) (buffers : OutputBuffers)
    (keeps : ∀ operation ∈ operations, operation.discards = false) :
    (performAll operations buffers).1 ++ (performAll operations buffers).2.whole =
      buffers.whole ++ writtenBy operations := by
  induction operations generalizing buffers with
  | nil => simp [performAll, writtenBy]
  | cons operation rest ih =>
    rcases List.forall_mem_cons.mp keeps with ⟨first, others⟩
    have balanced := operation.balance buffers
    simp only [Operation.discarded, first, Bool.false_eq_true, if_false,
      String.append_empty] at balanced
    calc (performAll (operation :: rest) buffers).1 ++
          (performAll (operation :: rest) buffers).2.whole
        = operation.taken buffers ++ ((operation.perform buffers).2.whole ++ writtenBy rest) := by
          rw [← ih _ others, performAll, String.append_assoc]
      _ = buffers.whole ++ writtenBy (operation :: rest) := by
          rw [← String.append_assoc, balanced, writtenBy_cons, String.append_assoc]

/-- Whatever is discarded on the way, the text that is left is in the order of writing, and nothing
comes twice. -/
theorem sublist_taken_append_whole (operations : List Operation) (buffers : OutputBuffers) :
    ((performAll operations buffers).1 ++ (performAll operations buffers).2.whole).toList.Sublist
      (buffers.whole ++ writtenBy operations).toList := by
  induction operations generalizing buffers with
  | nil => simp [performAll, writtenBy]
  | cons operation rest ih =>
    have balanced := congrArg String.toList (operation.balance buffers)
    have later := ih (operation.perform buffers).2
    simp only [performAll, writtenBy_cons, String.toList_append] at balanced later ⊢
    rw [List.append_assoc, ← List.append_assoc _ operation.written.toList, ← balanced]
    simp only [List.append_assoc]
    refine (List.Sublist.refl _).append (later.trans ?_)
    exact (List.Sublist.refl _).append (List.sublist_append_right _ _)

theorem result_performAll (operations : List Operation) (buffers : OutputBuffers)
    (kept : .takeResult ∉ operations) :
    ∃ more, (performAll operations buffers).2.result = buffers.result ++ more := by
  induction operations generalizing buffers with
  | nil => exact ⟨"", by simp [performAll]⟩
  | cons operation rest ih =>
    rcases List.ne_and_not_mem_of_not_mem_cons kept with ⟨other, others⟩
    rcases Operation.result_perform (Ne.symm other) buffers with ⟨first, grown⟩
    rcases ih (operation.perform buffers).2 others with ⟨later, ends⟩
    exact ⟨first ++ later, by rw [performAll, ends, grown, String.append_assoc]⟩

end OutputBuffers

/-! ## Native functions -/

namespace OutputFunction

open OutputBuffers

def operation? : OutputFunction → Option Operation
  | .start => some .push
  | .clean => some .clean
  | .endClean | .getClean => some .pop
  | .endFlush | .getFlush => some .endFlush
  | .flush => some .flush
  | _ => none

/-- What a native function that performs an operation leaves behind. Where the operation succeeds,
it is all that happens, and where it fails the result says so and at most a report is written. -/
structure Performs (operation : Operation) (span : Span) (machine : Machine) (value : Value)
    (after : Machine) : Prop where
  succeeds : ∀ buffers, operation.change? machine.output = some buffers →
    after = { machine with output := buffers } ∧ value ≠ .bool false
  fails : operation.change? machine.output = none →
    value = .bool false ∧ ∃ problems, after = machine.warnAll problems span

section Performs

variable {operation : Operation} {span : Span} {machine : Machine} {buffers : OutputBuffers}
  {value : Value}

theorem Performs.of_some (changed : operation.change? machine.output = some buffers)
    (positive : value ≠ .bool false) :
    Performs operation span machine value { machine with output := buffers } where
  succeeds other found := by
    rw [changed] at found
    cases found
    exact ⟨rfl, positive⟩
  fails failed := by
    rw [changed] at failed
    cases failed

theorem Performs.of_none (failed : operation.change? machine.output = none)
    (problems : List Problem) :
    Performs operation span machine (.bool false) (machine.warnAll problems span) where
  succeeds other found := by
    rw [failed] at found
    cases found
  fails _ := ⟨rfl, problems, rfl⟩

variable {change : OutputBuffers → Option OutputBuffers} {function failure remedy : String}

theorem onBuffer_of_some (changed : change machine.output = some buffers) :
    onBuffer span function failure remedy change machine =
      .ok (.bool true) { machine with output := buffers } := by
  rw [onBuffer, Run.get_bind, changed]
  rfl

theorem onBuffer_of_none (failed : change machine.output = none) :
    onBuffer span function failure remedy change machine =
      .ok (.bool false) (machine.warnAll [.noBuffer function failure remedy] span) := by
  rw [onBuffer, Run.get_bind, failed]
  rfl

theorem performs_onBuffer (operation : Operation) (span : Span) (function failure remedy : String)
    (machine : Machine) :
    ∃ value after,
      onBuffer span function failure remedy operation.change? machine = .ok value after ∧
        Performs operation span machine value after := by
  cases changed : operation.change? machine.output with
  | some buffers => exact ⟨_, _, onBuffer_of_some changed, .of_some changed (by simp)⟩
  | none => exact ⟨_, _, onBuffer_of_none changed, .of_none changed _⟩

theorem performs_getClean (span : Span) (arguments : List Value) (machine : Machine) :
    ∃ value after, apply .getClean span arguments machine = .ok value after ∧
      Performs .pop span machine value after := by
  cases popped : machine.output.pop? with
  | some closed =>
    have changed : Operation.pop.change? machine.output = some closed.2 := by
      rw [Operation.change?, popped, Option.map_some]
    refine ⟨.str closed.1, _, ?_, .of_some changed (by simp)⟩
    rw [apply, Run.get_bind, popped]
    rfl
  | none =>
    have failed : Operation.pop.change? machine.output = none := by
      rw [Operation.change?, popped, Option.map_none]
    refine ⟨.bool false, _, ?_, .of_none failed []⟩
    rw [apply, Run.get_bind, popped]
    rfl

theorem performs_getFlush (span : Span) (arguments : List Value) (machine : Machine) :
    ∃ value after, apply .getFlush span arguments machine = .ok value after ∧
      Performs .endFlush span machine value after := by
  have fails : machine.output.endFlush? = none ↔ _ :=
    Operation.change?_eq_none_iff .endFlush machine.output
  cases changed : machine.output.endFlush? with
  | some buffers =>
    cases found : machine.output.contents? with
    | some contents =>
      have performed : Performs .endFlush span machine (.str contents)
          { machine with output := buffers } := .of_some changed (by simp)
      refine ⟨_, _, ?_, performed⟩
      rw [apply, Run.get_bind, Run.bind_of_ok (onBuffer_of_some changed), found]
      rfl
    | none =>
      rw [fails.mpr ⟨rfl, contents?_eq_none_iff.mp found⟩] at changed
      cases changed
  | none =>
    have notOpen := contents?_eq_none_iff.mpr (fails.mp changed).2
    have performed : Performs .endFlush span machine (.bool false) (machine.warnAll
        [.noBuffer "ob_get_flush" "delete and flush" "delete or flush"] span) := by
      refine .of_none ?_ _
      exact changed
    refine ⟨_, _, ?_, performed⟩
    rw [apply, Run.get_bind, Run.bind_of_ok (onBuffer_of_none changed), notOpen]
    rfl

end Performs

theorem performs_apply {function : OutputFunction} {operation : Operation}
    (isOperation : function.operation? = some operation) (span : Span) (arguments : List Value)
    (machine : Machine) :
    ∃ value after, function.apply span arguments machine = .ok value after ∧
      Performs operation span machine value after := by
  cases function <;> cases isOperation
  case start => exact ⟨_, _, rfl, .of_some rfl (by simp)⟩
  case clean => exact performs_onBuffer .clean span "ob_clean" "delete" "delete" machine
  case endClean => exact performs_onBuffer .pop span "ob_end_clean" "delete" "delete" machine
  case endFlush =>
      exact performs_onBuffer .endFlush span "ob_end_flush" "delete and flush" "delete or flush"
        machine
  case flush => exact performs_onBuffer .flush span "ob_flush" "flush" "flush" machine
  case getClean => exact performs_getClean span arguments machine
  case getFlush => exact performs_getFlush span arguments machine

end OutputFunction

namespace OutputBuffers

/-- Text that is written is kept in its order until it is discarded or taken. An operation changes
the whole text only at its end: by what is written there, or by the contents of the innermost buffer
that are discarded from there. Flushing moves the contents of the innermost buffer one level down,
and flushing everything is to flush and close the innermost buffer until none is open. Without an
open buffer, an operation on the innermost one fails and changes nothing, also when a script asks
for it. So if nothing is discarded, what is taken out is all that was written, and the result text
grows until it is taken. -/
theorem output_conserved (buffers : OutputBuffers) :
    (∀ text, (buffers.write text).whole = buffers.whole ++ text) ∧
    (∀ contents below, buffers.pop? = some (contents, below) →
      buffers.flush? = some (below.write contents).push ∧
      buffers.endFlush? = some (below.write contents)) ∧
    ((buffers.endFlush? = none → buffers.flushAll = buffers) ∧
      (∀ below, buffers.endFlush? = some below → buffers.flushAll = below.flushAll) ∧
      buffers.takeResult = (buffers.flushAll.result, {})) ∧
    (buffers.push.whole = buffers.whole ∧ buffers.flushAll.whole = buffers.whole ∧
      (Operation.flush.perform buffers).2.whole = buffers.whole ∧
      (Operation.endFlush.perform buffers).2.whole = buffers.whole) ∧
    (∀ contents, buffers.contents? = some contents →
      (Operation.clean.perform buffers).2.whole ++ contents = buffers.whole ∧
      (Operation.pop.perform buffers).2.whole ++ contents = buffers.whole ∧
      buffers.pop?.map (·.1) = some contents) ∧
    (∀ operation : Operation,
      ((operation.perform buffers).1 = false ↔
        operation.needsBuffer = true ∧ buffers.level = 0) ∧
      ((operation.perform buffers).1 = false → (operation.perform buffers).2 = buffers)) ∧
    (∀ function operation span arguments machine, machine.output = buffers →
      OutputFunction.operation? function = some operation →
      ∃ value after, function.apply span arguments machine = .ok value after ∧
        OutputFunction.Performs operation span machine value after) ∧
    (∀ operations, (∀ operation ∈ operations, operation.discards = false) →
      (performAll operations buffers).1 ++ (performAll operations buffers).2.takeResult.1 =
        buffers.whole ++ writtenBy operations) ∧
    (∀ operations,
      ((performAll operations buffers).1 ++
          (performAll operations buffers).2.takeResult.1).toList.Sublist
        (buffers.whole ++ writtenBy operations).toList) ∧
    ∀ operations, .takeResult ∉ operations →
      ∃ more, (performAll operations buffers).2.result = buffers.result ++ more := by
  have moves : ∀ operation : Operation, operation.discards = false → operation.written = "" →
      operation ≠ .takeResult → (operation.perform buffers).2.whole = buffers.whole := by
    intro operation keeps silent kept
    simpa [Operation.taken, Operation.discarded, keeps, silent, kept] using
      operation.balance buffers
  refine ⟨whole_write buffers, ?_, ⟨flushAll_of_none, fun _ => flushAll_of_some, ?_⟩,
    ⟨whole_push buffers, moves .flushAll rfl rfl (by simp), ?_, ?_⟩, ?_,
    fun operation => ⟨?_, ?_⟩, ?_, ?_, ?_, fun operations => result_performAll operations buffers⟩
  · intro contents below popped
    rw [flush?_eq, endFlush?_eq, popped]
    exact ⟨rfl, rfl⟩
  · rw [takeResult_eq, flushAll_eq]
  · exact moves .flush rfl rfl (by simp)
  · exact moves .endFlush rfl rfl (by simp)
  · intro contents found
    refine ⟨?_, ?_, ?_⟩
    · simpa [Operation.taken, Operation.discarded, Operation.discards, Operation.written, found]
        using Operation.balance .clean buffers
    · simpa [Operation.taken, Operation.discarded, Operation.discards, Operation.written, found]
        using Operation.balance .pop buffers
    · rw [map_fst_pop?, found]
  · rw [← operation.change?_eq_none_iff]
    simp [Operation.perform]
  · intro failed
    simp_all [Operation.perform]
  · rintro function operation span arguments machine - isOperation
    exact OutputFunction.performs_apply isOperation span arguments machine
  · intro operations keeps
    rw [takeResult_eq, taken_append_whole operations buffers keeps]
  · intro operations
    rw [takeResult_eq]
    exact sublist_taken_append_whole operations buffers

/-- Buffers are opened, flushed and closed, and one is still open at the end. -/
theorem output_conserved_nested :
    let operations : List Operation :=
      [.write "a", .push, .write "b", .push, .write "c", .flush, .write "d", .endFlush, .write "e"]
    (∀ operation ∈ operations, operation.discards = false) ∧
      (performAll operations {}).2.result = "a" ∧
      (performAll operations {}).2.takeResult.1 = "abcde" := by
  intro operations
  have keeps : ∀ operation ∈ operations, operation.discards = false := by decide
  rcases output_conserved {} with ⟨_, _, _, _, _, _, _, taken, _⟩
  refine ⟨keeps, by decide, ?_⟩
  have all := taken operations keeps
  exact all

end OutputBuffers

end PhpScript
