import PhpScript.Proofs.Syntax.Progress

/-!
# Numbers of declarations

The numbers of all declarations in a program have no gap and end in front of the next number. So
programs that are read one after the other share no number.
-/

namespace PhpScript

namespace Program

/-- The tokens of a text, with what is known of the text. -/
structure Scanned where
  filename : String
  source : String
  tokens : List (Located Token)

/-- Read programs one after the other, each numbered from where the one before it ended, and keep
those that are accepted. Numbers that a refused text took are not given back. -/
def ofAll (nextId : Nat) : List Scanned → List Program × Nat
  | [] => ([], nextId)
  | text :: rest =>
    let read := ofTokens text.filename text.source nextId text.tokens
    let others := ofAll read.2 rest
    (read.1.toOption.toList ++ others.1, others.2)

section Reading

variable {filename source : String} {nextId next : Nat} {tokens : List (Located Token)}
  {program : Program} {stop : Stop}

theorem numbered_of_ofTokens
    (reads : ofTokens filename source nextId tokens = (.ok program, next)) :
    (∀ statement ∈ program.statements, statement.node.IsSound) ∧ ∃ after : ParserState,
      after.nextId = next ∧ after.Numbered nextId program.declarations := by
  simp only [ofTokens] at reads
  split at reads
  · rename_i statements after parsed
    cases reads
    have gathered := Grammar.gathered_of_program parsed (ParserState.gathered_nil 0 .ahead _)
    refine ⟨fun statement isTop => gathered.sound _ (List.mem_map_of_mem isTop), after, rfl, ?_⟩
    simpa [declarations] using gathered.numbered
  · cases reads

theorem ids_of_ofTokens (reads : ofTokens filename source nextId tokens = (.ok program, next)) :
    program.declarations.map FunctionDecl.id = List.range' nextId (next - nextId) ∧
      nextId ≤ next := by
  rcases numbered_of_ofTokens reads with ⟨_, after, rfl, numbered⟩
  have ends := numbered.next
  refine ⟨?_, by omega⟩
  rw [ends, Nat.add_sub_cancel_left]
  exact numbered.ids

theorem le_of_ofTokens_eq_error
    (fails : ofTokens filename source nextId tokens = (.error stop, next)) : nextId ≤ next := by
  simp only [ofTokens] at fails
  split at fails
  · cases fails
  · rename_i stop after failed
    cases fails
    exact (Grammar.of_program_eq_error failed).2

theorem isSound_of_ofTokens
    (reads : ofTokens filename source nextId tokens = (.ok program, next)) {code : Code}
    (held : program.Holds code) : code.IsSound := by
  rcases held with ⟨top, isTop, within⟩
  have sound : (Code.statement top).IsSound := (numbered_of_ofTokens reads).1 top isTop
  exact sound.of_within within

variable {kind : SourceKind} (read : Program.read kind filename source nextId = (.ok program, next))
include read

theorem exists_ofTokens_of_read :
    ∃ tokens, ofTokens filename source nextId tokens = (.ok program, next) := by
  simp only [Program.read] at read
  split at read
  · cases read
  · exact ⟨_, read⟩

theorem one_le_levels_of_read {jump : LoopJump} {levels : Nat}
    (contained : program.Contains (.jump jump levels)) : 1 ≤ levels := by
  rcases exists_ofTokens_of_read read with ⟨tokens, reads⟩
  rcases contained with ⟨top, isTop, within⟩
  exact ((numbered_of_ofTokens reads).1 top isTop).isProper_of_within within

theorem Declares.isWellFormed {declaration : UserFunction}
    (declares : program.Declares declaration) : declaration.IsWellFormed := by
  rcases exists_ofTokens_of_read read with ⟨tokens, reads⟩
  rcases numbered_of_ofTokens reads with ⟨_, _, _, numbered⟩
  exact numbered.wellFormed declaration (mem_declarations_iff.mpr declares)

end Reading

theorem ofAll_numbered (nextId : Nat) (texts : List Scanned) :
    nextId ≤ (ofAll nextId texts).2 ∧
      List.Sublist (((ofAll nextId texts).1.flatMap declarations).map FunctionDecl.id)
        (List.range' nextId ((ofAll nextId texts).2 - nextId)) := by
  induction texts generalizing nextId with
  | nil => exact ⟨Nat.le_refl nextId, List.nil_sublist _⟩
  | cons text rest ih =>
    rcases read : ofTokens text.filename text.source nextId text.tokens with ⟨result, middle⟩
    rcases ih middle with ⟨isAbove, others⟩
    simp only [ofAll, read]
    generalize ofAll middle rest = later at isAbove others ⊢
    have joins (isBelow : nextId ≤ middle) :
        List.range' nextId (middle - nextId) ++ List.range' middle (later.2 - middle) =
          List.range' nextId (later.2 - nextId) := by
      have goesOn : middle = nextId + (middle - nextId) := by omega
      have lengths : later.2 - nextId = (middle - nextId) + (later.2 - middle) := by omega
      rw [lengths, ← List.range'_append_1, ← goesOn]
    cases result with
    | error stop =>
      have isBelow := le_of_ofTokens_eq_error read
      rw [← joins isBelow]
      exact ⟨Nat.le_trans isBelow isAbove, others.trans (List.sublist_append_right _ _)⟩
    | ok program =>
      rcases ids_of_ofTokens read with ⟨ids, isBelow⟩
      rw [← joins isBelow, ← ids]
      refine ⟨Nat.le_trans isBelow isAbove, ?_⟩
      simp only [Except.toOption, Option.toList_some, List.flatMap_append,
        List.flatMap_singleton, List.map_append]
      exact (List.Sublist.refl _).append others

theorem isProper_of_mem_ofAll {nextId : Nat} {texts : List Scanned} {program : Program}
    (member : program ∈ (ofAll nextId texts).1) {code : Code} (held : program.Holds code) :
    code.IsProper := by
  induction texts generalizing nextId with
  | nil => exact absurd member List.not_mem_nil
  | cons text rest ih =>
    rcases read : ofTokens text.filename text.source nextId text.tokens with ⟨result, middle⟩
    simp only [ofAll, read, List.mem_append, Option.mem_toList] at member
    rcases member with isFirst | isLater
    · cases result with
      | error stop => cases isFirst
      | ok first =>
        cases isFirst
        exact (isSound_of_ofTokens read held).isProper
    · exact ih isLater

/-- In every program that is accepted of some texts, all code is proper, also inside of functions
and text literals; and no two functions that are declared in these programs have the same number,
each of which was taken from the numbers in turn. -/
theorem accepted_programs_proper (nextId : Nat) (texts : List Scanned) :
    (∀ program ∈ (ofAll nextId texts).1, ∀ code, program.Holds code → code.IsProper) ∧
      (∀ program ∈ (ofAll nextId texts).1, ∀ declaration,
        declaration ∈ program.declarations ↔ program.Declares declaration) ∧
      (((ofAll nextId texts).1.flatMap declarations).map FunctionDecl.id).Nodup ∧
      ∀ declaration ∈ (ofAll nextId texts).1.flatMap declarations,
        nextId ≤ declaration.id ∧ declaration.id < (ofAll nextId texts).2 := by
  rcases ofAll_numbered nextId texts with ⟨isAbove, taken⟩
  refine ⟨?_, ?_, taken.nodup List.nodup_range', ?_⟩
  · intro program member code held
    exact isProper_of_mem_ofAll member held
  · intro program _ declaration
    exact mem_declarations_iff
  · intro declaration member
    have isTaken := taken.subset (List.mem_map_of_mem member)
    rw [List.mem_range'_1] at isTaken
    omega

def nestedFunctions : Scanned where
  filename := ""
  source := ""
  tokens :=
    [.keyword .kwFunction, .identifier "f", .symbol .leftParen, .symbol .rightParen,
      .symbol .leftBrace, .keyword .kwFunction, .identifier "g", .symbol .leftParen,
      .symbol .rightParen, .symbol .leftBrace, .symbol .rightBrace, .symbol .rightBrace].map
        fun token => ⟨token, ⟨0, 0⟩⟩

theorem accepted_programs_proper_twice :
    (ofAll 7 [nestedFunctions, nestedFunctions]).1.length = 2 ∧
      (ofAll 7 [nestedFunctions, nestedFunctions]).2 = 11 ∧
      (∀ program ∈ (ofAll 7 [nestedFunctions, nestedFunctions]).1, ∀ code,
        program.Holds code → code.IsProper) ∧
      (((ofAll 7 [nestedFunctions, nestedFunctions]).1.flatMap declarations).map
        FunctionDecl.id).Nodup :=
  have proper := accepted_programs_proper 7 [nestedFunctions, nestedFunctions]
  ⟨rfl, rfl, proper.1, proper.2.2.1⟩

end Program

end PhpScript
