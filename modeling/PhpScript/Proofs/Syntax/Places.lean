import PhpScript.Proofs.Syntax.Progress

/-!
# Places in a program

In a program that was read from a text, every node has a place in the text and lies inside of the
node that it is part of.
-/

namespace PhpScript

namespace Program

/-- The nodes of a program: its statements and what is inside of them. -/
inductive HasNode (program : Program) : Node → Prop
  | top {code : Located Stmt} (isTop : code ∈ program.statements) :
      HasNode program (.statement code)
  | part {outer part : Node} (hasOuter : HasNode program outer) (isPart : part ∈ outer.parts) :
      HasNode program part

variable {kind : SourceKind} {filename source : String} {nextId next : Nat} {program : Program}

theorem ordered_of_read (isRead : read kind filename source nextId = (.ok program, next)) :
    ∃ tokens, Token.Ordered (Text.byteLength source) 0 tokens ∧
      ofTokens filename source nextId tokens = (.ok program, next) := by
  have ofPieces : ∀ {mode pieces}, Token.Arranged mode pieces →
      Token.Piece.joined pieces = source.toList →
        Token.Ordered (Text.byteLength source) 0 (Token.Piece.tokensFrom 0 pieces) := by
    intro mode pieces arranged whole
    have ordered := Token.ordered_tokensFrom arranged.isProper (Nat.le_refl 0)
    rwa [whole, Nat.zero_add, ← Text.byteLength_eq] at ordered
  simp only [read] at isRead
  split at isRead
  · cases isRead
  · rename_i tokens scanned
    refine ⟨tokens, ?_, isRead⟩
    cases kind with
    | sections =>
      rcases Token.exists_arranged_of_scan scanned with ⟨pieces, arranged, whole, rfl⟩
      exact ofPieces arranged whole
    | code =>
      rcases Token.exists_arranged_of_scanCode scanned with ⟨pieces, arranged, whole, rfl⟩
      exact ofPieces arranged whole

theorem HasNode.isPlaced (isRead : read kind filename source nextId = (.ok program, next))
    {node : Node} (hasNode : program.HasNode node) : node.IsPlaced 0 (Text.byteLength source) := by
  rcases ordered_of_read isRead with ⟨tokens, ordered, reads⟩
  induction hasNode with
  | @top code isTop =>
    simp only [ofTokens] at reads
    split at reads
    · rename_i statements after ends
      cases reads
      have begins : ParserState.Gathered 0 .ahead [] nextId (some (Text.byteLength source))
          ⟨tokens, 0, ⟨Text.byteLength source, Text.byteLength source⟩, nextId⟩ := by
        refine ⟨by simp, ParserState.numbered_nil _, fun stop isStop => ?_⟩
        cases isStop
        exact ⟨⟨ordered, rfl⟩, Nat.zero_le _, by simp⟩
      rcases (Grammar.gathered_of_program ends begins).placed _ rfl with ⟨afterOrdered, has⟩
      have placed := has.placed (.statement code) (List.mem_map_of_mem isTop)
      exact placed.widen (Nat.le_refl 0) afterOrdered.place_le
    · cases reads
  | part _ isPart ih => exact ih.of_mem_parts isPart

/-- Every node of a program lies in the source text and holds its parts. -/
theorem spans_of_read (isRead : read kind filename source nextId = (.ok program, next))
    {node : Node} (hasNode : program.HasNode node) :
    node.span.start ≤ node.span.stop ∧ node.span.stop ≤ Text.byteLength source ∧
      ∀ part ∈ node.parts,
        node.span.start ≤ part.span.start ∧ part.span.stop ≤ node.span.stop := by
  have placed := hasNode.isPlaced isRead
  refine ⟨placed.bounds.2.1, placed.bounds.2.2, fun part isPart => ?_⟩
  cases placed with
  | intro isBehind isOrdered isBefore parts =>
      have within := (parts part isPart).bounds
      exact ⟨within.1, within.2.2⟩

/-- A body without statements, and a variable inside a text literal. -/
theorem spans_of_read_embedded :
    ∃ program next loop body literal code,
      read .sections "a" "<?php while (0): endwhile; echo \"\x7b$b\x7d\";" 0 = (.ok program, next) ∧
      program.HasNode loop ∧ body ∈ loop.parts ∧ body.span = ⟨17, 17⟩ ∧
      program.HasNode literal ∧ code ∈ literal.parts ∧ code.span = ⟨34, 36⟩ ∧
      (loop.span.start ≤ body.span.start ∧ body.span.stop ≤ loop.span.stop) ∧
      (literal.span.start ≤ code.span.start ∧ code.span.stop ≤ literal.span.stop) := by
  have spans :
      ((read .sections "a" "<?php while (0): endwhile; echo \"\x7b$b\x7d\";" 0).1.toOption.map
        fun program => program.statements.map fun top => (Node.statement top).parts.map fun node =>
          (node.span, node.parts.map Node.span)) =
      some [[(⟨13, 14⟩, []), (⟨17, 17⟩, [])], [(⟨32, 38⟩, [⟨34, 36⟩])]] := by decide +kernel
  rcases isRead : read .sections "a" "<?php while (0): endwhile; echo \"\x7b$b\x7d\";" 0
    with ⟨_ | program, next⟩
  · rw [isRead] at spans
    cases spans
  · rw [isRead] at spans
    simp only [Except.toOption, Option.map_some, Option.some.injEq, List.map_eq_cons_iff,
      Prod.mk.injEq] at spans
    rcases spans with ⟨loop, _, statements, ⟨_, _, loopParts, _, body, _, rfl, ⟨bodySpan, _⟩, _⟩,
      echo, _, rfl, ⟨literal, _, echoParts, ⟨_, code, _, literalParts, codeSpan, _⟩, _⟩, _⟩
    have hasLoop : program.HasNode (.statement loop) := .top (by simp [statements])
    have hasEcho : program.HasNode (.statement echo) := .top (by simp [statements])
    have hasLiteral : program.HasNode literal := .part hasEcho (by simp [echoParts])
    have isBody : body ∈ (Node.statement loop).parts := by simp [loopParts]
    have isCode : code ∈ literal.parts := by simp [literalParts]
    exact ⟨program, next, .statement loop, body, literal, code, rfl, hasLoop, isBody, bodySpan,
      hasLiteral, isCode, codeSpan, (spans_of_read isRead hasLoop).2.2 body isBody,
      (spans_of_read isRead hasLiteral).2.2 code isCode⟩

end Program

end PhpScript
