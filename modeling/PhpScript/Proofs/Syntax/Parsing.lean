import PhpScript.Proofs.Token.Coverage
import PhpScript.Syntax.Program

/-!
# Parsers and what is left to read

The tokens that are left weigh less with each one that is taken. A parser that only looks leaves
everything as it is, and so does one that fails at once. Two states differ by more tokens behind the
same ones if a body or its heading ends where the first has none left: only looking over this end
can tell them apart.
-/

namespace PhpScript

/-! ## Weights -/

namespace Token

/-- How deep some tokens can be nested in what they stand for. -/
def weights : List (Located Token) → Nat
  | [] => 0
  | token :: rest => token.node.weight + weights rest

theorem one_le_weight (token : Token) : 1 ≤ token.weight := by
  unfold weight
  split
  · omega
  · exact Nat.le_refl 1

theorem totalWeight_eq (tokens : List (Located Token)) :
    totalWeight tokens = weights tokens + 2 := by
  have generally : ∀ total, tokens.foldl (fun total token => total + token.node.weight) total =
      weights tokens + total := by
    induction tokens with
    | nil => simp [weights]
    | cons token rest ih =>
      intro total
      rw [List.foldl_cons, ih, weights]
      omega
  exact generally 2

theorem weights_append (first second : List (Located Token)) :
    weights (first ++ second) = weights first + weights second := by
  induction first with
  | nil => simp [weights]
  | cons token rest ih =>
    rw [List.cons_append, weights, weights, ih]
    omega

theorem length_le_weights (tokens : List (Located Token)) : tokens.length ≤ weights tokens := by
  induction tokens with
  | nil => exact Nat.le_refl 0
  | cons token rest ih =>
    have positive := one_le_weight token.node
    rw [List.length_cons, weights]
    omega

theorem weights_add_length_le {tokens rest : List (Located Token)} (isSuffix : rest <:+ tokens) :
    weights rest + tokens.length ≤ weights tokens + rest.length := by
  rcases isSuffix with ⟨taken, rfl⟩
  have isShorter := length_le_weights taken
  rw [weights_append, List.length_append]
  omega

theorem Piece.IsProper.weight_le {piece : Piece} {token : Token} (proper : piece.IsProper)
    (hasToken : piece.token? = some token) : token.weight ≤ piece.text.length := by
  have positive := List.length_pos_iff.mpr proper.text_ne_nil
  unfold weight
  split
  · rename_i raw
    cases piece with
    | lexeme token text =>
      cases hasToken
      rcases proper with ⟨_, spelled⟩
      rw [Piece.text, spelled, List.length_cons, List.length_append, String.length_toList]
      exact Nat.le_refl _
    | tag tag text => cases tag <;> cases hasToken
    | inlineText text | blank text | closeTag | newline text => cases hasToken
  · exact positive

theorem weights_tokensFrom_le {pieces : List Piece} (proper : ∀ piece ∈ pieces, piece.IsProper)
    (offset : Nat) : weights (Piece.tokensFrom offset pieces) ≤ (Piece.joined pieces).length := by
  induction pieces generalizing offset with
  | nil => exact Nat.le_refl 0
  | cons piece rest ih =>
    rcases List.forall_mem_cons.mp proper with ⟨own, others⟩
    have restIsLighter := ih others (offset + Text.encodedSize piece.text)
    rw [Piece.tokensFrom, Piece.joined_cons, List.length_append, weights_append]
    cases hasToken : piece.token? with
    | none =>
      simp only [Option.map_none, Option.toList_none, weights]
      omega
    | some token =>
      have isLighter := own.weight_le hasToken
      simp only [Option.map_some, Option.toList_some, weights]
      omega

theorem weights_le_of_scanFragment {code : String} {offset : Nat} {tokens : List (Located Token)}
    (scanned : scanFragment code offset = .ok tokens) : weights tokens ≤ code.length := by
  rcases exists_arranged_of_scanFragment scanned with ⟨pieces, arranged, whole, rfl⟩
  have isLighter := weights_tokensFrom_le arranged.isProper offset
  rwa [whole, String.length_toList] at isLighter

end Token

/-! ## More tokens behind the same ones -/

/-- The tokens that may follow a heading or a body. -/
inductive Token.IsBorder : Token → Prop
  | leftBrace : IsBorder (.symbol .leftBrace)
  | rightBrace : IsBorder (.symbol .rightBrace)
  | colon : IsBorder (.symbol .colon)
  | endIf : IsBorder (.keyword .kwEndIf)
  | endWhile : IsBorder (.keyword .kwEndWhile)
  | endFor : IsBorder (.keyword .kwEndFor)
  | endForeach : IsBorder (.keyword .kwEndForeach)

namespace Terminal

/-- A terminal that is none of the tokens that may follow a heading or a body. -/
def isInner : Terminal → Bool
  | .mark symbol => !([Symbol.leftBrace, .rightBrace, .colon].contains symbol)
  | .word keyword =>
    !([Keyword.kwEndIf, .kwEndWhile, .kwEndFor, .kwEndForeach].contains keyword)

theorem accepts_eq_false {terminal : Terminal} {token : Token} (inner : terminal.isInner = true)
    (border : token.IsBorder) : terminal.accepts token = false := by
  cases terminal with
  | mark symbol =>
    cases border with
    | leftBrace | rightBrace | colon => cases symbol <;> first | rfl | cases inner
    | endIf | endWhile | endFor | endForeach => rfl
  | word keyword =>
    cases border with
    | leftBrace | rightBrace | colon => rfl
    | endIf | endWhile | endFor | endForeach => cases keyword <;> first | rfl | cases inner

end Terminal

namespace ParserState

/-- The tokens that are left, without their places. -/
def kinds (state : ParserState) : List Token := state.tokens.map Located.node

/-- Another state has the same tokens left, and more behind them at which a body or its heading
ends. -/
structure Continues (state : ParserState) (rest : List Token) (longer : ParserState) : Prop where
  kinds : longer.kinds = state.kinds ++ rest
  nextId : longer.nextId = state.nextId
  border : ∀ token ∈ rest.head?, token.IsBorder

theorem continues_self (state : ParserState) : state.Continues [] state :=
  ⟨(List.append_nil _).symm, rfl, by simp⟩

theorem Continues.cases {state longer : ParserState} {rest : List Token}
    (continues : state.Continues rest longer) :
    state.tokens = [] ∧ longer.kinds = rest ∨
      ∃ token other tokens others, state.tokens = token :: tokens ∧
        longer.tokens = other :: others ∧ other.node = token.node ∧
        others.map Located.node = tokens.map Located.node ++ rest := by
  have same := continues.kinds
  unfold ParserState.kinds at same ⊢
  cases front : state.tokens with
  | nil =>
    rw [front] at same
    exact .inl ⟨rfl, same⟩
  | cons token tokens =>
    rw [front, List.map_cons, List.cons_append] at same
    rcases List.map_eq_cons_iff.mp same with ⟨other, others, isFront, sameNode, sameRest⟩
    exact .inr ⟨token, other, tokens, others, rfl, isFront, sameNode, sameRest⟩

end ParserState

/-! ## Parsers -/

namespace Parser

variable {α β : Type}

section Binding

variable {first : Parser β} {second : β → Parser α} {state after : ParserState}

theorem bind_eq_ok {value : α} (ends : (first >>= second) state = .ok value after) :
    ∃ found middle, first state = .ok found middle ∧ second found middle = .ok value after := by
  simp only [Bind.bind, EStateM.bind] at ends
  split at ends
  · rename_i found middle reads
    exact ⟨found, middle, reads, ends⟩
  · cases ends

theorem bind_eq_error {stop : Stop} (fails : (first >>= second) state = .error stop after) :
    first state = .error stop after ∨
      ∃ found middle, first state = .ok found middle ∧ second found middle = .error stop after := by
  simp only [Bind.bind, EStateM.bind] at fails
  split at fails
  · rename_i found middle reads
    exact .inr ⟨found, middle, reads, fails⟩
  · rename_i failsFirst
    cases fails
    exact .inl failsFirst

end Binding

/-- A parser that always succeeds and leaves everything as it is. -/
def Looks (parser : Parser α) : Prop := ∀ state, ∃ value, parser state = .ok value state

theorem Looks.bind_eq {first : Parser β} (looks : Looks first) (second : β → Parser α)
    (state : ParserState) : ∃ found, (first >>= second) state = second found state := by
  rcases looks state with ⟨found, reads⟩
  exact ⟨found, by simp only [Bind.bind, EStateM.bind, reads]⟩

theorem looks_here : Looks here := fun _ => ⟨_, rfl⟩

theorem looks_spanFrom (start : Span) : Looks (spanFrom start) := fun _ => ⟨_, rfl⟩

theorem peek_eq (state : ParserState) : peek state = .ok state.kinds.head? state := by
  rw [ParserState.kinds, List.head?_map]
  rfl

theorem check_eq (terminal : Terminal) (state : ParserState) :
    check terminal state = .ok (state.kinds.head?.any terminal.accepts) state := by
  rw [ParserState.kinds, List.head?_map]
  rfl

theorem eat_cons (terminal : Terminal) (token : Located Token) (rest : List (Located Token))
    (previousStop : Nat) (endSpan : Span) (nextId : Nat) :
    eat terminal ⟨token :: rest, previousStop, endSpan, nextId⟩ =
      if terminal.accepts token.node then .ok true ⟨rest, token.span.stop, endSpan, nextId⟩
      else .ok false ⟨token :: rest, previousStop, endSpan, nextId⟩ := by
  have checks : check terminal ⟨token :: rest, previousStop, endSpan, nextId⟩ =
      .ok (terminal.accepts token.node) ⟨token :: rest, previousStop, endSpan, nextId⟩ := rfl
  cases accepts : terminal.accepts token.node with
  | false =>
    simp only [eat, Bind.bind, EStateM.bind, checks, accepts]
    rfl
  | true =>
    simp only [eat, Bind.bind, EStateM.bind, checks, accepts]
    rfl

theorem eat_cases (terminal : Terminal) (state : ParserState) :
    eat terminal state = .ok false state ∨
      ∃ token rest, state.tokens = token :: rest ∧ eat terminal state =
        .ok true { state with tokens := rest, previousStop := token.span.stop } := by
  rcases state with ⟨_ | ⟨token, rest⟩, _, _, _⟩
  · exact .inl rfl
  · rw [eat_cons]
    split
    · exact .inr ⟨token, rest, rfl, rfl⟩
    · exact .inl rfl

/-- A parser that always fails with a fault and leaves everything as it is. -/
def Faults (parser : Parser α) : Prop :=
  ∀ state, ∃ fault, parser state = .error (.fault fault) state

namespace Faults

theorem failAt (span : Span) (fault : Fault) : Faults (Parser.failAt span fault : Parser α) :=
  fun _ => ⟨_, rfl⟩

theorem unexpected : Faults (Parser.unexpected : Parser α) := fun _ => ⟨_, rfl⟩

theorem expected (what : String) : Faults (Parser.expected what : Parser α) := fun _ => ⟨_, rfl⟩

theorem bind {first : Parser β} {second : β → Parser α} (faults : Faults first) :
    Faults (first >>= second) := by
  intro state
  rcases faults state with ⟨fault, fails⟩
  exact ⟨fault, by simp only [Bind.bind, EStateM.bind, fails]⟩

end Faults

namespace Pass

/-- The loop goes on behind a pass. -/
def IsMore : Pass α → Prop
  | .more _ => True
  | .done _ => False

/-- What a pass leads to, by cases. -/
def elim {γ : Sort*} (more done : α → γ) : Pass α → γ
  | .more result => more result
  | .done result => done result

end Pass

/-- A loop that ends does so with a pass that is the last one. -/
theorem exists_done_of_iterate {pass : α → Parser (Pass α)} {bound : Nat} {start result : α}
    {state after : ParserState} (ends : iterate pass bound start state = .ok result after) :
    ∃ collected before, pass collected before = .ok (.done result) after := by
  induction bound generalizing start state with
  | zero => cases ends
  | succ bound ih =>
    rcases bind_eq_ok ends with ⟨found, middle, reads, goesOn⟩
    cases found with
    | done collected =>
      cases goesOn
      exact ⟨start, state, reads⟩
    | more collected => exact ih goesOn

end Parser

end PhpScript
