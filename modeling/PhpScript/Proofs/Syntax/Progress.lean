import PhpScript.Proofs.Syntax.Statements

/-!
# Reading comes to an end

Every nested part of a program takes a token, and so does every pass of a loop but the last. So the
grammar of a depth never runs out of depth or of passes on tokens that weigh less, and a program is
read from all of its tokens.
-/

namespace PhpScript

namespace Grammar

open PhpScript.Parser

/-! ## Programs -/

section Programs

variable {self : Grammar} {limit bound : Nat} {state after : ParserState}
  {collected result statements : List (Located Stmt)}

/-- A pass over the statements of a program is the last one at the end of the tokens. Otherwise one
more statement is read. -/
theorem programPass_eq_ok {found : Pass (List (Located Stmt))}
    (reads : self.programPass collected state = .ok found after) :
    found = .done collected ∧ after = state ∧ state.tokens = [] ∨
      ∃ statement, found = .more (statement :: collected) ∧
        self.statement state = .ok statement after := by
  rcases state with ⟨_ | ⟨token, rest⟩, _, _, _⟩
  · cases reads
    exact .inl ⟨rfl, rfl, rfl⟩
  · have goesOn : (self.statement >>= fun one => pure (Pass.more (one :: collected))) _ = _ := reads
    rcases bind_eq_ok goesOn with ⟨statement, _, readsOne, returns⟩
    cases returns
    exact .inr ⟨statement, rfl, readsOne⟩

theorem programPass_eq_error {stop : Stop}
    (fails : self.programPass collected state = .error stop after) :
    self.statement state = .error stop after := by
  rcases state with ⟨_ | ⟨token, rest⟩, _, _, _⟩
  · cases fails
  · have goesOn : (self.statement >>= fun one => pure (Pass.more (one :: collected))) _ = _ := fails
    rcases bind_eq_error goesOn with failsOne | ⟨_, _, _, returns⟩
    · exact failsOne
    · cases returns

theorem tokens_of_program (ends : self.program state = .ok statements after) :
    after.tokens = [] := by
  rcases bind_eq_ok ends with ⟨collected, middle, reads, returns⟩
  cases returns
  rcases exists_done_of_iterate reads with ⟨earlier, before, done⟩
  rcases programPass_eq_ok done with ⟨_, rfl, isOver⟩ | ⟨_, isMore, _⟩
  · exact isOver
  · cases isMore

variable (nested : self.Proceeds self limit)
include nested

theorem gathered_of_iterate_programPass {low first : Nat} {order : Option Nat}
    (ends : Parser.iterate self.programPass bound collected state = .ok result after)
    (gathered : state.Gathered low .ahead (collected.reverse.map .statement) first order) :
    after.Gathered low .ahead (result.reverse.map .statement) first order := by
  induction bound generalizing collected state with
  | zero => cases ends
  | succ bound ih =>
    rcases bind_eq_ok ends with ⟨found, middle, reads, goesOn⟩
    rcases programPass_eq_ok reads with ⟨rfl, rfl, _⟩ | ⟨statement, rfl, readsOne⟩
    · cases goesOn
      exact gathered
    · refine ih goesOn ?_
      have added := (nested.statement.gathers.of_ok trivial readsOne).2.2.1 gathered
      rw [List.reverse_cons, List.map_append]
      exact added.implies Edge.taken_implies_ahead

theorem of_iterate_programPass_eq_error {stop : Stop} (isBelow : bound ≤ limit)
    (ends : Parser.iterate self.programPass bound collected state = .error stop after) :
    (Token.weights state.tokens < bound → stop ≠ .exhausted) ∧ state.nextId ≤ after.nextId := by
  have adds : Gathers 0 limit Anything .ahead [] self.statement self.statement _ .taken _ _ :=
    nested.statement.gathers
  induction bound generalizing collected state with
  | zero =>
    cases ends
    exact ⟨fun isLight => absurd isLight (Nat.not_lt_zero _), Nat.le_refl _⟩
  | succ bound ih =>
    rcases bind_eq_error ends with fails | ⟨found, middle, reads, goesOn⟩
    · rcases adds.of_error trivial (programPass_eq_error fails) with ⟨goesOn, isHigher⟩
      exact ⟨fun isLight => goesOn (by omega), isHigher⟩
    · rcases programPass_eq_ok reads with ⟨rfl, rfl, _⟩ | ⟨statement, rfl, readsOne⟩
      · cases goesOn
      · rcases adds.of_ok trivial readsOne with ⟨precedes, isShorter, _⟩
        rcases ih (by omega) goesOn with ⟨goesOn, isHigher⟩
        have isLighter := Token.weights_add_length_le precedes.isSuffix
        have isLess := isShorter trivial
        exact ⟨fun isLight => goesOn (by omega), precedes.le_nextId.trans isHigher⟩

end Programs

section Depths

variable {depth : Nat} {state after : ParserState} {statements : List (Located Stmt)}

theorem gathered_of_program {low first : Nat} {order : Option Nat}
    (ends : (ofDepth depth).program state = .ok statements after)
    (gathered : state.Gathered low .ahead [] first order) :
    after.Gathered low .ahead (statements.map .statement) first order := by
  rcases bind_eq_ok ends with ⟨collected, middle, reads, returns⟩
  cases returns
  exact gathered_of_iterate_programPass (proceeds_ofDepth (Nat.le_refl depth)) reads gathered

theorem of_program_eq_error {stop : Stop}
    (fails : (ofDepth (depth + 1)).program state = .error stop after) :
    (Token.weights state.tokens < depth → stop ≠ .exhausted) ∧ state.nextId ≤ after.nextId := by
  rcases bind_eq_error fails with fails | ⟨_, _, _, returns⟩
  · have nested := proceeds_ofDepth (Nat.le_refl (depth + 1))
    exact of_iterate_programPass_eq_error nested (Nat.le_succ depth) fails
  · cases returns

theorem ofTokens_ne_exhausted (filename source : String) (nextId : Nat)
    (tokens : List (Located Token)) :
    (Program.ofTokens filename source nextId tokens).1 ≠ .error .exhausted := by
  intro isExhausted
  unfold Program.ofTokens at isExhausted
  dsimp only at isExhausted
  split at isExhausted
  · cases isExhausted
  · rename_i stop after fails
    cases isExhausted
    have isLight : Token.weights tokens < Token.totalWeight tokens := by
      rw [Token.totalWeight_eq]
      omega
    exact (of_program_eq_error fails).1 isLight rfl

end Depths

end Grammar

namespace Parser

variable {α : Type}

/-- Whatever a parser reads, it takes at least one token, and only tokens that are there. -/
def Advances (parser : Parser α) : Prop :=
  ∀ state value after, parser state = .ok value after →
    ∃ taken, taken ≠ [] ∧ state.tokens = taken ++ after.tokens

/-- A pass of a loop takes only tokens that are there, and at least one unless the loop is over. -/
def Progresses (pass : α → Parser (Pass α)) : Prop :=
  ∀ collected state found after, pass collected state = .ok found after →
    ∃ taken, state.tokens = taken ++ after.tokens ∧ (found.IsMore → taken ≠ [])

theorem ne_nil_of_shorter {taken rest tokens : List (Located Token)}
    (whole : taken ++ rest = tokens)
    (isShorter : rest.length < tokens.length) : taken ≠ [] := by
  rintro rfl
  rw [← whole] at isShorter
  exact Nat.lt_irrefl _ isShorter

section Progress

variable {low limit : Nat} {behind : Edge}

theorem Gathers.advances {parser longer : Parser α} {nodes : α → List Node} {holds : α → α → Prop}
    (gathers : Gathers low limit Anything .ahead [] parser longer (fun _ => True) behind nodes
      holds) : Advances parser := by
  intro state value after ends
  rcases gathers.of_ok trivial ends with ⟨⟨⟨taken, whole⟩, _⟩, isShorter, _⟩
  exact ⟨taken, ne_nil_of_shorter whole (isShorter trivial), whole.symm⟩

theorem AddsIf.advances {parser longer : Parser α} {nodes : α → List Node} {holds : α → α → Prop}
    (adds : Adds limit parser longer nodes holds) : Advances parser :=
  Gathers.advances (adds.gathers : Gathers 0 _ _ _ _ _ _ _ _ _ _)

theorem GathersPasses.progresses {edge : Edge} {opens closes : α → List Node}
    {holds : α → α → Prop} {pass passOther : α → Parser (Pass α)}
    (gathers : GathersPasses low limit edge opens closes holds pass passOther)
    (initial : ∀ collected, holds collected collected) : Progresses pass := by
  intro collected state found after ends
  rcases (gathers collected collected (initial collected)).of_ok trivial ends with
    ⟨⟨⟨taken, whole⟩, _⟩, isShorter, _⟩
  exact ⟨taken, whole.symm, fun isMore => ne_nil_of_shorter whole (isShorter isMore)⟩

/-- A pass that begins with something that takes a token, and then takes only tokens that are
there. -/
theorem Advances.progresses {β : Type} {first : Parser β} {second : α → β → Parser (Pass α)}
    (advances : Advances first)
    (leaves : ∀ collected value {state found after}, second collected value state =
      .ok found after → after.tokens <:+ state.tokens) :
    Progresses fun collected => first >>= second collected := by
  intro collected state found after ends
  rcases bind_eq_ok ends with ⟨value, middle, reads, goesOn⟩
  rcases advances state value middle reads with ⟨taken, nonempty, whole⟩
  rcases leaves collected value goesOn with ⟨more, rest⟩
  refine ⟨taken ++ more, ?_, fun _ => List.append_ne_nil_of_left_ne_nil nonempty more⟩
  rw [whole, ← rest, List.append_assoc]

theorem Advances.separatedPass {element : Parser α} (advances : Advances element) :
    Progresses (separatedPass element) := by
  refine advances.progresses fun collected next state found after ends => ?_
  rcases bind_eq_ok ends with ⟨isEaten, middle, eats, returns⟩
  have isSame : after = middle := by cases isEaten <;> cases returns <;> rfl
  subst isSame
  rcases eat_cases Symbol.comma state with stays | ⟨token, rest, isNext, takes⟩
  · rw [stays] at eats
    cases eats
    exact List.suffix_rfl
  · rw [takes] at eats
    cases eats
    rw [isNext]
    exact List.suffix_cons token rest

theorem Advances.separatedUpToPass {element : Parser α} (advances : Advances element)
    (close : Terminal) : Progresses (separatedUpToPass close element) := by
  intro collected state found after ends
  simp only [Parser.separatedUpToPass, Bind.bind, EStateM.bind, check_eq] at ends
  split at ends
  · cases ends
    exact ⟨[], rfl, False.elim⟩
  · exact advances.separatedPass collected state found after ends

theorem Progresses.iterate {pass : α → Parser (Pass α)} (progresses : Progresses pass)
    {bound : Nat} {start result : α} {state after : ParserState}
    (ends : Parser.iterate pass bound start state = .ok result after) :
    after.tokens <:+ state.tokens := by
  induction bound generalizing start state with
  | zero => cases ends
  | succ bound ih =>
    rcases bind_eq_ok ends with ⟨found, middle, reads, goesOn⟩
    rcases progresses start state found middle reads with ⟨taken, whole, _⟩
    have isSuffix : middle.tokens <:+ state.tokens := ⟨taken, whole.symm⟩
    cases found with
    | done collected =>
      cases goesOn
      exact isSuffix
    | more collected => exact (ih goesOn).trans isSuffix

end Progress

end Parser

namespace Grammar

open PhpScript.Parser

/-- The loops of the grammar, by what one pass of each does. -/
inductive IsPass (grammar : Grammar) : {α : Type} → (α → Parser (Pass α)) → Prop
  | program : IsPass grammar grammar.programPass
  | statements (ends : List Terminal) : IsPass grammar (grammar.statementsPass ends)
  | branches : IsPass grammar (grammar.branchPass fun _ => grammar.statement)
  | branchesUpTo (ends : Bool → List Terminal) :
      IsPass grammar (grammar.branchPass fun isLast => do
        Parser.expect Symbol.colon
        grammar.bodyUpTo (ends isLast))
  | parameters : IsPass grammar (separatedUpToPass Symbol.rightParen grammar.parameter)
  | arguments : IsPass grammar (separatedUpToPass Symbol.rightParen grammar.expression)
  | arrayItems (close : Symbol) : IsPass grammar (separatedUpToPass close grammar.arrayItem)
  | expressions : IsPass grammar (separatedPass grammar.expression)
  | constants : IsPass grammar (separatedPass grammar.constantItem)
  | globals : IsPass grammar (separatedPass variableName)
  | types : IsPass grammar typePass
  | suffixes (start : Span) : IsPass grammar (grammar.suffixPass start)
  | choices : IsPass grammar grammar.choicePass
  | words (level : Token → Option BinaryOperator)
      (tighter : List (Token → Option BinaryOperator)) :
      IsPass grammar (operatorPass level (levels (grammar.bound + 1) grammar.choiceStep tighter))
  | symbols (level : Token → Option BinaryOperator)
      (tighter : List (Token → Option BinaryOperator)) :
      IsPass grammar (operatorPass level (levels (grammar.bound + 1) grammar.unaryStep tighter))

theorem progresses_operatorPass {operand : Parser (Located Expr)} (advances : Advances operand)
    (operator? : Token → Option BinaryOperator) : Progresses (operatorPass operator? operand) := by
  rintro left ⟨_ | ⟨token, rest⟩, _, _, _⟩ found after ends
  · cases ends
    exact ⟨[], rfl, False.elim⟩
  · simp only [operatorPass, Bind.bind, EStateM.bind, peek_eq, ParserState.kinds, List.map_cons,
      List.head?_cons, Option.bind_some] at ends
    cases isOperator : operator? token.node with
    | none =>
      rw [isOperator] at ends
      cases ends
      exact ⟨[], rfl, False.elim⟩
    | some operator =>
      rw [isOperator] at ends
      rcases bind_eq_ok ends with ⟨_, _, moves, ends⟩
      cases moves
      rcases bind_eq_ok ends with ⟨right, middle, reads, returns⟩
      cases returns
      rcases advances _ _ _ reads with ⟨taken, _, whole⟩
      exact ⟨token :: taken, congrArg (token :: ·) whole, fun _ => List.cons_ne_nil _ _⟩

theorem advances_levels {operand : Parser (Located Expr)} (advances : Advances operand)
    (bound : Nat) (operators : List (Token → Option BinaryOperator)) :
    Advances (levels bound operand operators) := by
  induction operators with
  | nil => exact advances
  | cons level tighter ih =>
    intro state value after ends
    rcases bind_eq_ok ends with ⟨first, middle, reads, goesOn⟩
    rcases ih state first middle reads with ⟨taken, nonempty, whole⟩
    rcases (progresses_operatorPass ih level).iterate goesOn with ⟨more, rest⟩
    refine ⟨taken ++ more, List.append_ne_nil_of_left_ne_nil nonempty more, ?_⟩
    rw [whole, ← rest, List.append_assoc]

theorem IsPass.progresses {grammar : Grammar} {limit : Nat}
    (nested : grammar.Proceeds grammar limit) {α : Type} {pass : α → Parser (Pass α)}
    (isPass : grammar.IsPass pass) : Progresses pass := by
  cases isPass with
  | program =>
    intro collected state found after ends
    rcases programPass_eq_ok ends with ⟨rfl, rfl, _⟩ | ⟨statement, rfl, reads⟩
    · exact ⟨[], rfl, False.elim⟩
    · rcases nested.statement.advances state statement after reads with ⟨taken, nonempty, whole⟩
      exact ⟨taken, whole, fun _ => nonempty⟩
  | statements ends =>
    exact (gathers_statementsPass nested (fun _ has => has) ends 0 []).progresses fun _ => rfl
  | branches =>
    have bodies (_ : Bool) (earlier : List Node) : GathersOn 0 limit earlier grammar.statement
        grammar.statement (fun code => earlier ++ [.statement code]) Stmt.Alike :=
      nested.statement.gathers.may (Nat.le_refl limit)
    exact (gathers_branchPass nested 0 [] bodies).progresses fun _ => ⟨rfl, rfl, Nat.zero_le _⟩
  | branchesUpTo ends =>
    have bodies (isLast : Bool) (earlier : List Node) : Gathers 0 limit Anything .taken earlier
        (do Parser.expect Symbol.colon; grammar.bodyUpTo (ends isLast))
        (do Parser.expect Symbol.colon; grammar.bodyUpTo (ends isLast)) (fun _ => False) .ahead
        (fun code => earlier ++ [.statement code]) Stmt.Alike :=
      .expecting (gathers_bodyUpTo nested _)
    exact (gathers_branchPass nested 0 [] bodies).progresses fun _ => ⟨rfl, rfl, Nat.zero_le _⟩
  | parameters => exact (adds_parameter nested).advances.separatedUpToPass _
  | arguments => exact nested.expression.advances.separatedUpToPass _
  | arrayItems close => exact (adds_arrayItem nested).advances.separatedUpToPass _
  | expressions => exact nested.expression.advances.separatedPass
  | constants => exact (adds_constantItem nested).advances.separatedPass
  | globals => exact (@adds_variableName 0).advances.separatedPass
  | types => exact (@gathers_typePass 0 0 [] 0).progresses fun _ => ⟨rfl, Nat.zero_le _⟩
  | suffixes start =>
    exact (gathers_suffixPass nested start start False).progresses fun _ => ⟨rfl, False.elim⟩
  | choices => exact (gathers_choicePass nested 0 []).progresses fun _ => rfl
  | words level tighter =>
    have choices := (adds_choiceStep nested).advances
    exact progresses_operatorPass (advances_levels choices _ tighter) level
  | symbols level tighter =>
    exact progresses_operatorPass (advances_levels (adds_unaryStep nested).advances _ tighter) level

/-- Reading comes to an end on all tokens and text literals, and a program is read from all of the
tokens. -/
theorem reading_ends :
    (∀ depth, Advances (ofDepth depth).statement ∧ Advances (ofDepth depth).expression ∧
      Advances (ofDepth depth).parameter) ∧
    (∀ bound, Advances (typeHint bound)) ∧
    (∀ depth {α : Type} (pass : α → Parser (Pass α)), (ofDepth depth).IsPass pass →
      Progresses pass) ∧
    (∀ segments bytes offset character rest, ∃ written after,
      Segment.Passes segments bytes offset (character :: rest) written after) ∧
    (∀ raw offset, ∀ segment ∈ (Segment.split raw offset).1, segment.IsIn offset raw.toList ∧
      ∀ code ∈ segment.code?, code.length < raw.length) ∧
    (∀ passed depth quoting character rest,
      Segment.Counts passed depth quoting character rest) ∧
    (∀ text, (Segment.takeBraced? [] 0 .outside text = none →
        Segment.NeverBelow 0 .outside text) ∧
      ∀ inner, Segment.takeBraced? [] 0 .outside text = some inner →
        inner <+: text ∧ Segment.NeverBelow 0 .outside inner) ∧
    (∀ depth state statements after,
      (ofDepth depth).program state = .ok statements after → after.tokens = []) ∧
    ∀ filename source nextId tokens,
      (Program.ofTokens filename source nextId tokens).1 ≠ .error .exhausted := by
  refine ⟨fun depth => ?_, fun bound => ?_, ?_,
    Segment.exists_passes, ?_, Segment.counts_takeBraced?,
    fun text => ⟨Segment.neverBelow_of_takeBraced?_eq_none, ?_⟩, ?_, ofTokens_ne_exhausted⟩
  · have nested := proceeds_ofDepth (Nat.le_refl depth)
    exact ⟨nested.statement.advances, nested.expression.advances, (adds_parameter nested).advances⟩
  · have gathers : Gathers 0 _ Anything .ahead [] (typeHint bound) (typeHint bound) _ _ _ _ :=
      gathers_typeHint (Nat.zero_le bound) (Nat.le_refl bound)
    exact gathers.advances
  · intro depth α pass isPass
    exact isPass.progresses (proceeds_ofDepth (Nat.le_refl depth))
  · intro raw offset segment isMember
    have isIn := Segment.mem_split isMember
    exact ⟨isIn, fun code isCode => isIn.length_lt isCode⟩
  · intro inner isFound
    rcases Segment.takeBraced?_eq_some isFound with ⟨inner, rest, rfl, rfl, never⟩
    exact ⟨List.prefix_append _ _, never⟩
  · intro depth state statements after ends
    exact tokens_of_program ends

end Grammar

end PhpScript
