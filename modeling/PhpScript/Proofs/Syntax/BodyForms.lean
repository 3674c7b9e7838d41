import PhpScript.Proofs.Syntax.Progress
import PhpScript.Proofs.Syntax.Reading

/-!
# The two forms of a body

The body of a choice or a loop stands between braces, or between a colon and a closing word. What is
read as statements on its own is read as the same statements in either form, and the heading in
front of the body is read alike. No statement begins with a token that closes a body, so the
statements of a body end where they end on their own.
-/

namespace PhpScript

/-- The next token is a given one, or there is none. -/
def Token.HeadIs (found : Option Token) (tokens : List Token) : Prop := tokens.head? = found

namespace Parser

open PhpScript.Token

variable {α β : Type}

/-! ## Parsers that refuse -/

/-- A parser that reads nothing in front of admitted tokens. -/
structure Refuses (next : List Token → Prop) (parser : Parser α) : Prop where
  ne_ok : ∀ {state value after}, next state.kinds → parser state ≠ .ok value after

namespace Refuses

variable {next : List Token → Prop} {parser : Parser β} {second : β → Parser α}
  {found : Option Token} {terminal : Terminal}

theorem faults {parser : Parser α} (faults : Faults parser) : Refuses next parser where
  ne_ok {state value after} _ ends := by
    rcases faults state with ⟨fault, fails⟩
    rw [fails] at ends
    cases ends

theorem throw (stop : Stop) : Refuses next (MonadExcept.throw stop : Parser α) where
  ne_ok _ ends := by cases ends

theorem bind (refuses : Refuses next parser) : Refuses next (parser >>= second) where
  ne_ok {state value after} admitted ends := by
    rcases bind_eq_ok ends with ⟨found, middle, reads, _⟩
    exact refuses.ne_ok admitted reads

theorem looking (looks : Looks parser) (rest : ∀ value, Refuses next (second value)) :
    Refuses next (parser >>= second) where
  ne_ok {state value after} admitted ends := by
    rcases looks.bind_eq second state with ⟨seen, same⟩
    exact (rest seen).ne_ok admitted (same ▸ ends)

theorem peek {second : Option Token → Parser α} (rest : Refuses (HeadIs found) (second found)) :
    Refuses (HeadIs found) (Parser.peek >>= second) where
  ne_ok {state value after} isNext ends := by
    have isFound : state.tokens.head?.map Located.node = found := by
      rw [← isNext, ParserState.kinds, List.head?_map]
    subst isFound
    exact rest.ne_ok isNext ends

end Refuses

end Parser

namespace Terminal

/-- The token that a terminal accepts. -/
def token : Terminal → Token
  | .word keyword => .keyword keyword
  | .mark symbol => .symbol symbol

theorem eq_token_of_accepts {terminal : Terminal} {token : Token}
    (accepts : terminal.accepts token = true) : token = terminal.token := by
  cases terminal with
  | word keyword =>
    cases token with
    | keyword found => exact congrArg Token.keyword (of_decide_eq_true accepts)
    | _ => cases accepts
  | mark symbol =>
    cases token with
    | symbol found => exact congrArg Token.symbol (of_decide_eq_true accepts)
    | _ => cases accepts

end Terminal

/-- The end of the tokens, or a token that no statement begins with since it closes a body or
begins a branch. -/
inductive Token.IsStop : Option Token → Prop
  | ended : IsStop none
  | rightBrace : IsStop (some (.symbol .rightBrace))
  | elseIf : IsStop (some (.keyword .kwElseIf))
  | otherwise : IsStop (some (.keyword .kwElse))
  | endIf : IsStop (some (.keyword .kwEndIf))
  | endWhile : IsStop (some (.keyword .kwEndWhile))
  | endFor : IsStop (some (.keyword .kwEndFor))
  | endForeach : IsStop (some (.keyword .kwEndForeach))

namespace Grammar

open PhpScript.Parser PhpScript.Token

/-! ## Where no statement begins -/

section Stops

variable (self : Grammar) {found : Option Token} (stop : IsStop found)
include stop

theorem refuses_primary : Refuses (HeadIs found) self.primary := by
  refine .looking looks_here fun _ => .peek ?_
  cases stop <;>
    exact .faults (.bind .unexpected)

theorem refuses_power : Refuses (HeadIs found) self.power :=
  .bind (.looking looks_here fun _ => .bind (refuses_primary self stop))

theorem refuses_castAhead {second : Option CastType → Parser (Located Expr)}
    (refuses : Refuses (HeadIs found) (second none)) :
    Refuses (HeadIs found) (castAhead >>= second) where
  ne_ok {state _ _} isNext ends := by
    have noCast : cast? state.kinds = none := by
      have noParen : found.any (·.isSymbol .leftParen) = false := by cases stop <;> rfl
      rw [cast?, isNext, noParen]
      rfl
    simp only [Bind.bind, EStateM.bind, castAhead_eq, noCast] at ends
    exact refuses.ne_ok isNext ends

theorem refuses_unaryStep : Refuses (HeadIs found) self.unaryStep := by
  have power := refuses_power self stop
  refine .looking looks_here fun _ => .peek ?_
  cases stop with
  | ended => exact .faults .unexpected
  | rightBrace => exact refuses_castAhead .rightBrace power
  | elseIf => exact refuses_castAhead .elseIf power
  | otherwise => exact refuses_castAhead .otherwise power
  | endIf => exact refuses_castAhead .endIf power
  | endWhile => exact refuses_castAhead .endWhile power
  | endFor => exact refuses_castAhead .endFor power
  | endForeach => exact refuses_castAhead .endForeach power

omit stop in
theorem refuses_levels {operand : Parser (Located Expr)}
    (refuses : Refuses (HeadIs found) operand) (bound : Nat)
    (operators : List (Token → Option BinaryOperator)) :
    Refuses (HeadIs found) (levels bound operand operators) := by
  induction operators with
  | nil => exact refuses
  | cons level tighter ih => exact .bind ih

theorem refuses_choiceStep : Refuses (HeadIs found) self.choiceStep :=
  .bind (.bind (refuses_levels (refuses_unaryStep self stop) _ _))

theorem refuses_expressionStatement : Refuses (HeadIs found) self.expressionStatement :=
  .bind (refuses_levels (refuses_choiceStep self stop) _ _)

theorem refuses_statementStep : Refuses (HeadIs found) self.statementStep := by
  have expression := refuses_expressionStatement self stop
  refine .looking looks_here fun _ => .peek ?_
  cases stop with
  | ended => exact .faults (.bind .unexpected)
  | rightBrace | elseIf | otherwise | endIf | endWhile | endFor | endForeach =>
    exact .bind expression

end Stops

theorem refuses_statement_ofDepth (depth : Nat) {found : Option Token} (stop : IsStop found) :
    Refuses (HeadIs found) (ofDepth depth).statement := by
  cases depth with
  | zero => exact .throw _
  | succ depth =>
    constructor
    intro state value after isNext
    exact (refuses_statementStep (ofDepth depth) stop).ne_ok isNext

end Grammar

/-! ## Reading known tokens -/

namespace Parser

open PhpScript.Token

variable {α β : Type}

theorem head_of_expect {terminal : Terminal} {second : Unit → Parser α} {state after : ParserState}
    {value : α} (reads : (Parser.expect terminal >>= second) state = .ok value after) :
    state.kinds.head? = some terminal.token := by
  rcases state with ⟨_ | ⟨token, rest⟩, _, _, _⟩
  · cases reads
  · cases accepts : terminal.accepts token.node with
    | true => exact congrArg some (Terminal.eq_token_of_accepts accepts)
    | false =>
      simp only [Parser.expect, Bind.bind, EStateM.bind, eat_cons, accepts] at reads
      cases reads

/-- In front of some tokens, wherever they stand, a parser reads a value of some kind and leaves
some of the tokens and a next number. -/
def Gives (tokens : List Token) (nextId : Nat) (parser : Parser α) (holds : α → Prop)
    (left : List Token) (next : Nat) : Prop :=
  ∀ state : ParserState, state.kinds = tokens → state.nextId = nextId →
    ∃ value after, parser state = .ok value after ∧ holds value ∧ after.kinds = left ∧
      after.nextId = next

namespace Gives

variable {tokens middle left : List Token} {nextId middleId next : Nat} {parser : Parser β}
  {second : β → Parser α} {holds : α → Prop} {wanted : β → Prop} {terminal : Terminal}
  {token : Token}

theorem pure {value : α} (valid : holds value) :
    Gives tokens nextId (Pure.pure value) holds tokens nextId :=
  fun state isFront isNext => ⟨value, state, rfl, valid, isFront, isNext⟩

theorem bind (first : Gives tokens nextId parser wanted middle middleId)
    (rest : ∀ value, wanted value → Gives middle middleId (second value) holds left next) :
    Gives tokens nextId (parser >>= second) holds left next := by
  intro state isFront isNext
  rcases first state isFront isNext with ⟨value, after, reads, valid, isMiddle, isMiddleId⟩
  rcases rest value valid after isMiddle isMiddleId with ⟨last, final, readsLast, found⟩
  refine ⟨last, final, ?_, found⟩
  simp only [Bind.bind, EStateM.bind, reads, readsLast]

theorem mono {wider : α → Prop} {parser : Parser α}
    (gives : Gives tokens nextId parser holds left next)
    (widens : ∀ value, holds value → wider value) : Gives tokens nextId parser wider left next := by
  intro state isFront isNext
  rcases gives state isFront isNext with ⟨value, after, reads, valid, found⟩
  exact ⟨value, after, reads, widens value valid, found⟩

theorem of_looks (looks : Looks parser) :
    Gives tokens nextId parser (fun _ => True) tokens nextId := by
  intro state isFront isNext
  rcases looks state with ⟨value, reads⟩
  exact ⟨value, state, reads, trivial, isFront, isNext⟩

theorem looking (looks : Looks parser)
    (rest : ∀ value, Gives tokens nextId (second value) holds left next) :
    Gives tokens nextId (parser >>= second) holds left next :=
  bind (of_looks looks) fun value _ => rest value

theorem peek {second : Option Token → Parser α}
    (rest : Gives tokens nextId (second tokens.head?) holds left next) :
    Gives tokens nextId (Parser.peek >>= second) holds left next := by
  intro state isFront isNext
  rcases rest state isFront isNext with ⟨last, final, readsLast, found⟩
  refine ⟨last, final, ?_, found⟩
  simp only [Bind.bind, EStateM.bind, peek_eq, isFront, readsLast]

theorem of_reads {parser : Parser α} {follows : Option Token → Prop}
    (reads : Reads parser tokens follows holds) (admitted : follows left.head?) :
    Gives (tokens ++ left) nextId parser holds left nextId := by
  intro state isFront isNext
  rcases List.map_eq_append_iff.mp isFront with ⟨located, rest, isState, areTokens, areLeft⟩
  rw [← areLeft, List.head?_map] at admitted
  rcases reads state located rest isState areTokens admitted with ⟨value, stop, ends, valid⟩
  exact ⟨value, _, ends, valid, areLeft, isNext⟩

theorem eat_true (accepts : terminal.accepts token = true) :
    Gives (token :: tokens) nextId (Parser.eat terminal) (· = true) tokens nextId :=
  of_reads (reads_eat accepts : Reads _ _ (fun _ => True) _) trivial

theorem eat_false (refuses : tokens.head?.any terminal.accepts = false) :
    Gives tokens nextId (Parser.eat terminal) (· = false) tokens nextId :=
  of_reads reads_eat_of_other refuses

theorem expect (accepts : terminal.accepts token = true) :
    Gives (token :: tokens) nextId (Parser.expect terminal) (fun _ => True) tokens nextId :=
  of_reads (reads_expect accepts : Reads _ _ (fun _ => True) _) trivial

theorem advance : Gives (token :: tokens) nextId Parser.advance (fun _ => True) tokens nextId :=
  of_reads (reads_advance : Reads _ [token] (fun _ => True) _) trivial

theorem atEnd : Gives tokens nextId Parser.atEnd (· = tokens.isEmpty) tokens nextId := by
  intro state isFront isNext
  refine ⟨state.tokens.isEmpty, state, rfl, ?_, isFront, isNext⟩
  rw [← isFront, ParserState.kinds, List.isEmpty_map]

theorem of_gathers {low limit : Nat} {before behind : Edge} {earlier : List Node}
    {moves : α → Prop} {nodes : α → List Node} {related : α → α → Prop} {parser longer : Parser α}
    {rest : List Token} {state after : ParserState} {value : α}
    (gathers : Gathers low limit Anything before earlier parser longer moves behind nodes related)
    (reads : parser state = .ok value after) (isOver : after.tokens = [])
    (border : ∀ token ∈ rest.head?, token.IsBorder) :
    Gives (state.kinds ++ rest) state.nextId longer (related value) rest after.nextId := by
  intro extended isFront isNext
  rcases (gathers.of_ok trivial reads).2.2.2 ⟨isFront, isNext, border⟩ with
    ⟨other, final, readsOther, valid, continues⟩
  refine ⟨other, final, readsOther, valid, ?_, continues.nextId⟩
  rw [continues.kinds, ParserState.kinds, isOver]
  rfl

end Gives

end Parser

namespace Grammar

open PhpScript.Parser PhpScript.Token

/-! ## Bodies -/

section Bodies

variable {shorter longer : Grammar} {limit : Nat} (nested : shorter.Proceeds longer limit)
  {ends : List Terminal} {closer : Token} {more : List Token}
  {collected others : List (Located Stmt)} {state extended after : ParserState}
include nested

theorem exists_statementsPass (closes : ends.any (·.accepts closer) = true)
    (refuses : ∀ token, ends.any (·.accepts token) = true →
      Refuses (HeadIs (some token)) shorter.statement)
    (same : AlikeStatements collected others) {pass : Pass (List (Located Stmt))}
    (continues : state.Continues (closer :: more) extended)
    (reads : shorter.programPass collected state = .ok pass after) :
    ∃ other behind, longer.statementsPass ends others extended = .ok other behind ∧
      pass.Both AlikeStatements other ∧
      after.Continues (closer :: more) behind := by
  rcases state with ⟨_ | ⟨token, tokens⟩, _, _, _⟩
  · cases reads
    refine ⟨.done others, extended, ?_, same, continues⟩
    have isCloser : extended.kinds.head? = some closer := congrArg List.head? continues.kinds
    simp only [statementsPass, Bind.bind, EStateM.bind, peek_eq, isCloser, closes]
    rfl
  · have isToken : extended.kinds.head? = some token.node := congrArg List.head? continues.kinds
    have goesOn : ends.any (·.accepts token.node) = false := by
      refine Bool.eq_false_iff.mpr fun isEnd => ?_
      have refused : Refuses (HeadIs (some token.node))
          (do return Pass.more ((← shorter.statement) :: collected)) :=
        .bind (refuses token.node isEnd)
      exact refused.ne_ok (by rfl) reads
    have another := @gathers_another _ _ _ nested 0 .ahead [] collected others Anything
      (fun _ => True) same
    simp only [statementsPass, Bind.bind, EStateM.bind, peek_eq, isToken, goesOn]
    exact (another.of_ok trivial reads).2.2.2 continues

theorem exists_iterate_statementsPass (closes : ends.any (·.accepts closer) = true)
    (refuses : ∀ token, ends.any (·.accepts token) = true →
      Refuses (HeadIs (some token)) shorter.statement) {bound boundOther : Nat}
    (enough : bound ≤ boundOther) {result : List (Located Stmt)}
    (same : AlikeStatements collected others)
    (continues : state.Continues (closer :: more) extended)
    (reads : Parser.iterate shorter.programPass bound collected state = .ok result after) :
    ∃ other behind,
      Parser.iterate (longer.statementsPass ends) boundOther others extended = .ok other behind ∧
      AlikeStatements result other ∧ after.Continues (closer :: more) behind := by
  induction bound generalizing boundOther collected others state extended with
  | zero => cases reads
  | succ bound ih =>
    cases boundOther with
    | zero => omega
    | succ boundOther =>
      rcases bind_eq_ok reads with ⟨pass, middle, readsPass, reads⟩
      rcases exists_statementsPass nested closes refuses same continues readsPass with
        ⟨passOther, middleOther, readsOther, samePass, goesOn⟩
      simp only [Parser.iterate, Bind.bind, EStateM.bind, readsOther]
      cases pass with
      | done found =>
        cases passOther with
        | more _ => cases samePass
        | done foundOther =>
          cases reads
          exact ⟨foundOther, middleOther, rfl, samePass, goesOn⟩
      | more found =>
        cases passOther with
        | done _ => cases samePass
        | more foundOther => exact ih (by omega) samePass goesOn reads

end Bodies

section Forms

variable {self : Grammar} {bodyDepth depth : Nat} {state after : ParserState}
  {statements : List (Located Stmt)} {more tokens : List Token} {ends : List Terminal}

theorem gives_statementsUpTo (reads : (ofDepth bodyDepth).program state = .ok statements after)
    (isLess : bodyDepth ≤ depth) {closer : Token} (border : closer.IsBorder)
    (closes : ends.any (·.accepts closer) = true)
    (stops : ∀ terminal ∈ ends, IsStop (some terminal.token)) :
    Gives (state.kinds ++ closer :: more) state.nextId ((ofDepth depth).statementsUpTo ends)
      (AlikeStatements statements) (closer :: more) after.nextId := by
  intro extended isFront isNext
  have isOver := tokens_of_program reads
  have nested := proceeds_ofDepth isLess
  have continues : state.Continues (closer :: more) extended :=
    ⟨isFront, isNext, by rintro _ ⟨⟩; exact border⟩
  have refuses (token : Token) (isEnd : ends.any (·.accepts token) = true) :
      Refuses (HeadIs (some token)) (ofDepth bodyDepth).statement := by
    rcases List.any_eq_true.mp isEnd with ⟨terminal, isTerminal, accepts⟩
    rw [Terminal.eq_token_of_accepts accepts]
    exact refuses_statement_ofDepth bodyDepth (stops terminal isTerminal)
  rcases bind_eq_ok reads with ⟨collected, final, readsLoop, returns⟩
  cases returns
  rcases exists_iterate_statementsPass nested closes refuses (Nat.le_succ_of_le nested.bound) rfl
    continues readsLoop with ⟨others, behind, readsOther, same, goesOn⟩
  refine ⟨others.reverse, behind, ?_, ?_, ?_, goesOn.nextId⟩
  · simp only [statementsUpTo, Bind.bind, EStateM.bind, readsOther]
    rfl
  · rw [AlikeStatements, List.map_reverse, List.map_reverse, same]
  · rw [goesOn.kinds, ParserState.kinds, isOver]
    rfl

theorem gives_locate {nextId : Nat} {start : Span} {node expected : Stmt}
    (same : node.bare = expected.bare) :
    Gives tokens nextId (locate start node) (fun found => found.node.bare = expected.bare) tokens
      nextId :=
  .looking (looks_spanFrom _) fun _ => .pure same

theorem gives_bodyUpTo (reads : (ofDepth bodyDepth).program state = .ok statements after)
    (isLess : bodyDepth ≤ depth) {closer : Token} (border : closer.IsBorder)
    (closes : ends.any (·.accepts closer) = true)
    (stops : ∀ terminal ∈ ends, IsStop (some terminal.token)) :
    Gives (state.kinds ++ closer :: more) state.nextId ((ofDepth depth).bodyUpTo ends)
      (fun body => body.node.bare = (Stmt.block statements).bare) (closer :: more)
      after.nextId := by
  refine .looking looks_here fun _ =>
    .bind (gives_statementsUpTo reads isLess border closes stops) fun others same => ?_
  exact gives_locate (by simp [Stmt.bare, same])

theorem gives_braces (reads : (ofDepth bodyDepth).program state = .ok statements after)
    (isLess : bodyDepth ≤ depth) :
    Gives (.symbol .leftBrace :: (state.kinds ++ .symbol .rightBrace :: more)) state.nextId
      (ofDepth depth).statementStep (fun body => body.node.bare = (Stmt.block statements).bare)
      more after.nextId := by
  have stops : ∀ terminal ∈ [Terminal.mark .rightBrace], IsStop (some terminal.token) :=
    List.forall_mem_singleton.mpr .rightBrace
  refine .looking looks_here fun _ => .peek (.bind .advance fun _ _ => ?_)
  have rest : Gives (state.kinds ++ .symbol .rightBrace :: more) state.nextId
      (ofDepth depth).blockRest (AlikeStatements statements) more after.nextId :=
    .bind (gives_statementsUpTo reads isLess .rightBrace rfl stops) fun others same =>
      .bind .advance fun _ _ => .pure same
  refine .bind rest fun others same => ?_
  have isSame : (Stmt.block others).bare = (Stmt.block statements).bare := by
    simp [Stmt.bare, same]
  exact gives_locate isSame

theorem gives_otherBranches {nextId : Nat}
    (noElseIf : tokens.head?.any (Terminal.word .kwElseIf).accepts = false)
    (noElse : tokens.head?.any (Terminal.word .kwElse).accepts = false)
    (body : Bool → Parser (Located Stmt)) (first : Branch Stmt) :
    Gives tokens nextId (self.otherBranches body first) (· = .choice [first] none) tokens
      nextId := by
  have passes : Gives tokens nextId (self.branchPass body ([first], none))
      (· = .done ([first], none)) tokens nextId := by
    refine .bind (.eat_false noElseIf) ?_
    rintro _ rfl
    refine .bind (.eat_false noElse) ?_
    rintro _ rfl
    exact .pure rfl
  have reads : Gives tokens nextId
      (Parser.iterate (self.branchPass body) (self.bound + 1) ([first], none))
      (· = ([first], none)) tokens nextId := by
    refine .bind passes ?_
    rintro _ rfl
    exact .pure rfl
  refine .bind reads ?_
  rintro _ rfl
  exact .pure rfl

end Forms

end Grammar

namespace HeadingKind

theorem isBorder_close (kind : HeadingKind) : Token.IsBorder (.keyword kind.close) := by
  cases kind <;> constructor

theorem isStop_close (kind : HeadingKind) : Token.IsStop (some (.keyword kind.close)) := by
  cases kind <;> constructor

end HeadingKind

namespace Grammar

open PhpScript.Parser PhpScript.Token

/-! ## Headings -/

variable {kind : HeadingKind} {state after : ParserState} {heading : Heading kind}

theorem nextId_of_heading {depth : Nat}
    (reads : (ofDepth depth).heading kind state = .ok heading after) :
    after.nextId = state.nextId := by
  have adds : Gathers 0 _ Anything .ahead [] ((ofDepth depth).heading kind) _ _ .taken _ _ :=
    (adds_heading (proceeds_ofDepth (Nat.le_refl depth)) kind).gathers
  have gathered := (adds.of_ok trivial reads).2.2.1 (state.gathered_nil 0 .ahead)
  have noneDeclared : Node.declarationsOf ([] ++ heading.nodes) = [] := by
    cases heading <;> simp [Heading.nodes]
  have numbered := gathered.numbered
  rw [noneDeclared] at numbered
  exact numbered.next

theorem head_of_heading {self : Grammar} (reads : self.heading kind state = .ok heading after) :
    state.kinds.head? = some (.keyword kind.keyword) := by
  cases kind <;> exact head_of_expect reads

end Grammar

/-! ## The two forms -/

/-- How a body is written. -/
inductive BodyForm where
  | braces | colons
deriving DecidableEq

def BodyForm.written (kind : HeadingKind) (body : List Token) : BodyForm → List Token
  | .braces => .symbol .leftBrace :: (body ++ [.symbol .rightBrace])
  | .colons => .symbol .colon :: (body ++ [.keyword kind.close, .symbol .semicolon])

namespace Grammar

open PhpScript.Parser PhpScript.Token

section Forms

variable {bodyDepth depth : Nat} {state after : ParserState} {statements : List (Located Stmt)}
  (reads : (ofDepth bodyDepth).program state = .ok statements after) (isLess : bodyDepth ≤ depth)
include reads isLess

theorem gives_loopBody (kind : HeadingKind) (form : BodyForm) :
    Gives (form.written kind state.kinds) state.nextId ((ofDepth (depth + 1)).loopBody kind.close)
      (fun body => body.node.bare = (Stmt.block statements).bare) [] after.nextId := by
  cases form with
  | braces =>
    refine .bind (.eat_false rfl) ?_
    rintro _ rfl
    exact gives_braces reads isLess
  | colons =>
    have closes : [Terminal.word kind.close].any (·.accepts (.keyword kind.close)) = true := by
      cases kind <;> rfl
    have stops : ∀ terminal ∈ [Terminal.word kind.close], IsStop (some terminal.token) :=
      List.forall_mem_singleton.mpr kind.isStop_close
    refine .bind (.eat_true rfl) ?_
    rintro _ rfl
    have border := kind.isBorder_close
    refine .bind (gives_bodyUpTo reads (Nat.le_succ_of_le isLess) border closes stops)
      fun body same => ?_
    exact .bind (.expect (by cases kind <;> rfl)) fun _ _ => .bind (.expect rfl) fun _ _ =>
      .pure same

theorem gives_choiceRest (condition : Located Expr) (form : BodyForm) :
    Gives (form.written .choice state.kinds) state.nextId
      ((ofDepth (depth + 1)).choiceRest condition)
      (fun statement => ∃ body : Located Stmt, body.node.bare = (Stmt.block statements).bare ∧
        statement = .choice [⟨condition, body⟩] none) [] after.nextId := by
  cases form with
  | braces =>
    refine .bind (.eat_false rfl) ?_
    rintro _ rfl
    refine .bind (gives_braces reads isLess) fun body same => ?_
    exact (gives_otherBranches rfl rfl _ _).mono fun _ isChoice => ⟨body, same, isChoice⟩
  | colons =>
    have stops : ∀ terminal ∈ [Terminal.word .kwElseIf, .word .kwElse, .word .kwEndIf],
        IsStop (some terminal.token) :=
      List.forall_mem_cons.mpr ⟨.elseIf, List.forall_mem_cons.mpr ⟨.otherwise,
        List.forall_mem_singleton.mpr .endIf⟩⟩
    refine .bind (.eat_true rfl) ?_
    rintro _ rfl
    refine .bind (gives_bodyUpTo reads (Nat.le_succ_of_le isLess) .endIf rfl stops)
      fun body same => ?_
    refine .bind (gives_otherBranches rfl rfl _ _) fun statement isChoice => ?_
    exact .bind (.expect rfl) fun _ _ => .bind (.expect rfl) fun _ _ =>
      .pure ⟨body, same, isChoice⟩

theorem gives_afterHeading {kind : HeadingKind} (heading : Heading kind) (form : BodyForm) :
    Gives (form.written kind state.kinds) state.nextId
      ((ofDepth (depth + 1)).afterHeading heading)
      (fun statement => statement.bare = (heading.statement ⟨.block statements, .nowhere⟩).bare) []
      after.nextId := by
  have loops : Gives (form.written kind state.kinds) state.nextId
      (do
        let body ← (ofDepth (depth + 1)).loopBody kind.close
        return heading.statement body)
      (fun statement => statement.bare = (heading.statement ⟨.block statements, .nowhere⟩).bare) []
      after.nextId :=
    .bind (gives_loopBody reads isLess kind form) fun _ same =>
      .pure (Heading.bare_statement_eq rfl same)
  cases heading with
  | choice condition =>
    refine (gives_choiceRest reads isLess condition form).mono ?_
    rintro _ ⟨body, same, rfl⟩
    exact Heading.bare_statement_eq (rfl : (Heading.choice condition).bare = _) same
  | whileLoop | forLoop | foreachLoop => exact loops

theorem gives_headed {kind : HeadingKind} {heading : Heading kind} {headingDepth : Nat}
    {front behind : ParserState}
    (readsHeading : (ofDepth headingDepth).heading kind front = .ok heading behind)
    (isOver : behind.tokens = []) (isLessHeading : headingDepth ≤ depth + 1)
    (sameId : front.nextId = state.nextId) (form : BodyForm) :
    Gives (front.kinds ++ form.written kind state.kinds) state.nextId
      (ofDepth (depth + 1)).statementStep
      (fun statement =>
        statement.node.bare = (heading.statement ⟨.block statements, .nowhere⟩).bare) []
      after.nextId := by
  have border : ∀ token ∈ (form.written kind state.kinds).head?, token.IsBorder := by
    cases form with
    | braces =>
      rintro _ ⟨⟩
      exact .leftBrace
    | colons =>
      rintro _ ⟨⟩
      exact .colon
  have keeps : behind.nextId = state.nextId :=
    (nextId_of_heading readsHeading).trans sameId
  have adds : Gathers 0 _ Anything .ahead [] _ _ _ .taken _ _ :=
    (adds_heading (proceeds_ofDepth isLessHeading) kind).gathers
  have headed := Gives.of_gathers adds readsHeading isOver border
  rw [keeps, sameId] at headed
  have reads : Gives (front.kinds ++ form.written kind state.kinds) state.nextId
      ((ofDepth (depth + 1)).keywordStatement kind.keyword)
      (fun statement => statement.bare = (heading.statement ⟨.block statements, .nowhere⟩).bare) []
      after.nextId := by
    rw [keywordStatement_eq]
    refine .bind headed fun other same => ?_
    refine (gives_afterHeading reads isLess other form).mono fun statement isStatement => ?_
    exact isStatement.trans (Heading.bare_statement_eq same.bare rfl)
  refine .looking looks_here fun _ => .peek ?_
  rw [List.head?_append, head_of_heading readsHeading]
  exact .bind reads fun _ same => gives_locate same

end Forms

theorem gives_program (self : Grammar) {first : Token} {tokens : List Token} {nextId next : Nat}
    {holds : Located Stmt → Prop}
    (reads : Gives (first :: tokens) nextId self.statement holds [] next)
    (enough : 2 ≤ self.bound) :
    Gives (first :: tokens) nextId self.program
      (fun statements => ∃ statement, statements = [statement] ∧ holds statement) [] next := by
  rcases Nat.exists_eq_add_of_le' enough with ⟨passes, isBound⟩
  have begins : Gives (first :: tokens) nextId (self.programPass [])
      (fun pass => ∃ statement, pass = .more [statement] ∧ holds statement) [] next := by
    refine .bind .atEnd ?_
    rintro _ rfl
    exact .bind reads fun statement valid => .pure ⟨statement, rfl, valid⟩
  have ends (statements : List (Located Stmt)) :
      Gives [] next (self.programPass statements) (· = .done statements) [] next := by
    refine .bind .atEnd ?_
    rintro _ rfl
    exact .pure rfl
  have loops : Gives (first :: tokens) nextId (Parser.iterate self.programPass (passes + 2) [])
      (fun statements => ∃ statement, statements = [statement] ∧ holds statement) [] next := by
    refine .bind begins ?_
    rintro _ ⟨statement, rfl, valid⟩
    refine .bind (ends [statement]) ?_
    rintro _ rfl
    exact .pure ⟨statement, rfl, valid⟩
  rw [program, isBound]
  refine .bind loops ?_
  rintro _ ⟨statement, rfl, valid⟩
  exact .pure ⟨statement, rfl, valid⟩

end Grammar

/-- The heading that tokens are read as. -/
def Heading.ofTokens? (kind : HeadingKind) (source : String) (nextId : Nat)
    (tokens : List (Located Token)) : Option (Heading kind) :=
  let stop := Text.byteLength source
  let state : ParserState := { tokens, endSpan := ⟨stop, stop⟩, nextId }
  match (Grammar.ofDepth (Token.totalWeight tokens + 1)).heading kind state with
  | .ok heading state => if state.tokens.isEmpty then some heading else none
  | .error _ _ => none

theorem Heading.of_ofTokens? {kind : HeadingKind} {source : String} {nextId : Nat}
    {tokens : List (Located Token)} {heading : Heading kind}
    (reads : ofTokens? kind source nextId tokens = some heading) :
    ∃ (front behind : ParserState),
      (Grammar.ofDepth (Token.totalWeight tokens + 1)).heading kind front = .ok heading behind ∧
      front.kinds = tokens.map Located.node ∧ front.nextId = nextId ∧ behind.tokens = [] := by
  simp only [ofTokens?] at reads
  split at reads
  · rename_i found behind ends
    split at reads
    · rename_i isOver
      cases reads
      exact ⟨_, behind, ends, rfl, rfl, List.isEmpty_iff.mp isOver⟩
    · cases reads
  · cases reads

namespace Token

theorem totalWeight_eq_sum (tokens : List (Located Token)) :
    totalWeight tokens = ((tokens.map Located.node).map weight).sum + 2 := by
  rw [totalWeight_eq]
  induction tokens with
  | nil => rfl
  | cons token rest ih =>
    rw [weights]
    simp only [List.map_cons, List.sum_cons]
    omega

theorem sum_weight_written (kind : HeadingKind) (form : BodyForm) (body : List Token) :
    (body.map weight).sum + 2 ≤ ((form.written kind body).map weight).sum := by
  cases form <;>
    simp only [BodyForm.written, List.map_cons, List.map_append, List.map_nil, List.sum_cons,
      List.sum_append, List.sum_nil, weight] <;> omega

theorem totalWeight_lt_of_written {kind : HeadingKind} {form : BodyForm}
    {header body tokens : List (Located Token)} {first : Token} {rest : List Token}
    (begins : header.map Located.node = first :: rest)
    (isWritten : tokens.map Located.node =
      header.map Located.node ++ form.written kind (body.map Located.node)) :
    totalWeight header + 1 ≤ totalWeight tokens ∧ totalWeight body + 3 ≤ totalWeight tokens := by
  have isPositive := one_le_weight first
  have isGreater := sum_weight_written kind form (body.map Located.node)
  rw [totalWeight_eq_sum, totalWeight_eq_sum, totalWeight_eq_sum, isWritten, begins]
  simp only [List.map_append, List.sum_append, List.map_cons, List.sum_cons]
  omega

end Token

namespace Program

open PhpScript.Parser

theorem exists_program_of_ofTokens {filename source : String} {nextId next : Nat}
    {tokens : List (Located Token)} {program : Program}
    (reads : ofTokens filename source nextId tokens = (.ok program, next)) :
    ∃ (state after : ParserState),
      (Grammar.ofDepth (Token.totalWeight tokens + 1)).program state =
        .ok program.statements after ∧
      state.kinds = tokens.map Located.node ∧ state.nextId = nextId ∧ after.nextId = next := by
  simp only [ofTokens] at reads
  split at reads
  · rename_i statements after ends
    cases reads
    exact ⟨_, after, ends, rfl, rfl, rfl⟩
  · cases reads

theorem ofTokens_of_gives (filename source : String) {nextId next : Nat}
    {tokens : List (Located Token)} {holds : List (Located Stmt) → Prop}
    (gives : Gives (tokens.map Located.node) nextId
      (Grammar.ofDepth (Token.totalWeight tokens + 1)).program holds [] next) :
    ∃ statements, holds statements ∧ ofTokens filename source nextId tokens =
      (.ok ⟨filename, statements, .ofText source⟩, next) := by
  rcases gives ⟨tokens, 0, ⟨Text.byteLength source, Text.byteLength source⟩, nextId⟩ rfl rfl with
    ⟨statements, after, reads, valid, _, isNext⟩
  refine ⟨statements, valid, ?_⟩
  simp only [ofTokens, reads, isNext]

section Forms

variable {kind : HeadingKind} {heading : Heading kind} {header body : List (Located Token)}
  {program : Program} {headerSource bodyFile bodySource : String} {nextId next : Nat}

theorem exists_statement_of_written
    (readsHeader : Heading.ofTokens? kind headerSource nextId header = some heading)
    (readsBody : ofTokens bodyFile bodySource nextId body = (.ok program, next))
    (form : BodyForm) {tokens : List (Located Token)}
    (isWritten : tokens.map Located.node =
      header.map Located.node ++ form.written kind (body.map Located.node))
    (filename source : String) :
    ∃ statement : Located Stmt,
      statement.node.bare = (heading.statement ⟨.block program.statements, .nowhere⟩).bare ∧
      ofTokens filename source nextId tokens =
        (.ok ⟨filename, [statement], .ofText source⟩, next) := by
  rcases Heading.of_ofTokens? readsHeader with
    ⟨front, behind, readsHeading, areHeader, isFirst, isOver⟩
  rcases exists_program_of_ofTokens readsBody with ⟨state, after, reads, areBody, rfl, rfl⟩
  have begins := Grammar.head_of_heading readsHeading
  rw [areHeader, List.head?_eq_some_iff] at begins
  rcases begins with ⟨rest, begins⟩
  rcases Token.totalWeight_lt_of_written begins isWritten with ⟨isLessHeading, isLess⟩
  rcases Nat.exists_eq_add_of_le' (show 1 ≤ Token.totalWeight tokens by omega) with ⟨depth, isDepth⟩
  have headed := Grammar.gives_headed reads (show _ ≤ depth by omega) readsHeading isOver
    (by omega) isFirst form
  rw [areHeader, areBody, ← isWritten] at headed
  have isFront : tokens.map Located.node = .keyword kind.keyword ::
      (rest ++ form.written kind (body.map Located.node)) := by
    rw [isWritten, begins]
    rfl
  rw [isFront] at headed
  have enough : 2 ≤ (Grammar.ofDepth (depth + 1 + 1)).bound := show 2 ≤ depth + 1 by omega
  have whole := Grammar.gives_program _ headed enough
  rw [← isFront, ← isDepth] at whole
  rcases ofTokens_of_gives filename source whole with ⟨_, ⟨statement, rfl, same⟩, readsWhole⟩
  exact ⟨statement, same, readsWhole⟩

/-- A body between braces and the same body between a colon and the closing word are read after
every heading, take the same numbers for declarations and give the same statement up to places: the
one that the heading makes of the block of what the body is read as on its own. -/
theorem body_forms_agree
    (readsHeader : Heading.ofTokens? kind headerSource nextId header = some heading)
    (readsBody : ofTokens bodyFile bodySource nextId body = (.ok program, next))
    (braces colons : List (Located Token))
    (isBraces : braces.map Located.node = header.map Located.node ++
      .symbol .leftBrace :: (body.map Located.node ++ [.symbol .rightBrace]))
    (isColons : colons.map Located.node = header.map Located.node ++
      .symbol .colon :: (body.map Located.node ++ [.keyword kind.close, .symbol .semicolon]))
    (bracesFile bracesSource colonsFile colonsSource : String) :
    ∃ inBraces inColons : Located Stmt,
      ofTokens bracesFile bracesSource nextId braces =
        (.ok ⟨bracesFile, [inBraces], .ofText bracesSource⟩, next) ∧
      ofTokens colonsFile colonsSource nextId colons =
        (.ok ⟨colonsFile, [inColons], .ofText colonsSource⟩, next) ∧
      inColons.node.bare = inBraces.node.bare ∧
      inBraces.node.bare = (heading.statement ⟨.block program.statements, .nowhere⟩).bare := by
  rcases exists_statement_of_written readsHeader readsBody .braces isBraces bracesFile
    bracesSource with ⟨inBraces, sameBraces, readsBraces⟩
  rcases exists_statement_of_written readsHeader readsBody .colons isColons colonsFile
    colonsSource with ⟨inColons, sameColons, readsColons⟩
  exact ⟨inBraces, inColons, readsBraces, readsColons, sameColons.trans sameBraces.symm, sameBraces⟩

end Forms

def unplaced (tokens : List Token) : List (Located Token) := tokens.map (⟨·, .nowhere⟩)

def loopHeader : List Token :=
  [.keyword .kwWhile, .symbol .leftParen, .variable "a", .symbol .rightParen]

def emptyFunction : List Token :=
  [.keyword .kwFunction, .identifier "f", .symbol .leftParen, .symbol .rightParen,
    .symbol .leftBrace, .symbol .rightBrace]

theorem body_forms_agree_declaring :
    (Heading.ofTokens? .whileLoop "" 7 (unplaced loopHeader)).isSome ∧
      (ofTokens "" "" 7 (unplaced emptyFunction)).2 = 8 ∧
      ∃ inBraces inColons : Located Stmt,
        ofTokens "" "" 7
            (unplaced (loopHeader ++ BodyForm.braces.written .whileLoop emptyFunction)) =
          (.ok ⟨"", [inBraces], .ofText ""⟩, 8) ∧
        ofTokens "" "" 7
            (unplaced (loopHeader ++ BodyForm.colons.written .whileLoop emptyFunction)) =
          (.ok ⟨"", [inColons], .ofText ""⟩, 8) ∧
        inColons.node.bare = inBraces.node.bare := by
  have readsHeader : Heading.ofTokens? .whileLoop "" 7 (unplaced loopHeader) =
      some (.whileLoop ⟨.variable (.simple "a"), .nowhere⟩) := rfl
  have readsBody : ofTokens "" "" 7 (unplaced emptyFunction) =
      (.ok ⟨"", [⟨.function ⟨7, ⟨"f", .nowhere⟩, [], none, [], .nowhere⟩, .nowhere⟩], .ofText ""⟩,
        8) := rfl
  rcases body_forms_agree readsHeader readsBody
      (unplaced (loopHeader ++ BodyForm.braces.written .whileLoop emptyFunction))
      (unplaced (loopHeader ++ BodyForm.colons.written .whileLoop emptyFunction))
      rfl rfl "" "" "" "" with
    ⟨inBraces, inColons, readsBraces, readsColons, same, _⟩
  exact ⟨rfl, rfl, inBraces, inColons, readsBraces, readsColons, same⟩

end Program

end PhpScript
