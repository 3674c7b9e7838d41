import Mathlib.Data.List.Forall2
import PhpScript.Syntax.Program

/-!
# Reading tokens that were written

Tokens that spell an operand are read as this operand, wherever they stand and whatever was read
before, as long as a token follows that ends an operand. `Parser.Reads` says this of a parser; the
places of the tokens play no part in it. An operand is then read alike at every level of the
grammar.
-/

namespace PhpScript

namespace Parser

variable {α β : Type}

/-- A parser takes some tokens, if what follows them is admitted, and what it reads satisfies a
predicate. -/
def Reads (parser : Parser α) (tokens : List Token) (follows : Option Token → Prop)
    (holds : α → Prop) : Prop :=
  ∀ (state : ParserState) (located rest : List (Located Token)),
    state.tokens = located ++ rest → located.map Located.node = tokens →
      follows (rest.head?.map Located.node) →
        ∃ value stop, parser state = .ok value { state with tokens := rest, previousStop := stop } ∧
          holds value

namespace Reads

variable {tokens others : List Token} {follows between : Option Token → Prop} {holds : α → Prop}
  {expected : β → Prop} {parser : Parser β} {next : β → Parser α}

theorem mono {wider : α → Prop} {parser : Parser α} (reads : Reads parser tokens follows holds)
    (widens : ∀ value, holds value → wider value) : Reads parser tokens follows wider := by
  intro state located rest isNext areTokens admitted
  rcases reads state located rest isNext areTokens admitted with ⟨value, stop, ends, valid⟩
  exact ⟨value, stop, ends, widens value valid⟩

theorem before {narrower : Option Token → Prop} {parser : Parser α}
    (reads : Reads parser tokens follows holds) (admits : ∀ next, narrower next → follows next) :
    Reads parser tokens narrower holds :=
  fun state located rest isNext areTokens admitted =>
    reads state located rest isNext areTokens (admits _ admitted)

theorem looking {parser : Parser α}
    (looks : ∀ state : ParserState, follows (state.tokens.head?.map Located.node) →
      ∃ value, parser state = .ok value state ∧ holds value) : Reads parser [] follows holds := by
  intro state located rest isNext areTokens admitted
  cases List.map_eq_nil_iff.mp areTokens
  rw [List.nil_append] at isNext
  subst isNext
  rcases looks state admitted with ⟨value, ends, valid⟩
  exact ⟨value, state.previousStop, ends, valid⟩

theorem pure {value : α} (valid : holds value) :
    Reads (Pure.pure value : Parser α) [] follows holds :=
  .looking fun _ _ => ⟨value, rfl, valid⟩

theorem bind (first : Reads parser tokens between expected)
    (second : ∀ value, expected value → Reads (next value) others follows holds)
    (links : ∀ after, follows after → between (others.head?.or after)) :
    Reads (parser >>= next) (tokens ++ others) follows holds := by
  intro state located rest isNext areTokens admitted
  rcases List.map_eq_append_iff.mp areTokens with ⟨before, behind, rfl, areFirst, areOthers⟩
  have isBetween : between ((behind ++ rest).head?.map Located.node) := by
    have isLinked := links _ admitted
    rw [← areOthers] at isLinked
    cases behind <;> exact isLinked
  rw [List.append_assoc] at isNext
  rcases first state before (behind ++ rest) isNext areFirst isBetween with
    ⟨value, middle, ends, valid⟩
  rcases second value valid { state with tokens := behind ++ rest, previousStop := middle } behind
    rest rfl areOthers admitted with ⟨result, stop, endsThen, validThen⟩
  refine ⟨result, stop, ?_, validThen⟩
  simp only [Bind.bind, EStateM.bind, ends, endsThen]

theorem bind_taking (first : Reads parser tokens (fun _ => True) expected)
    (second : ∀ value, expected value → Reads (next value) others follows holds) :
    Reads (parser >>= next) (tokens ++ others) follows holds :=
  bind first second fun _ _ => trivial

theorem bind_whole (first : Reads parser tokens follows expected)
    (second : ∀ value, expected value → Reads (next value) [] follows holds) :
    Reads (parser >>= next) tokens follows holds := by
  rw [← List.append_nil tokens]
  exact bind first second fun _ admitted => admitted

theorem bind_looking (first : Reads parser [] between expected)
    (second : ∀ value, expected value → Reads (next value) tokens follows holds)
    (links : ∀ after, follows after → between (tokens.head?.or after)) :
    Reads (parser >>= next) tokens follows holds :=
  bind first second links

end Reads

section Terminals

variable {follows : Option Token → Prop} {terminal : Terminal} {token : Token}

theorem Reads.bind_here {α : Type} {next : Span → Parser α} {tokens : List Token}
    {holds : α → Prop} (second : ∀ start, Reads (next start) tokens follows holds) :
    Reads (here >>= next) tokens follows holds := by
  have looks : Reads here [] (fun _ => True) fun _ => True :=
    .looking fun _ _ => ⟨_, rfl, trivial⟩
  exact looks.bind_looking (fun start _ => second start) fun _ _ => trivial

theorem reads_peek (found : Option Token) : Reads peek [] (· = found) (· = found) :=
  .looking fun _ isNext => ⟨_, rfl, isNext⟩

theorem reads_check (answer : Bool) :
    Reads (check terminal) [] (fun next => next.any terminal.accepts = answer) (· = answer) :=
  .looking fun _ isNext => ⟨_, rfl, isNext⟩

theorem reads_advance : Reads advance [token] follows fun _ => True := by
  intro state located rest isNext areTokens _
  rcases List.map_eq_singleton_iff.mp areTokens with ⟨first, rfl, _⟩
  refine ⟨(), first.span.stop, ?_, trivial⟩
  rcases state with ⟨tokens, _, _, _⟩
  cases isNext
  rfl

theorem reads_eat (accepted : terminal.accepts token = true) :
    Reads (eat terminal) [token] follows (· = true) := by
  refine (reads_check true).bind_looking (fun answer isTrue => ?_) fun _ _ => by
    simpa using accepted
  subst isTrue
  exact reads_advance.bind_taking fun _ _ => .pure rfl

theorem reads_eat_of_other :
    Reads (eat terminal) [] (fun next => next.any terminal.accepts = false) (· = false) := by
  refine (reads_check false).bind_looking (fun answer isFalse => ?_) fun _ isOther => isOther
  subst isFalse
  exact .pure rfl

theorem reads_expect (accepted : terminal.accepts token = true) :
    Reads (expect terminal) [token] follows fun _ => True := by
  refine (reads_eat accepted).bind_taking fun answer isTrue => ?_
  subst isTrue
  exact .pure trivial

end Terminals

theorem reads_iterate_once {α : Type} {pass : α → Parser (Pass α)} {start : α}
    {tokens : List Token} {follows : Option Token → Prop} {holds : α → Prop} (bound : Nat)
    (reads : Reads (pass start) tokens follows fun pass => ∃ result, pass = .done result ∧
      holds result) : Reads (iterate pass (bound + 1) start) tokens follows holds := by
  refine reads.bind_whole ?_
  rintro _ ⟨result, rfl, valid⟩
  exact .pure valid

section Loops

variable {α β ι : Type} {written : ι → List Token} {follows between : Option Token → Prop}

theorem reads_iterate_between {pass : β → Parser (Pass β)} (reached : List ι → β → Prop)
    (done : List ι) {entries : List ι} {bound : Nat} {collected : β}
    (enough : entries.length < bound) (start : reached done collected)
    (more : ∀ entry ∈ entries, ∀ done collected, reached done collected →
      Reads (pass collected) (written entry) between fun pass =>
        ∃ longer, pass = .more longer ∧ reached (done ++ [entry]) longer)
    (last : ∀ collected, reached (done ++ entries) collected →
      Reads (pass collected) [] follows fun pass =>
        ∃ result, pass = .done result ∧ reached (done ++ entries) result)
    (begins : ∀ entry ∈ entries, ∀ next, between ((written entry).head?.or next))
    (links : ∀ next, follows next → between next) :
    Reads (iterate pass bound collected) (entries.flatMap written) follows
      (reached (done ++ entries)) := by
  -- The entries still to be read get fewer while `done` and what was collected for it grow.
  induction entries generalizing bound done collected with
  | nil =>
    rcases Nat.exists_eq_add_of_lt enough with ⟨passes, rfl⟩
    rw [List.append_nil] at last ⊢
    exact reads_iterate_once _ (last collected start)
  | cons entry entries ih =>
    rcases Nat.exists_eq_add_of_lt enough with ⟨passes, rfl⟩
    rcases List.forall_mem_cons.mp more with ⟨own, others⟩
    rcases List.forall_mem_cons.mp begins with ⟨_, othersBegin⟩
    rw [List.flatMap_cons]
    refine (own done collected start).bind ?_ fun next isNext => ?_
    · rintro _ ⟨longer, rfl, reachedLonger⟩
      rw [List.append_cons] at last ⊢
      refine ih _ ?_ reachedLonger others last othersBegin
      rw [List.length_cons]
      omega
    · cases entries with
      | nil => exact links next isNext
      | cons second rest =>
        rw [List.flatMap_cons, List.head?_append, Option.or_assoc]
        exact othersBegin second List.mem_cons_self _

end Loops

section Separated

variable {α ι : Type} {element : Parser α} {close : Terminal} {written : ι → List Token}
  {holds : ι → α → Prop}

theorem reads_separatedUpTo {entries : List ι} {token : Token} {follows : Option Token → Prop}
    {bound : Nat} (closes : close.accepts token = true) (enough : entries.length < bound)
    (reads : ∀ entry ∈ entries,
      Reads element (written entry) (· = some (.symbol .comma)) (holds entry))
    (begins : ∀ entry ∈ entries, ∀ next,
      ((written entry ++ [Token.symbol .comma]).head?.or next).any close.accepts = false) :
    Reads (separatedUpTo bound close element)
      (entries.flatMap (fun entry => written entry ++ [.symbol .comma]) ++ [token]) follows
      (List.Forall₂ holds entries) := by
  refine .bind (?_ : Reads _ _ (fun next => next.any close.accepts = true)
    fun collected => List.Forall₂ holds entries collected.reverse) (fun collected valid => ?_) ?_
  · refine reads_iterate_between (fun done (collected : List α) =>
      List.Forall₂ holds done collected.reverse) [] enough .nil ?_ ?_ (fun _ _ _ => trivial)
      fun _ _ => trivial
    · intro entry member done collected valid
      refine (reads_check false).bind_looking (fun answer isFalse => ?_) fun next _ =>
        begins entry member next
      subst isFalse
      refine (reads entry member).bind (fun value valueValid => ?_) fun _ _ => rfl
      refine (reads_eat rfl).bind_taking fun answer isTrue => ?_
      subst isTrue
      refine .pure ⟨value :: collected, rfl, ?_⟩
      rw [List.reverse_cons]
      exact List.rel_append valid (.cons valueValid .nil)
    · intro collected valid
      refine (reads_check true).bind_whole fun answer isTrue => ?_
      subst isTrue
      exact .pure ⟨collected, rfl, valid⟩
  · exact (reads_expect closes).bind_taking fun _ _ => .pure valid
  · intro _ _
    exact closes

end Separated

end Parser

namespace Grammar

open PhpScript.Parser

/-- The tokens that end an operand of a literal. -/
def Closing (next : Option Token) : Prop :=
  ∃ mark ∈ [Symbol.fatArrow, .comma, .rightParen, .semicolon], next = some (.symbol mark)

section Levels

variable {tokens : List Token} {holds : Located Expr → Prop} {operand : Parser (Located Expr)}

theorem reads_leftAssociative {operator? : Token → Option BinaryOperator} (bound : Nat)
    (isOver : ∀ next, Closing next → next.bind operator? = none)
    (reads : Reads operand tokens Closing holds) :
    Reads (leftAssociative (bound + 1) operator? operand) tokens Closing holds := by
  refine reads.bind_whole fun first valid => reads_iterate_once bound ?_
  have peeks : Reads peek [] Closing fun found => found.bind operator? = none :=
    .looking fun _ closes => ⟨_, rfl, isOver _ closes⟩
  refine peeks.bind_whole fun found none => ?_
  rw [none]
  exact .pure ⟨first, rfl, valid⟩

theorem reads_levels {operators : List (Token → Option BinaryOperator)} (bound : Nat)
    (areOver : ∀ level ∈ operators, ∀ next, Closing next → next.bind level = none)
    (reads : Reads operand tokens Closing holds) :
    Reads (levels (bound + 1) operand operators) tokens Closing holds := by
  induction operators with
  | nil => exact reads
  | cons level tighter ih =>
    rcases List.forall_mem_cons.mp areOver with ⟨isOver, others⟩
    exact reads_leftAssociative bound isOver (ih others)

theorem bind_eq_none_of_closing {level : Token → Option BinaryOperator} {next : Option Token}
    (isLevel : level ∈ wordLevels ++ symbolLevels.map onSymbols) (closes : Closing next) :
    next.bind level = none := by
  have apart : ∀ level ∈ wordLevels ++ symbolLevels.map onSymbols,
      ∀ mark ∈ [Symbol.fatArrow, .comma, .rightParen, .semicolon],
        (level (.symbol mark)).isNone = true := by decide
  rcases closes with ⟨mark, isClosing, rfl⟩
  exact Option.isNone_iff_eq_none.mp (apart level isLevel mark isClosing)

end Levels

section Operands

variable {self : Grammar} {tokens : List Token} {holds : Located Expr → Prop} {mark : Symbol}
  {node : Expr} {next : Option Token} {follows : Option Token → Prop} {token : Token}

theorem any_eq_false_of_closing (closes : Closing next)
    (isOther : mark ∉ [Symbol.fatArrow, .comma, .rightParen, .semicolon]) :
    next.any (Terminal.accepts mark) = false := by
  rcases closes with ⟨found, isClosing, rfl⟩
  have differs : found ≠ mark := by
    rintro rfl
    exact isOther isClosing
  simpa [Terminal.accepts, Token.isSymbol] using differs

theorem reads_eat_of_closing (isOther : mark ∉ [Symbol.fatArrow, .comma, .rightParen, .semicolon]) :
    Reads (eat mark) [] Closing (· = false) :=
  reads_eat_of_other.before fun _ closes => any_eq_false_of_closing closes isOther

theorem reads_suffixed (reads : Reads self.primary tokens follows holds)
    (noVariable : ∀ operand, holds operand → operand.node.isVariable = false)
    (noSubscript : ∀ next, follows next →
      next.any (Terminal.accepts Symbol.leftBracket) = false) :
    Reads self.suffixed tokens follows holds := by
  refine .bind_here fun start => reads.bind_whole fun operand valid => ?_
  have done : Reads (self.suffixPass start operand) [] follows fun pass =>
      ∃ result, pass = .done result ∧ holds result := by
    refine (reads_eat_of_other.before noSubscript).bind_whole fun answer isFalse => ?_
    subst isFalse
    simp only [noVariable operand valid]
    exact .pure ⟨operand, rfl, valid⟩
  refine (reads_iterate_once self.bound done).bind_whole fun result resultValid => ?_
  simp only [noVariable result resultValid]
  exact .pure resultValid

theorem reads_power (reads : Reads self.suffixed tokens Closing holds) :
    Reads self.power tokens Closing holds := by
  refine reads.bind_whole fun base valid => ?_
  refine (reads_eat_of_closing (by decide)).bind_whole fun answer isFalse => ?_
  subst isFalse
  exact .pure valid

/-- The tokens that begin an operand without prefix operators or parentheses. -/
inductive BeginsOperand : Token → Prop
  | number (value : Numeric) : BeginsOperand (.number value)
  | text (value : String) : BeginsOperand (.singleQuoted value)
  | name (name : String) : BeginsOperand (.identifier name)
  | array : BeginsOperand (.keyword .kwArray)

theorem reads_castAhead (isOther : token.isSymbol .leftParen = false) :
    Reads castAhead [] (· = some token) (· = none) := by
  refine (reads_peek (some token)).bind_whole fun found isToken => ?_
  subst isToken
  have looks : Reads (peekAt 2) [] (· = some token) fun _ => True :=
    .looking fun _ _ => ⟨_, rfl, trivial⟩
  refine looks.bind_whole fun third _ => ?_
  simp only [Option.any_some, isOther, Bool.false_and, Bool.false_eq_true, if_false]
  exact .pure rfl

theorem reads_unaryStep (begins : BeginsOperand token)
    (reads : Reads self.power (token :: tokens) follows holds) :
    Reads self.unaryStep (token :: tokens) follows holds := by
  refine .bind_here fun start => ?_
  refine (reads_peek (some token)).bind_looking (fun found isToken => ?_) fun _ _ => rfl
  subst isToken
  cases begins
  all_goals
    refine (reads_castAhead rfl).bind_looking (fun cast isNone => ?_) fun _ _ => rfl
    subst isNone
    exact reads

theorem reads_expressionStep (reads : Reads self.unaryStep tokens Closing holds) :
    Reads self.expressionStep tokens Closing holds := by
  have coalesce : Reads self.coalesceStep tokens Closing holds := by
    have binary : Reads self.binary tokens Closing holds :=
      reads_levels self.bound (fun level isLevel next =>
        bind_eq_none_of_closing (List.mem_append_right _ isLevel)) reads
    refine binary.bind_whole fun left valid => ?_
    refine (reads_eat_of_closing (by decide)).bind_whole fun answer isFalse => ?_
    subst isFalse
    exact .pure valid
  have choice : Reads self.choiceStep tokens Closing holds := by
    refine coalesce.bind_whole fun first valid => reads_iterate_once self.bound ?_
    refine (reads_eat_of_closing (by decide)).bind_whole fun answer isFalse => ?_
    subst isFalse
    exact .pure ⟨first, rfl, valid⟩
  exact reads_levels self.bound (fun level isLevel next =>
    bind_eq_none_of_closing (List.mem_append_left _ isLevel)) choice

theorem reads_expressionStep_of_primary (begins : BeginsOperand token)
    (reads : Reads self.primary (token :: tokens) Closing holds)
    (noVariable : ∀ operand, holds operand → operand.node.isVariable = false) :
    Reads self.expressionStep (token :: tokens) Closing holds := by
  have suffixed := reads_suffixed reads noVariable fun _ closes =>
    any_eq_false_of_closing closes (by decide)
  exact reads_expressionStep (reads_unaryStep begins (reads_power suffixed))

theorem reads_negation (reads : Reads self.unary tokens Closing holds) :
    Reads self.expressionStep (.symbol .minus :: tokens) Closing fun code =>
      ∃ operand, code.node = .unary .neg operand ∧ holds operand := by
  refine reads_expressionStep (.bind_here fun start => ?_)
  refine (reads_peek (some (.symbol .minus))).bind_looking (fun found isMinus => ?_) fun _ _ => rfl
  subst isMinus
  refine reads_advance.bind_taking fun _ _ => reads.bind_whole fun operand valid => ?_
  exact .looking fun _ _ => ⟨_, rfl, operand, rfl, valid⟩

def operandOf? : Token → Option Expr
  | .number (.int value) => some (.int value)
  | .number (.float value) => some (.float value)
  | .singleQuoted text => some (.str text)
  | .identifier name => reservedName? name
  | _ => none

theorem reads_primary (isOperand : operandOf? token = some node) :
    Reads self.primary [token] Closing fun code => code.node = node := by
  refine .bind_here fun start => ?_
  refine (reads_peek (some token)).bind_looking (fun found isToken => ?_) fun _ _ => rfl
  subst isToken
  have locates : Reads (locate start node) [] Closing fun code => code.node = node :=
    .looking fun _ _ => ⟨_, rfl, rfl⟩
  match token with
  | .number (.int value) | .number (.float value) | .singleQuoted text =>
    cases isOperand
    exact reads_advance.bind_taking fun _ _ => locates
  | .identifier name =>
    have named : Reads (self.named name) [] Closing (· = node) := by
      have checks : Reads (check Symbol.leftParen) [] Closing (· = false) :=
        (reads_check false).before fun _ closes => any_eq_false_of_closing closes (by decide)
      refine checks.bind_whole fun answer isFalse => ?_
      subst isFalse
      refine .pure ?_
      rw [show reservedName? name = some node from isOperand]
      rfl
    refine reads_advance.bind_taking fun _ _ => named.bind_whole fun found isNode => ?_
    subst isNode
    exact locates
  | .inlineText _ | .openEcho | .keyword _ | .symbol _ | .doubleQuoted _ | .variable _ =>
    cases isOperand

theorem isVariable_of_reservedName? {name : String} (isReserved : reservedName? name = some node) :
    node.isVariable = false := by
  unfold reservedName? at isReserved
  split at isReserved <;> cases isReserved <;> rfl

theorem reads_operand (isOperand : operandOf? token = some node) :
    Reads self.unaryStep [token] Closing fun code => code.node = node := by
  have properties : BeginsOperand token ∧ node.isVariable = false := by
    match token with
    | .number (.int value) | .number (.float value) =>
      cases isOperand
      exact ⟨.number _, rfl⟩
    | .singleQuoted text =>
      cases isOperand
      exact ⟨.text text, rfl⟩
    | .identifier name => exact ⟨.name name, isVariable_of_reservedName? isOperand⟩
    | .inlineText _ | .openEcho | .keyword _ | .symbol _ | .doubleQuoted _ | .variable _ =>
      cases isOperand
  refine reads_unaryStep properties.1 (reads_power (reads_suffixed (reads_primary isOperand) ?_ ?_))
  · intro operand isNode
    rw [isNode]
    exact properties.2
  · intro _ closes
    exact any_eq_false_of_closing closes (by decide)

/-! ## Array literals -/

theorem closing_of_eq (isMark : next = some (.symbol mark))
    (isClosing : mark ∈ [Symbol.fatArrow, .comma, .rightParen, .semicolon]) : Closing next :=
  ⟨mark, isClosing, isMark⟩

theorem reads_arrayItem {keyTokens valueTokens : List Token}
    {keyHolds valueHolds : Located Expr → Prop}
    (key : Reads self.expression keyTokens Closing keyHolds)
    (value : Reads self.expression valueTokens Closing valueHolds) :
    Reads self.arrayItem (keyTokens ++ .symbol .fatArrow :: valueTokens)
      (· = some (.symbol .comma)) fun item =>
        ∃ code, item.key = some code ∧ keyHolds code ∧ valueHolds item.value := by
  refine key.bind (fun first firstValid => ?_) fun _ _ => closing_of_eq rfl (by decide)
  refine (reads_eat rfl).bind_taking fun answer isTrue => ?_
  subst isTrue
  have reads := value.before fun next (isComma : next = some (.symbol .comma)) =>
    closing_of_eq isComma (by decide)
  exact reads.bind_whole fun element valid => .pure ⟨first, rfl, firstValid, valid⟩

def ListsAll {ι : Type} (keyHolds valueHolds : ι → Located Expr → Prop) (entries : List ι)
    (node : Expr) : Prop :=
  ∃ items, node = .array items ∧
    List.Forall₂ (fun entry (item : ArrayItem Expr) =>
      ∃ key, item.key = some key ∧ keyHolds entry key ∧ valueHolds entry item.value) entries items

def arrayTokens {ι : Type} (keyTokens valueTokens : ι → List Token) (entries : List ι) :
    List Token :=
  .keyword .kwArray :: .symbol .leftParen ::
    (entries.flatMap (fun entry =>
      keyTokens entry ++ .symbol .fatArrow :: valueTokens entry ++ [.symbol .comma]) ++
        [.symbol .rightParen])

section Arrays

variable {ι : Type} {entries : List ι} {keyTokens valueTokens : ι → List Token}
  {keyHolds valueHolds : ι → Located Expr → Prop} (enough : entries.length ≤ self.bound)
  (keys : ∀ entry ∈ entries, Reads self.expression (keyTokens entry) Closing (keyHolds entry))
  (values : ∀ entry ∈ entries, Reads self.expression (valueTokens entry) Closing (valueHolds entry))
  (begins : ∀ entry ∈ entries, (keyTokens entry).head?.all (!·.isSymbol .rightParen) = true)
include enough keys values begins

theorem reads_keywordOperand (start : Span) :
    Reads (self.keywordOperand start .kwArray) (arrayTokens keyTokens valueTokens entries) Closing
      (ListsAll keyHolds valueHolds entries) := by
  have opens : Reads (expect Symbol.leftParen) [.symbol .leftParen] (fun _ => True) fun _ => True :=
    reads_expect rfl
  refine reads_advance.bind_taking fun _ _ => opens.bind_taking fun _ _ => ?_
  have items : Reads (separatedUpTo (self.bound + 1) Symbol.rightParen self.arrayItem)
      (entries.flatMap _ ++ [.symbol .rightParen]) Closing _ :=
    reads_separatedUpTo rfl (Nat.lt_succ_of_le enough)
      (fun entry member => reads_arrayItem (keys entry member) (values entry member)) ?_
  · exact items.bind_whole fun found valid => .pure ⟨found, rfl, valid⟩
  · intro entry member next
    have isOther := begins entry member
    cases written : keyTokens entry with
    | nil => rfl
    | cons token rest =>
      rw [written] at isOther
      simpa [Terminal.accepts] using isOther

theorem reads_array :
    Reads self.expressionStep (arrayTokens keyTokens valueTokens entries) Closing fun code =>
      ListsAll keyHolds valueHolds entries code.node := by
  refine reads_expressionStep_of_primary .array (.bind_here fun start => ?_) ?_
  · refine (reads_peek (some (.keyword .kwArray))).bind_looking (fun found isWord => ?_)
      fun _ _ => rfl
    subst isWord
    have operand := reads_keywordOperand enough keys values begins start
    exact operand.bind_whole fun node isArray => .looking fun _ _ => ⟨_, rfl, isArray⟩
  · rintro code ⟨items, isArray, _⟩
    rw [isArray]
    rfl

end Arrays

end Operands

/-! ## Programs -/

section Programs

variable {self : Grammar} {tokens : List Token} {holds : Located Expr → Prop}
  {follows : Option Token → Prop}

theorem reads_atEnd (answer : Bool) :
    Reads atEnd [] (fun next => next.isNone = answer) (· = answer) := by
  refine .looking fun state isNext => ⟨_, rfl, ?_⟩
  rw [← isNext]
  cases state.tokens <;> rfl

theorem reads_returnStatement {token : Token}
    (reads : Reads self.expression (token :: tokens) Closing holds)
    (isOther : token.isSymbol .semicolon = false) :
    Reads self.returnStatement (.keyword .kwReturn :: (token :: tokens ++ [.symbol .semicolon]))
      follows fun statement => ∃ code, statement = .ret (some code) ∧ holds code := by
  refine reads_advance.bind_taking fun _ _ => ?_
  refine (reads_check false).bind_looking (fun answer isFalse => ?_) fun _ _ => isOther
  subst isFalse
  refine (reads_atEnd false).bind_looking (fun answer isFalse => ?_) fun _ _ => rfl
  subst isFalse
  refine reads.bind (fun code valid => ?_) fun _ _ => closing_of_eq rfl (by decide)
  have ends : Reads endStatement [.symbol .semicolon] (fun _ => True) fun _ => True :=
    reads_expect rfl
  exact ends.bind_taking fun _ _ => .pure ⟨code, rfl, valid⟩

theorem reads_statementStep {token : Token}
    (reads : Reads self.expression (token :: tokens) Closing holds)
    (isOther : token.isSymbol .semicolon = false) :
    Reads self.statementStep (.keyword .kwReturn :: (token :: tokens ++ [.symbol .semicolon]))
      follows fun statement => ∃ code, statement.node = .ret (some code) ∧ holds code := by
  refine .bind_here fun start => ?_
  refine (reads_peek (some (.keyword .kwReturn))).bind_looking (fun found isWord => ?_)
    fun _ _ => rfl
  subst isWord
  exact (reads_returnStatement reads isOther).bind_whole fun statement valid =>
    .looking fun _ _ => ⟨_, rfl, valid⟩

theorem reads_program {ι : Type} {entries : List ι} {written : ι → List Token}
    {statementHolds : ι → Located Stmt → Prop} (enough : entries.length < self.bound)
    (reads : ∀ entry ∈ entries,
      Reads self.statement (written entry) (fun _ => True) (statementHolds entry))
    (nonempty : ∀ entry ∈ entries, (written entry).head?.isSome = true) :
    Reads self.program (entries.flatMap written) (· = none)
      (List.Forall₂ statementHolds entries) := by
  refine .bind_whole (?_ : Reads _ _ _ fun (statements : List (Located Stmt)) =>
    List.Forall₂ statementHolds entries statements.reverse) fun statements valid => .pure valid
  refine reads_iterate_between (fun done (statements : List (Located Stmt)) =>
    List.Forall₂ statementHolds done statements.reverse) [] enough .nil ?_ ?_ (fun _ _ _ => trivial)
    fun _ _ => trivial
  · intro entry member done statements valid
    have isThere : ∀ next, ((written entry).head?.or next).isNone = false := by
      intro next
      rcases Option.isSome_iff_exists.mp (nonempty entry member) with ⟨token, isHead⟩
      rw [isHead]
      rfl
    refine (reads_atEnd false).bind_looking (fun answer isFalse => ?_) fun next _ => isThere next
    subst isFalse
    refine (reads entry member).bind_whole fun statement statementValid => .pure ⟨_, rfl, ?_⟩
    rw [List.reverse_cons]
    exact List.rel_append valid (.cons statementValid .nil)
  · intro statements valid
    have atEnd : Reads atEnd [] (· = none) (· = true) :=
      (reads_atEnd true).before fun _ isNone => isNone ▸ rfl
    refine atEnd.bind_whole fun answer isTrue => ?_
    subst isTrue
    exact .pure ⟨statements, rfl, valid⟩

end Programs

end Grammar

end PhpScript
