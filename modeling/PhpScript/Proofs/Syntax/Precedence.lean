import PhpScript.Proofs.Syntax.OperatorTree
import PhpScript.Proofs.Syntax.Reading

/-!
# Precedence of operators

Each function of the grammar reads the trees whose operators are at least as tight as its own level,
up to an operator that is looser. For a level that is grouped from the left this is a loop over the
operands of the level; for one that is grouped from the right, the right operand is read by the
grammar of nested parts.
-/

namespace PhpScript.Grammar

open PhpScript.Parser OperatorTree InfixOperator

/-- Nothing follows, or an operator that is looser than a level. -/
def Looser (level : Nat) (next : Option Token) : Prop :=
  ∀ token ∈ next, ∃ other < level, token.operatorLevel? = some other

section Looser

variable {level : Nat} {next : Option Token}

theorem Looser.mono {tighter : Nat} (looser : Looser level next) (isTighter : level ≤ tighter) :
    Looser tighter next := by
  intro token isNext
  rcases looser token isNext with ⟨other, isLooser, hasLevel⟩
  exact ⟨other, Nat.lt_of_lt_of_le isLooser isTighter, hasLevel⟩

theorem looser_token {operator : InfixOperator} (isLooser : operator.level < level) :
    Looser level (some operator.token) := by
  intro token isNext
  cases isNext
  exact ⟨operator.level, isLooser, operator.hasLevel⟩

theorem Looser.any_eq_false {mark : Symbol} (looser : Looser level next)
    (isOther : ∀ other < level, (Token.symbol mark).operatorLevel? ≠ some other) :
    next.any (Terminal.accepts mark) = false := by
  cases next with
  | none => rfl
  | some token =>
    rcases looser token rfl with ⟨other, isLooser, hasLevel⟩
    cases token with
    | symbol found =>
      refine decide_eq_false ?_
      rintro rfl
      exact isOther other isLooser hasLevel
    | inlineText | openEcho | keyword | number | singleQuoted | doubleQuoted | «variable»
    | identifier => rfl

end Looser

/-- A parser reads the grouped trees of a level and tighter ones that have fewer tokens than a
limit. -/
def ReadsTrees (limit level : Nat) (parser : Parser (Located Expr)) : Prop :=
  ∀ tree : OperatorTree, tree.IsGrouped → level ≤ tree.level → tree.tokens.length < limit →
    Reads parser tree.tokens (Looser level) fun code => tree.Represents code.node

/-! ## Levels that are grouped from the left -/

/-- Each level has its own operators. -/
def AreLevels (start : Nat) (operators : List (Token → Option BinaryOperator)) : Prop :=
  ∀ token, operators.map (· token) = (List.range' start operators.length).map fun level =>
    if token.operatorLevel? = some level then token.binaryOperator? else none

theorem areLevels : AreLevels 0 wordLevels ∧ AreLevels 4 (symbolLevels.map onSymbols) := by
  constructor
  all_goals
    intro token
    cases token with
    | keyword word => cases word <;> rfl
    | symbol mark => cases mark <;> rfl
    | inlineText | openEcho | number | singleQuoted | doubleQuoted | «variable» | identifier => rfl

section Levels

variable {limit bound level : Nat} {operand : Parser (Located Expr)}
  {operator? : Token → Option BinaryOperator}

theorem readsTrees_leftAssociative (reads : ReadsTrees limit (level + 1) operand)
    (enough : limit ≤ bound + 1) (isLeft : ¬ GroupsRight level) (isLevel : level < 16)
    (recognises : ∀ token, operator? token =
      if token.operatorLevel? = some level then token.binaryOperator? else none) :
    ReadsTrees limit level (leftAssociative bound operator? operand) := by
  intro tree grouped isAtLeast isShort
  rcases grouped.exists_spine isLeft isLevel isAtLeast with ⟨first, entries, rfl, isSpine⟩
  have entriesShort := length_lt_tokens_spine first entries
  have firstShort : first.tokens.length ≤ (spine first entries).tokens.length := by
    rw [tokens_spine, List.length_append]
    omega
  have begins : ∀ entry ∈ entries, ∀ next,
      Looser (level + 1) ((entryTokens entry).head?.or next) := by
    intro entry isMember next
    refine looser_token ?_
    rw [(isSpine.entries entry isMember).1]
    exact Nat.lt_succ_self level
  rw [tokens_spine]
  refine (reads first isSpine.firstGrouped isSpine.firstTight (by omega)).bind
    (fun code represents => ?_) fun next looser => ?_
  · refine reads_iterate_between (fun done (code : Located Expr) =>
      (spine first done).Represents code.node) [] (by omega) represents ?_ ?_ begins
      fun next looser => looser.mono (Nat.le_succ level)
    · intro entry isMember done left leftRepresents
      rcases isSpine.entries entry isMember with ⟨hasLevel, rightGrouped, rightTight⟩
      have rightShort := length_lt_tokens_spine_of_mem first entries isMember
      have isOther : entry.1.level ≠ 3 := fun isThree => isLeft (.inl (hasLevel ▸ isThree))
      rcases exists_binaryOperator isOther with ⟨kind, isKind⟩
      have found : (some entry.1.token).bind operator? = some kind := by
        rw [Option.bind_some, recognises, entry.1.hasLevel, hasLevel, if_pos rfl, isKind]
      refine (reads_peek (some entry.1.token)).bind_looking (fun token isToken => ?_) fun _ _ => rfl
      subst isToken
      rw [found]
      refine reads_advance.bind_taking fun _ _ => ?_
      refine (reads entry.2 rightGrouped rightTight (by omega)).bind_whole fun right isRight => ?_
      refine .pure ⟨joined left kind right, rfl, ?_⟩
      rw [spine_append]
      exact .binary isKind leftRepresents isRight
    · intro left leftRepresents
      have peeks : Reads peek [] (Looser level) fun found => found.bind operator? = none := by
        refine .looking fun state looser => ⟨_, rfl, ?_⟩
        cases isNext : state.tokens.head?.map Located.node with
        | none => rfl
        | some token =>
          rcases looser token isNext with ⟨other, isLooser, hasLevel⟩
          rw [Option.bind_some, recognises, hasLevel, if_neg]
          intro same
          cases same
          exact Nat.lt_irrefl _ isLooser
      refine peeks.bind_whole fun found isNone => ?_
      rw [isNone]
      exact .pure ⟨left, rfl, leftRepresents⟩
  · cases entries with
    | nil => exact looser.mono (Nat.le_succ level)
    | cons entry rest =>
      rw [List.flatMap_cons, List.head?_append, Option.or_assoc]
      exact begins entry List.mem_cons_self _

theorem readsTrees_levels {operators : List (Token → Option BinaryOperator)} {start : Nat}
    (areLevels : AreLevels start operators) (enough : limit ≤ bound + 1)
    (areLeft : ∀ level, start ≤ level → level < start + operators.length →
      ¬ GroupsRight level ∧ level < 16)
    (reads : ReadsTrees limit (start + operators.length) operand) :
    ReadsTrees limit start (levels bound operand operators) := by
  induction operators generalizing start with
  | nil => exact reads
  | cons operator? tighter ih =>
    have both : ∀ token, operator? token = _ ∧ _ := fun token => List.cons.inj (areLevels token)
    have isFirst := areLeft start (Nat.le_refl start) (by simp)
    rw [List.length_cons, ← Nat.add_assoc, Nat.add_right_comm] at reads
    refine readsTrees_leftAssociative (ih (fun token => (both token).2) ?_ reads) enough isFirst.1
      isFirst.2 fun token => (both token).1
    intro level isAbove isBelow
    refine areLeft level (by omega) ?_
    rw [List.length_cons]
    omega

end Levels

/-! ## Levels that are grouped from the right -/

section Right

variable {limit : Nat} {mark : InfixOperator} {symbol : Symbol}
  {operand nested : Parser (Located Expr)} {make : Located Expr → Located Expr → Located Expr}

theorem readsTrees_rightAssociative (reads : ReadsTrees (limit + 1) (mark.level + 1) operand)
    (readsNested : ReadsTrees limit mark.level nested) (isRight : GroupsRight mark.level)
    (isSymbol : mark.token = .symbol symbol)
    (isOnly : ∀ operator : InfixOperator, operator.level = mark.level → operator.token = mark.token)
    (represents : ∀ {left right : OperatorTree} {leftCode rightCode : Located Expr},
      left.Represents leftCode.node → right.Represents rightCode.node →
        (node left mark right).Represents (make leftCode rightCode).node) :
    ReadsTrees (limit + 1) mark.level (do
      let left ← operand
      if ← Parser.eat symbol then return make left (← nested)
      return left) := by
  intro tree grouped isAtLeast isShort
  have whole : mark.level < tree.level → Reads (do
      let left ← operand
      if ← Parser.eat symbol then return make left (← nested)
      return left) tree.tokens (Looser mark.level) fun code => tree.Represents code.node := by
    intro isTighter
    have operands := (reads tree grouped isTighter isShort).before
      fun next (looser : Looser mark.level next) => looser.mono (Nat.le_succ mark.level)
    have stops : Reads (eat symbol) [] (Looser mark.level) (· = false) := by
      refine reads_eat_of_other.before fun next looser => looser.any_eq_false ?_
      intro other isLooser hasLevel
      rw [← isSymbol, mark.hasLevel] at hasLevel
      cases hasLevel
      exact Nat.lt_irrefl _ isLooser
    refine operands.bind_whole fun left leftRepresents => stops.bind_whole fun answer isFalse => ?_
    subst isFalse
    exact .pure leftRepresents
  rcases Nat.lt_or_eq_of_le isAtLeast with isTighter | same
  · exact whole isTighter
  -- The left operand ends at the operator, which is looser than what `operand` reads.
  cases grouped with
  | literal value => exact absurd same (Nat.ne_of_lt mark.level_lt)
  | @fromLeft left right operator isLeft =>
    have sameLevel : mark.level = operator.level := same
    rw [sameLevel] at isRight
    exact absurd isRight isLeft
  | @fromRight left right operator _ leftTight rightTight leftGrouped rightGrouped =>
    cases eq_of_token_eq (isOnly operator same.symm)
    rw [tokens, List.length_append, List.length_cons] at isShort
    refine (reads left leftGrouped leftTight (by omega)).bind (fun leftCode isLeft => ?_)
      fun _ _ => looser_token (Nat.lt_succ_self _)
    have accepted : Terminal.accepts symbol mark.token = true := by
      rw [isSymbol]
      exact decide_eq_true rfl
    refine (reads_eat accepted).bind_taking fun answer isTrue => ?_
    subst isTrue
    refine (readsNested right rightGrouped rightTight (by omega)).bind_whole
      fun rightCode isRight => ?_
    exact .pure (represents isLeft isRight)

end Right

/-! ## All levels -/

/-- Nested parts read chains of operands. -/
structure ReadsChains (grammar : Grammar) (limit : Nat) : Prop where
  enough : limit ≤ grammar.bound + 1
  expression : ReadsTrees limit 0 grammar.expression
  coalesce : ReadsTrees limit 3 grammar.coalesce
  unary : ReadsTrees limit 15 grammar.unary

section Steps

variable {self : Grammar} {limit : Nat}

theorem reads_literal (value : Int64) :
    Reads self.suffixed [.number (.int value)] (Looser 16) fun code => code.node = .int value := by
  refine reads_suffixed ?_ ?_ ?_
  · refine .bind_here fun start => ?_
    refine (reads_peek (some (.number (.int value)))).bind_looking (fun found isToken => ?_)
      fun _ _ => rfl
    subst isToken
    exact reads_advance.bind_taking fun _ _ => .looking fun _ _ => ⟨_, rfl, rfl⟩
  · intro operand isLiteral
    rw [isLiteral]
    rfl
  · intro next looser
    exact looser.any_eq_false fun _ _ isLevel => by cases isLevel

theorem readsTrees_suffixed : ReadsTrees limit 16 self.suffixed := by
  intro tree grouped isAtLeast isShort
  cases tree with
  | literal value =>
    exact (reads_literal value).mono fun code isLiteral => isLiteral ▸ .literal value
  | node left operator right => exact absurd operator.level_lt (Nat.not_lt.mpr isAtLeast)

variable (nested : self.ReadsChains limit)
include nested

theorem readsTrees_power : ReadsTrees (limit + 1) 15 self.power := by
  let mark : InfixOperator := ⟨.symbol .pow, 15, rfl⟩
  refine @readsTrees_rightAssociative limit mark _ _ _ _ readsTrees_suffixed nested.unary
    (.inr rfl) rfl (·.token_of_level.2) fun isLeft isRight => ?_
  exact .binary rfl isLeft isRight

theorem readsTrees_unaryStep : ReadsTrees (limit + 1) 15 self.unaryStep := by
  intro tree grouped isAtLeast isShort
  have reads := readsTrees_power nested tree grouped isAtLeast isShort
  rcases tree.exists_tokens_eq with ⟨value, rest, areTokens⟩
  rw [areTokens] at reads ⊢
  exact reads_unaryStep (.number _) reads

theorem readsTrees_coalesceStep : ReadsTrees (limit + 1) 3 self.coalesceStep := by
  have binary : ReadsTrees (limit + 1) 4 self.binary := by
    refine readsTrees_levels areLevels.2 (Nat.succ_le_succ nested.enough) ?_
      (readsTrees_unaryStep nested)
    intro level isAbove isBelow
    have isBelow : level < 15 := isBelow
    simp only [GroupsRight]
    omega
  let mark : InfixOperator := ⟨.symbol .coalesce, 3, rfl⟩
  refine @readsTrees_rightAssociative limit mark _ _ _ _ binary nested.coalesce (.inl rfl) rfl
    (·.token_of_level.1) fun isLeft isRight => ?_
  exact .coalesce rfl isLeft isRight

theorem readsTrees_choiceStep : ReadsTrees (limit + 1) 3 self.choiceStep := by
  intro tree grouped isAtLeast isShort
  refine (readsTrees_coalesceStep nested tree grouped isAtLeast isShort).bind_whole
    fun first represents => reads_iterate_once self.bound ?_
  refine (reads_eat_of_other.before fun next looser => ?_).bind_whole fun answer isFalse => ?_
  · exact looser.any_eq_false fun _ _ isLevel => by cases isLevel
  · subst isFalse
    exact .pure ⟨first, rfl, represents⟩

theorem readsTrees_expressionStep : ReadsTrees (limit + 1) 0 self.expressionStep := by
  refine readsTrees_levels areLevels.1 (Nat.succ_le_succ nested.enough) ?_
    (readsTrees_choiceStep nested)
  intro level isAbove isBelow
  have isBelow : level < 3 := isBelow
  simp only [GroupsRight]
  omega

end Steps

theorem readsChains_ofDepth (depth : Nat) : (ofDepth depth).ReadsChains depth := by
  induction depth with
  | zero =>
    have isEmpty : ∀ {level : Nat} {parser : Parser (Located Expr)}, ReadsTrees 0 level parser :=
      fun _ _ _ isShort => absurd isShort (Nat.not_lt_zero _)
    exact ⟨Nat.zero_le _, isEmpty, isEmpty, isEmpty⟩
  | succ depth ih =>
    exact ⟨Nat.le_refl _, readsTrees_expressionStep ih, readsTrees_coalesceStep ih,
      readsTrees_unaryStep ih⟩

/-- Integers with operators between them are read as the only tree that is grouped as documented. -/
theorem expression_groups_chain {depth : Nat} {first : Int64} {rest : List (InfixOperator × Int64)}
    {state : ParserState} (isChain : state.tokens.map Located.node = chain first rest)
    (isDeep : state.tokens.length < depth) :
    ∃ tree code after, (ofDepth depth).expression state = .ok code after ∧ after.tokens = [] ∧
      tree.tokens = chain first rest ∧ tree.IsGrouped ∧ tree.Represents code.node ∧
      ∀ other : OperatorTree, other.tokens = chain first rest → other.IsGrouped → other = tree := by
  rcases exists_isGrouped first rest with ⟨tree, areTokens, grouped⟩
  have isShort : tree.tokens.length < depth := by
    rwa [areTokens, ← isChain, List.length_map]
  have reads := (readsChains_ofDepth depth).expression tree grouped (Nat.zero_le _) isShort
  rcases reads state state.tokens [] (List.append_nil _).symm (isChain.trans areTokens.symm)
    (by intro token isNext; cases isNext) with ⟨code, stop, ends, represents⟩
  refine ⟨tree, code, _, ends, rfl, areTokens, grouped, represents, ?_⟩
  intro other otherTokens otherGrouped
  exact otherGrouped.eq_of_tokens_eq grouped (otherTokens.trans areTokens.symm)

/-- `7 - 2 - 1 ?? 2 ** 3 ** 2` -/
theorem expression_groups_chain_mixed :
    let minus : InfixOperator := ⟨.symbol .minus, 13, rfl⟩
    let coalesce : InfixOperator := ⟨.symbol .coalesce, 3, rfl⟩
    let power : InfixOperator := ⟨.symbol .pow, 15, rfl⟩
    let rest : List (InfixOperator × Int64) :=
      [(minus, 2), (minus, 1), (coalesce, 2), (power, 3), (power, 2)]
    let state : ParserState :=
      { tokens := (chain 7 rest).map fun token => ⟨token, 0, 0⟩, endSpan := ⟨0, 0⟩, nextId := 0 }
    let tree : OperatorTree :=
      .node (.node (.node (.literal 7) minus (.literal 2)) minus (.literal 1)) coalesce
        (.node (.literal 2) power (.node (.literal 3) power (.literal 2)))
    ∃ code after, (ofDepth 12).expression state = .ok code after ∧ after.tokens = [] ∧
      tree.Represents code.node := by
  intro minus coalesce power rest state tree
  have grouped : tree.IsGrouped := by
    refine .fromRight (.inl rfl) (by decide) (by decide) ?_ ?_
    · refine .fromLeft (by decide) (by decide) (by decide) ?_ (.literal 1)
      exact .fromLeft (by decide) (by decide) (by decide) (.literal 7) (.literal 2)
    · refine .fromRight (.inr rfl) (by decide) (by decide) (.literal 2) ?_
      exact .fromRight (.inr rfl) (by decide) (by decide) (.literal 3) (.literal 2)
  rcases @expression_groups_chain 12 7 rest state rfl (by decide) with
    ⟨found, code, after, ends, isOver, _, _, represents, unique⟩
  refine ⟨code, after, ends, isOver, ?_⟩
  rw [unique tree rfl grouped]
  exact represents

end PhpScript.Grammar
