import PhpScript.Proofs.Syntax.Expressions
import PhpScript.Proofs.Syntax.Headings

/-!
# What statements are read from

Statements take at least one token, are sound and lie around their parts, and the functions declared
in them are numbered in turn. A body that may be without statements lies between the token in front
of it and the one behind it, so it is gathered up to the start of the next token. A statement looks
behind its own tokens only for a further branch of a choice, and the words that begin one may not
follow a body.
-/

namespace PhpScript

open Node

/-- Proper code that stores in targets only, and the same code up to places. -/
structure Stmt.Agrees (code other : Stmt) : Prop where
  bare : other.bare = code.bare
  own : code.IsProper
  targets : ∀ target ∈ code.targets, target.node.IsTarget

/-- The nodes of a heading, in the order in which they stand. -/
def Heading.nodes {kind : HeadingKind} : Heading kind → List Node
  | .choice condition | .whileLoop condition => [.expression condition]
  | .forLoop start condition step => (start ++ condition ++ step).map .expression
  | .foreachLoop subject key value => ([subject] ++ key.toList ++ [value]).map .expression

/-- The same heading up to places, which stores in targets only. -/
structure Heading.Agrees {kind : HeadingKind} (heading other : Heading kind) : Prop where
  bare : other.bare = heading.bare
  targets : ∀ body, ∀ target ∈ (heading.statement body).targets, target.node.IsTarget

namespace Parser

variable {α : Type} {low limit : Nat} {next : ParserState → Prop} {behind : Edge}
  {earlier : List Node} {moves : α → Prop} {nodes : α → List Node} {holds : α → α → Prop}
  {parser longer : Parser α}

theorem Gathers.from_since
    (gathers : Gathers low limit next .since [] parser longer moves behind nodes holds) :
    Gathers low limit next .ahead [] parser longer moves behind nodes holds where
  of_ok admitted ends := by
    rcases gathers.of_ok admitted ends with ⟨precedes, isShorter, gathered, mirrored⟩
    refine ⟨precedes, isShorter, fun has => gathered ⟨has.sound, has.numbered, ?_⟩, mirrored⟩
    exact fun stop isStop => ⟨(has.placed stop isStop).1, (has.placed stop isStop).2.holds, by simp⟩
  of_error := gathers.of_error

theorem Gathers.locateStatement {before : Edge} {code other : Stmt} {start startOther : Span}
    (isSince : before = .taken ∨ before = .since) (agrees : code.Agrees other)
    (same : code.nodes = earlier) :
    Gathers start.start limit next before earlier (locate start code) (locate startOther other)
      (fun _ => False) before (fun code => [.statement code]) Stmt.Alike := by
  refine .spanFrom isSince (fun _ => rfl) (fun _ => .of_eq same) (fun _ sound => ?_) (fun _ => ?_)
    fun _ _ => Stmt.bareAt_eq_iff.mpr agrees.bare
  · exact .of_nodes agrees.own agrees.targets (same ▸ sound)
  · rw [← same, Stmt.declarationsOf_nodes]
    rfl

end Parser

namespace Grammar

open PhpScript.Parser PhpScript.Token

/-! ## Rests of statements -/

/-- A value with a closing token behind it. -/
def closedBy {α : Type} (terminal : Terminal) (value : α) : Parser α := do
  Parser.expect terminal
  return value

/-- What follows the type of a parameter. -/
def parameterRest (self : Grammar) (type : Option TypeHint) : Parser ParameterDecl := do
  let isVariadic ← Parser.eat Symbol.ellipsis
  let name ← variableName
  let fallback ← do
    if ← Parser.eat Symbol.assign then
      if isVariadic then Parser.failAt name.span .variadicDefault
      pure (some (← self.expression))
    else pure none
  return ⟨⟨"$" ++ name.node, name.span⟩, type, fallback, isVariadic⟩

/-- What follows the type that a function returns. -/
def functionRest (self : Grammar) (start : Span) (name : Located String)
    (parameters : List ParameterDecl) (returnType : Option TypeHint) : Parser UserFunction := do
  Parser.expect Symbol.leftBrace
  let body ← self.blockRest
  let id ← freshId
  return { id, name, parameters, returnType, body, span := ← Parser.spanFrom start }

/-! ## Names and types -/

section Names

variable {low limit : Nat} {next : ParserState → Prop} {before : Edge} {earlier : List Node}

theorem adds_name :
    Adds limit name name (fun own => [.name own]) (fun own other => other.bare = own.bare) := by
  refine ⟨.peek_ahead (.expected _) fun token _ => ?_⟩
  split
  · exact .here_seen fun _ => .advance (.pure_token rfl rfl trivial rfl rfl)
  · exact .faults (.expected _)

theorem adds_variableName :
    Adds limit variableName variableName (fun own => [.name own])
      (fun own other => other.bare = own.bare) := by
  refine ⟨.peek_ahead (.expected _) fun token _ => ?_⟩
  split
  · exact .here_seen fun _ => .advance (.pure_token rfl rfl trivial rfl rfl)
  · exact .faults (.expected _)

theorem gathers_typeName :
    Gathers low (limit + 1) next before earlier typeName typeName (fun _ => True) .taken
      (fun _ => earlier) (fun type other => other = type) := by
  refine .peek_ahead (.expected _) fun token _ => ?_
  split
  · exact .take (.kept rfl rfl)
  · exact .take (.kept rfl rfl)
  · exact .faults (.expected _)

/-- The same types, of which there are enough. -/
def AlikeTypes (count : Nat) (types others : List TypeName) : Prop :=
  others = types ∧ count ≤ types.length

theorem gathers_typePass (count : Nat) :
    Collects low limit .taken (fun _ => earlier) (AlikeTypes count) typePass typePass := by
  rintro types _ ⟨rfl, isLong⟩
  refine .bind_eat rfl (.bind gathers_typeName.lower ?_) (.pure_of id (.of_eq rfl) ⟨rfl, isLong⟩)
  rintro type _ rfl
  exact .kept rfl ⟨rfl, Nat.le_succ_of_le isLong⟩

theorem gathers_typeHint {bound boundOther : Nat} (enough : limit ≤ bound)
    (isMore : bound ≤ boundOther) :
    Gathers low (limit + 1) next before earlier (typeHint bound) (typeHint boundOther)
      (fun _ => True) .taken (fun _ => earlier)
      (fun hint other => other = hint ∧ hint.types ≠ []) := by
  have alternatives {before : Edge} (isNullable : Bool) :
      Gathers low (limit + 1) Anything before earlier (do
        let first ← typeName
        let types ← Parser.iterate typePass bound [first]
        return ⟨types.reverse ++ if isNullable then [.null] else []⟩ : Parser TypeHint) (do
        let first ← typeName
        let types ← Parser.iterate typePass boundOther [first]
        return ⟨types.reverse ++ if isNullable then [.null] else []⟩) (fun _ => True) .taken
        (fun _ => earlier) (fun hint other => other = hint ∧ hint.types ≠ []) := by
    refine .bind_taking gathers_typeName ?_
    rintro first _ rfl
    refine .bind (.iterate enough isMore (gathers_typePass 1) ⟨rfl, Nat.le_refl 1⟩) ?_
    rintro types _ ⟨rfl, isLong⟩
    refine .kept rfl ⟨rfl, List.append_ne_nil_of_left_ne_nil ?_ _⟩
    exact List.reverse_ne_nil_iff.mpr (List.ne_nil_of_length_pos isLong)
  exact .bind_eat rfl ((alternatives true).may (Nat.le_refl _)) (alternatives false)

end Names

/-! ## Bodies -/

section Bodies

variable {shorter longer : Grammar} {limit : Nat} (nested : shorter.Proceeds longer limit)
  {low : Nat} {before edge : Edge} {earlier : List Node}
  {body bodyOther : Bool → Parser (Located Stmt)}
include nested

theorem mayAdd_expressions :
    MayAdd limit shorter.expressions longer.expressions (·.map .expression) Expr.AlikeAll := by
  constructor
  intro low earlier
  simp only [List.map_eq_flatMap (f := Node.expression)]
  exact (mayAdd_separated nested.expression nested.enough nested.passes).gathers.weaken
    fun _ _ => forall₂_alike_iff.mp

/-- The same statements up to places. -/
abbrev AlikeStatements (statements others : List (Located Stmt)) : Prop :=
  others.map Stmt.bareAt = statements.map Stmt.bareAt

/-- Statements are collected with the last one first. -/
theorem gathers_another {collected others : List (Located Stmt)} {next : ParserState → Prop}
    {moves : Pass (List (Located Stmt)) → Prop} (same : AlikeStatements collected others) :
    Gathers low limit next before (earlier ++ collected.reverse.map .statement)
      (do return .more ((← shorter.statement) :: collected))
      (do return .more ((← longer.statement) :: others)) moves .taken
      (Pass.elim (fun collected => earlier ++ collected.reverse.map .statement)
        fun collected => earlier ++ collected.reverse.map .statement)
      (Pass.Both AlikeStatements) :=
  .bind_more nested.statement.gathers fun _ _ sameFirst =>
    .kept (by simp [Pass.elim]) (by simp [Pass.Both, AlikeStatements, sameFirst, same])

theorem gathers_statementsPass (implied : Edge.taken.Implies edge) (ends : List Terminal)
    (low : Nat) (earlier : List Node) :
    Collects low limit edge (fun collected => earlier ++ collected.reverse.map .statement)
      AlikeStatements (shorter.statementsPass ends) (longer.statementsPass ends) := by
  intro collected others same
  refine .peek_ahead (.expected _) fun token _ => ?_
  dsimp only
  split
  · exact .pure_of id (.of_eq rfl) same
  · exact .leaving (gathers_another nested same) implied

theorem gathers_statementsUpTo (implied : Edge.taken.Implies edge) (ends : List Terminal) :
    Gathers low limit Anything edge earlier (shorter.statementsUpTo ends)
      (longer.statementsUpTo ends) (fun _ => False) edge
      (fun statements => earlier ++ statements.map .statement) AlikeStatements := by
  have begins : AlikeStatements [] [] := rfl
  have loops := Gathers.iterate nested.enough nested.passes
    (gathers_statementsPass nested implied ends low earlier) begins
  refine .bind (loops.yielding (.of_eq (by simp))) fun _ _ same => .kept rfl ?_
  rw [AlikeStatements, List.map_reverse, List.map_reverse, same]

omit nested in
theorem front_of_statementsUpTo {self : Grammar} {ends : List Terminal}
    {statements : List (Located Stmt)} {state after : ParserState}
    (reads : self.statementsUpTo ends state = .ok statements after) :
    ∃ token rest, after.tokens = token :: rest ∧ ends.any (·.accepts token.node) = true := by
  rcases bind_eq_ok reads with ⟨collected, middle, readsLoop, returns⟩
  cases returns
  rcases exists_done_of_iterate readsLoop with ⟨earlier, before, done⟩
  rcases before with ⟨_ | ⟨token, tokens⟩, _, _, _⟩
  · cases done
  · simp only [statementsPass, Bind.bind, EStateM.bind, peek_eq, ParserState.kinds, List.map_cons,
      List.head?_cons] at done
    split at done
    · rename_i isEnd
      cases done
      exact ⟨token, tokens, rfl, isEnd⟩
    · rcases bind_eq_ok done with ⟨_, _, _, goesOn⟩
      cases goesOn

omit nested in
/-- The token behind the statements of a block is the brace that closes it. -/
theorem blockRest_eq (self : Grammar) :
    self.blockRest = do
      let statements ← self.statementsUpTo [Symbol.rightBrace]
      Parser.expect Symbol.rightBrace
      return statements := by
  funext state
  cases reads : self.statementsUpTo [Symbol.rightBrace] state with
  | error stop after => simp only [blockRest, Bind.bind, EStateM.bind, reads]
  | ok statements after =>
    rcases front_of_statementsUpTo reads with ⟨token, rest, front, isEnd⟩
    rcases after with ⟨tokens, _, _, _⟩
    cases front
    have accepts : (Terminal.mark .rightBrace).accepts token.node = true := by simpa using isEnd
    simp only [blockRest, Parser.expect, Bind.bind, EStateM.bind, reads, eat_cons, accepts]
    rfl

theorem mayAdd_blockRest :
    MayAdd limit shorter.blockRest longer.blockRest (·.map .statement) AlikeStatements := by
  rw [blockRest_eq, blockRest_eq]
  exact ⟨.bind (gathers_statementsUpTo nested (fun _ has => has) _) fun _ _ same =>
    .expecting <| .kept rfl same⟩

theorem gathers_bodyUpTo (ends : List Terminal) :
    Gathers low limit Anything before earlier (shorter.bodyUpTo ends) (longer.bodyUpTo ends)
      (fun _ => False) .ahead (fun body => earlier ++ [.statement body]) Stmt.Alike := by
  -- Without statements no token is taken behind `start`, and the body ends where it begins.
  refine .bind_here (.inl rfl) fun start startOther =>
    .from_since (.leaving ?_ (Edge.implies_ahead .since))
  refine .bind (gathers_statementsUpTo nested Edge.taken_implies_since ends) fun _ _ same => ?_
  exact .locateStatement (.inr rfl) ⟨by simp [Stmt.bare, same], trivial, by simp [Stmt.targets]⟩ rfl

theorem adds_loopBody (close : Keyword) :
    AddsStatement limit (shorter.loopBody close) (longer.loopBody close) := by
  refine ⟨.bind_eat_ahead ?_ nested.statement.gathers⟩
  exact .bind (gathers_bodyUpTo nested _) fun _ _ same => .expecting <| .expecting <|
    .kept rfl same

/-! ## Choices -/

/-- The branches of a choice and its alternative, while they are collected with the last branch
first. -/
abbrev Collected := List (Branch Stmt) × Option (Located Stmt)

/-- The nodes of some branches and of an alternative. -/
def branchNodes (branches : List (Branch Stmt)) (alternative : Option (Located Stmt)) :
    List Node :=
  branches.flatMap (fun branch => [.expression branch.condition, .statement branch.body]) ++
    alternative.toList.map .statement

/-- The same branches up to places, of which there are enough. -/
structure AlikeBranches (count : Nat) (collected others : Collected) : Prop where
  branches : others.1.map Stmt.bareBranch = collected.1.map Stmt.bareBranch
  alternative : others.2.map Stmt.bareAt = collected.2.map Stmt.bareAt
  isLong : count ≤ collected.1.length

theorem gathers_branchPass (count : Nat) (earlier : List Node) (bodies : ∀ isLast earlier,
      Gathers low limit Anything .taken earlier (body isLast) (bodyOther isLast) (fun _ => False)
        edge (fun code => earlier ++ [.statement code]) Stmt.Alike) :
    GathersPasses low limit edge (fun collected => earlier ++ branchNodes collected.1.reverse none)
      (fun collected => earlier ++ branchNodes collected.1.reverse collected.2)
      (AlikeBranches count) (shorter.branchPass body) (longer.branchPass bodyOther) := by
  rintro ⟨branches, _⟩ ⟨others, _⟩ ⟨same, _, isLong⟩
  refine .bind_eat rfl ?_ (.bind_eat rfl ?_ ?_)
  · refine .bind (adds_parenthesized nested).gathers fun condition _ sameCondition => ?_
    refine .bind (bodies false _) fun statement _ sameBody => .kept ?_ ⟨?_, rfl, ?_⟩
    · simp [Pass.elim, branchNodes]
    · simpa [Stmt.bareBranch, sameCondition, sameBody] using same
    · exact Nat.le_succ_of_le isLong
  · refine .bind (bodies true _) fun statement _ sameBody => .kept ?_ ⟨same, ?_, isLong⟩
    · simp [Pass.elim, branchNodes]
    · exact congrArg some sameBody
  · exact .pure_of id (.of_eq rfl) ⟨same, rfl, isLong⟩

theorem gathers_otherBranches (first : Branch Stmt) (bodies : ∀ isLast earlier,
      Gathers low limit Anything .taken earlier (body isLast) (bodyOther isLast) (fun _ => False)
        edge (fun code => earlier ++ [.statement code]) Stmt.Alike)
    {other : Branch Stmt} (same : Stmt.bareBranch other = Stmt.bareBranch first) :
    Gathers low limit Anything edge
      (earlier ++ [.expression first.condition] ++ [.statement first.body])
      (shorter.otherBranches body first) (longer.otherBranches bodyOther other) (fun _ => False)
      edge (fun code => earlier ++ code.nodes) Stmt.Agrees := by
  have begins : AlikeBranches 1 ([first], none) ([other], none) :=
    ⟨by simp [same], rfl, Nat.le_refl 1⟩
  have loops := Gathers.iterate nested.enough nested.passes
    (gathers_branchPass nested 1 earlier bodies) begins
  refine .bind (loops.yielding (.of_eq (by simp [branchNodes]))) fun collected others alike => ?_
  refine .pure (.of_subset ?_ ?_) ⟨?_, ?_, by simp [Stmt.targets]⟩
  · intro node isMember
    simp only [branchNodes, Stmt.nodes, Stmt.expressions, Stmt.parts, List.mem_append] at isMember ⊢
    grind
  · rw [declarationsOf_append, declarationsOf_append, Stmt.declarationsOf_nodes,
      Stmt.declarations_choice]
    simp [branchNodes, Stmt.declarationsOf, List.flatMap_map, -List.map_reverse]
  · simp [Stmt.bare, alike.branches, alike.alternative]
  · exact List.reverse_ne_nil_iff.mpr (List.ne_nil_of_length_pos alike.isLong)

theorem gathers_choiceRest {condition other : Located Expr} (same : Expr.Alike condition other) :
    GathersOn low limit (earlier ++ [.expression condition]) (shorter.choiceRest condition)
      (longer.choiceRest other) (fun code => earlier ++ code.nodes) Stmt.Agrees := by
  refine .bind_eat_ahead ?_ ?_
  · refine .bind (gathers_bodyUpTo nested _) fun first _ sameFirst => ?_
    refine .bind (gathers_otherBranches nested ⟨condition, first⟩ (fun _ _ => ?_) ?_)
      fun _ _ agrees => ?_
    · exact .expecting (gathers_bodyUpTo nested _)
    · simp [Stmt.bareBranch, same, sameFirst]
    · exact .expecting <| .expecting <| .kept rfl agrees
  · refine .bind_more nested.statement.gathers fun first _ sameFirst => ?_
    refine gathers_otherBranches nested ⟨condition, first⟩ (fun _ _ => ?_) ?_
    · exact nested.statement.gathers.may (Nat.le_refl limit)
    · simp [Stmt.bareBranch, same, sameFirst]

/-! ## Headings -/

theorem mayAdd_forPart {close : Symbol} (inner : (Terminal.mark close).isInner = true) :
    MayAdd limit (shorter.forPart close) (longer.forPart close) (·.map .expression)
      Expr.AlikeAll := by
  constructor
  intro low earlier
  have closes (part partOther : List (Located Expr)) (same : Expr.AlikeAll part partOther) :
      GathersOn low limit (earlier ++ part.map .expression) (closedBy close part)
        (closedBy close partOther) (fun codes => earlier ++ codes.map .expression)
        Expr.AlikeAll :=
    .expecting <| .kept rfl same
  refine .bind_check inner ?_ (.bind (mayAdd_expressions nested).gathers closes)
  exact .yielding (closes [] [] rfl) (.of_eq (by simp))

theorem adds_foreachTarget :
    Adds limit shorter.foreachTarget longer.foreachTarget (fun code => [.expression code])
      (fun code other => Expr.Alike code other ∧ code.node.IsTarget) := by
  constructor
  intro low before earlier
  have leading {token : Located Token} (isVariable : LeadsVariable (some token.node)) :
      Gathers low limit (Begins token) before earlier shorter.suffixed longer.suffixed
        (fun _ => True) .taken (fun code => earlier ++ [.expression code])
        (fun code other => Expr.Alike code other ∧ code.node.IsTarget) := by
    refine Gathers.weaken (.ahead_of (adds_suffixed nested True).gathers.lower ?_)
      fun _ _ valid => ⟨valid.1, valid.2 trivial⟩
    intro state isNext _
    rw [isNext]
    exact isVariable
  refine .peek_ahead (.expected _) fun token _ => ?_
  rcases token with ⟨token, span⟩
  dsimp only
  split
  · rename_i isNext
    cases isNext
    exact leading trivial
  · rename_i isNext
    cases isNext
    exact leading trivial
  · exact .faults (.expected _)

theorem adds_heading (kind : HeadingKind) :
    Adds (limit + 1) (shorter.heading kind) (longer.heading kind) Heading.nodes Heading.Agrees := by
  constructor
  intro low before earlier
  cases kind with
  | choice =>
    exact .bind_taking .expect fun _ _ _ => .bind (adds_parenthesized nested).gathers
      fun _ _ same => .kept rfl
        ⟨congrArg Heading.choice same, by simp [Heading.statement, Stmt.targets]⟩
  | whileLoop =>
    exact .bind_taking .expect fun _ _ _ => .bind (adds_parenthesized nested).gathers
      fun _ _ same => .kept rfl
        ⟨congrArg Heading.whileLoop same, by simp [Heading.statement, Stmt.targets]⟩
  | forLoop =>
    refine .bind_taking .expect fun _ _ _ => .expecting ?_
    refine .bind (mayAdd_forPart nested rfl).gathers fun _ _ sameStart => ?_
    refine .bind (mayAdd_forPart nested rfl).gathers fun _ _ sameCondition => ?_
    refine .bind (mayAdd_forPart nested rfl).gathers fun _ _ sameStep => .kept ?_ ⟨?_, ?_⟩
    · simp [Heading.nodes]
    · simp [Heading.bare, sameStart, sameCondition, sameStep]
    · simp [Heading.statement, Stmt.targets]
  | foreachLoop =>
    refine .bind_taking .expect fun _ _ _ => .expecting ?_
    refine .bind nested.expression.gathers fun _ _ sameSubject => .expecting ?_
    refine .bind (adds_foreachTarget nested).gathers fun _ _ first => .bind_eat rfl ?_ ?_
    · refine .bind (adds_foreachTarget nested).gathers fun _ _ value => .expecting <|
        .kept ?_ ⟨?_, ?_⟩
      · simp [Heading.nodes]
      · simp [Heading.bare, sameSubject, first.1, value.1]
      · simpa [Heading.statement, Stmt.targets] using ⟨first.2, value.2⟩
    · refine .expecting <| .kept ?_ ⟨?_, ?_⟩
      · simp [Heading.nodes]
      · simp [Heading.bare, sameSubject, first.1]
      · simpa [Heading.statement, Stmt.targets] using first.2

theorem gathers_afterHeading {kind : HeadingKind} {heading other : Heading kind}
    (same : heading.Agrees other) :
    GathersOn low limit (earlier ++ heading.nodes) (shorter.afterHeading heading)
      (longer.afterHeading other) (fun code => earlier ++ code.nodes) Stmt.Agrees := by
  have loops (hasNodes : ∀ body, (heading.statement body).nodes =
      heading.nodes ++ [.statement body]) (own : ∀ body, (heading.statement body).IsProper) :
      GathersOn low limit (earlier ++ heading.nodes)
        (do
          let body ← shorter.loopBody kind.close
          return heading.statement body)
        (do
          let body ← longer.loopBody kind.close
          return other.statement body) (fun code => earlier ++ code.nodes) Stmt.Agrees := by
    refine .bind (adds_loopBody nested _).gathers fun body bodyOther sameBody =>
      .kept (by simp [hasNodes]) ⟨?_, own body, same.targets body⟩
    exact Heading.bare_statement_eq same.bare (Stmt.bareAt_eq_iff.mp sameBody)
  cases heading with
  | choice condition =>
    cases other with
    | choice conditionOther => exact gathers_choiceRest nested (Heading.choice.inj same.bare)
  | whileLoop | forLoop | foreachLoop =>
    cases other
    exact loops (fun _ => by simp [Heading.statement, Heading.nodes, Stmt.nodes, Stmt.expressions,
      Stmt.parts]) fun _ => trivial

theorem adds_headed (kind : HeadingKind) :
    Adds (limit + 1) (shorter.keywordStatement kind.keyword) (longer.keywordStatement kind.keyword)
      Stmt.nodes Stmt.Agrees := by
  rw [keywordStatement_eq, keywordStatement_eq]
  exact ⟨.bind_taking (adds_heading nested kind).gathers fun _ _ same =>
    gathers_afterHeading nested same⟩

theorem adds_doWhileStatement :
    Adds (limit + 1) shorter.doWhileStatement longer.doWhileStatement Stmt.nodes Stmt.Agrees := by
  refine ⟨.bind_taking .expect fun _ _ _ => .bind nested.statement.gathers fun _ _ sameBody =>
    .expecting <| .bind (adds_parenthesized nested).gathers fun _ _ sameCondition => .expecting <|
      .pure (.of_subset ?_ ?_) ⟨?_, trivial, ?_⟩⟩
  · simp [Stmt.nodes, Stmt.expressions, Stmt.parts]
  · simp [Stmt.nodes, Stmt.expressions, Stmt.parts]
  · simp [Stmt.bare, Stmt.bareBranch, sameCondition, sameBody]
  · simp [Stmt.targets]

/-! ## Declarations -/

omit nested in
/-- The name is completed by the dollar sign, which has no place of its own. -/
theorem yields_parameter (name : Located String) (type : Option TypeHint)
    (fallback : Option (Located Expr)) (isVariadic : Bool) :
    Yields (earlier ++ [.name name] ++ fallback.toList.map .expression)
      (earlier ++ ParameterDecl.nodes
        ⟨⟨"$" ++ name.node, name.span⟩, type, fallback, isVariadic⟩) where
  sound sound := by
    simp only [ParameterDecl.nodes, List.forall_mem_append, List.forall_mem_cons] at sound ⊢
    exact ⟨sound.1.1, trivial, sound.2⟩
  declarations := by simp
  placed placed := by
    simp only [ParameterDecl.nodes, List.forall_mem_append, List.forall_mem_cons] at placed ⊢
    rcases placed with ⟨⟨earlierPlaced, namePlaced, _⟩, fallbackPlaced⟩
    have bounds := namePlaced.bounds
    exact ⟨earlierPlaced, .intro bounds.1 bounds.2.1 bounds.2.2 (by simp [parts]), fallbackPlaced⟩

theorem adds_parameterRest {type : Option TypeHint} (typed : ∀ hint ∈ type, hint.types ≠ []) :
    Adds (limit + 1) (shorter.parameterRest type) (longer.parameterRest type) ParameterDecl.nodes
      (fun parameter other => other.bare = parameter.bare ∧ parameter.IsWellFormed) := by
  constructor
  intro low before earlier
  refine .bind_eat rfl (.bind_taking adds_variableName.gathers fun name other sameName => ?_)
    (.bind_taking adds_variableName.gathers fun name other sameName => ?_)
  all_goals
    have sameNode : other.node = name.node := by
      simpa [Located.bare] using congrArg Located.node sameName
    refine .bind_eat rfl ?_ (.pure (.trans (.of_eq (by simp)) (yields_parameter name type none _))
      ⟨by simp [ParameterDecl.bare, Located.bare, sameNode], typed, fun _ => rfl⟩)
  · exact .faults (.bind (.failAt _ _))
  · exact .bind nested.expression.gathers fun code _ same =>
      .pure (yields_parameter name type (some code) false)
        ⟨by simp [ParameterDecl.bare, Located.bare, sameNode, same], typed, by simp⟩

theorem adds_parameter :
    Adds (limit + 1) shorter.parameter longer.parameter ParameterDecl.nodes
      (fun parameter other => other.bare = parameter.bare ∧ parameter.IsWellFormed) := by
  constructor
  intro low before earlier
  have untyped := @adds_parameterRest _ _ _ nested none (by simp)
  have typed : Gathers low (limit + 1) Anything before earlier
      (do
        let hint ← typeHint (shorter.bound + 1)
        shorter.parameterRest (some hint))
      (do
        let hint ← typeHint (longer.bound + 1)
        longer.parameterRest (some hint)) (fun _ => True) .taken
      (fun parameter => earlier ++ parameter.nodes)
      (fun parameter other => other.bare = parameter.bare ∧ parameter.IsWellFormed) := by
    refine .bind (gathers_typeHint nested.enough nested.passes) ?_
    rintro _ hint ⟨rfl, typed⟩
    exact (adds_parameterRest nested (by simpa using typed)).gathers
  refine .bind_peek typed.anywhere (fun token => ?_) (by rintro _ ⟨⟩ <;> rfl)
  split
  · exact untyped.gathers.anywhere
  · exact untyped.gathers.anywhere
  · exact typed.anywhere

omit nested in
theorem find?_eq_none_of_map_eq {α β : Type} {view : α → β} {wanted : α → Bool} (seen : β → Bool)
    (keeps : ∀ element, seen (view element) = wanted element) {elements others : List α}
    (same : others.map view = elements.map view) (missing : elements.find? wanted = none) :
    others.find? wanted = none := by
  rw [List.find?_eq_none] at missing ⊢
  intro other isOther
  have isSeen : view other ∈ elements.map view := same ▸ List.mem_map_of_mem isOther
  rcases List.mem_map.mp isSeen with ⟨element, isElement, sameView⟩
  rw [← keeps, ← sameView, keeps]
  exact missing element isElement

omit nested in
theorem declarationsOf_function (declaration : UserFunction) :
    declarationsOf (Node.function declaration).parts ++ [declaration] =
      (Node.function declaration).declarations := by
  rw [Node.declarations, Stmt.declarations_eq]
  simp [parts, Stmt.parts, Stmt.declaration?]

omit nested in
theorem isSound_function {declaration : UserFunction} (wellFormed : declaration.IsWellFormed)
    (sound : ∀ node ∈ (Node.function declaration).parts, node.IsSound) :
    (Stmt.function declaration).IsSound := by
  refine .intro ⟨wellFormed.onlyLast, fun parameter member =>
    (wellFormed.parameters parameter member).noDefault⟩ (fun code isFallback => ?_)
    (fun part isPart => ?_) (by simp [Stmt.targets])
  · rcases List.mem_filterMap.mp isFallback with ⟨parameter, member, isCode⟩
    refine sound (.expression code) (List.mem_append_left _ (List.mem_cons_of_mem _ ?_))
    exact List.mem_flatMap.mpr ⟨parameter, member, by simp [ParameterDecl.nodes, isCode]⟩
  · exact sound (.statement part) (List.mem_append_right _ (List.mem_map_of_mem isPart))

omit nested in
/-- A function takes its number when its body has ended. -/
theorem gathers_numbered {make makeOther : Nat → Span → UserFunction} {start startOther : Span}
    {holds : UserFunction → UserFunction → Prop} (numbers : ∀ id span, (make id span).id = id)
    (hasSpan : ∀ id span, (make id span).span = span)
    (hasParts : ∀ id span, (Node.function (make id span)).parts = earlier)
    (wellFormed : ∀ id span, (make id span).IsWellFormed)
    (valid : ∀ id span spanOther, holds (make id span) (makeOther id spanOther)) :
    GathersOn start.start limit earlier
      (do
        let id ← freshId
        return make id (← Parser.spanFrom start))
      (do
        let id ← freshId
        return makeOther id (← Parser.spanFrom startOther))
      (fun declaration => [.function declaration]) holds where
  of_ok {state _ _} _ ends := by
    cases ends
    refine ⟨⟨List.suffix_rfl, Nat.le_succ _⟩, False.elim,
      fun has => ⟨?_, ?_, fun stop isStop => ?_⟩, fun {_ extended} continues => ?_⟩
    · have sound := has.sound
      rw [← hasParts] at sound
      exact List.forall_mem_singleton.mpr (isSound_function (wellFormed _ _) sound)
    · have numbered : ParserState.Numbered { state with nextId := state.nextId + 1 } state.nextId
          [make state.nextId ⟨start.start, max state.previousStop start.start⟩] :=
        ⟨by simp [numbers], rfl, List.forall_mem_singleton.mpr (wellFormed _ _)⟩
      have declares := has.numbered.append numbered
      rw [← hasParts state.nextId ⟨start.start, max state.previousStop start.start⟩,
        declarationsOf_function] at declares
      simpa using declares
    · rcases has.placed stop isStop with ⟨ordered, has⟩
      have complete : Edge.taken.Has _ [.function (make _ _)] _ :=
        has.complete (.inl rfl) (hasSpan state.nextId _) (.of_eq (hasParts state.nextId _))
      exact ⟨⟨ordered.tokens, ordered.ends⟩, complete.holds, complete.placed⟩
    · refine ⟨makeOther extended.nextId _, { extended with nextId := extended.nextId + 1 }, rfl, ?_,
        ⟨continues.kinds, congrArg (· + 1) continues.nextId, continues.border⟩⟩
      rw [continues.nextId]
      exact valid _ _ _
  of_error _ ends := by cases ends

theorem adds_functionDeclaration :
    Adds (limit + 1) shorter.functionDeclaration longer.functionDeclaration
      (fun declaration => [.function declaration])
      (fun declaration other => (Stmt.function declaration).Agrees (.function other)) := by
  refine ⟨.bind_here (.inr rfl) fun start startOther => .bind_taking .expect fun _ _ _ => ?_⟩
  refine .bind adds_name.gathers fun name nameOther sameName => .expecting ?_
  have each : Adds limit shorter.parameter longer.parameter ParameterDecl.nodes _ :=
    ⟨(adds_parameter nested).gathers.lower⟩
  refine .bind (mayAdd_separatedUpTo each nested.enough nested.passes rfl).gathers
    fun parameters others alike => ?_
  have same := forall₂_alike_iff.mp (alike.imp fun _ _ => And.left)
  have wellFormed := ((List.forall₂_and_left _ _).mp (alike.imp fun _ _ => And.symm)).1
  have rest (returnType : Option TypeHint) (onlyLast : ParameterDecl.OnlyLast parameters)
      (returned : ∀ hint ∈ returnType, hint.types ≠ []) :
      Gathers start.start limit Anything .taken
        ([] ++ [.name name] ++ parameters.flatMap ParameterDecl.nodes)
        (shorter.functionRest start name parameters returnType)
        (longer.functionRest startOther nameOther others returnType) (fun _ => True) .taken
        (fun declaration => [.function declaration])
        (fun declaration other => (Stmt.function declaration).Agrees (.function other)) := by
    refine .expecting <| .bind (mayAdd_blockRest nested).gathers fun body _ sameBody =>
      gathers_numbered (fun _ _ => rfl) (fun _ _ => rfl) (fun _ _ => ?_)
        (fun _ _ => ⟨wellFormed, onlyLast, returned⟩) fun _ _ _ => ⟨?_, ⟨onlyLast, ?_⟩, ?_⟩
    · simp [parts]
    · simp [Stmt.bare, sameName, same, sameBody]
    · exact fun parameter member => (wellFormed parameter member).noDefault
    · simp [Stmt.targets]
  have sameEarly : others.dropLast.reverse.map ParameterDecl.bare =
      parameters.dropLast.reverse.map ParameterDecl.bare := by
    rw [List.map_reverse, List.map_reverse, List.map_dropLast, List.map_dropLast, same]
  dsimp only
  split
  · exact .faults (.bind (.failAt _ _))
  · rename_i noEarly
    have keeps (parameter : ParameterDecl) : parameter.bare.isVariadic = parameter.isVariadic := rfl
    rw [find?_eq_none_of_map_eq ParameterDecl.isVariadic keeps sameEarly noEarly]
    have onlyLast : ParameterDecl.OnlyLast parameters := by
      simpa [ParameterDecl.OnlyLast] using noEarly
    refine .bind_eat_ahead (.bind (gathers_typeHint nested.enough nested.passes).lower ?_)
      (rest none onlyLast (by simp))
    rintro _ hint ⟨rfl, typed⟩
    exact (rest (some hint) onlyLast (by simpa using typed)).may (Nat.le_refl limit)

theorem adds_constantItem :
    Adds limit shorter.constantItem longer.constantItem ConstantItem.nodes
      (fun item other => other.bare = item.bare) :=
  ⟨.bind_more adds_name.gathers fun _ _ sameName => .expecting <| .bind nested.expression.gathers
    fun _ _ sameValue => .kept (by simp [ConstantItem.nodes])
      (by simp [ConstantItem.bare, sameName, sameValue])⟩

end Bodies

/-! ## Statements -/

section Keywords

variable {shorter longer : Grammar} {limit : Nat} {token : Located Token}

/-- In front of admitted tokens, a parser takes tokens and adds the nodes of a statement. -/
abbrev AddsStmt (next : ParserState → Prop) (limit : Nat) (parser longer : Parser Stmt) : Prop :=
  AddsIf next limit parser longer Stmt.nodes Stmt.Agrees

attribute [local simp] Stmt.nodes Stmt.expressions Stmt.parts Stmt.targets

theorem adds_jumpStatement (kind : LoopJump) :
    AddsStmt (Begins token) (limit + 1) (jumpStatement kind) (jumpStatement kind) := by
  constructor
  intro low before earlier
  have ends (levels : Nat) (leaves : 1 ≤ levels) :
      GathersOn low limit earlier (closedBy Symbol.semicolon (.jump kind levels))
        (closedBy Symbol.semicolon (.jump kind levels)) (fun code => earlier ++ code.nodes)
        Stmt.Agrees :=
    .expecting <| .kept (by simp) ⟨rfl, leaves, by simp⟩
  refine .take (.bind_peek (ends 1 (Nat.le_refl 1)) (fun token => ?_) (by rintro _ ⟨⟩ <;> rfl))
  dsimp only
  split
  · refine .looking looks_here looks_here fun _ _ => .lower (.take ?_)
    split
    · exact .faults (.bind (.failAt _ _))
    · rename_i inRange
      simp only [Bool.or_eq_true, decide_eq_true_eq, not_or] at inRange
      exact ends _ (by omega)
  · exact .anywhere (ends 1 (Nat.le_refl 1))

variable (nested : shorter.Proceeds longer limit)
include nested

theorem adds_globalsStatement :
    AddsStmt (Begins token) (limit + 1) shorter.globalsStatement longer.globalsStatement :=
  ⟨.take (.bind (mayAdd_separated adds_variableName nested.enough nested.passes).gathers
    fun _ _ same => .expecting <| .kept (by simp [List.map_eq_flatMap])
      ⟨by simp [Stmt.bare, forall₂_alike_iff.mp same], trivial, by simp⟩)⟩

theorem adds_constantsStatement :
    AddsStmt (Begins token) (limit + 1) shorter.constantsStatement longer.constantsStatement :=
  ⟨.take (.bind (mayAdd_separated (adds_constantItem nested) nested.enough nested.passes).gathers
    fun _ _ same => .expecting <| .kept rfl
      ⟨by simp [Stmt.bare, forall₂_alike_iff.mp same], trivial, by simp⟩)⟩

/-- At the end of the tokens a value may be left out, but then the end of the statement is
missed. -/
theorem adds_returnStatement :
    AddsStmt (Begins token) (limit + 1) shorter.returnStatement longer.returnStatement := by
  constructor
  intro low before earlier
  have ends (value other : Option (Located Expr))
      (same : other.map Expr.bareAt = value.map Expr.bareAt) :
      GathersOn low limit (earlier ++ value.toList.map .expression)
        (closedBy Symbol.semicolon (.ret value)) (closedBy Symbol.semicolon (.ret other))
        (fun code => earlier ++ code.nodes) Stmt.Agrees :=
    .expecting <| .kept (by simp) ⟨by simp [Stmt.bare, same], trivial, by simp⟩
  refine .take (.ahead (fun state isOver => ?_) fun token _ => ?_)
  · rcases state with ⟨_, _, _, _⟩
    cases isOver
    exact ⟨_, rfl⟩
  · refine .bind_check rfl (.atEnd_seen ?_) (.atEnd_seen ?_)
    · exact .anywhere (.yielding (ends none none rfl) (.of_eq (by simp)))
    · exact .bind nested.expression.gathers fun _ _ same =>
        ends (some _) (some _) (congrArg some same)

theorem adds_unsetStatement :
    AddsStmt (Begins token) (limit + 1) shorter.unsetStatement longer.unsetStatement := by
  refine ⟨.take (.bind (adds_arguments nested).gathers fun targets others same => ?_)⟩
  have keeps (code : Located Expr) :
      (!(Expr.bareAt code).node.isVariable) = !code.node.isVariable := by
    rw [Expr.bareAt_eq, Expr.isVariable_bare]
  dsimp only
  split
  · exact .faults (.bind (.failAt _ _))
  · rename_i noOther
    have stores : ∀ target ∈ targets, target.node.isVariable = true := by simpa using noOther
    rw [find?_eq_none_of_map_eq (fun code => !code.node.isVariable) keeps same noOther]
    exact .expecting <| .kept (by simp) ⟨by simp [Stmt.bare, same], stores, by simp⟩

theorem adds_echoStatement :
    AddsStmt (Begins token) (limit + 1) shorter.echoStatement longer.echoStatement :=
  ⟨.take (.bind (mayAdd_expressions nested).gathers fun _ _ same => .expecting <|
    .kept (by simp) ⟨by simp [Stmt.bare, same], trivial, by simp⟩)⟩

theorem adds_expressionStatement :
    AddsStmt Anything (limit + 1) shorter.expressionStatement longer.expressionStatement :=
  ⟨.bind_taking (adds_expressionStep nested).gathers fun _ _ same => .expecting <|
    .kept (by simp) ⟨by simp [Stmt.bare, same], trivial, by simp⟩⟩

theorem adds_keywordStatement (word : Keyword) :
    AddsStmt (Begins token) (limit + 1) (shorter.keywordStatement word)
      (longer.keywordStatement word) := by
  unfold keywordStatement
  split
  · exact adds_echoStatement nested
  · exact ⟨(adds_headed nested .choice).gathers.anywhere⟩
  · exact ⟨(adds_headed nested .whileLoop).gathers.anywhere⟩
  · exact ⟨(adds_doWhileStatement nested).gathers.anywhere⟩
  · exact ⟨(adds_headed nested .forLoop).gathers.anywhere⟩
  · exact ⟨(adds_headed nested .foreachLoop).gathers.anywhere⟩
  · exact adds_jumpStatement .leave
  · exact adds_jumpStatement .next
  · exact adds_returnStatement nested
  · exact adds_constantsStatement nested
  · exact adds_globalsStatement nested
  · exact adds_unsetStatement nested
  · refine ⟨.peekSecond (fun found => ?_) (by rintro _ ⟨⟩ <;> rfl)⟩
    split
    · exact .bind_taking (adds_functionDeclaration nested).gathers.anywhere
        fun _ _ agrees => .kept rfl agrees
    · exact (adds_expressionStatement nested).gathers.anywhere
  · exact ⟨(adds_expressionStatement nested).gathers.anywhere⟩

theorem adds_statementStep :
    AddsStatement (limit + 1) shorter.statementStep longer.statementStep := by
  refine ⟨.start (.inr rfl) (fun _ => .bind .unexpected) fun token startOther _ => ?_⟩
  have locates (code other : Stmt) (agrees : code.Agrees other) :
      GathersOn token.span.start limit code.nodes (locate token.span code)
        (locate startOther other) (fun code => [.statement code]) Stmt.Alike :=
    .locateStatement (.inl rfl) agrees rfl
  dsimp only
  split
  · exact .faults (.bind .unexpected)
  · exact .take (locates (.inlineText _) (.inlineText _) ⟨rfl, trivial, by simp⟩)
  · exact .bind_taking (adds_echoStatement nested).gathers locates
  · exact .take (.bind (mayAdd_blockRest nested).gathers fun body bodyOther same =>
      locates (.block body) (.block bodyOther) ⟨by simp [Stmt.bare, same], trivial, by simp⟩)
  · exact .take (locates .empty .empty ⟨rfl, trivial, by simp⟩)
  · exact .bind_taking (adds_keywordStatement nested _).gathers locates
  · exact .bind_taking (adds_expressionStatement nested).gathers.anywhere locates

end Keywords

theorem proceeds_ofDepth {depth other : Nat} (isLess : depth ≤ other) :
    (ofDepth depth).Proceeds (ofDepth other) depth := by
  induction depth generalizing other with
  | zero =>
    exact ⟨Nat.zero_le _, Nat.zero_le _, ⟨.exhausted⟩, ⟨.exhausted⟩, ⟨.exhausted⟩, ⟨.exhausted⟩,
      ⟨.exhausted⟩, ⟨.exhausted⟩⟩
  | succ depth ih =>
    cases other with
    | zero => omega
    | succ other =>
      have nested := ih (Nat.le_of_succ_le_succ isLess)
      exact ⟨Nat.le_refl _, Nat.le_of_succ_le_succ isLess, adds_expressionStep nested,
        adds_choiceStep nested, adds_coalesceStep nested, adds_unaryStep nested,
        ⟨(adds_dynamicVariableStep nested).gathers.weaken fun _ _ => And.left⟩,
        adds_statementStep nested⟩

end Grammar

end PhpScript
