import PhpScript.Proofs.Syntax.Bare
import PhpScript.Proofs.Syntax.Gathering
import PhpScript.Proofs.Syntax.Segments

/-!
# What expressions are read from

Given what the parsers of nested parts read, those of expressions take at least one token and yield
one sound expression, which declares nothing and lies around its operands. With more depth, at
another place and with more tokens behind the code they read the same.

Code inside of a text literal is read from tokens of its own by the same grammar. They weigh less
than the literal and lie inside of its token, and those behind the literal are left as they are.
-/

namespace PhpScript

open Node

/-- The same code up to places. -/
abbrev Expr.Alike (code other : Located Expr) : Prop := Expr.bareAt other = Expr.bareAt code

/-- The same list of expressions up to places. -/
abbrev Expr.AlikeAll (codes others : List (Located Expr)) : Prop :=
  others.map Expr.bareAt = codes.map Expr.bareAt

/-- Proper code, and the same code up to places. -/
def Expr.Agrees (code other : Expr) : Prop := other.bare = code.bare ∧ code.IsProper

/-- The same statement up to places. -/
abbrev Stmt.Alike (code other : Located Stmt) : Prop := Stmt.bareAt other = Stmt.bareAt code

/-- Other tokens are left to read in place of those of a state, up to an offset. -/
def ParserState.inside (state : ParserState) (tokens : List (Located Token)) (stop : Nat) :
    ParserState :=
  { state with tokens, previousStop := 0, endSpan := ⟨stop, stop⟩ }

/-- A variable begins with the next token. -/
def Token.LeadsVariable : Option Token → Prop
  | some (.variable _) | some (.symbol .dollar) => True
  | _ => False

theorem forall₂_alike_iff {α β : Type} {view : α → β} {elements others : List α} :
    List.Forall₂ (fun element other => view other = view element) elements others ↔
      others.map view = elements.map view := by
  rw [← List.forall₂_eq_eq_eq, List.forall₂_map_left_iff, List.forall₂_map_right_iff]
  exact ⟨List.Forall₂.flip, List.Forall₂.flip⟩

namespace Parser

variable {α : Type}

/-- A parser that draws expressions from a text between two offsets, and leaves the tokens as they
are. Another one draws the same up to a relation. -/
structure Draws (limit low high : Nat) (parser longer : Parser α)
    (codes : α → List (Located Expr)) (holds : α → α → Prop) : Prop where
  of_ok : ∀ {state value after}, parser state = .ok value after → after = state ∧
    (∀ code ∈ codes value, code.node.IsSound ∧ (Node.expression code).IsPlaced low high) ∧
      ∀ {extended : ParserState}, extended.nextId = state.nextId →
        ∃ other, longer extended = .ok other extended ∧ holds value other
  of_error : ∀ {state stop after}, parser state = .error stop after →
    (0 < limit → stop ≠ .exhausted) ∧ state.nextId ≤ after.nextId

namespace Draws

variable {limit low high : Nat} {parser longer : Parser α} {codes : α → List (Located Expr)}
  {holds : α → α → Prop}

theorem pure {value other : α}
    (drawn : ∀ code ∈ codes value, code.node.IsSound ∧ (Node.expression code).IsPlaced low high)
    (valid : holds value other) :
    Draws limit low high (Pure.pure value) (Pure.pure other) codes holds where
  of_ok ends := by
    cases ends
    exact ⟨rfl, drawn, fun _ => ⟨other, rfl, valid⟩⟩
  of_error ends := by cases ends

theorem map {β : Type} {inner outer : Nat} {found : β → List (Located Expr)} {make make' : α → β}
    {wanted : β → β → Prop} (draws : Draws limit inner outer parser longer codes holds)
    (drawn : ∀ value,
      (∀ code ∈ codes value, code.node.IsSound ∧ (Node.expression code).IsPlaced inner outer) →
      ∀ code ∈ found (make value), code.node.IsSound ∧ (Node.expression code).IsPlaced low high)
    (valid : ∀ value other, holds value other → wanted (make value) (make' other)) :
    Draws limit low high (do return make (← parser)) (do return make' (← longer)) found
      wanted where
  of_ok ends := by
    rcases bind_eq_ok ends with ⟨value, middle, reads, returns⟩
    cases returns
    rcases draws.of_ok reads with ⟨rfl, own, mirrored⟩
    refine ⟨rfl, drawn value own, fun {extended} same => ?_⟩
    rcases mirrored same with ⟨other, readsOther, isValid⟩
    refine ⟨make' other, ?_, valid value other isValid⟩
    simp only [Bind.bind, EStateM.bind, readsOther]
    rfl
  of_error ends := by
    rcases bind_eq_error ends with fails | ⟨_, _, _, returns⟩
    · exact draws.of_error fails
    · cases returns

/-- What is drawn from inside of the token taken last is gathered up to the end of this token. -/
theorem gathers (draws : Draws limit low high parser longer codes holds) {token : Located Token}
    {first : Nat} {earlier : List Node}
    (isInside : Token.HasRoom token → token.span.start ≤ low ∧ high ≤ token.span.stop) :
    Gathers first limit Anything (.behind token) earlier parser longer (fun _ => False)
      (.behind token) (fun value => earlier ++ (codes value).map .expression) holds where
  of_ok {state _ _} _ ends := by
    rcases draws.of_ok ends with ⟨rfl, drawn, mirrored⟩
    refine ⟨ParserState.precedes_self _, False.elim, fun has => ⟨?_, ?_, fun stop isStop => ?_⟩, ?_⟩
    · refine List.forall_mem_append.mpr ⟨has.sound, List.forall_mem_map.mpr fun code isCode => ?_⟩
      exact (drawn code isCode).1
    · simpa using has.numbered
    · rcases has.placed stop isStop with ⟨ordered, has⟩
      rcases has.holds with ⟨isLower, hasRoom, isLast⟩
      refine ⟨ordered, has.holds, List.forall_mem_append.mpr ⟨has.placed, ?_⟩⟩
      rcases isInside hasRoom with ⟨isBehind, isBefore⟩
      refine List.forall_mem_map.mpr fun code isCode => (drawn code isCode).2.widen (by omega) ?_
      rw [Edge.offset, isLast]
      exact isBefore
    · intro rest extended continues
      rcases mirrored continues.nextId with ⟨other, readsOther, valid⟩
      exact ⟨other, extended, readsOther, valid, continues⟩
  of_error _ ends := by
    rcases draws.of_error ends with ⟨goesOn, isHigher⟩
    exact ⟨fun isLight => goesOn (by omega), isHigher⟩

end Draws

theorem Gathers.locateHolding {limit : Nat} {next : ParserState → Prop} {earlier : List Node}
    {node other : Expr} {start startOther : Span} {holds : Located Expr → Located Expr → Prop}
    (own : node.IsProper) (same : node.nodes = earlier)
    (valid : ∀ span spanOther, holds ⟨node, span⟩ ⟨other, spanOther⟩) :
    Gathers start.start limit next .taken earlier (locate start node) (locate startOther other)
      (fun _ => False) .taken (fun code => [.expression code]) holds := by
  refine .spanFrom (.inl rfl) (fun _ => rfl) (fun _ => .of_eq same) (fun _ sound => ?_)
    (fun _ => ?_) valid
  · exact .of_nodes own (same ▸ sound)
  · simp [← same, Expr.nodes]

theorem Gathers.locateExpression {limit : Nat} {next : ParserState → Prop} {earlier : List Node}
    {node other : Expr} {start startOther : Span} (agrees : node.Agrees other)
    (same : node.nodes = earlier) :
    Gathers start.start limit next .taken earlier (locate start node) (locate startOther other)
      (fun _ => False) .taken (fun code => [.expression code]) Expr.Alike :=
  .locateHolding agrees.2 same fun _ _ => Expr.bareAt_eq_iff.mpr agrees.1

end Parser

namespace Grammar

open PhpScript.Parser PhpScript.Token

/-- A parser that takes tokens and adds one expression. -/
abbrev AddsExpression (limit : Nat) (parser longer : Parser (Located Expr)) : Prop :=
  Adds limit parser longer (fun code => [.expression code]) Expr.Alike

/-- A parser that takes tokens and adds one statement. -/
abbrev AddsStatement (limit : Nat) (parser longer : Parser (Located Stmt)) : Prop :=
  Adds limit parser longer (fun code => [.statement code]) Stmt.Alike

/-- What the grammar of nested parts reads. It has enough depth and passes for tokens that weigh
less than a limit, and the other grammar, which may have more depth, reads the same. -/
structure Proceeds (shorter longer : Grammar) (limit : Nat) : Prop where
  enough : limit ≤ shorter.bound + 1
  bound : shorter.bound ≤ longer.bound
  expression : AddsExpression limit shorter.expression longer.expression
  choice : AddsExpression limit shorter.choice longer.choice
  coalesce : AddsExpression limit shorter.coalesce longer.coalesce
  unary : AddsExpression limit shorter.unary longer.unary
  dynamicVariable : AddsExpression limit shorter.dynamicVariable longer.dynamicVariable
  statement : AddsStatement limit shorter.statement longer.statement

theorem Proceeds.passes {shorter longer : Grammar} {limit : Nat}
    (nested : shorter.Proceeds longer limit) : shorter.bound + 1 ≤ longer.bound + 1 :=
  Nat.succ_le_succ nested.bound

/-! ## Rests of expressions -/

/-- What is read inside a text literal, which is itself left as it was. -/
def embeddedRest (self : Grammar) (outer : ParserState) : Parser (Located Expr) := do
  let expression ← self.expression
  unless ← Parser.atEnd do Parser.unexpected
  modify fun inner => { outer with nextId := inner.nextId }
  return expression

/-- What follows the index of a subscript. -/
def subscriptRest (start : Span) (operand : Located Expr) (index : Option (Located Expr)) :
    Parser (Pass (Located Expr)) := do
  Parser.expect Symbol.rightBracket
  return .more (← Parser.locate start (.subscript operand index))

/-- What follows the colon of a choice. -/
def ternaryRest (self : Grammar) (condition : Located Expr) (consequent : Option (Located Expr)) :
    Parser (Pass (Located Expr)) := do
  let alternative ← self.coalesceStep
  return .more ⟨.ternary condition consequent alternative, condition.span.merge alternative.span⟩

/-! ## Code inside text literals -/

section Embedded

variable {self : Grammar} {code : String} {offset : Nat} {state after : ParserState}

theorem embedded_of_scanned {tokens : List (Located Token)}
    (scanned : Token.scanFragment code offset = .ok tokens) :
    self.embedded code offset state =
      self.embeddedRest state (state.inside tokens (offset + Text.byteLength code)) := by
  simp only [embedded, scanned]
  rfl

theorem embedded_eq_ok {expression : Located Expr}
    (reads : self.embedded code offset state = .ok expression after) :
    ∃ tokens inner, Token.scanFragment code offset = .ok tokens ∧
      self.expression (state.inside tokens (offset + Text.byteLength code)) = .ok expression inner ∧
      inner.tokens = [] ∧ after = { state with nextId := inner.nextId } := by
  cases scanned : Token.scanFragment code offset with
  | error fault =>
    simp only [embedded, scanned] at reads
    cases reads
  | ok tokens =>
    rw [embedded_of_scanned scanned] at reads
    rcases bind_eq_ok reads with ⟨found, inner, readsInner, reads⟩
    rcases inner with ⟨_ | ⟨token, rest⟩, _, _, _⟩
    · cases reads
      exact ⟨tokens, _, rfl, readsInner, rfl, rfl⟩
    · cases reads

theorem embedded_eq_error {stop : Stop}
    (fails : self.embedded code offset state = .error stop after) :
    (∃ fault, stop = .fault fault ∧ after = state) ∨
      ∃ tokens, Token.scanFragment code offset = .ok tokens ∧
        (self.expression (state.inside tokens (offset + Text.byteLength code)) =
            .error stop after ∨
          ∃ fault expression, stop = .fault fault ∧
            self.expression (state.inside tokens (offset + Text.byteLength code)) =
              .ok expression after) := by
  cases scanned : Token.scanFragment code offset with
  | error fault =>
    simp only [embedded, scanned] at fails
    cases fails
    exact .inl ⟨fault, rfl, rfl⟩
  | ok tokens =>
    rw [embedded_of_scanned scanned] at fails
    refine .inr ⟨tokens, rfl, ?_⟩
    rcases bind_eq_error fails with failsInner | ⟨found, inner, readsInner, fails⟩
    · exact .inl failsInner
    · rcases inner with ⟨_ | ⟨token, rest⟩, _, _, _⟩
      · cases fails
      · cases fails
        exact .inr ⟨_, found, rfl, readsInner⟩

end Embedded

theorem embedded_of_expression {self : Grammar} {code : String} {offset : Nat}
    {state inner : ParserState} {tokens : List (Located Token)} {expression : Located Expr}
    (scanned : scanFragment code offset = .ok tokens)
    (reads : self.expression (state.inside tokens (offset + Text.byteLength code)) =
      .ok expression inner) (isOver : inner.tokens = []) :
    self.embedded code offset state = .ok expression { state with nextId := inner.nextId } := by
  rw [embedded_of_scanned scanned]
  simp only [embeddedRest, Bind.bind, EStateM.bind, reads]
  rcases inner with ⟨left, _, _, _⟩
  cases isOver
  rfl

theorem gathered_inside {code : String} {offset : Nat} {tokens : List (Located Token)}
    (scanned : scanFragment code offset = .ok tokens) (state : ParserState) :
    (state.inside tokens (offset + Text.byteLength code)).Gathered offset .ahead [] state.nextId
      (some (offset + Text.byteLength code)) where
  sound := by simp
  numbered := ParserState.numbered_nil _
  placed stop isStop := by
    cases isStop
    rcases exists_arranged_of_scanFragment scanned with ⟨pieces, arranged, whole, rfl⟩
    rw [Text.byteLength_eq, ← whole]
    have orderedFrom : ∀ low ≤ offset, Ordered _ low (Piece.tokensFrom offset pieces) :=
      fun _ isBefore => ordered_tokensFrom arranged.isProper isBefore
    refine ⟨⟨orderedFrom 0 (Nat.zero_le _), rfl⟩, ?_, by simp⟩
    exact ParserState.le_place_of_ordered (orderedFrom offset (Nat.le_refl _)) rfl

section Variables

variable {offset : Nat} {written : List Char} {expression : Located Expr}

theorem isSound_of_isVariable (isVariable : Segment.IsVariable offset written expression) :
    expression.node.IsSound := by
  have named (name : String) : (Expr.variable (.simple name)).IsSound :=
    .of_parts_eq_nil trivial rfl
  cases isVariable with
  | braced name => exact named _
  | plain name => exact named _
  | subscripted name isKey =>
    have keySound : ∀ {text key}, Segment.IsKey text key → key.IsSound := by
      intro text key isKey
      cases isKey with
      | name name => exact named _
      | word text => exact .of_parts_eq_nil trivial rfl
    refine .intro trivial ?_
    simpa [Expr.parts] using ⟨named _, keySound isKey⟩

theorem isPlaced_of_isVariable (isVariable : Segment.IsVariable offset written expression) :
    (Node.expression expression).IsPlaced offset (offset + Text.encodedSize written) := by
  have one : Char.utf8Size '$' = 1 ∧ Char.utf8Size '{' = 1 ∧ Char.utf8Size '}' = 1 ∧
      Char.utf8Size '[' = 1 ∧ Char.utf8Size ']' = 1 := ⟨rfl, rfl, rfl, rfl, rfl⟩
  cases isVariable with
  | braced name =>
    refine .intro (Nat.le_refl _) ?_ ?_
      (by simp [parts, Expr.nodes, Expr.parts, VariableName.parts])
    all_goals simp [span, one]
    all_goals omega
  | plain name =>
    refine .intro (Nat.le_refl _) ?_ ?_
      (by simp [parts, Expr.nodes, Expr.parts, VariableName.parts])
    all_goals simp [span, one]
    all_goals omega
  | @subscripted name text key isKey =>
    have noParts : key.nodes = [] := by
      cases isKey <;> rfl
    refine .intro (Nat.le_refl _) ?_ ?_ fun part isPart => ?_
    · simp [span]
      omega
    · simp [span, one]
      omega
    · simp only [parts, Expr.nodes, Expr.parts, Option.toList_some, List.map_cons, List.map_nil,
        List.mem_cons, List.not_mem_nil, or_false] at isPart
      rcases isPart with rfl | rfl
      · refine .intro (Nat.le_refl _) ?_ ?_
          (by simp [parts, Expr.nodes, Expr.parts, VariableName.parts])
        all_goals simp [span]
        all_goals omega
      · refine .intro ?_ ?_ ?_ (by simp [parts, noParts])
        all_goals simp [span]
        all_goals omega

end Variables

section Operands

variable {shorter longer : Grammar} {limit below : Nat} (nested : shorter.Proceeds longer limit)
include nested

/-- Code inside a text literal is read from its own tokens, which are light enough if the code is
short enough, and read to their end on both sides. -/
theorem draws_embedded {code : String} (isShort : 0 < below → code.length < limit)
    (offset other : Nat) :
    Draws below offset (offset + Text.byteLength code) (shorter.embedded code offset)
      (longer.embedded code other) ([·]) Expr.Alike where
  of_ok {state expression after} ends := by
    have adds : Gathers offset limit Anything .ahead [] shorter.expression longer.expression _
      .taken _ _ := nested.expression.gathers
    rcases embedded_eq_ok ends with ⟨tokens, inner, scanned, reads, isOver, rfl⟩
    rcases adds.of_ok trivial reads with ⟨_, _, gathered, mirrored⟩
    have begins := gathered (gathered_inside scanned state)
    have sameId : inner.nextId = state.nextId := by simpa using begins.numbered.next
    have sound := begins.sound (.expression expression) (by simp)
    refine ⟨by rw [sameId], List.forall_mem_singleton.mpr ⟨sound, ?_⟩, ?_⟩
    · rcases begins.placed _ rfl with ⟨ordered, has⟩
      have isBefore := ordered.previousStop_le.trans ordered.place_le
      exact (has.placed (.expression expression) (by simp)).widen (Nat.le_refl _) isBefore
    · intro extended sameNext
      rcases exists_scanFragment scanned other with ⟨moved, scannedOther, sameTokens⟩
      have inside : (state.inside tokens (offset + Text.byteLength code)).Continues []
          (extended.inside moved (other + Text.byteLength code)) :=
        ⟨by simpa [ParserState.kinds, ParserState.inside] using sameTokens, sameNext,
          by rintro _ ⟨⟩⟩
      rcases mirrored inside with ⟨expressionOther, innerOther, readsOther, same, continues⟩
      have isOverOther : innerOther.tokens = [] := by
        have left := continues.kinds
        simpa [ParserState.kinds, isOver] using left
      refine ⟨expressionOther, ?_, same⟩
      rw [embedded_of_expression scannedOther readsOther isOverOther, continues.nextId, sameId,
        ← sameNext]
  of_error {state _ _} ends := by
    have adds : Gathers offset limit Anything .ahead [] shorter.expression longer.expression _
      .taken _ _ := nested.expression.gathers
    rcases embedded_eq_error ends with ⟨fault, rfl, rfl⟩ |
      ⟨tokens, scanned, fails | ⟨fault, expression, rfl, reads⟩⟩
    · exact ⟨fun _ => (by rintro ⟨⟩), Nat.le_refl _⟩
    · rcases adds.of_error trivial fails with ⟨goesOn, isHigher⟩
      have isLighter := weights_le_of_scanFragment scanned
      exact ⟨fun isLight => goesOn (Nat.lt_of_le_of_lt isLighter (isShort isLight)), isHigher⟩
    · rcases adds.of_ok trivial reads with ⟨precedes, _⟩
      exact ⟨fun _ => (by rintro ⟨⟩), precedes.le_nextId⟩

theorem draws_segmentPart {segment other : Segment} {offset : Nat} {written : List Char}
    (fits : segment.Fits offset written) (same : other.bare = segment.bare)
    (isShort : ∀ code, segment.code? = some code → 0 < below → code.length < limit) :
    Draws below offset (offset + Text.encodedSize written) (shorter.segmentPart segment)
      (longer.segmentPart other) StringPart.parts
      (fun part other => Expr.barePart other = Expr.barePart part) := by
  have one : Char.utf8Size '$' = 1 ∧ Char.utf8Size '{' = 1 ∧ Char.utf8Size '}' = 1 :=
    ⟨rfl, rfl, rfl⟩
  cases fits <;> cases other <;>
    simp only [Segment.bare, Segment.text.injEq, Segment.variable.injEq, Segment.code.injEq,
      Segment.variableNamed.injEq, and_true, reduceCtorEq] at same
  · exact .pure (by simp [StringPart.parts]) (by rw [same])
  · rename_i isVariable _
    refine .pure (List.forall_mem_singleton.mpr ?_) (by simp [Expr.barePart, same])
    exact ⟨isSound_of_isVariable isVariable, isPlaced_of_isVariable isVariable⟩
  · subst same
    refine .map (draws_embedded nested (isShort _ rfl) _ _) (fun name drawn => ?_)
      fun _ _ alike => ?_
    · rcases List.forall_mem_singleton.mp drawn with ⟨sound, placed⟩
      refine List.forall_mem_singleton.mpr ⟨.intro trivial ?_, ?_⟩
      · simpa [Expr.parts, VariableName.parts] using sound
      · refine .intro (Nat.le_refl _) ?_ ?_ (List.forall_mem_singleton.mpr ?_)
        · simp only [span]
          omega
        · simp [span, one]
          omega
        · refine placed.widen (Nat.le_add_right _ _) ?_
          simp [span, Text.byteLength_eq]
          omega
    · simp [Expr.barePart, Expr.bareAt_eq_iff, Expr.bare, Expr.bareName, alike]
  · subst same
    refine .map (draws_embedded nested (isShort _ rfl) _ _) (fun code drawn => ?_)
      fun _ _ alike => ?_
    · rcases List.forall_mem_singleton.mp drawn with ⟨sound, placed⟩
      refine List.forall_mem_singleton.mpr ⟨sound, placed.widen (Nat.le_succ _) ?_⟩
      simp [Text.byteLength_eq, one]
      omega
    · simp [Expr.barePart, alike]

theorem gathers_segmentPart {raw : String} {token : Located Token} {segment other : Segment}
    {low : Nat} {earlier : List Node} (isQuoted : token.node = .doubleQuoted raw)
    (isShort : 0 < below → raw.length ≤ limit)
    (isIn : segment.IsIn (token.span.start + 1) raw.toList) (same : other.bare = segment.bare) :
    Gathers low below Anything (.behind token) earlier (shorter.segmentPart segment)
      (longer.segmentPart other) (fun _ => False) (.behind token)
      (fun part => earlier ++ part.parts.map .expression)
      (fun part other => Expr.barePart other = Expr.barePart part) := by
  have lengths : ∀ code, segment.code? = some code → code.length < raw.length :=
    fun _ => isIn.length_lt
  rcases isIn with ⟨before, written, behind, whole, fits⟩
  refine (draws_segmentPart nested fits same fun code isCode isLight =>
    Nat.lt_of_lt_of_le (lengths code isCode) (isShort isLight)).gathers fun hasRoom => ?_
  have room := hasRoom.quoted raw isQuoted
  rw [Text.byteLength_eq, whole, Text.encodedSize_append, Text.encodedSize_append] at room
  omega

theorem gathers_interpolation {raw : String} {token : Located Token} {low : Nat}
    {earlier : List Node} (isQuoted : token.node = .doubleQuoted raw)
    (isShort : 0 < below → raw.length ≤ limit) (other : Nat) :
    Gathers low below Anything (.behind token) earlier
      (shorter.interpolation raw (token.span.start + 1)) (longer.interpolation raw other)
      (fun _ => False) .taken (fun code => earlier ++ code.nodes) Expr.Agrees := by
  unfold interpolation
  rcases Segment.split_bare raw other (token.span.start + 1) with ⟨sameSegments, sameEnd⟩
  have inside (segment : Segment)
      (isMember : segment ∈ (Segment.split raw (token.span.start + 1)).1) :=
    Segment.mem_split isMember
  generalize Segment.split raw (token.span.start + 1) = found at sameSegments sameEnd inside ⊢
  generalize Segment.split raw other = foundOther at sameSegments sameEnd ⊢
  rcases found with ⟨segments, unclosed⟩
  rcases foundOther with ⟨segmentsOther, unclosedOther⟩
  refine .bind (.mapM (forall₂_alike_iff.mpr sameSegments) fun segment isMember _ same _ =>
    gathers_segmentPart nested isQuoted isShort (inside segment isMember) same)
    fun parts partsOther alike => ?_
  have same := forall₂_alike_iff.mp alike
  cases unclosed with
  | some brace => exact .faults (.failAt _ _)
  | none =>
    cases unclosedOther with
    | some brace => cases sameEnd
    | none =>
      refine .entering ?_ Edge.behind_implies_taken
      dsimp only
      split
      · cases List.map_eq_nil_iff.mp same
        exact .kept rfl ⟨rfl, trivial⟩
      · rename_i text
        have only : partsOther = [.text text] := by
          rcases List.map_eq_singleton_iff.mp same with ⟨part, rfl, samePart⟩
          cases part <;> simp_all [Expr.barePart]
        rw [only]
        exact .kept rfl ⟨rfl, trivial⟩
      · rename_i notEmpty notText
        split
        · exact absurd (List.map_eq_nil_iff.mp same.symm) notEmpty
        · rename_i text
          rcases List.map_eq_singleton_iff.mp same.symm with ⟨part, isOnly, samePart⟩
          cases part with
          | text own => exact absurd isOnly (notText own)
          | code own => simp [Expr.barePart] at samePart
        · exact .kept (by simp [Expr.nodes, Expr.parts, List.map_flatMap])
            ⟨by simp [Expr.bare, same], trivial⟩

/-! ## Operands -/

theorem adds_parenthesized : AddsExpression limit shorter.parenthesized longer.parenthesized :=
  ⟨.expecting <| .bind nested.expression.gathers fun _ _ same => .expecting <| .kept rfl same⟩

theorem adds_arguments :
    Adds limit shorter.arguments longer.arguments (·.map .expression) Expr.AlikeAll := by
  refine ⟨.expecting ?_⟩
  simp only [List.map_eq_flatMap (f := Node.expression)]
  exact (mayAdd_separatedUpTo nested.expression nested.enough nested.passes rfl).gathers.weaken
    fun _ _ => forall₂_alike_iff.mp

/-- The nodes of an element of an array. -/
def itemNodes (item : ArrayItem Expr) : List Node :=
  item.key.toList.map .expression ++ [.expression item.value]

theorem adds_arrayItem :
    Adds limit shorter.arrayItem longer.arrayItem itemNodes
      (fun item other => Expr.bareItem other = Expr.bareItem item) := by
  refine ⟨.bind_more nested.expression.gathers fun first other sameFirst => .bind_eat rfl ?_ ?_⟩
  · refine .bind nested.expression.gathers fun value valueOther sameValue => ?_
    exact .kept (by simp [itemNodes]) (by simp [Expr.bareItem, sameFirst, sameValue])
  · exact .kept rfl (by simp [Expr.bareItem, sameFirst])

theorem mayAdd_arrayItems {close : Symbol} (inner : (Terminal.mark close).isInner = true) :
    MayAdd limit (shorter.arrayItems close) (longer.arrayItems close) Expr.nodes Expr.Agrees := by
  refine ⟨.bind (mayAdd_separatedUpTo (adds_arrayItem nested) nested.enough nested.passes
    inner).gathers fun items others same => .kept ?_ ⟨?_, trivial⟩⟩
  · simp only [Expr.nodes, Expr.parts, List.map_flatMap, List.map_append]
    rfl
  · simp [Expr.bare, forall₂_alike_iff.mp same]

theorem mayAdd_named (name : String) :
    MayAdd limit (shorter.named name) (longer.named name) Expr.nodes Expr.Agrees := by
  refine ⟨.bind_check rfl ?_ ?_⟩
  · refine .bind (adds_arguments nested).gathers fun arguments others same =>
      .kept rfl ⟨?_, trivial⟩
    simp [Expr.bare, Expr.bareCallee, same]
  · have isPlain : ((reservedName? name).getD (.constant name)).nodes = [] ∧
        ((reservedName? name).getD (.constant name)).IsProper := by
      unfold reservedName?
      split
      all_goals exact ⟨rfl, trivial⟩
    exact .kept (by simp [isPlain.1]) ⟨rfl, isPlain.2⟩

theorem adds_dynamicVariableStep :
    Adds (limit + 1) shorter.dynamicVariableStep longer.dynamicVariableStep
      (fun code => [.expression code])
      (fun code other => Expr.Alike code other ∧ code.node.IsLed) := by
  refine ⟨.bind_here (.inr rfl) fun start startOther => .bind_taking .expect fun _ _ _ => ?_⟩
  have locates {limit : Nat} (name nameOther : Located Expr) (same : Expr.Alike name nameOther) :
      GathersOn start.start limit [.expression name] (locate start (.variable (.dynamic name)))
        (locate startOther (.variable (.dynamic nameOther))) (fun code => [.expression code])
        (fun code other => Expr.Alike code other ∧ code.node.IsLed) :=
    .locateHolding trivial rfl fun _ _ =>
      ⟨by simp [Expr.bareAt_eq_iff, Expr.bare, Expr.bareName, same], .variable _⟩
  refine .bind_eat_ahead ?_ ?_
  · exact .bind nested.expression.gathers fun _ _ same => .expecting <|
      .bind (.kept rfl same) locates
  · refine .peek_ahead (.bind (.expected _)) fun token _ => ?_
    dsimp only
    split
    · refine .here_seen fun _ => .advance (.bind (.pure_token rfl rfl ?_ rfl rfl) locates)
      exact .of_parts_eq_nil trivial rfl
    · exact .bind_more nested.dynamicVariable.gathers locates
    · exact .faults (.bind (.expected _))

theorem mayAdd_exitArgument :
    MayAdd limit shorter.exitArgument longer.exitArgument (fun code => code.toList.map .expression)
      (fun code other => other.map Expr.bareAt = code.map Expr.bareAt) := by
  refine ⟨.bind_eat rfl (.bind_eat rfl (.kept (by simp) rfl) ?_) (.kept (by simp) rfl)⟩
  exact .bind nested.expression.gathers fun _ _ same => .expecting <|
    .kept rfl (congrArg some same)

theorem adds_keywordOperand {token : Located Token} (start startOther : Span) (word : Keyword) :
    AddsIf (Begins token) (limit + 1) (shorter.keywordOperand start word)
      (longer.keywordOperand startOther word) Expr.nodes Expr.Agrees := by
  constructor
  intro low before earlier
  have exits : GathersOn low limit earlier (do return .exit (← shorter.exitArgument) : Parser Expr)
      (do return .exit (← longer.exitArgument)) (fun code => earlier ++ code.nodes) Expr.Agrees :=
    .bind (mayAdd_exitArgument nested).gathers fun _ _ same =>
      .kept rfl ⟨by simp [Expr.bare, same], trivial⟩
  cases word with
  | kwArray => exact .take (.expecting (mayAdd_arrayItems nested rfl).gathers)
  | kwIsset =>
    refine .take (.bind (adds_arguments nested).gathers fun targets others same => ?_)
    cases targets with
    | nil => exact .faults fun _ => ⟨_, rfl⟩
    | cons target targets =>
      rcases List.map_eq_cons_iff.mp same with ⟨other, others, rfl, sameFirst, sameRest⟩
      exact .kept rfl ⟨by simp [Expr.bare, sameFirst, sameRest], List.cons_ne_nil _ _⟩
  | kwEmpty =>
    exact .take (.bind (adds_parenthesized nested).gathers fun _ _ same =>
      .kept rfl ⟨by simp [Expr.bare, same], trivial⟩)
  | kwEval =>
    exact .take (.bind (adds_parenthesized nested).gathers fun _ _ same =>
      .kept rfl ⟨by simp [Expr.bare, same], trivial⟩)
  | kwExit => exact .take exits
  | kwDie => exact .take exits
  | _ => exact .faults .unexpected

/-- Where a variable is asked for, one begins. -/
def Leading (leads : Prop) (state : ParserState) : Prop :=
  leads → LeadsVariable (state.tokens.head?.map Located.node)

/-- The same operand up to places, which is led by a variable where one is asked for. -/
def AlikeOperand (leads : Prop) (code other : Located Expr) : Prop :=
  Expr.Alike code other ∧ (leads → code.node.IsLed)

theorem adds_primary (leads : Prop) :
    AddsIf (Leading leads) (limit + 1) shorter.primary longer.primary
      (fun code => [.expression code]) (AlikeOperand leads) := by
  constructor
  intro low before earlier
  refine .start (.inr rfl) (fun _ => .bind .unexpected) fun token startOther admitted => ?_
  have isVariable : leads → LeadsVariable (some token.node) := by
    rcases admitted with ⟨state, admitted, isNext⟩
    rwa [Leading, isNext] at admitted
  have locates {limit : Nat} (node other : Expr) (agrees : node.Agrees other)
      (led : LeadsVariable (some token.node) → node.IsLed) :
      GathersOn token.span.start limit node.nodes (locate token.span node) (locate startOther other)
        (fun code => [.expression code]) (AlikeOperand leads) :=
    .locateHolding agrees.2 rfl fun _ _ =>
      ⟨Expr.bareAt_eq_iff.mpr agrees.1, fun isLed => led (isVariable isLed)⟩
  rcases token with ⟨token, span⟩
  dsimp only at locates ⊢
  split
  · exact (adds_dynamicVariableStep nested).gathers.anywhere.weaken fun _ _ valid =>
      ⟨valid.1, fun _ => valid.2⟩
  · split
    all_goals rename_i isNext
    all_goals try cases isNext
    · exact .take (locates (.int _) (.int _) ⟨rfl, trivial⟩ False.elim)
    · exact .take (locates (.float _) (.float _) ⟨rfl, trivial⟩ False.elim)
    · exact .take (locates (.str _) (.str _) ⟨rfl, trivial⟩ False.elim)
    · refine .advance (.bind (gathers_interpolation nested rfl (fun isLight => ?_) _)
        fun node other agrees => locates node other agrees False.elim)
      simp only [Token.weight] at isLight
      omega
    · exact .take (locates (.variable (.simple _)) (.variable (.simple _)) ⟨rfl, trivial⟩
        fun _ => .variable _)
    · exact .take (.bind (mayAdd_named nested _).gathers fun node other agrees =>
        locates node other agrees False.elim)
    · exact .take (.bind (mayAdd_arrayItems nested rfl).gathers fun node other agrees =>
        locates node other agrees False.elim)
    · refine .take (.bind nested.expression.gathers fun inner other same => .expecting ?_)
      -- Only the content of `inner` is kept, so its parts are sound and placed because it was.
      have sameNode := Expr.bareAt_eq_iff.mp same
      refine .spanFrom (.inl rfl) (fun _ => rfl) (fun _ => .parts inner) (fun _ sound => ?_)
        (fun _ => rfl) fun _ _ => ⟨Expr.bareAt_eq_iff.mpr sameNode,
          fun isLed => False.elim (isVariable isLed)⟩
      exact sound (.expression inner) (List.mem_singleton_self _)
    · exact .bind_taking (adds_keywordOperand nested _ _ _).gathers fun node other agrees =>
        locates node other agrees False.elim
    · exact .faults (.bind .unexpected)

/-! ## Operators -/

omit nested in
theorem isVariable_eq {operand other : Located Expr} (same : Expr.Alike operand other) :
    other.node.isVariable = operand.node.isVariable := by
  rw [← Expr.isVariable_bare, ← Expr.isVariable_bare operand.node, Expr.bareAt_eq_iff.mp same]

theorem gathers_suffixPass (start startOther : Span) (leads : Prop) :
    Collects start.start limit .taken (fun operand => [.expression operand])
      (AlikeOperand leads) (shorter.suffixPass start) (longer.suffixPass startOther) := by
  rintro operand other ⟨same, led⟩
  have subscripts (index indexOther : Option (Located Expr))
      (sameIndex : indexOther.map Expr.bareAt = index.map Expr.bareAt) :
      Gathers start.start limit Anything .taken
        (.expression operand :: index.toList.map .expression) (subscriptRest start operand index)
        (subscriptRest startOther other indexOther) (fun _ => False) .taken
        (Pass.elim (fun operand => [.expression operand]) fun operand => [.expression operand])
        (Pass.Both (AlikeOperand leads)) := by
    refine .expecting <| .bind (.locateHolding trivial rfl fun _ _ =>
      (⟨?_, fun isLed => .subscript (led isLed) _⟩ : AlikeOperand leads _ _)) fun _ _ valid =>
        .kept rfl valid
    simp [Expr.bareAt_eq_iff, Expr.bare, same, sameIndex]
  refine .bind_eat rfl (.bind_check rfl ?_ ?_) ?_
  · exact subscripts none none rfl
  · exact .bind nested.expression.gathers fun _ _ sameIndex =>
      subscripts (some _) (some _) (congrArg some sameIndex)
  · have itself : Gathers start.start limit Anything .taken [.expression operand]
        (pure (Pass.done operand)) (pure (Pass.done other)) Pass.IsMore .taken
        (Pass.elim (fun operand => [.expression operand]) fun operand => [.expression operand])
        (Pass.Both (AlikeOperand leads)) :=
      .pure_of id (.of_eq rfl) ⟨same, led⟩
    simp only [Bool.false_eq_true, if_false, isVariable_eq same]
    split
    · rename_i isVariable
      refine .bind_check rfl ?_ itself
      refine .bind_more (adds_arguments nested).gathers fun arguments others sameArguments => ?_
      refine .bind (.locateHolding trivial rfl fun _ _ =>
        (⟨?_, fun isLed => .call (led isLed) isVariable _⟩ : AlikeOperand leads _ _))
        fun _ _ valid => .kept rfl valid
      simp [Expr.bareAt_eq_iff, Expr.bare, Expr.bareCallee, same, sameArguments]
    · exact itself

theorem adds_suffixed (leads : Prop) :
    AddsIf (Leading leads) (limit + 1) shorter.suffixed longer.suffixed
      (fun code => [.expression code])
      (fun code other => Expr.Alike code other ∧ (leads → code.node.IsTarget)) := by
  refine ⟨.bind_here (.inr rfl) fun start startOther => ?_⟩
  refine .bind_taking (adds_primary nested leads).gathers fun first firstOther valid => ?_
  refine .bind (.iterate nested.enough nested.passes
    (gathers_suffixPass nested start startOther leads) valid) fun operand other valid => ?_
  rcases valid with ⟨same, led⟩
  have itself {next : ParserState → Prop} : Gathers start.start limit next .taken
      [.expression operand] (pure operand) (pure other) (fun _ => False) .taken
      (fun code => [.expression code])
      (fun code other => Expr.Alike code other ∧ (leads → code.node.IsTarget)) :=
    .kept rfl ⟨same, fun isLed => .led (led isLed)⟩
  simp only [isVariable_eq same]
  split
  · exact itself
  · rename_i isVariable
    have stores : operand.node.isVariable = true := by simpa using isVariable
    refine .bind_peek itself (fun token => ?_) (by rintro _ ⟨⟩ <;> rfl)
    simp only [Option.bind_some]
    cases stepOperator? token.node with
    | some operator =>
      refine .lower (.take (.locateHolding stores rfl fun _ _ => ⟨?_, fun isLed => ?_⟩))
      · simp [Expr.bareAt_eq_iff, Expr.bare, same]
      · exact .step (led isLed) _
    | none =>
      dsimp only
      split
      · rename_i mark _
        cases assignment? mark with
        | none => exact itself
        | some kind =>
          refine .lower (.take (.bind nested.choice.gathers fun value valueOther sameValue => ?_))
          cases kind with
          | plain =>
            exact .locateHolding stores rfl fun _ _ =>
              ⟨by simp [Expr.bareAt_eq_iff, Expr.bare, same, sameValue],
                fun isLed => .assign (led isLed) value⟩
          | compound operator =>
            exact .locateHolding stores rfl fun _ _ =>
              ⟨by simp [Expr.bareAt_eq_iff, Expr.bare, same, sameValue],
                fun isLed => .compoundAssign (led isLed) operator value⟩
          | coalesce =>
            exact .locateHolding stores rfl fun _ _ =>
              ⟨by simp [Expr.bareAt_eq_iff, Expr.bare, same, sameValue],
                fun isLed => .coalesceAssign (led isLed) value⟩
      · exact itself

end Operands

/-! ## Casts -/

/-- The cast at the head of some tokens. -/
def cast? (tokens : List Token) : Option CastType :=
  if tokens.head?.any (·.isSymbol .leftParen) && tokens[2]?.any (·.isSymbol .rightParen) then
    tokens[1]?.bind castType?
  else none

section Casts

variable {tokens : List Token}

theorem castAhead_eq (state : ParserState) : castAhead state = .ok (cast? state.kinds) state := by
  have sees (distance : Nat) : Parser.peekAt distance state = .ok state.kinds[distance]? state := by
    rw [ParserState.kinds, List.getElem?_map]
    rfl
  simp only [castAhead, cast?, Bind.bind, EStateM.bind, peek_eq, sees]
  split
  · simp only [EStateM.bind, sees]
    rfl
  · rfl

theorem cast?_append {rest : List Token} (nonempty : tokens ≠ [])
    (border : ∀ token ∈ rest.head?, token.IsBorder) : cast? (tokens ++ rest) = cast? tokens := by
  match tokens, rest with
  | [], _ => exact absurd rfl nonempty
  | tokens, [] => rw [List.append_nil]
  | [first], follows :: rest =>
    have noType : castType? follows = none := by cases border follows rfl <;> rfl
    simp [cast?, noType]
  | [first, second], follows :: rest =>
    have noParen : follows.isSymbol .rightParen = false := by cases border follows rfl <;> rfl
    simp [cast?, noParen]
  | first :: second :: third :: tokens, rest => rfl

theorem length_of_cast? {type : CastType} (isCast : cast? tokens = some type) :
    3 ≤ tokens.length := by
  match tokens with
  | [] | [_] | [_, _] => simp [cast?] at isCast
  | first :: second :: third :: tokens => simp

theorem gathers_castAhead {α : Type} {low limit : Nat} {before behind : Edge} {earlier : List Node}
    {moves : α → Prop} {nodes : α → List Node} {holds : α → α → Prop} {token : Located Token}
    {second after : Option CastType → Parser α}
    (whenCast : ∀ type, Gathers low limit (fun state => 3 ≤ state.tokens.length) before earlier
      (second (some type)) (after (some type)) moves behind nodes holds)
    (otherwise : Gathers low limit (Begins token) before earlier (second none) (after none) moves
      behind nodes holds) :
    Gathers low limit (Begins token) before earlier (castAhead >>= second) (castAhead >>= after)
      moves behind nodes holds := by
  refine .locally fun {state _ extended} isNext continues => ?_
  have nonempty : state.kinds ≠ [] := by
    intro isOver
    have begins := isNext.kinds
    rw [isOver] at begins
    cases begins
  refine ⟨second (cast? state.kinds), after (cast? state.kinds), ?_, ?_, ?_⟩
  · simp only [Bind.bind, EStateM.bind, castAhead_eq]
  · simp only [Bind.bind, EStateM.bind, castAhead_eq, continues.kinds,
      cast?_append nonempty continues.border]
  · cases isCast : cast? state.kinds with
    | none => exact otherwise.ahead_of fun _ isState => isState ▸ isNext
    | some type =>
      refine (whenCast type).ahead_of ?_
      rintro _ rfl
      have isLong := length_of_cast? isCast
      rwa [ParserState.kinds, List.length_map] at isLong

end Casts

/-! ## Operators around operands -/

section Merging

variable {low high : Nat} {earlier : List Node} {left right : Located Expr} {node : Expr}

theorem isPlaced_merge (leftPlaced : (Node.expression left).IsPlaced low high)
    (rightPlaced : (Node.expression right).IsPlaced low high)
    (hasParts : ∀ part ∈ node.nodes, part = .expression left ∨ part = .expression right ∨
      part.IsPlaced left.span.start right.span.stop) :
    (Node.expression ⟨node, left.span.merge right.span⟩).IsPlaced low high := by
  have leftBounds := leftPlaced.bounds
  have rightBounds := rightPlaced.bounds
  simp only [span] at leftBounds rightBounds
  have within : (left.span.merge right.span).start ≤ left.span.start ∧
      (left.span.merge right.span).start ≤ right.span.start ∧
      left.span.stop ≤ (left.span.merge right.span).stop ∧
      right.span.stop ≤ (left.span.merge right.span).stop :=
    ⟨Nat.min_le_left _ _, Nat.min_le_right _ _, Nat.le_max_left _ _, Nat.le_max_right _ _⟩
  refine .intro ?_ ?_ ?_ fun part isPart => ?_
  · exact Nat.le_min.mpr ⟨leftBounds.1, rightBounds.1⟩
  · exact within.1.trans (leftBounds.2.1.trans within.2.2.1)
  · exact Nat.max_le.mpr ⟨leftBounds.2.2, rightBounds.2.2⟩
  · rcases hasParts part isPart with rfl | rfl | isBetween
    · exact leftPlaced.tight.widen within.1 within.2.2.1
    · exact rightPlaced.tight.widen within.2.1 within.2.2.2
    · exact isBetween.widen within.1 within.2.2.2

theorem yields_merged (own : node.IsProper)
    (hasNodes : node.nodes = [.expression left, .expression right]) :
    Yields (earlier ++ [.expression left] ++ [.expression right])
      (earlier ++ [.expression ⟨node, left.span.merge right.span⟩]) where
  sound sound := by
    simp only [List.forall_mem_append, List.forall_mem_singleton] at sound ⊢
    refine ⟨sound.1.1, .of_nodes own ?_⟩
    simpa [hasNodes] using ⟨sound.1.2, sound.2⟩
  declarations := by simp
  placed placed := by
    simp only [List.forall_mem_append, List.forall_mem_singleton] at placed ⊢
    refine ⟨placed.1.1, isPlaced_merge placed.1.2 placed.2 fun part isPart => ?_⟩
    simp only [hasNodes, List.mem_cons, List.not_mem_nil, or_false] at isPart
    rcases isPart with isLeft | isRight
    · exact .inl isLeft
    · exact .inr (.inl isRight)

theorem alike_joined {leftOther rightOther : Located Expr} (sameLeft : Expr.Alike left leftOther)
    (sameRight : Expr.Alike right rightOther) (operator : BinaryOperator) :
    Expr.Alike (joined left operator right) (joined leftOther operator rightOther) := by
  simp [Expr.bareAt_eq_iff, joined, Expr.bare, sameLeft, sameRight]

end Merging

section Unary

variable {shorter longer : Grammar} {limit : Nat} (nested : shorter.Proceeds longer limit)
include nested

theorem adds_power : AddsExpression (limit + 1) shorter.power longer.power := by
  constructor
  intro low before earlier
  have base : Gathers low (limit + 1) Anything before earlier shorter.suffixed longer.suffixed
      (fun _ => True) .taken (fun code => earlier ++ [.expression code]) Expr.Alike :=
    ((adds_suffixed nested False).gathers.ahead_of fun _ _ => False.elim).weaken fun _ _ => And.left
  refine .bind_taking base fun base other sameBase => .bind_eat rfl ?_ (.kept rfl sameBase)
  exact .bind nested.unary.gathers fun _ _ same =>
    .pure (yields_merged trivial rfl) (alike_joined sameBase same _)

theorem adds_unaryStep : AddsExpression (limit + 1) shorter.unaryStep longer.unaryStep := by
  refine ⟨.start (.inr rfl) (fun _ => .unexpected) fun token startOther _ => ?_⟩
  have wraps {node : Located Expr → Expr} {parser parserOther : Parser (Located Expr)}
      (adds : AddsExpression limit parser parserOther)
      (agrees : ∀ operand other, Expr.Alike operand other → (node operand).Agrees (node other))
      (hasNodes : ∀ operand, (node operand).nodes = [.expression operand]) :
      GathersOn token.span.start limit []
        (do
          let operand ← parser
          Parser.locate token.span (node operand))
        (do
          let operand ← parserOther
          Parser.locate startOther (node operand))
        (fun code => [.expression code]) Expr.Alike :=
    .bind adds.gathers fun operand other same =>
      .locateExpression (agrees operand other same) (hasNodes operand)
  dsimp only
  cases unaryOperator? token.node with
  | some operator =>
    exact .take (wraps nested.unary (fun _ _ same => ⟨by simp [Expr.bare, same], trivial⟩)
      fun _ => rfl)
  | none =>
    refine gathers_castAhead (fun type => ?_) ?_
    · refine .skip (.lower (.skip (.lower (.skip ?_))))
      exact .anywhere (wraps nested.unary (fun _ _ same => ⟨by simp [Expr.bare, same], trivial⟩)
        fun _ => rfl)
    · dsimp only
      split
      · refine .take (.bind nested.unary.gathers fun target other same => ?_)
        simp only [isVariable_eq same]
        split
        · exact .faults (.bind (.failAt _ _))
        · rename_i isVariable
          have stores : target.node.isVariable = true := by simpa using isVariable
          exact .locateExpression ⟨by simp [Expr.bare, same], stores⟩ rfl
      · exact .take (wraps nested.choice (fun _ _ same => ⟨by simp [Expr.bare, same], trivial⟩)
          fun _ => rfl)
      · exact .take (wraps nested.unary (fun _ _ same => ⟨by simp [Expr.bare, same], trivial⟩)
          fun _ => rfl)
      · exact .take (wraps nested.choice (fun _ _ same => ⟨by simp [Expr.bare, same], trivial⟩)
          fun _ => rfl)
      · exact (adds_power nested).gathers.anywhere

end Unary

section Levels

/-- No operator of a level is a token that may follow a heading or a body. -/
def IsInnerLevel (level : Token → Option BinaryOperator) : Prop :=
  ∀ token, token.IsBorder → level token = none

theorem isInnerLevel_of_mem_wordLevels {level : Token → Option BinaryOperator}
    (member : level ∈ wordLevels) : IsInnerLevel level := by
  simp only [wordLevels, List.mem_cons, List.not_mem_nil, or_false] at member
  rcases member with rfl | rfl | rfl <;> rintro _ ⟨⟩ <;> rfl

theorem isInnerLevel_of_mem_symbolLevels {level : Symbol → Option BinaryOperator}
    (member : level ∈ symbolLevels) : IsInnerLevel (onSymbols level) := by
  simp only [symbolLevels, List.mem_cons, List.not_mem_nil, or_false] at member
  rcases member with rfl | rfl | rfl | rfl | rfl | rfl | rfl | rfl | rfl | rfl | rfl <;>
    rintro _ ⟨⟩ <;> rfl

variable {operand operandOther : Parser (Located Expr)} {limit bound boundOther : Nat}

theorem gathers_operatorPass (adds : AddsExpression (limit + 1) operand operandOther)
    {operator? : Token → Option BinaryOperator} (inner : IsInnerLevel operator?) (low : Nat)
    (earlier : List Node) :
    Collects low limit .taken (fun code => earlier ++ [.expression code]) Expr.Alike
      (operatorPass operator? operand) (operatorPass operator? operandOther) := by
  intro left leftOther same
  have itself {next : ParserState → Prop} : Gathers low limit next .taken
      (earlier ++ [.expression left]) (pure (Pass.done left)) (pure (Pass.done leftOther))
      Pass.IsMore .taken (Pass.elim (fun code => earlier ++ [.expression code])
        fun code => earlier ++ [.expression code]) (Pass.Both Expr.Alike) :=
    .pure_of id (.of_eq rfl) same
  refine .bind_peek itself (fun token => ?_) fun token border => ?_
  · simp only [Option.bind_some]
    cases operator? token.node with
    | none => exact itself
    | some operator =>
      refine .lower (.take (.bind adds.gathers.lower fun right rightOther sameRight => ?_))
      exact .pure (yields_merged trivial rfl) (alike_joined same sameRight operator)
  · simp only [Option.bind_some, Option.bind_none, inner token border]

theorem adds_levels (enough : limit ≤ bound) (isMore : bound ≤ boundOther)
    (adds : AddsExpression (limit + 1) operand operandOther)
    {operators : List (Token → Option BinaryOperator)}
    (inner : ∀ level ∈ operators, IsInnerLevel level) :
    AddsExpression (limit + 1) (levels bound operand operators)
      (levels boundOther operandOther operators) := by
  induction operators with
  | nil => exact adds
  | cons level tighter ih =>
    rcases List.forall_mem_cons.mp inner with ⟨own, others⟩
    exact ⟨.bind_taking (ih others).gathers fun _ _ same =>
      .iterate enough isMore (gathers_operatorPass (ih others) own _ _) same⟩

end Levels

section Choices

variable {shorter longer : Grammar} {limit : Nat} (nested : shorter.Proceeds longer limit)
include nested

theorem adds_coalesceStep :
    AddsExpression (limit + 1) shorter.coalesceStep longer.coalesceStep := by
  have binary : AddsExpression (limit + 1) shorter.binary longer.binary := by
    refine adds_levels nested.enough nested.passes (adds_unaryStep nested) fun level member => ?_
    rcases List.mem_map.mp member with ⟨symbols, isLevel, rfl⟩
    exact isInnerLevel_of_mem_symbolLevels isLevel
  refine ⟨.bind_taking binary.gathers fun left other sameLeft => .bind_eat rfl ?_
    (.kept rfl sameLeft)⟩
  refine .bind nested.coalesce.gathers fun right rightOther sameRight =>
    .pure (yields_merged trivial rfl) ?_
  simp [Expr.bareAt_eq_iff, Expr.bare, sameLeft, sameRight]

omit nested in
/-- A choice lies around its consequent, since this lies between the condition and the
alternative. -/
theorem yields_ternary {condition alternative : Located Expr} {consequent : Option (Located Expr)}
    {earlier gathered : List Node} (isSubset : earlier ++ [.expression condition] ⊆ gathered)
    (declares : declarationsOf gathered = declarationsOf earlier)
    (between : ∀ code ∈ consequent, .expression code ∈ gathered ∧
      (Node.expression condition).gap (.expression code) ∈ gathered) :
    Yields (gathered ++ gathered.map (·.gap (.expression alternative)) ++ [.expression alternative])
      (earlier ++ [.expression ⟨.ternary condition consequent alternative,
        condition.span.merge alternative.span⟩]) := by
  have hasCondition : .expression condition ∈ gathered := isSubset (by simp)
  have isEarlier (node : Node) (isMember : node ∈ earlier) : node ∈ gathered :=
    isSubset (List.mem_append_left _ isMember)
  refine ⟨fun sound => ?_, ?_, fun placed => ?_⟩
  · simp only [List.forall_mem_append, List.forall_mem_singleton] at sound ⊢
    refine ⟨fun node isMember => sound.1.1 node (isEarlier node isMember), .of_nodes trivial ?_⟩
    simp only [Expr.nodes, Expr.parts, List.map_append, List.map_singleton,
      List.forall_mem_append, List.forall_mem_singleton, List.forall_mem_map, Option.mem_toList]
    exact ⟨⟨sound.1.1 _ hasCondition, fun code isCode => sound.1.1 _ (between code isCode).1⟩,
      sound.2⟩
  · simp [declares]
  · simp only [List.forall_mem_append, List.forall_mem_singleton, List.forall_mem_map] at placed ⊢
    rcases placed with ⟨⟨all, gaps⟩, alternativePlaced⟩
    refine ⟨fun node isMember => all node (isEarlier node isMember), ?_⟩
    refine isPlaced_merge (all _ hasCondition) alternativePlaced fun part isPart => ?_
    simp only [Expr.nodes, Expr.parts, List.map_append, List.map_singleton, List.mem_append,
      List.mem_singleton, List.mem_map, Option.mem_toList] at isPart
    rcases isPart with (isCondition | ⟨code, isCode, rfl⟩) | isAlternative
    · exact .inl isCondition
    · rcases between code isCode with ⟨isGathered, hasGap⟩
      refine .inr (.inr ((all _ isGathered).tight.widen ?_ ?_))
      · exact (all _ hasCondition).bounds.2.1.trans (all _ hasGap).of_gap
      · exact (gaps _ isGathered).of_gap.trans alternativePlaced.bounds.2.1
    · exact .inr (.inl isAlternative)

/-- A colon ends the consequent of a choice, so it may be missed at the end of the tokens; but then
there is no alternative. -/
theorem gathers_choicePass (low : Nat) (earlier : List Node) :
    Collects low limit .taken (fun code => earlier ++ [.expression code]) Expr.Alike
      shorter.choicePass longer.choicePass := by
  intro condition other same
  have alternatives {gathered : List Node} (consequent consequentOther : Option (Located Expr))
      (sameConsequent : consequentOther.map Expr.bareAt = consequent.map Expr.bareAt)
      (isSubset : earlier ++ [.expression condition] ⊆ gathered)
      (declares : declarationsOf gathered = declarationsOf earlier)
      (between : ∀ code ∈ consequent, .expression code ∈ gathered ∧
        (Node.expression condition).gap (.expression code) ∈ gathered) :
      GathersOn low limit gathered (shorter.ternaryRest condition consequent)
        (longer.ternaryRest other consequentOther)
        (Pass.elim (fun code => earlier ++ [.expression code])
          fun code => earlier ++ [.expression code]) (Pass.Both Expr.Alike) := by
    refine .bind (.following ⟨(adds_coalesceStep nested).gathers.lower⟩)
      fun alternative _ sameOther => .pure (yields_ternary isSubset declares between) ?_
    simp [Pass.Both, Expr.bareAt_eq_iff, Expr.bare, same, sameConsequent, sameOther]
  refine .bind_eat rfl ?_ (.pure_of id (.of_eq rfl) same)
  refine .bind_eat_ahead ?_ ?_
  · exact alternatives none none rfl (List.Subset.refl _) (by simp) (by simp)
  · refine .bind_more (.following nested.choice) fun consequent _ sameConsequent => .expecting ?_
    refine alternatives (some consequent) (some _) (congrArg some sameConsequent) ?_ ?_ ?_
    all_goals simp

theorem adds_choiceStep : AddsExpression (limit + 1) shorter.choiceStep longer.choiceStep :=
  ⟨.bind_taking (adds_coalesceStep nested).gathers fun _ _ same =>
    .iterate nested.enough nested.passes (gathers_choicePass nested _ _) same⟩

theorem adds_expressionStep :
    AddsExpression (limit + 1) shorter.expressionStep longer.expressionStep :=
  adds_levels nested.enough nested.passes (adds_choiceStep nested) fun _ =>
    isInnerLevel_of_mem_wordLevels

end Choices

end Grammar

end PhpScript
