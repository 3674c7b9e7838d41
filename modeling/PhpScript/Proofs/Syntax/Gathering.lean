import Mathlib.Data.List.Forall2
import PhpScript.Proofs.Syntax.Nodes

/-!
# Gathering nodes

One judgement says what a rule of the grammar reads, so each rule is gone through once: what it
leaves of the tokens, whether it takes one, up to which weight of the tokens it has enough depth and
passes, which nodes it gathers behind earlier ones, and that it reads the same in front of more
tokens.

The nodes lie between the start of the first token taken and an edge: the end of the last token
taken or the start of the next one. They are sound, and the functions declared in them have numbers
without a gap. A parser that took a token leaves tokens of less weight, so the limit of what follows
is lower.

A second parser, which may have more depth, stands in front of the same tokens with more behind
them. It reads the same up to places. Only looking over the end of the shorter tokens can tell the
two apart. There the first parser either fails later on, or asks for a token that is none of those
at which a body ends.
-/

namespace PhpScript

/-- Up to where nodes were gathered: to the start of the next token; to the end of the last token
taken, which may be known; or to this end unless nothing was taken yet. -/
inductive Edge where
  | ahead
  | taken
  | behind (token : Located Token)
  | since

namespace Edge

/-- The offset that an edge stands for if gathering began at an offset. -/
def offset (low : Nat) : Edge → ParserState → Nat
  | .ahead, state => state.place.start
  | .taken, state | .behind _, state => state.previousStop
  | .since, state => max state.previousStop low

/-- What is known at an edge if gathering began at an offset. -/
def Holds (low : Nat) : Edge → ParserState → Prop
  | .ahead, state | .since, state => low ≤ state.place.start
  | .taken, state => low ≤ state.previousStop
  | .behind token, state =>
    low ≤ token.span.start ∧ Token.HasRoom token ∧ state.previousStop = token.span.stop

/-- Some nodes are placed up to an edge. -/
structure Has (low : Nat) (nodes : List Node) (edge : Edge) (state : ParserState) : Prop where
  holds : edge.Holds low state
  placed : ∀ node ∈ nodes, node.IsPlaced low (edge.offset low state)

/-- What is placed up to an edge is placed up to another one. -/
def Implies (edge other : Edge) : Prop :=
  ∀ {low nodes state stop}, ParserState.IsOrdered state stop → edge.Has low nodes state →
    other.Has low nodes state

theorem behind_implies_taken {token : Located Token} : (behind token).Implies taken := by
  intro low nodes state stop ordered has
  rcases has.holds with ⟨isBehind, hasRoom, ends⟩
  exact ⟨by rw [Holds, ends]; exact isBehind.trans hasRoom.isOrdered, has.placed⟩

theorem taken_implies_ahead : taken.Implies ahead := by
  intro low nodes state stop ordered has
  have isBefore := ordered.previousStop_le
  exact ⟨has.holds.trans isBefore,
    fun node isMember => (has.placed node isMember).widen (Nat.le_refl low) isBefore⟩

theorem implies_ahead (edge : Edge) : edge.Implies ahead := by
  intro low nodes state stop ordered has
  cases edge with
  | ahead => exact has
  | taken => exact taken_implies_ahead ordered has
  | behind token => exact taken_implies_ahead ordered (behind_implies_taken ordered has)
  | since =>
    refine ⟨has.holds, fun node isMember => (has.placed node isMember).widen (Nat.le_refl low) ?_⟩
    exact max_le ordered.previousStop_le has.holds

theorem taken_implies_since : taken.Implies since := by
  intro low nodes state stop ordered has
  refine ⟨has.holds.trans ordered.previousStop_le, fun node isMember => ?_⟩
  exact (has.placed node isMember).widen (Nat.le_refl low) (Nat.le_max_left _ _)

theorem Has.take {low : Nat} {nodes : List Node} {edge : Edge} {state : ParserState} {stop : Nat}
    {token : Located Token} {rest : List (Located Token)} (has : edge.Has low nodes state)
    (ordered : state.IsOrdered stop)
    (isNext : state.tokens = token :: rest) :
    ({ state with tokens := rest, previousStop := token.span.stop } : ParserState).IsOrdered stop ∧
      (behind token).Has low nodes
        { state with tokens := rest, previousStop := token.span.stop } := by
  rcases ordered with ⟨tokensOrdered, ends⟩
  have hasAhead := edge.implies_ahead ⟨tokensOrdered, ends⟩ has
  have place : state.place = token.span := ParserState.place_of_head (by rw [isNext]; rfl)
  rw [isNext] at tokensOrdered
  cases tokensOrdered with
  | cons isBehind hasRoom others =>
    refine ⟨⟨others, ends⟩, ⟨?_, hasRoom, rfl⟩, fun node isMember => ?_⟩
    · have holds := hasAhead.holds
      rwa [Holds, place] at holds
    · have placed := hasAhead.placed node isMember
      rw [offset, place] at placed
      exact placed.widen (Nat.le_refl low) hasRoom.isOrdered

theorem Has.join {low : Nat} {earlier found made : List Node} {edge : Edge}
    {state after : ParserState} (has : ahead.Has low earlier state)
    (isPlain : edge = ahead ∨ edge = taken) (left : edge.Has state.place.start found after)
    (joins : Node.Joins earlier found made) : edge.Has low made after := by
  have goesOn : state.place.start ≤ edge.offset low after := by
    rcases isPlain with rfl | rfl
    all_goals exact left.holds
  have sameOffset : edge.offset state.place.start after = edge.offset low after := by
    rcases isPlain with rfl | rfl
    all_goals rfl
  constructor
  · rcases isPlain with rfl | rfl
    all_goals exact has.holds.trans goesOn
  · exact joins.placed has.placed (sameOffset ▸ left.placed) has.holds goesOn

/-- A node with the span that is completed at an edge lies around what was gathered for it. -/
theorem Has.complete {low : Nat} {earlier : List Node} {edge : Edge} {state : ParserState}
    {node : Node} (has : edge.Has low earlier state) (isSince : edge = taken ∨ edge = since)
    (hasSpan : node.span = ⟨low, max state.previousStop low⟩)
    (hasParts : Node.Yields earlier node.parts) : edge.Has low [node] state := by
  refine ⟨has.holds, List.forall_mem_singleton.mpr ?_⟩
  have sameOffset : edge.offset low state = max state.previousStop low := by
    rcases isSince with rfl | rfl
    · exact (max_eq_left has.holds).symm
    · rfl
  have placed := has.placed
  rw [sameOffset] at placed ⊢
  refine .intro ?_ ?_ ?_ ?_
  all_goals rw [hasSpan]
  · exact Nat.le_max_right _ _
  · exact hasParts.placed placed

end Edge

/-! ## What was gathered -/

namespace ParserState

/-- Some declarations are well formed and have the numbers from `first` on, up to the next number of
a state. -/
structure Numbered (state : ParserState) (first : Nat) (declarations : List UserFunction) :
    Prop where
  ids : declarations.map FunctionDecl.id = List.range' first declarations.length
  next : state.nextId = first + declarations.length
  wellFormed : ∀ declaration ∈ declarations, declaration.IsWellFormed

variable {state other : ParserState} {first : Nat} {declarations later : List UserFunction}

theorem Numbered.of_nextId (numbered : state.Numbered first declarations)
    (same : other.nextId = state.nextId) : other.Numbered first declarations :=
  ⟨numbered.ids, same.trans numbered.next, numbered.wellFormed⟩

theorem numbered_nil (state : ParserState) : state.Numbered state.nextId [] :=
  ⟨rfl, rfl, by simp⟩

theorem Numbered.append (numbered : state.Numbered first declarations)
    (others : other.Numbered state.nextId later) :
    other.Numbered first (declarations ++ later) where
  ids := by
    rw [List.map_append, numbered.ids, others.ids, numbered.next, List.length_append,
      List.range'_append_1]
  next := by rw [others.next, numbered.next, List.length_append, Nat.add_assoc]
  wellFormed := List.forall_mem_append.mpr ⟨numbered.wellFormed, others.wellFormed⟩

/-- What is left behind a state is a rest of its tokens, and the next number is no lower. -/
structure Precedes (state after : ParserState) : Prop where
  isSuffix : after.tokens <:+ state.tokens
  le_nextId : state.nextId ≤ after.nextId

theorem Precedes.trans {first second third : ParserState} (before : first.Precedes second)
    (behind : second.Precedes third) : first.Precedes third :=
  ⟨behind.isSuffix.trans before.isSuffix, before.le_nextId.trans behind.le_nextId⟩

theorem precedes_self (state : ParserState) : state.Precedes state :=
  ⟨List.suffix_rfl, Nat.le_refl _⟩

/-- Sound nodes were gathered up to an edge, and what they declare is numbered from `first` on. They
are placed if the tokens are in order up to an offset. -/
structure Gathered (low : Nat) (edge : Edge) (nodes : List Node) (first : Nat) (order : Option Nat)
    (state : ParserState) : Prop where
  sound : ∀ node ∈ nodes, node.IsSound
  numbered : state.Numbered first (Node.declarationsOf nodes)
  placed : ∀ stop ∈ order, state.IsOrdered stop ∧ edge.Has low nodes state

variable {low : Nat} {edge : Edge} {nodes : List Node} {order : Option Nat}

theorem gathered_nil (low : Nat) (edge : Edge) (state : ParserState) :
    state.Gathered low edge [] state.nextId none :=
  ⟨by simp, state.numbered_nil, by simp⟩

theorem Gathered.implies {wider : Edge} (gathered : state.Gathered low edge nodes first order)
    (implies : edge.Implies wider) : state.Gathered low wider nodes first order where
  sound := gathered.sound
  numbered := gathered.numbered
  placed stop isStop :=
    have has := gathered.placed stop isStop
    ⟨has.1, implies has.1 has.2⟩

theorem Gathered.yields {made : List Node} (gathered : state.Gathered low edge nodes first order)
    (yields : Node.Yields nodes made) : state.Gathered low edge made first order where
  sound := yields.sound gathered.sound
  numbered := yields.declarations ▸ gathered.numbered
  placed stop isStop :=
    have has := gathered.placed stop isStop
    ⟨has.1, has.2.holds, yields.placed has.2.placed⟩

theorem Gathered.take {token : Located Token} {rest : List (Located Token)}
    (gathered : state.Gathered low edge nodes first order) (isNext : state.tokens = token :: rest) :
    ParserState.Gathered low (.behind token) nodes first order
      { state with tokens := rest, previousStop := token.span.stop } where
  sound := gathered.sound
  numbered := gathered.numbered.of_nextId rfl
  placed stop isStop :=
    have has := gathered.placed stop isStop
    has.2.take has.1 isNext

theorem Gathered.anew (gathered : state.Gathered low edge nodes first order) :
    state.Gathered state.place.start .ahead [] state.nextId order where
  sound := by simp
  numbered := state.numbered_nil
  placed stop isStop := ⟨(gathered.placed stop isStop).1, Nat.le_refl _, by simp⟩

theorem Gathered.join {after : ParserState} {between : Edge} {found made : List Node}
    (gathered : state.Gathered low between nodes first order)
    (isPlain : edge = .ahead ∨ edge = .taken)
    (others : after.Gathered state.place.start edge found state.nextId order)
    (joins : Node.Joins nodes found made) : after.Gathered low edge made first order where
  sound := joins.sound gathered.sound others.sound
  numbered := by
    rw [joins.declarations]
    exact gathered.numbered.append others.numbered
  placed stop isStop := by
    rcases gathered.placed stop isStop with ⟨ordered, has⟩
    rcases others.placed stop isStop with ⟨afterOrdered, left⟩
    exact ⟨afterOrdered, (between.implies_ahead ordered has).join isPlain left joins⟩

end ParserState

namespace Parser

variable {α β : Type}

/-- Whatever there is to read. -/
abbrev Anything : ParserState → Prop := fun _ => True

/-- A token is the next one. -/
def Begins (token : Located Token) (state : ParserState) : Prop := state.tokens.head? = some token

theorem Begins.kinds {token : Located Token} {state : ParserState} (isNext : Begins token state) :
    state.kinds.head? = some token.node := by
  rw [ParserState.kinds, List.head?_map, isNext]
  rfl

/-- In front of admitted tokens, a parser leaves a rest of them, which is a proper one for some
results. Behind nodes gathered so far it gathers those that it reads. Another parser that stands in
front of more tokens reads the same up to a relation. The parser does not run out of depth or passes
if the tokens weigh less than a limit. -/
structure Gathers (low limit : Nat) (next : ParserState → Prop) (before : Edge)
    (earlier : List Node) (parser longer : Parser α) (moves : α → Prop) (behind : Edge)
    (nodes : α → List Node) (holds : α → α → Prop) : Prop where
  of_ok : ∀ {state value after}, next state → parser state = .ok value after →
    state.Precedes after ∧ (moves value → after.tokens.length < state.tokens.length) ∧
      (∀ {first order}, state.Gathered low before earlier first order →
        after.Gathered low behind (nodes value) first order) ∧
      ∀ {rest extended}, state.Continues rest extended → ∃ other final,
        longer extended = .ok other final ∧ holds value other ∧ after.Continues rest final
  of_error : ∀ {state stop after}, next state → parser state = .error stop after →
    (Token.weights state.tokens < limit → stop ≠ .exhausted) ∧ state.nextId ≤ after.nextId

/-- Behind a token, a parser gathers what it reads. -/
abbrev GathersOn (low limit : Nat) (earlier : List Node) (parser longer : Parser α)
    (nodes : α → List Node) (holds : α → α → Prop) : Prop :=
  Gathers low limit Anything .taken earlier parser longer (fun _ => False) .taken nodes holds

/-- In front of admitted tokens, a parser takes tokens and adds the nodes of what it reads to those
before. -/
structure AddsIf (next : ParserState → Prop) (limit : Nat) (parser longer : Parser α)
    (nodes : α → List Node) (holds : α → α → Prop) : Prop where
  gathers : ∀ {low before earlier}, Gathers low limit next before earlier parser longer
    (fun _ => True) .taken (fun value => earlier ++ nodes value) holds

/-- The same in front of any tokens. -/
abbrev Adds (limit : Nat) (parser longer : Parser α) (nodes : α → List Node)
    (holds : α → α → Prop) : Prop :=
  AddsIf Anything limit parser longer nodes holds

/-- Behind a token, a parser adds the nodes of what it reads to those before. -/
structure MayAdd (limit : Nat) (parser longer : Parser α) (nodes : α → List Node)
    (holds : α → α → Prop) : Prop where
  gathers : ∀ {low earlier}, GathersOn low limit earlier parser longer
    (fun value => earlier ++ nodes value) holds

namespace Gathers

variable {low limit below : Nat} {next : ParserState → Prop}
  {before between behind : Edge} {earlier : List Node} {parser longer : Parser α}
  {moves : α → Prop} {nodes : α → List Node} {holds : α → α → Prop} {first firstOther : Parser β}
  {moved : β → Prop} {found : β → List Node} {wanted : β → β → Prop}
  {second after : β → Parser α} {terminal : Terminal} {token : Located Token}

/-! ## Weakening -/

theorem mono {narrower : ParserState → Prop} {fewer : α → Prop} {weaker : α → α → Prop}
    (gathers : Gathers low limit next before earlier parser longer moves behind nodes holds)
    (isBelow : below ≤ limit) (admits : ∀ state, narrower state → next state)
    (implies : ∀ value, fewer value → moves value)
    (weakens : ∀ value other, holds value other → weaker value other) :
    Gathers low below narrower before earlier parser longer fewer behind nodes weaker where
  of_ok admitted ends := by
    rcases gathers.of_ok (admits _ admitted) ends with ⟨precedes, isShorter, gathered, mirrored⟩
    refine ⟨precedes, fun moved => isShorter (implies _ moved), gathered, fun continues => ?_⟩
    rcases mirrored continues with ⟨other, final, reads, valid, goesOn⟩
    exact ⟨other, final, reads, weakens _ _ valid, goesOn⟩
  of_error admitted ends := by
    rcases gathers.of_error (admits _ admitted) ends with ⟨goesOn, isHigher⟩
    exact ⟨fun isLight => goesOn (by omega), isHigher⟩

theorem ahead_of {wider : ParserState → Prop}
    (gathers : Gathers low limit wider before earlier parser longer moves behind nodes holds)
    (admits : ∀ state, next state → wider state) :
    Gathers low limit next before earlier parser longer moves behind nodes holds :=
  gathers.mono (Nat.le_refl limit) admits (fun _ => id) fun _ _ => id

theorem anywhere
    (gathers : Gathers low limit Anything before earlier parser longer moves behind nodes holds) :
    Gathers low limit next before earlier parser longer moves behind nodes holds :=
  gathers.ahead_of fun _ _ => trivial

theorem may
    (gathers : Gathers low limit next before earlier parser longer moves behind nodes holds)
    (isBelow : below ≤ limit) :
    Gathers low below next before earlier parser longer (fun _ => False) behind nodes holds :=
  gathers.mono isBelow (fun _ => id) (fun _ => False.elim) fun _ _ => id

theorem lower
    (gathers : Gathers low (limit + 1) next before earlier parser longer moves behind nodes holds) :
    Gathers low limit next before earlier parser longer moves behind nodes holds :=
  gathers.mono (Nat.le_succ limit) (fun _ => id) (fun _ => id) fun _ _ => id

theorem weaken {weaker : α → α → Prop}
    (gathers : Gathers low limit next before earlier parser longer moves behind nodes holds)
    (weakens : ∀ value other, holds value other → weaker value other) :
    Gathers low limit next before earlier parser longer moves behind nodes weaker :=
  gathers.mono (Nat.le_refl limit) (fun _ => id) (fun _ => id) weakens

theorem entering {other : Edge}
    (gathers : Gathers low limit next other earlier parser longer moves behind nodes holds)
    (implies : before.Implies other) :
    Gathers low limit next before earlier parser longer moves behind nodes holds where
  of_ok admitted ends := by
    rcases gathers.of_ok admitted ends with ⟨precedes, isShorter, gathered, mirrored⟩
    exact ⟨precedes, isShorter, fun has => gathered (has.implies implies), mirrored⟩
  of_error := gathers.of_error

theorem leaving {other : Edge}
    (gathers : Gathers low limit next before earlier parser longer moves other nodes holds)
    (implies : other.Implies behind) :
    Gathers low limit next before earlier parser longer moves behind nodes holds where
  of_ok admitted ends := by
    rcases gathers.of_ok admitted ends with ⟨precedes, isShorter, gathered, mirrored⟩
    exact ⟨precedes, isShorter, fun has => (gathered has).implies implies, mirrored⟩
  of_error := gathers.of_error

theorem yielding {made : List Node}
    (gathers : Gathers low limit next before made parser longer moves behind nodes holds)
    (yields : Node.Yields earlier made) :
    Gathers low limit next before earlier parser longer moves behind nodes holds where
  of_ok admitted ends := by
    rcases gathers.of_ok admitted ends with ⟨precedes, isShorter, gathered, mirrored⟩
    exact ⟨precedes, isShorter, fun has => gathered (has.yields yields), mirrored⟩
  of_error := gathers.of_error

/-! ## Values and failures -/

theorem pure_of {value other : α} (stays : ¬moves value)
    (yields : Node.Yields earlier (nodes value)) (valid : holds value other) :
    Gathers low limit next before earlier (Pure.pure value) (Pure.pure other) moves before nodes
      holds where
  of_ok {state _ _} _ ends := by
    cases ends
    exact ⟨state.precedes_self, fun moved => absurd moved stays, fun has => has.yields yields,
      fun {_ extended} continues => ⟨other, extended, rfl, valid, continues⟩⟩
  of_error _ ends := by cases ends

theorem pure {value other : α} (yields : Node.Yields earlier (nodes value))
    (valid : holds value other) :
    Gathers low limit next before earlier (Pure.pure value) (Pure.pure other) (fun _ => False)
      before nodes holds :=
  .pure_of id yields valid

theorem kept {value other : α} (same : nodes value = earlier) (valid : holds value other) :
    Gathers low limit next before earlier (Pure.pure value) (Pure.pure other) (fun _ => False)
      before nodes holds :=
  .pure (.of_eq same) valid

theorem faults_of
    (faults : ∀ state, next state → ∃ fault, parser state = .error (.fault fault) state) :
    Gathers low limit next before earlier parser longer moves behind nodes holds where
  of_ok {state _ _} admitted ends := by
    rcases faults state admitted with ⟨fault, fails⟩
    rw [fails] at ends
    cases ends
  of_error {state _ _} admitted ends := by
    rcases faults state admitted with ⟨fault, fails⟩
    rw [fails] at ends
    cases ends
    exact ⟨fun _ => (by rintro ⟨⟩), Nat.le_refl _⟩

theorem faults (faults : Faults parser) :
    Gathers low limit next before earlier parser longer moves behind nodes holds :=
  .faults_of fun state _ => faults state

theorem exhausted :
    Gathers low 0 next before earlier (throw .exhausted : Parser α) longer moves behind nodes
      holds where
  of_ok _ ends := by cases ends
  of_error _ ends := by
    cases ends
    exact ⟨fun isLight => absurd isLight (Nat.not_lt_zero _), Nat.le_refl _⟩

/-! ## One parser behind another -/

/-- The second parser has to take a token where the first one did not, and has a lower limit where
it did. -/
theorem bind_of
    (takes : Gathers low limit next before earlier first firstOther moved between found wanted)
    (whenMoved : ∀ value other, moved value → wanted value other →
      Gathers low (limit - 1) Anything between (found value) (second value) (after other)
        (fun _ => False) behind nodes holds)
    (otherwise : ∀ value other, ¬moved value → wanted value other →
      Gathers low limit Anything between (found value) (second value) (after other) moves behind
        nodes holds) :
    Gathers low limit next before earlier (first >>= second) (firstOther >>= after) moves behind
      nodes holds where
  of_ok {state _ _} admitted ends := by
    rcases bind_eq_ok ends with ⟨value, middle, reads, ends⟩
    rcases takes.of_ok admitted reads with ⟨precedes, isShorter, gathered, mirrored⟩
    -- What the second parser reads is related to what it reads from the same tokens again.
    rcases mirrored state.continues_self with ⟨same, _, _, sameValid, _⟩
    have joined {other : β} {fewer : α → Prop} {lower : Nat}
        (rest : Gathers low lower Anything between (found value) (second value) (after other) fewer
          behind nodes holds) :=
      rest.of_ok trivial ends
    by_cases hasMoved : moved value
    · rcases joined (whenMoved value same hasMoved sameValid) with ⟨goesOn, _, left, _⟩
      have isLess := isShorter hasMoved
      have isLonger := goesOn.isSuffix.length_le
      refine ⟨precedes.trans goesOn, fun _ => by omega, fun has => left (gathered has), ?_⟩
      intro rest extended continues
      rcases mirrored continues with ⟨other, middleOther, readsOther, valid, continuesMiddle⟩
      rcases (joined (whenMoved value other hasMoved valid)).2.2.2 continuesMiddle with
        ⟨last, final, readsLast, found⟩
      exact ⟨last, final, by simp only [Bind.bind, EStateM.bind, readsOther, readsLast], found⟩
    · rcases joined (otherwise value same hasMoved sameValid) with ⟨goesOn, isLess, left, _⟩
      have isLonger := precedes.isSuffix.length_le
      refine ⟨precedes.trans goesOn, fun moves => by have := isLess moves; omega,
        fun has => left (gathered has), ?_⟩
      intro rest extended continues
      rcases mirrored continues with ⟨other, middleOther, readsOther, valid, continuesMiddle⟩
      rcases (joined (otherwise value other hasMoved valid)).2.2.2 continuesMiddle with
        ⟨last, final, readsLast, found⟩
      exact ⟨last, final, by simp only [Bind.bind, EStateM.bind, readsOther, readsLast], found⟩
  of_error {state _ _} admitted ends := by
    rcases bind_eq_error ends with fails | ⟨value, middle, reads, fails⟩
    · exact takes.of_error admitted fails
    · rcases takes.of_ok admitted reads with ⟨precedes, isShorter, _, mirrored⟩
      rcases mirrored state.continues_self with ⟨same, _, _, valid, _⟩
      have isLighter := Token.weights_add_length_le precedes.isSuffix
      have isLonger := precedes.isSuffix.length_le
      by_cases hasMoved : moved value
      · have isLess := isShorter hasMoved
        rcases (whenMoved value same hasMoved valid).of_error trivial fails with ⟨goesOn, isHigher⟩
        exact ⟨fun isLight => goesOn (by omega), precedes.le_nextId.trans isHigher⟩
      · rcases (otherwise value same hasMoved valid).of_error trivial fails with
          ⟨goesOn, isHigher⟩
        exact ⟨fun isLight => goesOn (by omega), precedes.le_nextId.trans isHigher⟩

theorem bind
    (takes : Gathers low limit Anything before earlier first firstOther moved between found wanted)
    (rest : ∀ value other, wanted value other →
      Gathers low limit Anything between (found value) (second value) (after other) moves behind
        nodes holds) :
    Gathers low limit next before earlier (first >>= second) (firstOther >>= after) moves behind
      nodes holds :=
  bind_of takes.anywhere (fun value other _ valid => (rest value other valid).may (Nat.sub_le _ 1))
    fun value other _ => rest value other

theorem bind_taking
    (takes : Gathers low (limit + 1) next before earlier first firstOther (fun _ => True) between
      found wanted)
    (rest : ∀ value other, wanted value other →
      Gathers low limit Anything between (found value) (second value) (after other)
        (fun _ => False) behind nodes holds) :
    Gathers low (limit + 1) next before earlier (first >>= second) (firstOther >>= after) moves
      behind nodes holds :=
  bind_of takes (fun value other _ => rest value other) fun _ _ stays => absurd trivial stays

theorem bind_more
    (takes : Gathers low limit Anything before earlier first firstOther (fun _ => True) between
      found wanted)
    (rest : ∀ value other, wanted value other →
      Gathers low limit Anything between (found value) (second value) (after other)
        (fun _ => False) behind nodes holds) :
    Gathers low limit next before earlier (first >>= second) (firstOther >>= after) moves behind
      nodes holds :=
  bind_of takes.anywhere (fun value other _ valid => (rest value other valid).may (Nat.sub_le _ 1))
    fun _ _ stays => absurd trivial stays

/-! ## Looking ahead -/

/-- A parser may be described by what it comes down to in each state. -/
theorem locally
    (runs : ∀ {state rest extended}, next state → state.Continues rest extended →
      ∃ chosen chosenOther, parser state = chosen state ∧ longer extended = chosenOther extended ∧
        Gathers low limit (· = state) before earlier chosen chosenOther moves behind nodes holds) :
    Gathers low limit next before earlier parser longer moves behind nodes holds where
  of_ok {state _ _} admitted ends := by
    rcases runs admitted state.continues_self with ⟨chosen, _, same, _, gathers⟩
    rcases gathers.of_ok rfl (same ▸ ends) with ⟨precedes, isShorter, gathered, _⟩
    refine ⟨precedes, isShorter, gathered, fun continues => ?_⟩
    rcases runs admitted continues with ⟨chosen, chosenOther, same, sameOther, gathers⟩
    rw [sameOther]
    exact (gathers.of_ok rfl (same ▸ ends)).2.2.2 continues
  of_error {state _ _} admitted ends := by
    rcases runs admitted state.continues_self with ⟨chosen, _, same, _, gathers⟩
    exact gathers.of_error rfl (same ▸ ends)

theorem looking (looks : Looks first) (looksOther : Looks firstOther)
    (rest : ∀ value other,
      Gathers low limit next before earlier (second value) (after other) moves behind nodes holds) :
    Gathers low limit next before earlier (first >>= second) (firstOther >>= after) moves behind
      nodes holds := by
  refine locally fun {state _ extended} admitted _ => ?_
  rcases looks.bind_eq second state with ⟨value, same⟩
  rcases looksOther.bind_eq after extended with ⟨other, sameOther⟩
  exact ⟨_, _, same, sameOther, (rest value other).ahead_of fun _ isState => isState ▸ admitted⟩

/-- A parser that fails at the end of the tokens is described by what it does in front of each
token. -/
theorem ahead
    (atEnd : ∀ state : ParserState, state.tokens = [] →
      ∃ fault, parser state = .error (.fault fault) state)
    (seen : ∀ token, (∃ state, next state ∧ Begins token state) →
      Gathers low limit (Begins token) before earlier parser longer moves behind nodes holds) :
    Gathers low limit next before earlier parser longer moves behind nodes holds := by
  refine locally fun {state _ _} admitted _ => ⟨parser, longer, rfl, rfl, ?_⟩
  cases front : state.tokens with
  | nil => exact .faults_of fun _ isState => atEnd _ (isState ▸ front)
  | cons token tokens =>
    have isNext : Begins token state := by rw [Begins, front]; rfl
    exact (seen token ⟨state, admitted, isNext⟩).ahead_of fun _ isState => isState ▸ isNext

section Seen

variable {second after : Option Token → Parser α}

theorem peek_seen
    (rest : Gathers low limit (Begins token) before earlier (second (some token.node))
      (after (some token.node)) moves behind nodes holds) :
    Gathers low limit (Begins token) before earlier (Parser.peek >>= second)
      (Parser.peek >>= after) moves behind nodes holds := by
  refine locally fun {state _ extended} isNext continues => ?_
  refine ⟨second (some token.node), after (some token.node), ?_, ?_, rest.ahead_of ?_⟩
  · simp only [Bind.bind, EStateM.bind, peek_eq, isNext.kinds]
  · simp only [Bind.bind, EStateM.bind, peek_eq, continues.kinds, List.head?_append, isNext.kinds]
    rfl
  · rintro _ rfl
    exact isNext

theorem peek_ahead (faults : Faults (second none))
    (seen : ∀ token, (∃ state, next state ∧ Begins token state) →
      Gathers low limit (Begins token) before earlier (second (some token.node))
        (after (some token.node)) moves behind nodes holds) :
    Gathers low limit next before earlier (Parser.peek >>= second) (Parser.peek >>= after) moves
      behind nodes holds := by
  refine .ahead (fun state isOver => ?_) fun token admitted => .peek_seen (seen token admitted)
  rcases faults state with ⟨fault, fails⟩
  refine ⟨fault, ?_⟩
  rw [← fails]
  simp only [Bind.bind, EStateM.bind, peek_eq, ParserState.kinds, isOver]
  rfl

/-- At the end of the tokens the second parser may see a token at which a body ends, but has to be
blind for it. -/
theorem bind_peek
    (atEnd : Gathers low limit next before earlier (second none) (after none) moves behind nodes
      holds)
    (seen : ∀ token, Gathers low limit (Begins token) before earlier (second (some token.node))
      (after (some token.node)) moves behind nodes holds)
    (blind : ∀ token, token.IsBorder → after (some token) = after none) :
    Gathers low limit next before earlier (Parser.peek >>= second) (Parser.peek >>= after) moves
      behind nodes holds := by
  refine locally fun {state tokens extended} admitted continues => ?_
  cases front : state.tokens with
  | nil =>
    have isOver : state.kinds = [] := by rw [ParserState.kinds, front]; rfl
    refine ⟨second none, after none, ?_, ?_, atEnd.ahead_of fun _ isState => isState ▸ admitted⟩
    · simp only [Bind.bind, EStateM.bind, peek_eq, isOver]
      rfl
    · simp only [Bind.bind, EStateM.bind, peek_eq, continues.kinds, isOver, List.nil_append]
      cases follows : tokens.head? with
      | none => rfl
      | some token => rw [blind token (continues.border token follows)]
  | cons token rest =>
    have isNext : Begins token state := by rw [Begins, front]; rfl
    refine ⟨_, _, rfl, rfl, (peek_seen (seen token)).ahead_of fun _ isState => isState ▸ isNext⟩

/-- The second parser looks at the token behind the next one. -/
theorem peekSecond
    (rest : ∀ seen, Gathers low limit (Begins token) before earlier (second seen) (after seen)
      moves behind nodes holds)
    (blind : ∀ token, token.IsBorder → after (some token) = after none) :
    Gathers low limit (Begins token) before earlier (Parser.peekAt 1 >>= second)
      (Parser.peekAt 1 >>= after) moves behind nodes holds := by
  have sees (state : ParserState) : Parser.peekAt 1 state = .ok state.kinds[1]? state := by
    rw [ParserState.kinds, List.getElem?_map]
    rfl
  refine locally fun {state tokens extended} isNext continues => ?_
  refine ⟨second state.kinds[1]?, after state.kinds[1]?, ?_, ?_,
    (rest _).ahead_of fun _ isState => isState ▸ isNext⟩
  · simp only [Bind.bind, EStateM.bind, sees]
  · simp only [Bind.bind, EStateM.bind, sees, continues.kinds]
    have begins := isNext.kinds
    rcases kinds : state.kinds with _ | ⟨first, _ | ⟨other, others⟩⟩
    · rw [kinds] at begins
      cases begins
    · cases tokens with
      | nil => rfl
      | cons follows tokens =>
        exact congrFun (blind follows (continues.border follows rfl)) extended
    · rfl

end Seen

section Answers

variable {second after : Bool → Parser α}

theorem bind_check (inner : terminal.isInner = true)
    (yes : Gathers low limit next before earlier (second true) (after true) moves behind nodes
      holds)
    (no : Gathers low limit next before earlier (second false) (after false) moves behind nodes
      holds) :
    Gathers low limit next before earlier (Parser.check terminal >>= second)
      (Parser.check terminal >>= after) moves behind nodes holds := by
  refine locally fun {state tokens extended} admitted continues => ?_
  have same : extended.kinds.head?.any terminal.accepts =
      state.kinds.head?.any terminal.accepts := by
    rw [continues.kinds, List.head?_append]
    cases front : state.kinds.head? with
    | some token => rfl
    | none =>
      cases follows : tokens.head? with
      | none => rfl
      | some token => exact Terminal.accepts_eq_false inner (continues.border token follows)
  refine ⟨second (state.kinds.head?.any terminal.accepts),
    after (state.kinds.head?.any terminal.accepts), ?_, ?_, ?_⟩
  · simp only [Bind.bind, EStateM.bind, check_eq]
  · simp only [Bind.bind, EStateM.bind, check_eq, same]
  · cases state.kinds.head?.any terminal.accepts with
    | true => exact yes.ahead_of fun _ isState => isState ▸ admitted
    | false => exact no.ahead_of fun _ isState => isState ▸ admitted

theorem atEnd_seen
    (rest : Gathers low limit (Begins token) before earlier (second false) (after false) moves
      behind nodes holds) :
    Gathers low limit (Begins token) before earlier (Parser.atEnd >>= second)
      (Parser.atEnd >>= after) moves behind nodes holds := by
  refine locally fun {state _ extended} isNext continues => ?_
  rcases state with ⟨_ | ⟨first, tokens⟩, _, _, _⟩
  · cases isNext
  · rcases extended with ⟨_ | ⟨other, others⟩, _, _, _⟩
    · cases continues.kinds
    · exact ⟨second false, after false, rfl, rfl, rest.ahead_of fun _ isState => isState ▸ isNext⟩

end Answers

/-! ## Taking tokens -/

section Advancing

variable {second after : Unit → Parser α}

theorem advance_of (admits : Located Token → Prop) (wider : ParserState → Prop)
    (begins : ∀ state, next state → ∃ token rest, state.tokens = token :: rest ∧ admits token ∧
      wider { state with tokens := rest, previousStop := token.span.stop })
    (rest : ∀ token, admits token → Gathers low (limit - token.node.weight) wider (.behind token)
      earlier (second ()) (after ()) (fun _ => False) behind nodes holds) :
    Gathers low limit next before earlier (Parser.advance >>= second) (Parser.advance >>= after)
      moves behind nodes holds where
  of_ok {state _ _} admitted ends := by
    rcases begins state admitted with ⟨token, tokens, front, admitsToken, admittedThen⟩
    rcases state with ⟨_, _, endSpan, nextId⟩
    cases front
    rcases (rest token admitsToken).of_ok admittedThen ends with ⟨precedes, _, gathered, mirrored⟩
    have isLonger := precedes.isSuffix.length_le
    refine ⟨⟨precedes.isSuffix.trans (List.suffix_cons token tokens), precedes.le_nextId⟩,
      fun _ => Nat.lt_succ_of_le isLonger, fun has => gathered (has.take rfl), ?_⟩
    intro behind extended continues
    rcases extended with ⟨extendedTokens, _, endSpanOther, nextIdOther⟩
    rcases continues.cases with ⟨isOver, _⟩ | ⟨_, other, _, others, isFront, isOther, _, goesOn⟩
    · cases isOver
    · cases isFront
      cases isOther
      have left : ParserState.Continues ⟨tokens, token.span.stop, endSpan, nextId⟩ behind
          ⟨others, other.span.stop, endSpanOther, nextIdOther⟩ :=
        ⟨goesOn, continues.nextId, continues.border⟩
      exact mirrored left
  of_error {state _ _} admitted ends := by
    rcases begins state admitted with ⟨token, tokens, front, admitsToken, admittedThen⟩
    rcases state with ⟨_, _, _, _⟩
    cases front
    rcases (rest token admitsToken).of_error admittedThen ends with ⟨goesOn, isHigher⟩
    refine ⟨fun isLight => goesOn ?_, isHigher⟩
    rw [Token.weights] at isLight
    dsimp only
    omega

theorem advance
    (rest : Gathers low (limit - token.node.weight) Anything (.behind token) earlier (second ())
      (after ()) (fun _ => False) behind nodes holds) :
    Gathers low limit (Begins token) before earlier (Parser.advance >>= second)
      (Parser.advance >>= after) moves behind nodes holds := by
  refine advance_of (· = token) Anything (fun state isNext => ?_) ?_
  · rcases List.head?_eq_some_iff.mp isNext with ⟨tokens, front⟩
    exact ⟨token, tokens, front, rfl, trivial⟩
  · rintro _ rfl
    exact rest

theorem take
    (rest : Gathers low limit Anything .taken earlier (second ()) (after ()) (fun _ => False)
      behind nodes holds) :
    Gathers low (limit + 1) (Begins token) before earlier (Parser.advance >>= second)
      (Parser.advance >>= after) moves behind nodes holds := by
  have positive := Token.one_le_weight token.node
  exact .advance (.entering (rest.may (by omega)) Edge.behind_implies_taken)

/-- The token that is taken may be any one if there are enough of them. -/
theorem skip {count : Nat}
    (rest : Gathers low limit (fun state => count ≤ state.tokens.length) .taken earlier (second ())
      (after ()) (fun _ => False) behind nodes holds) :
    Gathers low (limit + 1) (fun state => count + 1 ≤ state.tokens.length) before earlier
      (Parser.advance >>= second) (Parser.advance >>= after) moves behind nodes holds := by
  refine advance_of (fun _ => True) (fun state => count ≤ state.tokens.length)
    (fun state isLong => ?_) fun token _ => ?_
  · rcases List.exists_cons_of_length_pos (Nat.lt_of_lt_of_le (Nat.succ_pos count) isLong) with
      ⟨token, tokens, front⟩
    rw [front] at isLong
    exact ⟨token, tokens, front, trivial, Nat.le_of_succ_le_succ isLong⟩
  · have positive := Token.one_le_weight token.node
    exact .entering (rest.may (by omega)) Edge.behind_implies_taken

end Advancing

section Eating

variable {second after : Bool → Parser α}

theorem eat_seen
    (taken : Gathers low limit Anything .taken earlier (second true) (after true) (fun _ => False)
      behind nodes holds)
    (other : Gathers low limit (Begins token) before earlier (second false) (after false) moves
      behind nodes holds) :
    Gathers low limit (Begins token) before earlier (Parser.eat terminal >>= second)
      (Parser.eat terminal >>= after) moves behind nodes holds := by
  refine locally fun {state _ extended} isNext continues => ?_
  rcases state with ⟨front, _, _, _⟩
  rcases extended with ⟨frontOther, _, _, _⟩
  rcases continues.cases with ⟨isOver, _⟩ | ⟨first, firstOther, _, _, isFront, isOther, same, _⟩
  · cases isOver
    cases isNext
  · cases isFront
    cases isOther
    cases accepts : terminal.accepts first.node with
    | true =>
      refine ⟨Parser.advance >>= fun _ => second true, Parser.advance >>= fun _ => after true,
        ?_, ?_, ?_⟩
      · simp only [Bind.bind, EStateM.bind, eat_cons, accepts]
        rfl
      · simp only [Bind.bind, EStateM.bind, eat_cons, same, accepts]
        rfl
      · exact ahead_of (lower (take taken)) fun state isState =>
          show Begins token state from isState ▸ isNext
    | false =>
      refine ⟨second false, after false, ?_, ?_, other.ahead_of ?_⟩
      · simp only [Bind.bind, EStateM.bind, eat_cons, accepts]
        rfl
      · simp only [Bind.bind, EStateM.bind, eat_cons, same, accepts]
        rfl
      · rintro _ rfl
        exact isNext

/-- At the end of the tokens there may be a token behind them, but it is none to be eaten. -/
theorem bind_eat (inner : terminal.isInner = true)
    (taken : Gathers low limit Anything .taken earlier (second true) (after true) (fun _ => False)
      behind nodes holds)
    (other : Gathers low limit Anything before earlier (second false) (after false) moves
      behind nodes holds) :
    Gathers low limit next before earlier (Parser.eat terminal >>= second)
      (Parser.eat terminal >>= after) moves behind nodes holds := by
  refine locally fun {state tokens extended} _ continues => ?_
  cases front : state.tokens with
  | cons token rest =>
    have isNext : Begins token state := by rw [Begins, front]; rfl
    exact ⟨_, _, rfl, rfl, (eat_seen taken other.anywhere).ahead_of fun _ isState =>
      isState ▸ isNext⟩
  | nil =>
    rcases state with ⟨_, _, _, _⟩
    cases front
    refine ⟨second false, after false, rfl, ?_, other.anywhere⟩
    rcases extended with ⟨_ | ⟨follows, others⟩, _, _, _⟩
    · rfl
    · have border : follows.node.IsBorder := by
        refine continues.border _ ?_
        have same := continues.kinds
        simp only [ParserState.kinds, List.map_cons, List.map_nil, List.nil_append] at same
        rw [← same]
        rfl
      simp only [Bind.bind, EStateM.bind, eat_cons, Terminal.accepts_eq_false inner border]
      rfl

/-- At the end of the tokens the token may follow behind them, but then there is none to go on
with. -/
theorem bind_eat_ahead
    (taken : Gathers low limit Anything .taken earlier (second true) (after true) (fun _ => False)
      behind nodes holds)
    (other : Gathers low limit Anything before earlier (second false) (after false)
      (fun _ => True) behind nodes holds) :
    Gathers low limit next before earlier (Parser.eat terminal >>= second)
      (Parser.eat terminal >>= after) moves behind nodes holds := by
  refine locally fun {state tokens extended} _ continues => ?_
  refine ⟨_, _, rfl, rfl, ?_⟩
  have weaker : Gathers low limit Anything before earlier (second false) (after false) moves
      behind nodes holds :=
    other.mono (Nat.le_refl limit) (fun _ => id) (fun _ _ => trivial) fun _ _ => id
  cases front : state.tokens with
  | cons token rest =>
    have isNext : Begins token state := by rw [Begins, front]; rfl
    exact (eat_seen taken weaker.anywhere).ahead_of fun _ isState => isState ▸ isNext
  | nil =>
    rcases state with ⟨_, _, _, _⟩
    cases front
    constructor
    · rintro _ value after rfl ends
      have isLess := (other.of_ok trivial ends).2.1 trivial
      exact absurd isLess (Nat.not_lt_zero _)
    · rintro _ stop after rfl ends
      exact other.of_error trivial ends

theorem expect :
    Gathers low limit next before earlier (Parser.expect terminal) (Parser.expect terminal)
      (fun _ => True) .taken (fun _ => earlier) (fun _ _ => True) :=
  .bind_eat_ahead (.kept rfl trivial) (.faults (.expected _))

theorem expecting {second after : Unit → Parser α}
    (rest : Gathers low limit Anything .taken earlier (second ()) (after ()) (fun _ => False)
      behind nodes holds) :
    Gathers low limit next before earlier (Parser.expect terminal >>= second)
      (Parser.expect terminal >>= after) moves behind nodes holds :=
  bind_more .expect fun _ _ _ => rest

end Eating

/-! ## Places -/

section Places

variable {second after : Span → Parser α} {place : Nat}

/-- What is read from a place on may be gathered from there on, and then joined to what was
gathered before. -/
theorem joining {made : α → List Node} (isPlain : behind = .ahead ∨ behind = .taken)
    (isPlace : ∀ state, next state → state.place.start = place)
    (joins : ∀ value, Node.Joins earlier (made value) (nodes value))
    (gathers : Gathers place limit next .ahead [] parser longer moves behind made holds) :
    Gathers low limit next before earlier parser longer moves behind nodes holds where
  of_ok {state _ _} admitted ends := by
    rcases gathers.of_ok admitted ends with ⟨precedes, isShorter, gathered, mirrored⟩
    refine ⟨precedes, isShorter, fun has => has.join isPlain ?_ (joins _), mirrored⟩
    rw [isPlace state admitted]
    exact gathered (isPlace state admitted ▸ has.anew)
  of_error := gathers.of_error

theorem bind_here (isPlain : behind = .ahead ∨ behind = .taken)
    (rest : ∀ start startOther : Span, Gathers start.start limit next .ahead [] (second start)
      (after startOther) moves behind nodes holds) :
    Gathers low limit next before earlier (here >>= second) (here >>= after) moves behind
      (fun value => earlier ++ nodes value) holds := by
  refine locally fun {state _ extended} admitted _ => ?_
  refine ⟨second state.place, after extended.place, rfl, rfl, ?_⟩
  refine joining isPlain (fun _ isState => congrArg (·.place.start) isState)
    (fun _ => .append _ _) ?_
  exact (rest _ _).ahead_of fun _ isState => isState ▸ admitted

/-- A node that is read lies behind all nodes gathered before it. -/
theorem following {node : α → Node}
    (adds : AddsIf next limit parser longer (fun value => [node value]) holds) :
    Gathers low limit next before earlier parser longer (fun _ => True) .taken
      (fun value => earlier ++ earlier.map (·.gap (node value)) ++ [node value]) holds := by
  refine locally fun {state _ _} admitted _ => ⟨parser, longer, rfl, rfl, ?_⟩
  refine joining (.inr rfl) (fun _ isState => congrArg (·.place.start) isState)
    (fun _ => .following _ _) ?_
  exact adds.gathers.ahead_of fun _ isState => isState ▸ admitted

theorem here_seen
    (rest : ∀ startOther, Gathers low limit (Begins token) before earlier (second token.span)
      (after startOther) moves behind nodes holds) :
    Gathers low limit (Begins token) before earlier (here >>= second) (here >>= after) moves behind
      nodes holds := by
  refine locally fun {state _ extended} isNext _ => ?_
  refine ⟨second token.span, after extended.place, ?_, rfl,
    (rest _).ahead_of fun _ isState => isState ▸ isNext⟩
  exact congrArg (second · state) (ParserState.place_of_head isNext)

/-- A rule that begins by looking at its first token, and fails without one. -/
theorem start {second after : Span → Option Token → Parser α}
    (isPlain : behind = .ahead ∨ behind = .taken) (atEnd : ∀ start, Faults (second start none))
    (seen : ∀ token startOther, (∃ state, next state ∧ Begins token state) →
      Gathers token.span.start limit (Begins token) .ahead [] (second token.span (some token.node))
        (after startOther (some token.node)) moves behind nodes holds) :
    Gathers low limit next before earlier (here >>= fun start => peek >>= second start)
      (here >>= fun start => peek >>= after start) moves behind
      (fun value => earlier ++ nodes value) holds := by
  refine .ahead (fun state isOver => ?_) fun token admitted => ?_
  · rcases atEnd state.place state with ⟨fault, fails⟩
    refine ⟨fault, ?_⟩
    rw [← fails]
    rcases state with ⟨_, _, _, _⟩
    cases isOver
    rfl
  · refine joining isPlain (fun state isNext => ?_) (fun _ => .append _ _) (.here_seen
      fun startOther => .peek_seen (seen token startOther admitted))
    rw [ParserState.place_of_head isNext]

theorem spanFrom {make makeOther : Span → α} {wrap : α → Node} {start startOther : Span}
    (isSince : before = .taken ∨ before = .since)
    (hasSpan : ∀ span, (wrap (make span)).span = span)
    (hasParts : ∀ span, Node.Yields earlier (wrap (make span)).parts)
    (sound : ∀ span, (∀ node ∈ earlier, node.IsSound) → (wrap (make span)).IsSound)
    (declares : ∀ span, (wrap (make span)).declarations = Node.declarationsOf earlier)
    (valid : ∀ span spanOther, holds (make span) (makeOther spanOther)) :
    Gathers start.start limit next before earlier (do return make (← Parser.spanFrom start))
      (do return makeOther (← Parser.spanFrom startOther)) (fun _ => False) before
      (fun value => [wrap value]) holds where
  of_ok {state _ _} _ ends := by
    cases ends
    refine ⟨state.precedes_self, False.elim, fun has => ⟨?_, ?_, fun stop isStop => ?_⟩,
      fun {_ extended} continues => ⟨_, extended, rfl, valid _ _, continues⟩⟩
    · exact List.forall_mem_singleton.mpr (sound _ has.sound)
    · simpa [declares] using has.numbered
    · rcases has.placed stop isStop with ⟨ordered, has⟩
      exact ⟨ordered, has.complete isSince (hasSpan _) (hasParts _)⟩
  of_error _ ends := by cases ends

theorem pure_token {value other : α} {node : α → Node} (hasSpan : (node value).span = token.span)
    (noParts : (node value).parts = []) (sound : (node value).IsSound)
    (declares : (node value).declarations = []) (valid : holds value other) :
    Gathers low limit next (.behind token) earlier (Pure.pure value) (Pure.pure other)
      (fun _ => False) .taken (fun value => earlier ++ [node value]) holds where
  of_ok {state _ _} _ ends := by
    cases ends
    refine ⟨state.precedes_self, False.elim, fun has => ⟨?_, ?_, fun stop isStop => ?_⟩,
      fun {_ extended} continues => ⟨other, extended, rfl, valid, continues⟩⟩
    · exact List.forall_mem_append.mpr ⟨has.sound, List.forall_mem_singleton.mpr sound⟩
    · simpa [declares] using has.numbered
    · rcases has.placed stop isStop with ⟨ordered, has⟩
      have hasTaken := Edge.behind_implies_taken ordered has
      rcases has.holds with ⟨isBehind, hasRoom, ends⟩
      refine ⟨ordered, hasTaken.holds, List.forall_mem_append.mpr ⟨hasTaken.placed, ?_⟩⟩
      refine List.forall_mem_singleton.mpr (.intro ?_ ?_ ?_ (by simp [noParts]))
      all_goals rw [hasSpan]
      · exact isBehind
      · exact hasRoom.isOrdered
      · exact Nat.le_of_eq ends.symm
  of_error _ ends := by cases ends

end Places

/-! ## Loops -/

end Gathers

/-- Both passes go on with related results, or both are the last ones. -/
def Pass.Both (holds : α → α → Prop) : Pass α → Pass α → Prop
  | .more result, .more other | .done result, .done other => holds result other
  | _, _ => False

/-- Each pass of a loop takes a token unless it is the last one, and goes on gathering. -/
def GathersPasses (low limit : Nat) (edge : Edge) (opens closes : α → List Node)
    (holds : α → α → Prop) (pass passOther : α → Parser (Pass α)) : Prop :=
  ∀ result other, holds result other →
    Gathers low limit Anything edge (opens result) (pass result) (passOther other) Pass.IsMore edge
      (Pass.elim opens closes) (Pass.Both holds)

/-- What the passes of a loop gather is the same while it goes on and when it is over. -/
abbrev Collects (low limit : Nat) (edge : Edge) (nodes : α → List Node) (holds : α → α → Prop)
    (pass passOther : α → Parser (Pass α)) : Prop :=
  GathersPasses low limit edge nodes nodes holds pass passOther

namespace Gathers

variable {low limit : Nat} {edge : Edge} {earlier : List Node} {nodes : α → List Node}
  {holds : α → α → Prop}

theorem iterate {pass passOther : α → Parser (Pass α)} {opens closes : α → List Node}
    {start startOther : α} {bound boundOther : Nat}
    (enough : limit ≤ bound) (isMore : bound ≤ boundOther)
    (step : GathersPasses low limit edge opens closes holds pass passOther)
    (initial : holds start startOther) :
    Gathers low limit Anything edge (opens start) (Parser.iterate pass bound start)
      (Parser.iterate passOther boundOther startOther) (fun _ => False) edge closes holds := by
  induction bound generalizing limit boundOther start startOther with
  | zero =>
    rw [Nat.le_zero.mp enough]
    exact .exhausted
  | succ bound ih =>
    cases boundOther with
    | zero => omega
    | succ boundOther =>
      refine bind_of (step start startOther initial) (fun value other isMore valid => ?_)
        fun value other isDone valid => ?_
      · cases value with
        | done result => cases isMore
        | more result =>
          cases other with
          | done _ => cases valid
          | more other =>
            refine ih (by omega) (by omega) (fun result other goes => ?_) valid
            exact (step result other goes).mono (Nat.sub_le limit 1) (fun _ => id) (fun _ => id)
              fun _ _ => id
      · cases value with
        | more result => exact absurd trivial isDone
        | done result =>
          cases other with
          | more _ => cases valid
          | done other => exact .kept rfl valid

theorem mapM {items others : List β} {related : β → β → Prop} {parse parseOther : β → Parser α}
    (same : List.Forall₂ related items others)
    (each : ∀ item ∈ items, ∀ other, related item other → ∀ earlier,
      Gathers low limit Anything edge earlier (parse item) (parseOther other) (fun _ => False) edge
        (fun value => earlier ++ nodes value) holds) :
    Gathers low limit Anything edge earlier (items.mapM parse) (others.mapM parseOther)
      (fun _ => False) edge (fun values => earlier ++ values.flatMap nodes)
      (List.Forall₂ holds) := by
  induction same generalizing earlier with
  | nil => exact .kept (by simp) .nil
  | cons isRelated _ ih =>
    rcases List.forall_mem_cons.mp each with ⟨own, others⟩
    rw [List.mapM_cons, List.mapM_cons]
    refine .bind (own _ isRelated earlier) fun value other valid => ?_
    exact .bind (ih others) fun values _ allValid => .kept (by simp) (.cons valid allValid)

end Gathers

section Separated

variable {limit bound boundOther : Nat} {element elementOther : Parser α} {nodes : α → List Node}
  {holds : α → α → Prop} (adds : Adds limit element elementOther nodes holds)
include adds

/-- Elements are collected with the last one first. -/
theorem gathers_separatedPass (low : Nat) (earlier : List Node) :
    Collects low limit .taken (fun elements => earlier ++ elements.reverse.flatMap nodes)
      (List.Forall₂ holds) (separatedPass element) (separatedPass elementOther) := by
  intro elements others same
  refine .bind_more adds.gathers fun next nextOther valid => .bind_eat rfl ?_ ?_
  · exact .kept (by simp [Pass.elim]) (.cons valid same)
  · exact .kept (by simp [Pass.elim]) (.cons valid same)

theorem gathers_separatedUpToPass {close : Terminal} (inner : close.isInner = true) (low : Nat)
    (earlier : List Node) :
    Collects low limit .taken (fun elements => earlier ++ elements.reverse.flatMap nodes)
      (List.Forall₂ holds) (separatedUpToPass close element)
      (separatedUpToPass close elementOther) := by
  intro elements others same
  refine .bind_check inner ?_ (gathers_separatedPass adds low earlier elements others same)
  exact .pure_of id (.of_eq rfl) same

variable (enough : limit ≤ bound) (isMore : bound ≤ boundOther)
include enough isMore

theorem mayAdd_separated :
    MayAdd limit (separated bound element) (separated boundOther elementOther) (·.flatMap nodes)
      (List.Forall₂ holds) := by
  constructor
  intro low earlier
  have loops := Gathers.iterate enough isMore (gathers_separatedPass adds low earlier) .nil
  exact .bind (loops.yielding (.of_eq (by simp))) fun _ _ same =>
    .kept rfl (List.rel_reverse same)

theorem mayAdd_separatedUpTo {close : Terminal} (inner : close.isInner = true) :
    MayAdd limit (separatedUpTo bound close element) (separatedUpTo boundOther close elementOther)
      (·.flatMap nodes) (List.Forall₂ holds) := by
  constructor
  intro low earlier
  have step := gathers_separatedUpToPass adds inner low earlier
  have loops := Gathers.iterate enough isMore step .nil
  exact .bind (loops.yielding (.of_eq (by simp))) fun _ _ same =>
    .expecting <| .kept rfl (List.rel_reverse same)

end Separated

end Parser

end PhpScript
