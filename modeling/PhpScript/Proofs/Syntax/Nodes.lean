import PhpScript.Proofs.Syntax.Parsing
import PhpScript.Proofs.Syntax.Proper

/-!
# Nodes and their places

The nodes of a program are its expressions, statements, declared functions and names. A node is
placed between two offsets if its span lies there and its parts are placed in the span. It is sound
if all of its code is proper, and declares the functions that stand in it.
-/

namespace PhpScript

/-- What has a place of its own in a program. -/
inductive Node where
  | expression (code : Located Expr)
  | statement (code : Located Stmt)
  | function (declaration : UserFunction)
  | name (name : Located String)

/-- The nodes directly inside an expression. -/
def Expr.nodes (code : Expr) : List Node := code.parts.map .expression

/-- The name of a parameter and its default. -/
def ParameterDecl.nodes (parameter : ParameterDecl) : List Node :=
  .name parameter.name :: parameter.fallback.toList.map .expression

/-- The name of a declared constant and its value. -/
def ConstantItem.nodes (item : ConstantItem) : List Node :=
  [.name item.name, .expression item.value]

/-- The nodes directly inside a statement. -/
def Stmt.nodes : Stmt → List Node
  | .constants items => items.flatMap ConstantItem.nodes
  | .globals names => names.map .name
  | .function declaration => [.function declaration]
  | code => code.expressions.map .expression ++ code.parts.map .statement

namespace Node

/-- The place of a node. -/
def span : Node → Span
  | .expression code => code.span
  | .statement code => code.span
  | .function declaration => declaration.span
  | .name own => own.span

/-- The nodes directly inside a node. -/
def parts : Node → List Node
  | .expression code => code.node.nodes
  | .statement code => code.node.nodes
  | .function declaration =>
    .name declaration.name :: declaration.parameters.flatMap ParameterDecl.nodes ++
      declaration.body.map .statement
  | .name _ => []

/-- A node lies between two offsets, and its parts lie inside of it in the same way. -/
inductive IsPlaced : Nat → Nat → Node → Prop
  | intro {low high : Nat} {node : Node} (isBehind : low ≤ node.span.start)
      (isOrdered : node.span.start ≤ node.span.stop) (isBefore : node.span.stop ≤ high)
      (parts : ∀ part ∈ node.parts, IsPlaced node.span.start node.span.stop part) :
      IsPlaced low high node

variable {low high lower higher : Nat} {node : Node}

theorem IsPlaced.widen (placed : node.IsPlaced low high) (isLower : lower ≤ low)
    (isHigher : high ≤ higher) : node.IsPlaced lower higher := by
  cases placed with
  | intro isBehind isOrdered isBefore parts =>
    exact .intro (isLower.trans isBehind) isOrdered (isBefore.trans isHigher) parts

theorem IsPlaced.of_mem_parts (placed : node.IsPlaced low high) {part : Node}
    (isPart : part ∈ node.parts) : part.IsPlaced low high := by
  cases placed with
  | intro isBehind isOrdered isBefore parts => exact (parts part isPart).widen isBehind isBefore

theorem IsPlaced.bounds (placed : node.IsPlaced low high) :
    low ≤ node.span.start ∧ node.span.start ≤ node.span.stop ∧ node.span.stop ≤ high := by
  cases placed with
  | intro isBehind isOrdered isBefore parts => exact ⟨isBehind, isOrdered, isBefore⟩

theorem IsPlaced.tight (placed : node.IsPlaced low high) :
    node.IsPlaced node.span.start node.span.stop := by
  cases placed with
  | intro isBehind isOrdered isBefore parts =>
    exact .intro (Nat.le_refl _) isOrdered (Nat.le_refl _) parts

/-! ## Soundness and declarations -/

/-- A node is sound if it and everything inside of it was checked where it was read. -/
def IsSound : Node → Prop
  | .expression code => code.node.IsSound
  | .statement code => code.node.IsSound
  | .function declaration => (Stmt.function declaration).IsSound
  | .name _ => True

/-- The functions declared in a node, in the order of their ends. -/
def declarations : Node → List UserFunction
  | .statement code => code.node.declarations
  | .function declaration => (Stmt.function declaration).declarations
  | .expression _ | .name _ => []

/-- The functions declared in some nodes. -/
def declarationsOf (nodes : List Node) : List UserFunction := nodes.flatMap declarations

section Declarations

variable (first second : List Node)

@[simp]
theorem declarationsOf_nil : declarationsOf [] = [] := rfl

@[simp]
theorem declarationsOf_cons (node : Node) :
    declarationsOf (node :: first) = node.declarations ++ declarationsOf first :=
  List.flatMap_cons

@[simp]
theorem declarationsOf_append :
    declarationsOf (first ++ second) = declarationsOf first ++ declarationsOf second :=
  List.flatMap_append

@[simp]
theorem declarations_expression (code : Located Expr) : (expression code).declarations = [] := rfl

@[simp]
theorem declarations_name (own : Located String) : (name own).declarations = [] := rfl

@[simp]
theorem declarations_statement (code : Located Stmt) :
    (statement code).declarations = code.node.declarations := rfl

@[simp]
theorem declarationsOf_expressions (codes : List (Located Expr)) :
    declarationsOf (codes.map expression) = [] := by
  simp [declarationsOf]

@[simp]
theorem declarationsOf_names (names : List (Located String)) :
    declarationsOf (names.map name) = [] := by
  simp [declarationsOf]

@[simp]
theorem declarationsOf_statements (codes : List (Located Stmt)) :
    declarationsOf (codes.map statement) = Stmt.declarationsOf codes := by
  simp [declarationsOf, Stmt.declarationsOf, List.flatMap_map]

@[simp]
theorem declarationsOf_flatMap {α : Type} (elements : List α) (nodes : α → List Node) :
    declarationsOf (elements.flatMap nodes) =
      elements.flatMap fun element => declarationsOf (nodes element) :=
  List.flatMap_assoc

@[simp]
theorem declarationsOf_parameter (parameter : ParameterDecl) :
    declarationsOf parameter.nodes = [] := by
  simp [ParameterDecl.nodes]

@[simp]
theorem declarationsOf_constant (item : ConstantItem) : declarationsOf item.nodes = [] := by
  simp [ConstantItem.nodes]

end Declarations

end Node

theorem Stmt.declarationsOf_nodes (code : Stmt) :
    Node.declarationsOf code.nodes = code.declarations := by
  cases code with
  | function declaration => simp [Stmt.nodes, Node.declarations]
  | _ =>
    rw [Stmt.declarations_eq]
    simp [Stmt.nodes, Stmt.parts, Stmt.declaration?, Stmt.declarationsOf, -List.map_map]

theorem Expr.IsSound.of_nodes {code : Expr} (own : code.IsProper)
    (sound : ∀ node ∈ code.nodes, node.IsSound) : code.IsSound :=
  .intro own fun part isPart => sound (.expression part) (List.mem_map_of_mem isPart)

theorem Stmt.IsSound.of_nodes {code : Stmt} (own : code.IsProper)
    (targets : ∀ target ∈ code.targets, target.node.IsTarget)
    (sound : ∀ node ∈ code.nodes, node.IsSound) : code.IsSound := by
  cases code with
  | function declaration => exact sound (.function declaration) (List.mem_singleton_self _)
  | constants items =>
    refine .intro own (fun part isValue => ?_) (by simp [Stmt.parts]) targets
    rcases List.mem_map.mp isValue with ⟨item, isItem, rfl⟩
    exact sound (.expression item.value)
      (List.mem_flatMap.mpr ⟨item, isItem, by simp [ConstantItem.nodes]⟩)
  | globals names =>
    exact .intro own (by simp [Stmt.expressions]) (by simp [Stmt.parts]) targets
  | _ =>
    refine .intro own (fun part isPart => ?_) (fun part isPart => ?_) targets
    · exact sound (.expression part) (List.mem_append_left _ (List.mem_map_of_mem isPart))
    · exact sound (.statement part) (List.mem_append_right _ (List.mem_map_of_mem isPart))

namespace Node

/-! ## Nodes from nodes -/

/-- Nodes that are made of others, which are sound and placed if these are, and declare the same. -/
structure Yields (earlier later : List Node) : Prop where
  sound : (∀ node ∈ earlier, node.IsSound) → ∀ node ∈ later, node.IsSound
  declarations : declarationsOf later = declarationsOf earlier
  placed : ∀ {low high}, (∀ node ∈ earlier, node.IsPlaced low high) →
    ∀ node ∈ later, node.IsPlaced low high

variable {earlier later : List Node}

theorem Yields.of_eq (same : later = earlier) : Yields earlier later := by
  subst same
  exact ⟨id, rfl, id⟩

theorem Yields.of_subset (isSubset : later ⊆ earlier)
    (same : declarationsOf later = declarationsOf earlier) : Yields earlier later :=
  ⟨fun sound node isLater => sound node (isSubset isLater), same,
    fun placed node isLater => placed node (isSubset isLater)⟩

theorem Yields.trans {made : List Node} (first : Yields earlier later)
    (second : Yields later made) : Yields earlier made :=
  ⟨fun sound => second.sound (first.sound sound), second.declarations.trans first.declarations,
    fun placed => second.placed (first.placed placed)⟩

theorem Yields.parts (code : Located Expr) : Yields [.expression code] code.node.nodes where
  sound sound := by
    rcases List.forall_mem_singleton.mp sound with ⟨own, parts⟩
    exact List.forall_mem_map.mpr parts
  declarations := by simp [Expr.nodes]
  placed placed node isPart := (List.forall_mem_singleton.mp placed).of_mem_parts isPart

/-- The space between two nodes, as a name without letters: it is placed only if the second node
begins behind the first. -/
def gap (left right : Node) : Node := .name ⟨"", left.span.stop, right.span.start⟩

theorem IsPlaced.of_gap {left right : Node} (placed : (left.gap right).IsPlaced low high) :
    left.span.stop ≤ right.span.start :=
  placed.bounds.2.1

@[simp]
theorem declarations_gap (left right : Node) : (left.gap right).declarations = [] := rfl

@[simp]
theorem declarationsOf_gaps (nodes : List Node) (right : Node) :
    declarationsOf (nodes.map (·.gap right)) = [] := by
  simp [declarationsOf]

/-- Nodes that are made of some nodes and of others that lie behind these. -/
structure Joins (earlier found made : List Node) : Prop where
  sound : (∀ node ∈ earlier, node.IsSound) → (∀ node ∈ found, node.IsSound) →
    ∀ node ∈ made, node.IsSound
  declarations : declarationsOf made = declarationsOf earlier ++ declarationsOf found
  placed : ∀ {low place high}, (∀ node ∈ earlier, node.IsPlaced low place) →
    (∀ node ∈ found, node.IsPlaced place high) → low ≤ place → place ≤ high →
      ∀ node ∈ made, node.IsPlaced low high

theorem Joins.append (earlier found : List Node) : Joins earlier found (earlier ++ found) where
  sound first second := List.forall_mem_append.mpr ⟨first, second⟩
  declarations := declarationsOf_append earlier found
  placed {low _ high} first second isBelow isAbove :=
    List.forall_mem_append.mpr
      ⟨fun node isEarlier => (first node isEarlier).widen (Nat.le_refl low) isAbove,
        fun node isFound => (second node isFound).widen isBelow (Nat.le_refl high)⟩

theorem Joins.following (earlier : List Node) (node : Node) :
    Joins earlier [node] (earlier ++ earlier.map (·.gap node) ++ [node]) where
  sound first second := by
    refine List.forall_mem_append.mpr ⟨List.forall_mem_append.mpr ⟨first, ?_⟩, second⟩
    exact List.forall_mem_map.mpr fun _ _ => trivial
  declarations := by simp
  placed {low place high} first second isBelow isAbove := by
    have whole := (Joins.append earlier [node]).placed first second isBelow isAbove
    rcases List.forall_mem_append.mp whole with ⟨earlierPlaced, nodePlaced⟩
    refine List.forall_mem_append.mpr ⟨List.forall_mem_append.mpr ⟨earlierPlaced, ?_⟩, nodePlaced⟩
    refine List.forall_mem_map.mpr fun left isEarlier => ?_
    have isLeft := (first left isEarlier).bounds
    have isRight := (List.forall_mem_singleton.mp second).bounds
    refine .intro ?_ ?_ ?_ (by simp [gap, parts])
    all_goals simp only [gap, span] at isLeft isRight ⊢
    all_goals omega

end Node

/-! ## Tokens in order -/

namespace Token

/-- The span of a token has room for what the token is made of. -/
structure HasRoom (token : Located Token) : Prop where
  isOrdered : token.span.start ≤ token.span.stop
  quoted : ∀ raw, token.node = .doubleQuoted raw →
    token.span.start + Text.byteLength raw + 2 ≤ token.span.stop

/-- Tokens follow one another from an offset on up to another one. -/
inductive Ordered (stop : Nat) : Nat → List (Located Token) → Prop
  | nil {low : Nat} (isBefore : low ≤ stop) : Ordered stop low []
  | cons {low : Nat} {token : Located Token} {rest : List (Located Token)}
      (isBehind : low ≤ token.span.start) (hasRoom : HasRoom token)
      (others : Ordered stop token.span.stop rest) : Ordered stop low (token :: rest)

theorem Piece.IsProper.hasRoom {piece : Piece} {token : Token} (proper : piece.IsProper)
    (hasToken : piece.token? = some token) (offset : Nat) :
    HasRoom ⟨token, offset, offset + Text.encodedSize piece.text⟩ := by
  refine ⟨Nat.le_add_right _ _, fun raw isQuoted => ?_⟩
  dsimp only at isQuoted ⊢
  subst isQuoted
  cases piece with
  | lexeme token text =>
    cases hasToken
    rcases proper with ⟨_, spelled⟩
    rw [Piece.text, spelled, Text.byteLength_eq, Text.encodedSize_cons, Text.encodedSize_append]
    have one : Char.utf8Size '"' = 1 := rfl
    simp only [Text.encodedSize_cons, Text.encodedSize_nil, one]
    omega
  | tag tag text => cases tag <;> cases hasToken
  | inlineText text | blank text | closeTag | newline text => cases hasToken

theorem ordered_tokensFrom {pieces : List Piece} (proper : ∀ piece ∈ pieces, piece.IsProper)
    {low offset : Nat} (isBefore : low ≤ offset) :
    Ordered (offset + Text.encodedSize (Piece.joined pieces)) low
      (Piece.tokensFrom offset pieces) := by
  induction pieces generalizing low offset with
  | nil => exact .nil isBefore
  | cons piece rest ih =>
    rcases List.forall_mem_cons.mp proper with ⟨own, others⟩
    rw [Piece.joined_cons, Text.encodedSize_append, ← Nat.add_assoc, Piece.tokensFrom]
    cases hasToken : piece.token? with
    | none => exact ih others (isBefore.trans (Nat.le_add_right _ _))
    | some token => exact .cons isBefore (own.hasRoom hasToken offset) (ih others (Nat.le_refl _))

end Token

namespace ParserState

/-- The tokens that are left follow one another behind what was read, up to the end of the text. -/
structure IsOrdered (state : ParserState) (stop : Nat) : Prop where
  tokens : Token.Ordered stop state.previousStop state.tokens
  ends : state.endSpan.start = stop

/-- Where the next token stands, or the end of the text. -/
def place (state : ParserState) : Span := (state.tokens.head?.map (·.span)).getD state.endSpan

variable {state : ParserState} {stop : Nat}

theorem le_place_of_ordered {low : Nat} (ordered : Token.Ordered stop low state.tokens)
    (ends : state.endSpan.start = stop) : low ≤ state.place.start := by
  rcases state with ⟨tokens, _, _, _⟩
  cases ends
  cases ordered with
  | nil isBefore => exact isBefore
  | cons isBehind => exact isBehind

theorem IsOrdered.previousStop_le (ordered : state.IsOrdered stop) :
    state.previousStop ≤ state.place.start :=
  le_place_of_ordered ordered.tokens ordered.ends

theorem IsOrdered.place_le (ordered : state.IsOrdered stop) : state.place.start ≤ stop := by
  rcases state with ⟨tokens, _, _, _⟩
  rcases ordered with ⟨tokensOrdered, ends⟩
  have isBefore : ∀ {low rest}, Token.Ordered stop low rest → low ≤ stop := by
    intro low rest isOrdered
    induction isOrdered with
    | nil isBefore => exact isBefore
    | cons isBehind hasRoom others ih => exact isBehind.trans (hasRoom.isOrdered.trans ih)
  cases tokensOrdered with
  | nil => exact Nat.le_of_eq ends
  | cons isBehind hasRoom others => exact hasRoom.isOrdered.trans (isBefore others)

theorem place_of_head {token : Located Token} (isNext : state.tokens.head? = some token) :
    state.place = token.span := by
  rw [place, isNext]
  rfl

end ParserState

end PhpScript
