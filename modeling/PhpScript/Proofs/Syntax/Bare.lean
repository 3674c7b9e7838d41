import PhpScript.Proofs.Token.Displacement
import PhpScript.Syntax.Program

/-!
# Code without its places

The same code at another place of a text is read into the same tree, up to the places in it.
`Expr.bare` and `Stmt.bare` forget these places and nothing else: names, operators, literals and the
numbers of declarations stay. What is cut out of a text literal depends on where the literal stands
in the same way only.
-/

namespace PhpScript

/-- The place of code without one. -/
def Span.nowhere : Span := ⟨0, 0⟩

def Located.bare {α : Type} (located : Located α) : Located α := ⟨located.node, .nowhere⟩

/-! ## Expressions -/

mutual

/-- An expression without its places. -/
def Expr.bare : Expr → Expr
  | .null => .null
  | .bool value => .bool value
  | .int value => .int value
  | .float value => .float value
  | .str value => .str value
  | .interpolated parts => .interpolated (Expr.bareParts parts)
  | .array items => .array (Expr.bareItems items)
  | .variable name => .variable (Expr.bareName name)
  | .subscript base index => .subscript (Expr.bareAt base) (Expr.bareOption index)
  | .constant name => .constant name
  | .magic which => .magic which
  | .call callee arguments => .call (Expr.bareCallee callee) (Expr.bareList arguments)
  | .assign target value => .assign (Expr.bareAt target) (Expr.bareAt value)
  | .compoundAssign operator target value =>
    .compoundAssign operator (Expr.bareAt target) (Expr.bareAt value)
  | .coalesceAssign target value => .coalesceAssign (Expr.bareAt target) (Expr.bareAt value)
  | .ternary condition consequent alternative =>
    .ternary (Expr.bareAt condition) (Expr.bareOption consequent) (Expr.bareAt alternative)
  | .coalesce left right => .coalesce (Expr.bareAt left) (Expr.bareAt right)
  | .binary left operator right => .binary (Expr.bareAt left) operator (Expr.bareAt right)
  | .unary operator operand => .unary operator (Expr.bareAt operand)
  | .cast type operand => .cast type (Expr.bareAt operand)
  | .step operator before target => .step operator before (Expr.bareAt target)
  | .silence operand => .silence (Expr.bareAt operand)
  | .print operand => .print (Expr.bareAt operand)
  | .isset targets => .isset (Expr.bareList targets)
  | .empty target => .empty (Expr.bareAt target)
  | .exit argument => .exit (Expr.bareOption argument)
  | .evaluate code => .evaluate (Expr.bareAt code)
  | .includeFile mode path => .includeFile mode (Expr.bareAt path)

def Expr.bareAt : Located Expr → Located Expr
  | ⟨code, _⟩ => ⟨code.bare, .nowhere⟩

def Expr.bareList : List (Located Expr) → List (Located Expr)
  | [] => []
  | code :: rest => Expr.bareAt code :: Expr.bareList rest

def Expr.bareOption : Option (Located Expr) → Option (Located Expr)
  | none => none
  | some code => some (Expr.bareAt code)

def Expr.bareName : VariableName Expr → VariableName Expr
  | .simple name => .simple name
  | .dynamic code => .dynamic (Expr.bareAt code)

def Expr.bareCallee : Callee Expr → Callee Expr
  | .name name => .name name
  | .dynamic code => .dynamic (Expr.bareAt code)

def Expr.barePart : StringPart Expr → StringPart Expr
  | .text text => .text text
  | .code code => .code (Expr.bareAt code)

def Expr.bareParts : List (StringPart Expr) → List (StringPart Expr)
  | [] => []
  | part :: rest => Expr.barePart part :: Expr.bareParts rest

def Expr.bareItem : ArrayItem Expr → ArrayItem Expr
  | ⟨key, value⟩ => ⟨Expr.bareOption key, Expr.bareAt value⟩

def Expr.bareItems : List (ArrayItem Expr) → List (ArrayItem Expr)
  | [] => []
  | item :: rest => Expr.bareItem item :: Expr.bareItems rest

end

namespace Expr

@[simp]
theorem bareList_eq (codes : List (Located Expr)) : bareList codes = codes.map bareAt := by
  induction codes with
  | nil => simp [bareList]
  | cons code rest ih => simp [bareList, ih]

@[simp]
theorem bareOption_eq (code : Option (Located Expr)) : bareOption code = code.map bareAt := by
  cases code <;> simp [bareOption]

@[simp]
theorem bareParts_eq (parts : List (StringPart Expr)) : bareParts parts = parts.map barePart := by
  induction parts with
  | nil => simp [bareParts]
  | cons part rest ih => simp [bareParts, ih]

@[simp]
theorem bareItems_eq (items : List (ArrayItem Expr)) : bareItems items = items.map bareItem := by
  induction items with
  | nil => simp [bareItems]
  | cons item rest ih => simp [bareItems, ih]

theorem bareAt_eq (code : Located Expr) : bareAt code = ⟨code.node.bare, .nowhere⟩ := by
  rw [bareAt]

theorem bareAt_eq_iff {code other : Located Expr} :
    bareAt code = bareAt other ↔ code.node.bare = other.node.bare := by
  simp [bareAt_eq]

theorem isVariable_bare (code : Expr) : code.bare.isVariable = code.isVariable := by
  cases code <;> simp [bare, isVariable]

end Expr

/-! ## Statements -/

def ConstantItem.bare (item : ConstantItem) : ConstantItem :=
  ⟨item.name.bare, Expr.bareAt item.value⟩

def ParameterDecl.bare (parameter : ParameterDecl) : ParameterDecl :=
  ⟨parameter.name.bare, parameter.type, parameter.fallback.map Expr.bareAt, parameter.isVariadic⟩

mutual

/-- A statement without its places. -/
def Stmt.bare : Stmt → Stmt
  | .inlineText text => .inlineText text
  | .echo arguments => .echo (arguments.map Expr.bareAt)
  | .expression code => .expression (Expr.bareAt code)
  | .block body => .block (Stmt.bareList body)
  | .choice branches alternative =>
    .choice (Stmt.bareBranches branches) (Stmt.bareOption alternative)
  | .whileLoop loop => .whileLoop (Stmt.bareBranch loop)
  | .doWhileLoop loop => .doWhileLoop (Stmt.bareBranch loop)
  | .forLoop start condition step body =>
    .forLoop (start.map Expr.bareAt) (condition.map Expr.bareAt) (step.map Expr.bareAt)
      (Stmt.bareAt body)
  | .foreachLoop ⟨subject, key, value, body⟩ =>
    .foreachLoop
      ⟨Expr.bareAt subject, key.map Expr.bareAt, Expr.bareAt value, Stmt.bareAt body⟩
  | .jump kind levels => .jump kind levels
  | .ret value => .ret (value.map Expr.bareAt)
  | .function ⟨id, name, parameters, returnType, body, _⟩ =>
    .function
      ⟨id, name.bare, parameters.map ParameterDecl.bare, returnType, Stmt.bareList body, .nowhere⟩
  | .constants items => .constants (items.map ConstantItem.bare)
  | .globals names => .globals (names.map Located.bare)
  | .unset targets => .unset (targets.map Expr.bareAt)
  | .empty => .empty

def Stmt.bareAt : Located Stmt → Located Stmt
  | ⟨statement, _⟩ => ⟨statement.bare, .nowhere⟩

def Stmt.bareList : List (Located Stmt) → List (Located Stmt)
  | [] => []
  | statement :: rest => Stmt.bareAt statement :: Stmt.bareList rest

def Stmt.bareOption : Option (Located Stmt) → Option (Located Stmt)
  | none => none
  | some statement => some (Stmt.bareAt statement)

def Stmt.bareBranch : Branch Stmt → Branch Stmt
  | ⟨condition, body⟩ => ⟨Expr.bareAt condition, Stmt.bareAt body⟩

def Stmt.bareBranches : List (Branch Stmt) → List (Branch Stmt)
  | [] => []
  | branch :: rest => Stmt.bareBranch branch :: Stmt.bareBranches rest

end

namespace Stmt

@[simp]
theorem bareList_eq (statements : List (Located Stmt)) :
    bareList statements = statements.map bareAt := by
  induction statements with
  | nil => simp [bareList]
  | cons statement rest ih => simp [bareList, ih]

@[simp]
theorem bareOption_eq (statement : Option (Located Stmt)) :
    bareOption statement = statement.map bareAt := by
  cases statement <;> simp [bareOption]

@[simp]
theorem bareBranches_eq (branches : List (Branch Stmt)) :
    bareBranches branches = branches.map bareBranch := by
  induction branches with
  | nil => simp [bareBranches]
  | cons branch rest ih => simp [bareBranches, ih]

theorem bareAt_eq (statement : Located Stmt) :
    bareAt statement = ⟨statement.node.bare, .nowhere⟩ := by
  rw [bareAt]

theorem bareAt_eq_iff {statement other : Located Stmt} :
    bareAt statement = bareAt other ↔ statement.node.bare = other.node.bare := by
  simp [bareAt_eq]

end Stmt

/-! ## Text literals -/

namespace Segment

def bare : Segment → Segment
  | .text content => .text content
  | .variable expression => .variable (Expr.bareAt expression)
  | .variableNamed inner _ _ => .variableNamed inner 0 .nowhere
  | .code inner _ => .code inner 0

def Piece.bare : Piece → Piece
  | .bytes content => .bytes content
  | .segment found => .segment found.bare
  | .unclosed distance => .unclosed distance

theorem takeVariable_bare (offset other : Nat) (rest : List Char) :
    Expr.bareAt (takeVariable offset rest).1 = Expr.bareAt (takeVariable other rest).1 ∧
      (takeVariable offset rest).2 = (takeVariable other rest).2 := by
  simp only [takeVariable]
  split
  · split
    · split
      · simp [Expr.bareAt_eq, Expr.bare]
      · simp [Expr.bareAt_eq]
    · simp [Expr.bareAt_eq]
  · simp [Expr.bareAt_eq]

theorem piece_bare (offset other : Nat) (character : Char) (rest : List Char) :
    (piece offset character rest).1.bare = (piece other character rest).1.bare ∧
      (piece offset character rest).2 = (piece other character rest).2 := by
  have sameVariable := takeVariable_bare offset other rest
  unfold piece
  split
  · exact ⟨rfl, rfl⟩
  · split
    · exact ⟨rfl, rfl⟩
    · dsimp only
      split
      · simp [Piece.bare, bare, Expr.bareAt_eq]
      · simp [Piece.bare, bare]
  · split
    · simpa [Piece.bare, bare] using sameVariable
    · exact ⟨rfl, rfl⟩
  · split
    · exact ⟨rfl, rfl⟩
    · exact ⟨rfl, rfl⟩
  · exact ⟨rfl, rfl⟩

theorem map_bare_collectText (bytes : List UInt8) (segments : List Segment) :
    (collectText bytes segments).map bare = collectText bytes (segments.map bare) := by
  unfold collectText
  split
  · rfl
  · rfl

theorem splitOnto_bare {segments others : List Segment}
    (same : segments.map bare = others.map bare) (bytes : List UInt8) (offset other skip : Nat)
    (text : List Char) :
    (splitOnto segments bytes offset skip text).1.map bare =
        (splitOnto others bytes other skip text).1.map bare ∧
      (splitOnto segments bytes offset skip text).2.isSome =
        (splitOnto others bytes other skip text).2.isSome := by
  induction text generalizing segments others bytes offset other skip with
  | nil => simp [splitOnto, map_bare_collectText, same]
  | cons character rest ih =>
    cases skip with
    | succ skip =>
      simp only [splitOnto]
      exact ih same _ _ _ _
    | zero =>
      rcases piece_bare offset other character rest with ⟨samePiece, sameLength⟩
      rcases reads : piece offset character rest with ⟨found, length⟩
      rcases readsOther : piece other character rest with ⟨foundOther, lengthOther⟩
      rw [reads, readsOther] at samePiece sameLength
      cases sameLength
      simp only [splitOnto, reads, readsOther]
      cases found <;> cases foundOther <;>
        simp only [Piece.bare, Piece.bytes.injEq, Piece.segment.injEq, Piece.unclosed.injEq,
          reduceCtorEq] at samePiece
      · rw [samePiece]
        exact ih same _ _ _ _
      · refine ih ?_ _ _ _ _
        simp only [List.map_cons, map_bare_collectText, samePiece, same]
      · simp [same]

theorem split_bare (raw : String) (offset other : Nat) :
    (split raw offset).1.map bare = (split raw other).1.map bare ∧
      (split raw offset).2.isSome = (split raw other).2.isSome :=
  splitOnto_bare rfl _ _ _ _ _

end Segment

theorem Token.exists_scanFragment {code : String} {offset : Nat} {tokens : List (Located Token)}
    (scanned : scanFragment code offset = .ok tokens) (other : Nat) :
    ∃ moved, scanFragment code other = .ok moved ∧
      moved.map Located.node = tokens.map Located.node := by
  have shifts (distance : Nat) :
      scanFragment code distance = displaced distance (scanFragment code 0) := by
    have moved := @scanOnto_shift distance [] 0 .fragment 0 code.toList
    rwa [Nat.zero_add] at moved
  rw [shifts] at scanned
  rw [shifts]
  cases start : scanFragment code 0 with
  | error fault =>
    rw [start] at scanned
    cases scanned
  | ok base =>
    rw [start] at scanned
    cases scanned
    refine ⟨_, rfl, ?_⟩
    simp [Located.shift]

end PhpScript
