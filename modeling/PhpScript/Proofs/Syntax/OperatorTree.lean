import Mathlib.Data.List.Basic
import PhpScript.Syntax.Expression

/-!
# Trees of operators

Integers with operators between them can be grouped in many ways. The documented levels of the
operators single out one of them: an operator is never inside of a tighter one, and among operators
of one level the side from which the level is grouped decides. There is such a tree, and only one.
-/

namespace PhpScript

namespace Token

/-- The level of an operator between two operands, counted from the loosest one. -/
def operatorLevel? : Token → Option Nat
  | .keyword .kwOr => some 0
  | .keyword .kwXor => some 1
  | .keyword .kwAnd => some 2
  | .symbol .coalesce => some 3
  | .symbol .pipePipe => some 4
  | .symbol .ampAmp => some 5
  | .symbol .pipe => some 6
  | .symbol .caret => some 7
  | .symbol .amp => some 8
  | .symbol .equalEqual | .symbol .notEqual | .symbol .identical | .symbol .notIdentical
  | .symbol .spaceship => some 9
  | .symbol .less | .symbol .lessEqual | .symbol .greater | .symbol .greaterEqual => some 10
  | .symbol .dot => some 11
  | .symbol .shl | .symbol .shr => some 12
  | .symbol .plus | .symbol .minus => some 13
  | .symbol .star | .symbol .slash | .symbol .percent => some 14
  | .symbol .pow => some 15
  | _ => none

/-- The operation of an operator between two operands. `??` is none of them: it decides whether its
right operand is evaluated at all. -/
def binaryOperator? : Token → Option BinaryOperator
  | .keyword .kwOr | .symbol .pipePipe => some .or
  | .keyword .kwXor => some .xor
  | .keyword .kwAnd | .symbol .ampAmp => some .and
  | .symbol .pipe => some .bitOr
  | .symbol .caret => some .bitXor
  | .symbol .amp => some .bitAnd
  | .symbol .equalEqual => some .equal
  | .symbol .notEqual => some .notEqual
  | .symbol .identical => some .identical
  | .symbol .notIdentical => some .notIdentical
  | .symbol .spaceship => some .spaceship
  | .symbol .less => some .less
  | .symbol .lessEqual => some .lessEqual
  | .symbol .greater => some .greater
  | .symbol .greaterEqual => some .greaterEqual
  | .symbol .dot => some .concat
  | .symbol .shl => some .shiftLeft
  | .symbol .shr => some .shiftRight
  | .symbol .plus => some .add
  | .symbol .minus => some .sub
  | .symbol .star => some .mul
  | .symbol .slash => some .div
  | .symbol .percent => some .mod
  | .symbol .pow => some .pow
  | _ => none

end Token

/-- An operator between operands, with its level. -/
structure InfixOperator where
  token : Token
  level : Nat
  hasLevel : token.operatorLevel? = some level

namespace InfixOperator

/-- The levels of `??` and `**` are grouped from the right, all others from the left. -/
def GroupsRight (level : Nat) : Prop := level = 3 ∨ level = 15

instance (level : Nat) : Decidable (GroupsRight level) :=
  inferInstanceAs (Decidable (_ ∨ _))

theorem eq_of_token_eq {first second : InfixOperator} (same : first.token = second.token) :
    first = second := by
  rcases first with ⟨token, level, hasLevel⟩
  rcases second with ⟨_, other, hasOther⟩
  cases same
  cases hasLevel.symm.trans hasOther
  rfl

theorem level_lt (operator : InfixOperator) : operator.level < 16 := by
  rcases operator with ⟨token, level, hasLevel⟩
  unfold Token.operatorLevel? at hasLevel
  split at hasLevel
  all_goals
    cases hasLevel
    try decide

theorem token_of_level (operator : InfixOperator) :
    (operator.level = 3 → operator.token = .symbol .coalesce) ∧
      (operator.level = 15 → operator.token = .symbol .pow) := by
  rcases operator with ⟨token, level, hasLevel⟩
  unfold Token.operatorLevel? at hasLevel
  split at hasLevel
  all_goals cases hasLevel
  all_goals constructor <;> rintro ⟨⟩ <;> rfl

theorem exists_binaryOperator {operator : InfixOperator} (isOther : operator.level ≠ 3) :
    ∃ kind, operator.token.binaryOperator? = some kind := by
  rcases operator with ⟨token, level, hasLevel⟩
  unfold Token.operatorLevel? at hasLevel
  split at hasLevel
  all_goals cases hasLevel
  all_goals first | exact ⟨_, rfl⟩ | exact absurd rfl isOther

end InfixOperator

/-- Operands joined by operators. -/
inductive OperatorTree where
  | literal (value : Int64)
  | node (left : OperatorTree) (operator : InfixOperator) (right : OperatorTree)

namespace OperatorTree

open InfixOperator

def tokens : OperatorTree → List Token
  | .literal value => [.number (.int value)]
  | .node left operator right => left.tokens ++ operator.token :: right.tokens

/-- The level of the outermost operator. A literal is tighter than all of them. -/
def level : OperatorTree → Nat
  | .literal _ => 16
  | .node _ operator _ => operator.level

/-- Every operator groups by its level. -/
inductive IsGrouped : OperatorTree → Prop
  | literal (value : Int64) : IsGrouped (.literal value)
  | fromLeft {left right : OperatorTree} {operator : InfixOperator}
      (isLeft : ¬ GroupsRight operator.level) (leftTight : operator.level ≤ left.level)
      (rightTight : operator.level < right.level) (leftGrouped : IsGrouped left)
      (rightGrouped : IsGrouped right) : IsGrouped (.node left operator right)
  | fromRight {left right : OperatorTree} {operator : InfixOperator}
      (isRight : GroupsRight operator.level) (leftTight : operator.level < left.level)
      (rightTight : operator.level ≤ right.level) (leftGrouped : IsGrouped left)
      (rightGrouped : IsGrouped right) : IsGrouped (.node left operator right)

/-- An expression is made of the operators of a tree in the same way. -/
inductive Represents : OperatorTree → Expr → Prop
  | literal (value : Int64) : Represents (.literal value) (.int value)
  | binary {left right : OperatorTree} {operator : InfixOperator} {kind : BinaryOperator}
      {leftCode rightCode : Located Expr} (isKind : operator.token.binaryOperator? = some kind)
      (isLeft : Represents left leftCode.node) (isRight : Represents right rightCode.node) :
      Represents (.node left operator right) (.binary leftCode kind rightCode)
  | coalesce {left right : OperatorTree} {operator : InfixOperator}
      {leftCode rightCode : Located Expr} (isCoalesce : operator.token = .symbol .coalesce)
      (isLeft : Represents left leftCode.node) (isRight : Represents right rightCode.node) :
      Represents (.node left operator right) (.coalesce leftCode rightCode)

def chain (first : Int64) (rest : List (InfixOperator × Int64)) : List Token :=
  .number (.int first) :: rest.flatMap fun entry => [entry.1.token, .number (.int entry.2)]

theorem tokens_length_pos (tree : OperatorTree) : 0 < tree.tokens.length := by
  cases tree with
  | literal value => exact Nat.one_pos
  | node left operator right =>
    rw [tokens, List.length_append, List.length_cons]
    omega

theorem exists_tokens_eq (tree : OperatorTree) :
    ∃ value rest, tree.tokens = .number (.int value) :: rest := by
  induction tree with
  | literal value => exact ⟨value, [], rfl⟩
  | node left operator right ihLeft _ =>
    rcases ihLeft with ⟨value, rest, isLeft⟩
    exact ⟨value, rest ++ operator.token :: right.tokens, by simp [tokens, isLeft]⟩

/-! ## Operators of one level -/

/-- A tree that grows to the left. -/
def spine (first : OperatorTree) (entries : List (InfixOperator × OperatorTree)) : OperatorTree :=
  entries.foldl (fun left entry => .node left entry.1 entry.2) first

def entryTokens (entry : InfixOperator × OperatorTree) : List Token :=
  entry.1.token :: entry.2.tokens

section Spine

variable (first : OperatorTree) (entries : List (InfixOperator × OperatorTree))

theorem spine_append (entry : InfixOperator × OperatorTree) :
    spine first (entries ++ [entry]) = .node (spine first entries) entry.1 entry.2 := by
  rw [spine, List.foldl_append]
  rfl

theorem tokens_spine :
    (spine first entries).tokens = first.tokens ++ entries.flatMap entryTokens := by
  induction entries generalizing first with
  | nil => exact (List.append_nil _).symm
  | cons entry entries ih =>
    have grows : spine first (entry :: entries) =
      spine (.node first entry.1 entry.2) entries := rfl
    rw [grows, ih, tokens, List.flatMap_cons, List.append_assoc]
    rfl

theorem length_lt_tokens_spine : entries.length < (spine first entries).tokens.length := by
  have isThere := first.tokens_length_pos
  have entriesThere : entries.length ≤ (entries.flatMap entryTokens).length := by
    induction entries with
    | nil => exact Nat.le_refl 0
    | cons entry entries ih =>
      rw [List.flatMap_cons, List.length_append, entryTokens, List.length_cons, List.length_cons]
      omega
  rw [tokens_spine, List.length_append]
  omega

theorem length_lt_tokens_spine_of_mem {entry : InfixOperator × OperatorTree}
    (isMember : entry ∈ entries) : entry.2.tokens.length < (spine first entries).tokens.length := by
  rcases List.append_of_mem isMember with ⟨before, behind, rfl⟩
  simp only [tokens_spine, List.flatMap_append, List.flatMap_cons, entryTokens, List.length_append,
    List.length_cons]
  omega

end Spine

/-- Operators of one level with tighter operands around them. -/
structure IsSpine (level : Nat) (first : OperatorTree)
    (entries : List (InfixOperator × OperatorTree)) : Prop where
  firstGrouped : first.IsGrouped
  firstTight : level < first.level
  entries : ∀ entry ∈ entries, entry.1.level = level ∧ entry.2.IsGrouped ∧ level < entry.2.level

theorem IsGrouped.exists_spine {tree : OperatorTree} {level : Nat} (grouped : tree.IsGrouped)
    (isLeft : ¬ GroupsRight level) (isLevel : level < 16) (isAtLeast : level ≤ tree.level) :
    ∃ first entries, tree = spine first entries ∧ IsSpine level first entries := by
  have single : ∀ {tree : OperatorTree}, tree.IsGrouped → level < tree.level →
      ∃ first entries, tree = spine first entries ∧ IsSpine level first entries :=
    fun own isTighter => ⟨_, [], rfl, own, isTighter, by simp⟩
  induction grouped with
  | literal value => exact single (.literal value) isLevel
  | @fromLeft left right operator own leftTight rightTight leftGrouped rightGrouped ihLeft =>
    rcases Nat.lt_or_eq_of_le isAtLeast with isTighter | same
    · exact single (.fromLeft own leftTight rightTight leftGrouped rightGrouped) isTighter
    · cases same
      rcases ihLeft leftTight with ⟨first, entries, rfl, firstGrouped, firstTight, others⟩
      refine ⟨first, entries ++ [(operator, right)], ?_, firstGrouped, firstTight, ?_⟩
      · exact (spine_append first entries (operator, right)).symm
      · rw [List.forall_mem_append, List.forall_mem_singleton]
        exact ⟨others, rfl, rightGrouped, rightTight⟩
  | fromRight own leftTight rightTight leftGrouped rightGrouped =>
    refine single (.fromRight own leftTight rightTight leftGrouped rightGrouped) ?_
    refine Nat.lt_of_le_of_ne isAtLeast fun same => isLeft ?_
    rw [same]
    exact own

/-! ## There is a grouped tree -/

/-- Put a literal and an operator in front of a tree: the operator goes as far down on the left as
it has to. -/
def prepend (value : Int64) (operator : InfixOperator) : OperatorTree → OperatorTree
  | .literal last => .node (.literal value) operator (.literal last)
  | .node left outer right =>
    if outer.level < operator.level ∨
        outer.level = operator.level ∧ ¬ GroupsRight operator.level then
      .node (prepend value operator left) outer right
    else .node (.literal value) operator (.node left outer right)

section Prepend

variable (value : Int64) (operator : InfixOperator) (tree : OperatorTree)

theorem tokens_prepend : (prepend value operator tree).tokens =
    .number (.int value) :: operator.token :: tree.tokens := by
  induction tree with
  | literal last => rfl
  | node left outer right ih =>
    rw [prepend]
    split
    · rw [tokens, ih, tokens]
      rfl
    · rfl

theorem level_prepend : (prepend value operator tree).level = min operator.level tree.level := by
  cases tree with
  | literal last =>
    have isTighter := operator.level_lt
    simp only [prepend, level]
    omega
  | node left outer right =>
    rw [prepend]
    split
    · simp only [level]
      omega
    · simp only [level]
      omega

variable {tree}

theorem isGrouped_prepend (grouped : tree.IsGrouped) : (prepend value operator tree).IsGrouped := by
  have isTighter : operator.level < (literal value).level := operator.level_lt
  have inFront : ∀ {right : OperatorTree}, right.IsGrouped → operator.level ≤ right.level →
      (operator.level < right.level ∨ GroupsRight operator.level) →
        (node (.literal value) operator right).IsGrouped := by
    intro right rightGrouped isAtLeast tight
    by_cases isRight : GroupsRight operator.level
    · exact .fromRight isRight isTighter isAtLeast (.literal value) rightGrouped
    · exact .fromLeft isRight (Nat.le_of_lt isTighter) (tight.resolve_right isRight)
        (.literal value) rightGrouped
  have levels := level_prepend value operator
  induction grouped with
  | literal last =>
    exact inFront (.literal last) (Nat.le_of_lt operator.level_lt) (.inl operator.level_lt)
  | @fromLeft left right outer isLeft leftTight rightTight leftGrouped rightGrouped ihLeft =>
    rw [prepend]
    split
    · refine .fromLeft isLeft ?_ rightTight ihLeft rightGrouped
      rw [levels]
      omega
    · rename_i isOutside
      refine inFront (.fromLeft isLeft leftTight rightTight leftGrouped rightGrouped) ?_ ?_
      all_goals
        simp only [level]
        grind
  | @fromRight left right outer isRight leftTight rightTight leftGrouped rightGrouped ihLeft =>
    rw [prepend]
    split
    · rename_i isInside
      refine .fromRight isRight ?_ rightTight ihLeft rightGrouped
      rw [levels]
      grind
    · rename_i isOutside
      refine inFront (.fromRight isRight leftTight rightTight leftGrouped rightGrouped) ?_ ?_
      all_goals
        simp only [level]
        grind

end Prepend

theorem exists_isGrouped (first : Int64) (rest : List (InfixOperator × Int64)) :
    ∃ tree : OperatorTree, tree.tokens = chain first rest ∧ tree.IsGrouped := by
  induction rest generalizing first with
  | nil => exact ⟨.literal first, rfl, .literal first⟩
  | cons entry rest ih =>
    rcases ih entry.2 with ⟨tree, areTokens, grouped⟩
    refine ⟨tree.prepend first entry.1, ?_, isGrouped_prepend first entry.1 grouped⟩
    rw [tokens_prepend, areTokens]
    rfl

/-! ## There is only one -/

section Unique

variable {left right otherLeft otherRight : OperatorTree} {operator other : InfixOperator}

theorem IsGrouped.level_le {tree : OperatorTree} (grouped : tree.IsGrouped)
    (isInside : operator.token ∈ tree.tokens) : tree.level ≤ operator.level := by
  have hasLevel := operator.hasLevel
  induction grouped with
  | literal value =>
    rw [List.mem_singleton.mp isInside] at hasLevel
    cases hasLevel
  | @fromLeft left right outer _ leftTight rightTight _ _ ihLeft ihRight
  | @fromRight left right outer _ leftTight rightTight _ _ ihLeft ihRight =>
    simp only [tokens, List.mem_append, List.mem_cons] at isInside
    simp only [level]
    rcases isInside with inLeft | isOuter | inRight
    · have isAtLeast := ihLeft inLeft
      omega
    · exact Nat.le_of_eq (congrArg InfixOperator.level (eq_of_token_eq isOuter)).symm
    · have isAtLeast := ihRight inRight
      omega

theorem IsGrouped.tight (grouped : (node left operator right).IsGrouped) :
    left.IsGrouped ∧ right.IsGrouped ∧ operator.level ≤ left.level ∧
      operator.level ≤ right.level ∧
      (if GroupsRight operator.level then operator.level < left.level
        else operator.level < right.level) := by
  cases grouped with
  | fromLeft isLeft leftTight rightTight leftGrouped rightGrouped =>
    rw [if_neg isLeft]
    exact ⟨leftGrouped, rightGrouped, leftTight, Nat.le_of_lt rightTight, rightTight⟩
  | fromRight isRight leftTight rightTight leftGrouped rightGrouped =>
    rw [if_pos isRight]
    exact ⟨leftGrouped, rightGrouped, Nat.le_of_lt leftTight, rightTight, leftTight⟩

/-- Two operators are not each inside of the other's operand: the first one to the left of the
second, the second one to the right of the first. -/
theorem IsGrouped.not_crossing (grouped : (node left operator right).IsGrouped)
    (otherGrouped : (node otherLeft other otherRight).IsGrouped)
    (isLeft : operator.token ∈ otherLeft.tokens) (isRight : other.token ∈ right.tokens) :
    False := by
  rcases grouped.tight with ⟨_, rightGrouped, _, rightTight, tight⟩
  rcases otherGrouped.tight with ⟨otherLeftGrouped, _, leftTight, _, otherTight⟩
  have isAbove := rightGrouped.level_le isRight
  have isBelow := otherLeftGrouped.level_le isLeft
  -- Both operators have one level, so they are grouped from one side.
  have same : operator.level = other.level := by omega
  rw [same] at tight
  split at tight
  · rename_i isRightGrouped
    rw [if_pos isRightGrouped] at otherTight
    omega
  · omega

theorem IsGrouped.eq_of_tokens_eq {tree another : OperatorTree} (grouped : tree.IsGrouped)
    (anotherGrouped : another.IsGrouped) (same : tree.tokens = another.tokens) :
    tree = another := by
  induction tree generalizing another with
  | literal value =>
    cases another with
    | literal other =>
      simp only [tokens, List.cons.injEq, Token.number.injEq, Numeric.int.injEq] at same
      rw [same.1]
    | node otherLeft other otherRight =>
      have lengths := congrArg List.length same
      have isThere := tokens_length_pos otherLeft
      simp only [tokens, List.length_append, List.length_cons, List.length_nil] at lengths
      omega
  | node left operator right ihLeft ihRight =>
    cases another with
    | literal other =>
      have lengths := congrArg List.length same
      have isThere := tokens_length_pos left
      simp only [tokens, List.length_append, List.length_cons, List.length_nil] at lengths
      omega
    | node otherLeft other otherRight =>
      have together : left.tokens = otherLeft.tokens →
          operator.token :: right.tokens = other.token :: otherRight.tokens →
            node left operator right = node otherLeft other otherRight := by
        intro sameLeft sameRest
        rw [List.cons.injEq] at sameRest
        rcases grouped.tight with ⟨leftGrouped, rightGrouped, _⟩
        rcases anotherGrouped.tight with ⟨otherLeftGrouped, otherRightGrouped, _⟩
        rw [ihLeft leftGrouped otherLeftGrouped sameLeft, eq_of_token_eq sameRest.1,
          ihRight rightGrouped otherRightGrouped sameRest.2]
      -- Otherwise each of the outermost operators lies in an operand of the other one.
      rcases List.append_eq_append_iff.mp same with
        ⟨_ | ⟨token, between⟩, isLonger, isRest⟩ | ⟨_ | ⟨token, between⟩, isLonger, isRest⟩
      · exact together (by simpa using isLonger.symm) isRest
      · rw [List.cons_append, List.cons.injEq] at isRest
        refine absurd (grouped.not_crossing anotherGrouped ?_ ?_) id
        · rw [isLonger, isRest.1]
          simp
        · rw [isRest.2]
          simp
      · exact together (by simpa using isLonger) isRest.symm
      · rw [List.cons_append, List.cons.injEq] at isRest
        refine absurd (anotherGrouped.not_crossing grouped ?_ ?_) id
        · rw [isLonger, isRest.1]
          simp
        · rw [isRest.2]
          simp

end Unique

end OperatorTree

end PhpScript
