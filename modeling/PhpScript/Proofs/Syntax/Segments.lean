import PhpScript.Proofs.Token.Lexemes
import PhpScript.Syntax.Interpolation

/-!
# Where the segments of a text literal stand

Each piece of the body of a literal takes at least one of the characters that are left, and no more
than there are. Names, keys and code are parts of the body, at the offsets that are noted for them.
A search for a closing brace never sees more braces closed than opened.
-/

namespace PhpScript.Segment

/-! ## Braces -/

namespace Quoting

def after : Quoting → Char → Quoting
  | .outside, character =>
    if character = '\'' ∨ character = '"' then .inside character false else .outside
  | .inside quote false, character =>
    if character = quote then .outside else .inside quote (character = '\\')
  | .inside quote true, _ => .inside quote false

def opened : Quoting → Char → Int
  | .outside, character => if character = '{' then 1 else if character = '}' then -1 else 0
  | .inside _ _, _ => 0

end Quoting

variable {text passed : List Char} {offset depth : Nat} {segment : Segment} {quoting : Quoting}
  {bytes : List UInt8} {segments : List Segment}

/-- The braces that a text opens, less those that it closes. Quoted ones do not count. -/
def balance (quoting : Quoting) : List Char → Int
  | [] => 0
  | character :: rest => quoting.opened character + balance (quoting.after character) rest

/-- No part at the head of a text closes more braces than it and some others open. -/
def NeverBelow (depth : Nat) (quoting : Quoting) (text : List Char) : Prop :=
  ∀ before, before <+: text → 0 ≤ depth + balance quoting before

theorem neverBelow_cons {next : Nat} {character : Char} {rest : List Char}
    (counts : (next : Int) = depth + quoting.opened character)
    (never : NeverBelow next (quoting.after character) rest) :
    NeverBelow depth quoting (character :: rest) := by
  intro before isPrefix
  rcases List.prefix_cons_iff.mp isPrefix with rfl | ⟨tail, rfl, tailIsPrefix⟩
  · simp [balance]
  · have isAbove := never tail tailIsPrefix
    rw [balance]
    omega

theorem neverBelow_nil (depth : Nat) (quoting : Quoting) : NeverBelow depth quoting [] := by
  intro before isPrefix
  rw [List.prefix_nil.mp isPrefix, balance]
  omega

/-- One step of the search: it ends, or the braces that are open are counted exactly. -/
def Counts (passed : List Char) (depth : Nat) (quoting : Quoting) (character : Char)
    (rest : List Char) : Prop :=
  (takeBraced? passed depth quoting (character :: rest) = some passed.reverse ∧
    character = '}' ∧ depth = 0) ∨
  ∃ next : Nat, (next : Int) = depth + quoting.opened character ∧
    takeBraced? passed depth quoting (character :: rest) =
      takeBraced? (character :: passed) next (quoting.after character) rest

theorem counts_takeBraced? (passed : List Char) (depth : Nat) (quoting : Quoting) (character : Char)
    (rest : List Char) : Counts passed depth quoting character rest := by
  unfold Counts
  cases quoting with
  | inside quote isProtected =>
    refine .inr ⟨depth, by cases isProtected <;> simp [Quoting.opened], ?_⟩
    cases isProtected <;> rfl
  | outside =>
    generalize result : takeBraced? passed depth .outside (character :: rest) = found
    unfold takeBraced? at result
    dsimp only at result
    split at result
    · exact .inr ⟨depth, rfl, result.symm⟩
    · exact .inr ⟨depth, rfl, result.symm⟩
    · exact .inr ⟨depth + 1, rfl, result.symm⟩
    · split at result
      · exact .inl ⟨result.symm, rfl, ‹depth = 0›⟩
      · refine .inr ⟨depth - 1, ?_, result.symm⟩
        simp only [Quoting.opened, Char.reduceEq, if_true, if_false]
        omega
    · rename_i noSingle noDouble noOpening noClosing
      refine .inr ⟨depth, ?_, ?_⟩
      · simp [Quoting.opened, if_neg noOpening, if_neg noClosing]
      · rw [Quoting.after, if_neg (not_or.mpr ⟨noSingle, noDouble⟩)]
        exact result.symm

theorem takeBraced?_eq_some {found : List Char}
    (isFound : takeBraced? passed depth quoting text = some found) :
    ∃ inner rest, text = inner ++ '}' :: rest ∧ found = passed.reverse ++ inner ∧
      NeverBelow depth quoting inner := by
  induction text generalizing passed depth quoting with
  | nil => cases isFound
  | cons character rest ih =>
    rcases counts_takeBraced? passed depth quoting character rest with
      ⟨closes, rfl, rfl⟩ | ⟨next, counts, goesOn⟩
    · rw [closes, Option.some.injEq] at isFound
      exact ⟨[], rest, rfl, by simp [isFound], neverBelow_nil 0 quoting⟩
    · rw [goesOn] at isFound
      rcases ih isFound with ⟨inner, behind, rfl, rfl, never⟩
      exact ⟨character :: inner, behind, rfl, by simp, neverBelow_cons counts never⟩

theorem neverBelow_of_takeBraced?_eq_none (isNone : takeBraced? passed depth quoting text = none) :
    NeverBelow depth quoting text := by
  induction text generalizing passed depth quoting with
  | nil => exact neverBelow_nil depth quoting
  | cons character rest ih =>
    rcases counts_takeBraced? passed depth quoting character rest with
      ⟨closes, _, _⟩ | ⟨next, counts, goesOn⟩
    · rw [closes] at isNone
      cases isNone
    · rw [goesOn] at isNone
      exact neverBelow_cons counts (ih isNone)

/-! ## Pieces -/

inductive IsKey : List Char → Expr → Prop
  | name (name : List Char) : IsKey ('$' :: name) (.variable (.simple (String.ofList name)))
  | word (text : List Char) : IsKey text (.str (String.ofList text))

/-- A variable without braces around an expression, and its place. -/
inductive IsVariable (offset : Nat) : List Char → Located Expr → Prop
  | braced (name : List Char) :
      IsVariable offset ('$' :: '{' :: (name ++ ['}']))
        ⟨.variable (.simple (String.ofList name)), offset, offset + Text.encodedSize name + 3⟩
  | plain (name : List Char) :
      IsVariable offset ('$' :: name)
        ⟨.variable (.simple (String.ofList name)), offset, offset + 1 + Text.encodedSize name⟩
  | subscripted (name : List Char) {text : List Char} {key : Expr} (isKey : IsKey text key) :
      IsVariable offset ('$' :: (name ++ '[' :: (text ++ [']'])))
        (let stop := offset + 1 + Text.encodedSize name
         let keyStop := stop + 1 + Text.encodedSize text
         ⟨.subscript ⟨.variable (.simple (String.ofList name)), offset, stop⟩
            (some ⟨key, stop + 1, keyStop⟩), offset, keyStop + 1⟩)

/-- A segment is written like this. -/
inductive Fits (offset : Nat) : List Char → Segment → Prop
  | text (written : List Char) (text : String) : Fits offset written (.text text)
  | direct {written : List Char} {expression : Located Expr}
      (isVariable : IsVariable offset written expression) :
      Fits offset written (.variable expression)
  | named (code : List Char) :
      Fits offset ('$' :: '{' :: (code ++ ['}'])) (.variableNamed (String.ofList code) (offset + 2)
        ⟨offset, offset + Text.encodedSize code + 3⟩)
  | code (code : List Char) :
      Fits offset ('{' :: (code ++ ['}'])) (.code (String.ofList code) (offset + 1))

/-- What stands at the head of the body, as it is written. -/
inductive Piece.Fits (offset : Nat) : List Char → Piece → Prop
  | bytes (written : List Char) (bytes : List UInt8) : Fits offset written (.bytes bytes)
  | segment {written : List Char} {segment : Segment} (fits : segment.Fits offset written) :
      Fits offset written (.segment segment)
  | unclosed {written : List Char} {distance : Nat}
      (isInside : distance ≤ Text.encodedSize written) :
      Fits offset written (.unclosed distance)

/-- A piece takes a number of characters behind the first one from the head of a text. -/
def IsAt (offset : Nat) (text : List Char) (found : Piece × Nat) : Prop :=
  ∃ written after, text = written ++ after ∧ written.length = found.2 + 1 ∧
    found.1.Fits offset written

theorem length_unescape_le (rest : List Char) : (unescape rest).2 ≤ rest.length := by
  unfold unescape
  split
  · exact Nat.le_refl 0
  · rename_i next after
    split
    · simp
    · split
      · refine (List.takeWhile_prefix _).length_le.trans ?_
        exact List.length_take_le' _ _
      · split
        · split
          · exact Nat.zero_le _
          · rename_i digits _
            have shorter : ((after.take 2).takeWhile Lexeme.isHexDigit).length ≤ after.length :=
              (List.takeWhile_prefix _).length_le.trans (List.length_take_le' _ _)
            simpa using shorter
        · split
          · split
            · rename_i braced
              dsimp only
              split
              · exact Nat.zero_le _
              · rename_i notEmpty
                split
                · rw [List.isEmpty_iff, List.drop_eq_nil_iff] at notEmpty
                  simp only [List.length_cons]
                  omega
                · exact Nat.zero_le _
            · exact Nat.zero_le _
          · exact Nat.zero_le _

theorem subscriptKey?_eq_some {key : Expr} {length : Nat}
    (isSome : subscriptKey? text = some (key, length)) :
    ∃ written after, text = written ++ after ∧ written.length = length ∧ IsKey written key := by
  unfold subscriptKey? at isSome
  split at isSome
  · rename_i first rest
    split at isSome
    · cases isSome
      refine ⟨'$' :: (first :: rest).takeWhile isNamePart, (first :: rest).dropWhile isNamePart, ?_,
        rfl, .name _⟩
      rw [List.cons_append, List.takeWhile_append_dropWhile]
    · cases isSome
  · rename_i first rest _
    split at isSome
    · cases isSome
      refine ⟨first :: rest.takeWhile Char.isDigit, rest.dropWhile Char.isDigit, ?_, rfl, .word _⟩
      rw [List.cons_append, List.takeWhile_append_dropWhile]
    · split at isSome
      · cases isSome
        exact ⟨_, _, List.takeWhile_append_dropWhile.symm, rfl, .word _⟩
      · cases isSome
  · cases isSome

theorem isAt_takeVariable (offset : Nat) (rest : List Char) :
    IsAt offset ('$' :: rest)
      (.segment (.variable (takeVariable offset rest).1), (takeVariable offset rest).2) := by
  have plain : IsAt offset ('$' :: rest) (.segment (.variable
      ⟨.variable (.simple (String.ofList (rest.takeWhile isNamePart))), offset,
        offset + 1 + Text.encodedSize (rest.takeWhile isNamePart)⟩),
      (rest.takeWhile isNamePart).length) := by
    refine ⟨'$' :: rest.takeWhile isNamePart, rest.dropWhile isNamePart, ?_, rfl,
      .segment (.direct (.plain _))⟩
    rw [List.cons_append, List.takeWhile_append_dropWhile]
  unfold takeVariable
  dsimp only
  split
  · rename_i bracketed behindName
    split
    · rename_i key length isKey
      split
      · rename_i after behindKey
        rcases subscriptKey?_eq_some isKey with ⟨written, behind, rfl, rfl, fits⟩
        rw [List.drop_left] at behindKey
        subst behindKey
        refine ⟨'$' :: (rest.takeWhile isNamePart ++ '[' :: (written ++ [']'])), after, ?_, ?_, ?_⟩
        · have whole := List.prefix_iff_eq_append.mp (List.takeWhile_prefix isNamePart (l := rest))
          rw [behindName] at whole
          simpa using whole.symm
        · simp
          omega
        · rw [List.take_left]
          exact .segment (.direct (.subscripted _ fits))
      · exact plain
    · exact plain
  · exact plain

theorem isAt_one {character : Char} {rest : List Char} {found : Piece}
    (fits : found.Fits offset [character]) : IsAt offset (character :: rest) (found, 0) :=
  ⟨[character], rest, rfl, rfl, fits⟩

theorem isAt_piece (offset : Nat) (character : Char) (rest : List Char) :
    IsAt offset (character :: rest) (piece offset character rest) := by
  unfold piece
  split
  · refine ⟨'\\' :: rest.take (unescape rest).2, rest.drop (unescape rest).2, ?_, ?_, .bytes _ _⟩
    · rw [List.cons_append, List.take_append_drop]
    · rw [List.length_cons, List.length_take_of_le (length_unescape_le rest)]
  · rename_i braced
    split
    · exact isAt_one (.unclosed (by decide))
    · rename_i inner isFound
      rcases takeBraced?_eq_some isFound with ⟨name, after, rfl, rfl, _⟩
      refine ⟨'$' :: '{' :: (inner ++ ['}']), after, by simp, by simp, ?_⟩
      split
      · exact .segment (.direct (.braced _))
      · exact .segment (.named _)
  · rename_i first behind _
    split
    · exact isAt_takeVariable offset (first :: behind)
    · exact isAt_one (.bytes _ _)
  · rename_i behind
    split
    · exact isAt_one (.unclosed (by decide))
    · rename_i inner isFound
      rcases takeBraced?_eq_some isFound with ⟨code, after, same, rfl, _⟩
      refine ⟨'{' :: (inner ++ ['}']), after, by simp [same], by simp, .segment (.code _)⟩
  · exact isAt_one (.bytes _ _)

/-! ## All segments -/

/-- A segment is cut from a text. -/
def IsIn (offset : Nat) (text : List Char) (segment : Segment) : Prop :=
  ∃ before written after, text = before ++ (written ++ after) ∧
    segment.Fits (offset + Text.encodedSize before) written

theorem isIn_text (offset : Nat) (written : List Char) (text : String) :
    IsIn offset written (.text text) :=
  ⟨[], written, [], by simp, .text _ _⟩

theorem IsIn.behind (written : List Char)
    (isIn : IsIn (offset + Text.encodedSize written) text segment) :
    IsIn offset (written ++ text) segment := by
  rcases isIn with ⟨before, own, after, rfl, fits⟩
  refine ⟨written ++ before, own, after, by simp, ?_⟩
  rwa [Text.encodedSize_append, ← Nat.add_assoc]

theorem splitOnto_skip (segments : List Segment) (bytes : List UInt8) (offset : Nat)
    (written rest : List Char) :
    splitOnto segments bytes offset written.length (written ++ rest) =
      splitOnto segments bytes (offset + Text.encodedSize written) 0 rest := by
  induction written generalizing offset with
  | nil => rfl
  | cons character written ih =>
    rw [Text.encodedSize_cons, ← Nat.add_assoc, ← ih]
    rfl

theorem mem_collectText (isMember : segment ∈ collectText bytes segments) :
    segment ∈ segments ∨ ∃ text, segment = .text text := by
  unfold collectText at isMember
  split at isMember
  · exact .inl isMember
  · rcases List.mem_cons.mp isMember with rfl | isMember
    · exact .inr ⟨_, rfl⟩
    · exact .inl isMember

/-- One pass of the cutting: something at the head of a text is passed, and the cutting goes on
behind it or ends. -/
def Passes (segments : List Segment) (bytes : List UInt8) (offset : Nat)
    (text written after : List Char) : Prop :=
  text = written ++ after ∧ written ≠ [] ∧
    ((∃ more, splitOnto segments bytes offset 0 text =
        splitOnto segments more (offset + Text.encodedSize written) 0 after) ∨
      (∃ segment : Segment, segment.Fits offset written ∧
        splitOnto segments bytes offset 0 text =
          splitOnto (segment :: collectText bytes segments) [] (offset + Text.encodedSize written) 0
            after) ∨
      ∃ distance ≤ Text.encodedSize written,
        splitOnto segments bytes offset 0 text = (segments.reverse, some (offset + distance)))

theorem exists_passes (segments : List Segment) (bytes : List UInt8) (offset : Nat)
    (character : Char) (rest : List Char) :
    ∃ written after, Passes segments bytes offset (character :: rest) written after := by
  rcases isPiece : piece offset character rest with ⟨found, length⟩
  have isAt := isAt_piece offset character rest
  rw [isPiece] at isAt
  rcases isAt with ⟨_ | ⟨first, written⟩, after, same, isLength, fits⟩
  · cases isLength
  · rw [List.cons_append, List.cons.injEq] at same
    rcases same with ⟨rfl, rfl⟩
    cases isLength
    have skips := fun segments bytes =>
      splitOnto_skip segments bytes (offset + character.utf8Size) written after
    simp only [Nat.add_assoc, ← Text.encodedSize_cons] at skips
    refine ⟨character :: written, after, rfl, List.cons_ne_nil _ _, ?_⟩
    cases fits with
    | bytes more =>
      refine .inl ⟨more.reverse ++ bytes, ?_⟩
      rw [← skips, splitOnto]
      simp only [isPiece]
    | @segment segment fits =>
      refine .inr (.inl ⟨segment, fits, ?_⟩)
      rw [← skips, splitOnto]
      simp only [isPiece]
    | @unclosed distance isInside =>
      refine .inr (.inr ⟨distance, isInside, ?_⟩)
      rw [splitOnto]
      simp only [isPiece]

theorem mem_splitOnto (limit : Nat) (isBelow : text.length ≤ limit)
    (isMember : segment ∈ (splitOnto segments bytes offset 0 text).1) :
    segment ∈ segments ∨ IsIn offset text segment := by
  have ofCollected : ∀ {bytes segments} {offset : Nat} {written : List Char},
      segment ∈ collectText bytes segments → segment ∈ segments ∨ IsIn offset written segment := by
    intro bytes segments offset written isMember
    rcases mem_collectText isMember with isMember | ⟨text, rfl⟩
    · exact .inl isMember
    · exact .inr (isIn_text _ _ _)
  induction limit generalizing segments bytes offset text with
  | zero =>
    rw [Nat.le_zero, List.length_eq_zero_iff] at isBelow
    subst isBelow
    exact ofCollected (List.mem_reverse.mp isMember)
  | succ limit ih =>
    cases text with
    | nil => exact ofCollected (List.mem_reverse.mp isMember)
    | cons character rest =>
      rcases exists_passes segments bytes offset character rest with
        ⟨written, after, same, nonempty, outcome⟩
      have isShorter : after.length ≤ limit := by
        have positive := List.length_pos_iff.mpr nonempty
        rw [same, List.length_append] at isBelow
        omega
      rcases outcome with ⟨more, goesOn⟩ | ⟨own, fits, goesOn⟩ | ⟨_, _, ends⟩
      · rw [goesOn] at isMember
        rw [same]
        exact (ih isShorter isMember).imp_right (IsIn.behind written)
      · rw [goesOn] at isMember
        rw [same]
        rcases ih isShorter isMember with isMember | isIn
        · rcases List.mem_cons.mp isMember with rfl | isMember
          · exact .inr ⟨[], written, after, rfl, fits⟩
          · exact ofCollected isMember
        · exact .inr (.behind written isIn)
      · rw [ends] at isMember
        exact .inl (List.mem_reverse.mp isMember)

def code? : Segment → Option String
  | .variableNamed inner _ _ | .code inner _ => some inner
  | .text _ | .variable _ => none

theorem mem_split {raw : String} (isMember : segment ∈ (split raw offset).1) :
    IsIn offset raw.toList segment := by
  rcases mem_splitOnto raw.toList.length (Nat.le_refl _) isMember with isMember | isIn
  · cases isMember
  · exact isIn

theorem IsIn.length_lt {raw code : String} (isIn : IsIn offset raw.toList segment)
    (isCode : segment.code? = some code) : code.length < raw.length := by
  rcases isIn with ⟨before, written, after, whole, fits⟩
  have length := congrArg List.length whole
  rw [String.length_toList, List.length_append, List.length_append] at length
  cases fits with
  | text => cases isCode
  | direct isVariable => cases isCode
  | named inner =>
    cases isCode
    simp only [List.length_cons, List.length_append] at length
    rw [String.length_ofList]
    omega
  | code inner =>
    cases isCode
    simp only [List.length_cons, List.length_append] at length
    rw [String.length_ofList]
    omega

end PhpScript.Segment
