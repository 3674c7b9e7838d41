import PhpScript.Proofs.Token.Lexemes

/-!
# How a source text is laid out

A source text that can be scanned is a row of pieces without gaps. Inline text goes up to the
leftmost tag that opens a code section; inside the section stand tokens, white space and comments; a
closing tag ends it and takes a newline along. `Arranged` says so without reference to the scan.
-/

namespace PhpScript.Token

/-- How an opening tag is spelled. -/
inductive OpenTag.IsSpelled : OpenTag → List Char → Prop
  | echo : IsSpelled .echo ['<', '?', '=']
  | code {word : List Char} (lowered : word.map Char.toLower = ['p', 'h', 'p']) :
      IsSpelled .code ('<' :: '?' :: word)

inductive OpenTag.IsAt : OpenTag → List Char → Prop
  | echo (rest : List Char) : IsAt .echo ('<' :: '?' :: '=' :: rest)
  | code {word rest : List Char} (lowered : word.map Char.toLower = ['p', 'h', 'p'])
      (ends : ∀ next ∈ rest.head?, Text.isWhitespace next = true) :
      IsAt .code ('<' :: '?' :: (word ++ rest))

theorem openTag?_eq_some_iff {text : List Char} {tag : OpenTag} :
    openTag? text = some tag ↔ tag.IsAt text := by
  constructor
  · intro found
    unfold openTag? at found
    split at found
    · cases found
      exact .echo _
    · rename_i first second third rest _
      split at found
      · rename_i spelled
        split at found
        · cases found
          exact @OpenTag.IsAt.code [first, second, third] [] spelled (by simp)
        · split at found
          · rename_i next _ isWhitespace
            cases found
            exact @OpenTag.IsAt.code [first, second, third] _ spelled (by simpa using isWhitespace)
          · cases found
      · cases found
    · cases found
  · intro isAt
    cases isAt with
    | echo rest => rfl
    | @code word rest lowered ends =>
      have length := congrArg List.length lowered
      rw [List.length_map] at length
      rcases List.length_eq_three.mp length with ⟨first, second, third, rfl⟩
      simp only [List.cons_append, List.nil_append]
      unfold openTag?
      split
      · rename_i isEcho
        cases isEcho
        simp at lowered
      · rename_i same
        cases same
        rw [if_pos lowered]
        cases rest with
        | nil => rfl
        | cons next rest => simp [ends next rfl]
      · rename_i noTag
        exact absurd rfl (noTag first second third rest)

theorem OpenTag.IsSpelled.length_eq {tag : OpenTag} {text : List Char}
    (spelled : tag.IsSpelled text) : text.length = tag.length := by
  cases spelled with
  | echo => rfl
  | code lowered =>
    have length := congrArg List.length lowered
    rw [List.length_map] at length
    simp [length, OpenTag.length]

theorem OpenTag.IsAt.exists_append {tag : OpenTag} {text : List Char} (isTag : tag.IsAt text) :
    ∃ name rest, text = name ++ rest ∧ tag.IsSpelled name := by
  cases isTag with
  | echo rest => exact ⟨['<', '?', '='], rest, rfl, .echo⟩
  | @code word rest lowered ends => exact ⟨'<' :: '?' :: word, rest, rfl, .code lowered⟩

/-- What a source text is made of. -/
inductive Piece where
  | inlineText (text : List Char)
  | tag (tag : OpenTag) (text : List Char)
  | blank (text : List Char)
  | lexeme (token : Token) (text : List Char)
  | closeTag
  | newline (text : List Char)

namespace Piece

def text : Piece → List Char
  | .inlineText text | .tag _ text | .blank text | .lexeme _ text | .newline text => text
  | .closeTag => ['?', '>']

/-- The token that a piece is scanned into. A closing tag ends a statement. -/
def token? : Piece → Option Token
  | .inlineText text => some (.inlineText (String.ofList text))
  | .tag .echo _ => some .openEcho
  | .lexeme token _ => some token
  | .closeTag => some (.symbol .semicolon)
  | .tag .code _ | .blank _ | .newline _ => none

def joined (pieces : List Piece) : List Char := pieces.flatMap text

def tokensFrom (offset : Nat) : List Piece → List (Located Token)
  | [] => []
  | piece :: rest =>
    let stop := offset + Text.encodedSize piece.text
    (piece.token?.map fun token => ⟨token, ⟨offset, stop⟩⟩).toList ++ tokensFrom stop rest

def unlessEmpty (piece : List Char → Piece) (text : List Char) : List Piece :=
  if text.isEmpty then [] else [piece text]

@[simp]
theorem joined_nil : joined [] = [] := rfl

@[simp]
theorem joined_cons (piece : Piece) (rest : List Piece) :
    joined (piece :: rest) = piece.text ++ joined rest := rfl

@[simp]
theorem joined_append (first second : List Piece) :
    joined (first ++ second) = joined first ++ joined second :=
  List.flatMap_append

theorem joined_unlessEmpty {piece : List Char → Piece} (holds : ∀ text, (piece text).text = text)
    (text : List Char) : joined (unlessEmpty piece text) = text := by
  cases text with
  | nil => rfl
  | cons character rest => simp [unlessEmpty, holds]

theorem tokensFrom_append (offset : Nat) (first second : List Piece) :
    tokensFrom offset (first ++ second) =
      tokensFrom offset first ++ tokensFrom (offset + Text.encodedSize (joined first)) second := by
  induction first generalizing offset with
  | nil => rfl
  | cons piece rest ih =>
    simp only [List.cons_append, tokensFrom, ih, joined_cons, Text.encodedSize_append,
      List.append_assoc, Nat.add_assoc]

end Piece

open Piece

/-- Inside or outside of code. -/
inductive Region where
  | inlineText | code

/-- The newline that is taken from the head of a text, if there is one. -/
def IsSwallowed (newline rest : List Char) : Prop :=
  newline = ['\r', '\n'] ∨ newline = ['\n'] ∨
    newline = [] ∧ ¬['\r', '\n'] <+: rest ∧ ¬['\n'] <+: rest

/-- Pieces follow one another as in a source text. -/
inductive Arranged : Region → List Piece → Prop
  | inlineOnly {text : List Char}
      (noTag : ∀ position, ∀ tag : OpenTag, ¬tag.IsAt (text.drop position)) :
      Arranged .inlineText (unlessEmpty .inlineText text)
  /-- Inline text, which may be empty, and the leftmost tag behind it. -/
  | opens {text name : List Char} {tag : OpenTag} {pieces : List Piece}
      (isTag : tag.IsAt (name ++ joined pieces)) (spelled : tag.IsSpelled name)
      (leftmost : ∀ position < text.length, ∀ other : OpenTag,
        ¬other.IsAt ((text ++ (name ++ joined pieces)).drop position))
      (code : Arranged .code pieces) :
      Arranged .inlineText (unlessEmpty .inlineText text ++ .tag tag name :: pieces)
  | ends : Arranged .code []
  | blank {text : List Char} {pieces : List Piece} (nonempty : text ≠ [])
      (isBlank : text.all Lexeme.isBlank = true ∨ Lexeme.IsComment text)
      (code : Arranged .code pieces) : Arranged .code (.blank text :: pieces)
  | lexeme {token : Token} {text : List Char} {pieces : List Piece} (nonempty : text ≠ [])
      (spelled : token.IsSpelled text) (code : Arranged .code pieces) :
      Arranged .code (.lexeme token text :: pieces)
  | closes {newline : List Char} {pieces : List Piece}
      (swallowed : IsSwallowed newline (joined pieces)) (rest : Arranged .inlineText pieces) :
      Arranged .code (.closeTag :: (unlessEmpty .newline newline ++ pieces))

/-! ## The scan follows the layout -/

theorem scanOnto_skip (earlier : List (Located Token)) (offset : Nat) (mode : Mode)
    (piece rest : List Char) :
    scanOnto earlier offset mode piece.length (piece ++ rest) =
      scanOnto earlier (offset + Text.encodedSize piece) mode 0 rest := by
  induction piece generalizing offset with
  | nil => rfl
  | cons character piece ih =>
    rw [Text.encodedSize_cons, ← Nat.add_assoc, ← ih]
    rfl

/-- Tokens are those of pieces that make up a text. -/
def LaidOut (region : Region) (earlier : List (Located Token)) (offset : Nat) (text : List Char)
    (tokens : List (Located Token)) : Prop :=
  ∃ pieces, Arranged region pieces ∧ joined pieces = text ∧
    tokens = earlier.reverse ++ tokensFrom offset pieces

namespace LaidOut

variable {earlier tokens : List (Located Token)} {offset : Nat} {text rest : List Char}

theorem blank (nonempty : text ≠ [])
    (isBlank : text.all Lexeme.isBlank = true ∨ Lexeme.IsComment text)
    (laidOut : LaidOut .code earlier (offset + Text.encodedSize text) rest tokens) :
    LaidOut .code earlier offset (text ++ rest) tokens := by
  rcases laidOut with ⟨pieces, arranged, rfl, rfl⟩
  exact ⟨.blank text :: pieces, .blank nonempty isBlank arranged, rfl, rfl⟩

theorem lexeme {token : Token} (nonempty : text ≠ []) (spelled : token.IsSpelled text)
    (laidOut : LaidOut .code (⟨token, offset, offset + Text.encodedSize text⟩ :: earlier)
      (offset + Text.encodedSize text) rest tokens) :
    LaidOut .code earlier offset (text ++ rest) tokens := by
  rcases laidOut with ⟨pieces, arranged, rfl, rfl⟩
  refine ⟨.lexeme token text :: pieces, .lexeme nonempty spelled arranged, rfl, ?_⟩
  simp [tokensFrom, token?, Piece.text]

theorem closes {newline : List Char} (swallowed : IsSwallowed newline rest)
    (laidOut : LaidOut .inlineText (⟨.symbol .semicolon, offset, offset + 2⟩ :: earlier)
      (offset + 2 + Text.encodedSize newline) rest tokens) :
    LaidOut .code earlier offset ('?' :: '>' :: (newline ++ rest)) tokens := by
  rcases laidOut with ⟨pieces, arranged, rfl, rfl⟩
  refine ⟨.closeTag :: (unlessEmpty .newline newline ++ pieces), .closes swallowed arranged, ?_, ?_⟩
  · rw [joined_cons, joined_append, joined_unlessEmpty fun _ => rfl]
    rfl
  · have noToken : tokensFrom (offset + 2) (unlessEmpty .newline newline) = [] := by
      cases newline <;> rfl
    have whole : joined (unlessEmpty .newline newline) = newline :=
      joined_unlessEmpty (fun _ => rfl) newline
    have size : Text.encodedSize ['?', '>'] = 2 := rfl
    simp [tokensFrom, token?, Piece.text, tokensFrom_append, whole, noToken, size]

theorem tokensFrom_inline (offset : Nat) (text : List Char) :
    (collectInline offset (offset + Text.encodedSize text) text.reverse earlier).reverse =
      earlier.reverse ++ tokensFrom offset (unlessEmpty .inlineText text) := by
  cases text with
  | nil => simp [collectInline, unlessEmpty, tokensFrom]
  | cons character rest => simp [collectInline, unlessEmpty, tokensFrom, token?, Piece.text]

theorem inlineOnly (noTag : ∀ position, ∀ tag : OpenTag, ¬tag.IsAt (text.drop position)) :
    LaidOut .inlineText earlier offset text
      (collectInline offset (offset + Text.encodedSize text) text.reverse earlier).reverse :=
  ⟨_, .inlineOnly noTag, joined_unlessEmpty (fun _ => rfl) text, tokensFrom_inline offset text⟩

theorem opens {name : List Char} {tag : OpenTag} (isTag : tag.IsAt (name ++ rest))
    (spelled : tag.IsSpelled name)
    (leftmost : ∀ position < text.length, ∀ other : OpenTag,
      ¬other.IsAt ((text ++ (name ++ rest)).drop position))
    (laidOut : LaidOut .code
      (let stop := offset + Text.encodedSize text
       let inlined := collectInline offset stop text.reverse earlier
       if tag = .echo then ⟨.openEcho, stop, stop + tag.length⟩ :: inlined else inlined)
      (offset + Text.encodedSize text + Text.encodedSize name) rest tokens) :
    LaidOut .inlineText earlier offset (text ++ (name ++ rest)) tokens := by
  rcases laidOut with ⟨pieces, arranged, rfl, rfl⟩
  have whole : joined (unlessEmpty .inlineText text) = text :=
    joined_unlessEmpty (fun _ => rfl) text
  refine ⟨_, .opens isTag spelled leftmost arranged, ?_, ?_⟩
  · rw [joined_append, joined_cons, whole]
    rfl
  · rw [tokensFrom_append, whole, ← List.append_assoc, ← tokensFrom_inline]
    cases tag with
    | code => simp [tokensFrom, token?, Piece.text]
    | echo =>
      have size : Text.encodedSize name = OpenTag.length .echo := by
        cases spelled
        rfl
      simp [tokensFrom, token?, Piece.text, size]

end LaidOut

section Scan

variable {earlier tokens : List (Located Token)} {offset : Nat}

theorem newline_cases (text : List Char) :
    ∃ newline rest, text = newline ++ rest ∧ newlineLength text = newline.length ∧
      Text.encodedSize newline = newline.length ∧ IsSwallowed newline rest := by
  unfold newlineLength
  split
  · exact ⟨['\r', '\n'], _, rfl, rfl, rfl, .inl rfl⟩
  · exact ⟨['\n'], _, rfl, rfl, rfl, .inr (.inl rfl)⟩
  · rename_i noReturn noNewline
    refine ⟨[], text, rfl, rfl, rfl, .inr (.inr ⟨rfl, ?_, ?_⟩)⟩
    · rintro ⟨rest, rfl⟩
      exact noReturn rest rfl
    · rintro ⟨rest, rfl⟩
      exact noNewline rest rfl

section Lexemes

variable {mode : Mode} {character : Char} {piece after : List Char}

theorem scanOnto_of_blank (inCode : mode = .code ∨ mode = .fragment)
    (reads : Lexeme.read character (piece ++ after) = (.blank, piece.length + 1)) :
    scanOnto earlier offset mode 0 (character :: (piece ++ after)) =
      scanOnto earlier (offset + Text.encodedSize (character :: piece)) mode 0 after := by
  rcases inCode with rfl | rfl
  all_goals
    rw [scanOnto]
    simp only [reads, Nat.add_sub_cancel]
    rw [scanOnto_skip, Text.encodedSize_cons, Nat.add_assoc]

theorem scanOnto_of_token {token : Token} (inCode : mode = .code ∨ mode = .fragment)
    (reads : Lexeme.read character (piece ++ after) = (.token token, piece.length + 1)) :
    scanOnto earlier offset mode 0 (character :: (piece ++ after)) =
      scanOnto (⟨token, offset, offset + Text.encodedSize (character :: piece)⟩ :: earlier)
        (offset + Text.encodedSize (character :: piece)) mode 0 after := by
  rcases inCode with rfl | rfl
  all_goals
    rw [scanOnto]
    simp only [reads, Nat.add_sub_cancel, List.take_left]
    rw [scanOnto_skip, Text.encodedSize_cons, Nat.add_assoc]

theorem scanOnto_of_closeTag {newline rest : List Char}
    (reads : Lexeme.read '?' ('>' :: (newline ++ rest)) = (.closeTag, 2))
    (length : newlineLength (newline ++ rest) = newline.length)
    (size : Text.encodedSize newline = newline.length) :
    scanOnto earlier offset .code 0 ('?' :: '>' :: (newline ++ rest)) =
      scanOnto (⟨.symbol .semicolon, offset, offset + 2⟩ :: earlier)
        (offset + 2 + Text.encodedSize newline)
        (.inlineText (offset + 2 + Text.encodedSize newline) []) 0 rest := by
  have skipped := scanOnto_skip (⟨.symbol .semicolon, offset, offset + 2⟩ :: earlier) (offset + 1)
    (.inlineText (offset + 2 + newline.length) []) ('>' :: newline) rest
  have offsets : offset + 1 + Text.encodedSize ('>' :: newline) =
      offset + 2 + Text.encodedSize newline := by
    have one : Char.utf8Size '>' = 1 := rfl
    rw [Text.encodedSize_cons, one]
    omega
  rw [offsets, List.length_cons, Nat.add_comm newline.length 1] at skipped
  rw [scanOnto]
  simp only [reads, List.drop_succ_cons, List.drop_zero, length]
  rw [size] at skipped ⊢
  exact skipped

theorem scanOnto_ne_ok {lexeme : Lexeme} {length : Nat} {rest : List Char}
    (inCode : mode = .code ∨ mode = .fragment)
    (reads : Lexeme.read character rest = (lexeme, length))
    (stops : lexeme = .unexpected ∨ lexeme = .unterminatedComment ∨
      lexeme = .closeTag ∧ mode = .fragment) :
    scanOnto earlier offset mode 0 (character :: rest) ≠ .ok tokens := by
  intro scanned
  rcases inCode with rfl | rfl
  all_goals
    rw [scanOnto] at scanned
    simp only [reads] at scanned
    rcases stops with rfl | rfl | ⟨rfl, isFragment⟩
  · cases scanned
  · cases scanned
  · cases isFragment
  · cases scanned
  · cases scanned
  · cases scanned

end Lexemes

theorem laidOut_of_code {mode : Mode} (inCode : mode = .code ∨ mode = .fragment) {character : Char}
    {rest : List Char} (scanned : scanOnto earlier offset mode 0 (character :: rest) = .ok tokens)
    (inside : ∀ earlier offset after, after.length ≤ rest.length →
      scanOnto earlier offset mode 0 after = .ok tokens → LaidOut .code earlier offset after tokens)
    (outside : ∀ earlier offset after, after.length ≤ rest.length →
      scanOnto earlier offset (.inlineText offset []) 0 after = .ok tokens →
        LaidOut .inlineText earlier offset after tokens) :
    LaidOut .code earlier offset (character :: rest) tokens := by
  rcases reads : Lexeme.read character rest with ⟨lexeme, length⟩
  have isAt := Lexeme.isAt_read character rest
  rw [reads] at isAt
  rcases isAt with ⟨_ | ⟨first, piece⟩, after, same, isLength, nonempty, fits⟩
  · exact absurd rfl nonempty
  · rw [List.cons_append, List.cons.injEq] at same
    rcases same with ⟨rfl, rfl⟩
    dsimp only at isLength fits
    subst isLength
    have shorter : after.length ≤ (piece ++ after).length := by simp
    cases lexeme with
    | blank =>
      rw [scanOnto_of_blank inCode reads] at scanned
      exact .blank nonempty fits (inside _ _ after shorter scanned)
    | token token =>
      rw [scanOnto_of_token inCode reads] at scanned
      exact .lexeme nonempty fits (inside _ _ after shorter scanned)
    | closeTag =>
      rcases inCode with rfl | rfl
      · cases fits
        rcases newline_cases after with ⟨newline, rest, rfl, newlineLength, size, swallowed⟩
        rw [List.cons_append, List.nil_append] at scanned reads
        rw [scanOnto_of_closeTag reads newlineLength size] at scanned
        rw [List.cons_append, List.nil_append]
        exact .closes swallowed (outside _ _ rest (by simp; omega) scanned)
      · exact absurd scanned (scanOnto_ne_ok (.inr rfl) reads (.inr (.inr ⟨rfl, rfl⟩)))
    | unexpected => exact absurd scanned (scanOnto_ne_ok inCode reads (.inl rfl))
    | unterminatedComment => exact absurd scanned (scanOnto_ne_ok inCode reads (.inr (.inl rfl)))

theorem laidOut_of_inline (collected : List Char) {start : Nat} {text : List Char}
    (noTag : ∀ position < collected.length, ∀ tag : OpenTag,
      ¬tag.IsAt ((collected.reverse ++ text).drop position))
    (scanned : scanOnto earlier (start + Text.encodedSize collected) (.inlineText start collected) 0
      text = .ok tokens)
    (inside : ∀ earlier offset after, after.length < text.length →
      scanOnto earlier offset .code 0 after = .ok tokens →
        LaidOut .code earlier offset after tokens) :
    LaidOut .inlineText earlier start (collected.reverse ++ text) tokens := by
  induction text generalizing collected with
  | nil =>
    cases scanned
    rw [List.append_nil] at noTag ⊢
    have laidOut : LaidOut .inlineText earlier start collected.reverse _ := .inlineOnly ?_
    · rwa [List.reverse_reverse, Text.encodedSize_reverse] at laidOut
    · intro position tag isTag
      by_cases isInside : position < collected.length
      · exact noTag position isInside tag isTag
      · rw [List.drop_of_length_le (by simpa using isInside)] at isTag
        cases isTag
  | cons character rest ih =>
    have atHead : (collected.reverse ++ character :: rest).drop collected.length =
        character :: rest := by
      rw [List.drop_append_of_le_length (by simp)]
      simp
    rw [scanOnto] at scanned
    dsimp only at scanned
    split at scanned
    · rename_i isNone
      have isLonger : (character :: collected).reverse ++ rest =
          collected.reverse ++ character :: rest := by simp
      rw [← isLonger]
      have insideRest : ∀ earlier offset after, after.length < rest.length →
          scanOnto earlier offset .code 0 after = .ok tokens →
            LaidOut .code earlier offset after tokens :=
        fun earlier offset after isShorter =>
          inside earlier offset after (Nat.lt_succ_of_lt isShorter)
      refine ih (character :: collected) ?_ ?_ insideRest
      · intro position isBefore tag isTag
        rw [isLonger] at isTag
        rw [List.length_cons, Nat.lt_succ_iff_lt_or_eq] at isBefore
        rcases isBefore with isBefore | rfl
        · exact noTag position isBefore tag isTag
        · rw [atHead, ← openTag?_eq_some_iff, isNone] at isTag
          cases isTag
      · rw [Text.encodedSize_cons, Nat.add_comm character.utf8Size, ← Nat.add_assoc]
        exact scanned
    · rename_i tag isSome
      have isTag := openTag?_eq_some_iff.mp isSome
      rcases isTag.exists_append with ⟨_ | ⟨first, piece⟩, after, same, spelled⟩
      · cases spelled
      · have pieceLength : tag.length - 1 = piece.length := by
          rw [← spelled.length_eq, List.length_cons, Nat.add_sub_cancel]
        rw [same] at isTag noTag ⊢
        rw [List.cons_append, List.cons.injEq] at same
        rcases same with ⟨rfl, rfl⟩
        rw [pieceLength, scanOnto_skip] at scanned
        have isShorter : after.length < (character :: (piece ++ after)).length := by
          rw [List.length_cons, List.length_append]
          omega
        refine .opens isTag spelled (by simpa using noTag) (inside _ _ after isShorter ?_)
        rw [List.reverse_reverse, Text.encodedSize_reverse, Text.encodedSize_cons, ← Nat.add_assoc]
        exact scanned

theorem laidOut_of_length_le (limit : Nat) {text : List Char} (isBelow : text.length ≤ limit) :
    (∀ earlier offset mode, mode = .code ∨ mode = .fragment →
      scanOnto earlier offset mode 0 text = .ok tokens → LaidOut .code earlier offset text tokens) ∧
    ∀ earlier offset, scanOnto earlier offset (.inlineText offset []) 0 text = .ok tokens →
      LaidOut .inlineText earlier offset text tokens := by
  induction limit generalizing text with
  | zero =>
    rw [Nat.le_zero, List.length_eq_zero_iff] at isBelow
    subst isBelow
    constructor
    · rintro earlier offset mode (rfl | rfl) scanned
      all_goals
        cases scanned
        exact ⟨[], .ends, rfl, by simp [tokensFrom]⟩
    · intro earlier offset scanned
      exact laidOut_of_inline [] (by simp) scanned (by simp)
  | succ limit ih =>
    constructor
    · intro earlier offset mode inCode scanned
      cases text with
      | nil => exact (ih (Nat.zero_le _)).1 earlier offset mode inCode scanned
      | cons character rest =>
        have restIsBelow : rest.length ≤ limit := Nat.le_of_succ_le_succ isBelow
        apply laidOut_of_code inCode scanned
        · intro earlier offset after shorter
          exact (ih (shorter.trans restIsBelow)).1 earlier offset mode inCode
        · intro earlier offset after shorter
          exact (ih (shorter.trans restIsBelow)).2 earlier offset
    · intro earlier offset scanned
      apply laidOut_of_inline [] (by simp) scanned
      intro earlier offset after shorter
      exact (ih (by omega)).1 earlier offset .code (.inl rfl)

end Scan

variable {tokens : List (Located Token)}

theorem exists_arranged_of_scan {source : String} (scanned : scan source = .ok tokens) :
    ∃ pieces, Arranged .inlineText pieces ∧ joined pieces = source.toList ∧
      tokens = tokensFrom 0 pieces :=
  (laidOut_of_length_le _ (Nat.le_refl _)).2 [] 0 scanned

theorem exists_arranged_of_scanCode {source : String} (scanned : scanCode source = .ok tokens) :
    ∃ pieces, Arranged .code pieces ∧ joined pieces = source.toList ∧
      tokens = tokensFrom 0 pieces :=
  (laidOut_of_length_le _ (Nat.le_refl _)).1 [] 0 .code (.inl rfl) scanned

theorem exists_arranged_of_scanFragment {code : String} {offset : Nat}
    (scanned : scanFragment code offset = .ok tokens) :
    ∃ pieces, Arranged .code pieces ∧ joined pieces = code.toList ∧
      tokens = tokensFrom offset pieces :=
  (laidOut_of_length_le _ (Nat.le_refl _)).1 [] offset .fragment (.inr rfl) scanned

end PhpScript.Token
