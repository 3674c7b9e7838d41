import PhpScript.Proofs.Token.Layout

/-!
# What the tokens of a source text cover

The tokens of a text take up parts of it one behind the other. A byte that is in none of them is
part of a tag that opens a code section, of white space, of a comment or of the newline behind a
closing tag.
-/

namespace PhpScript

namespace Token

open Piece

namespace Piece

/-- A piece is written as it should be. -/
def IsProper : Piece → Prop
  | .inlineText text => text ≠ []
  | .tag opening text => opening.IsSpelled text
  | .blank text => text ≠ [] ∧ (text.all Lexeme.isBlank = true ∨ Lexeme.IsComment text)
  | .lexeme token text => text ≠ [] ∧ token.IsSpelled text
  | .closeTag => True
  | .newline text => text = ['\n'] ∨ text = ['\r', '\n']

/-- A piece that leaves no token: a tag, white space, a comment or a newline. -/
def IsPassedOver : Piece → Prop
  | .tag .code text => OpenTag.IsSpelled .code text
  | .blank text => text.all Lexeme.isBlank = true ∨ Lexeme.IsComment text
  | .newline text => text = ['\n'] ∨ text = ['\r', '\n']
  | .tag .echo _ | .inlineText _ | .lexeme _ _ | .closeTag => False

variable {piece : Piece}

theorem IsProper.text_ne_nil (proper : piece.IsProper) : piece.text ≠ [] := by
  cases piece with
  | inlineText text => exact proper
  | tag tag text =>
    rintro rfl
    cases proper
  | blank text => exact proper.1
  | lexeme token text => exact proper.1
  | closeTag => exact List.cons_ne_nil _ _
  | newline text =>
    rcases proper with rfl | rfl
    all_goals exact List.cons_ne_nil _ _

theorem IsProper.isPassedOver (proper : piece.IsProper) (noToken : piece.token? = none) :
    piece.IsPassedOver := by
  cases piece with
  | inlineText text => cases noToken
  | tag tag text =>
    cases tag with
    | code => exact proper
    | echo => cases noToken
  | blank text => exact proper.2
  | lexeme token text => cases noToken
  | closeTag => cases noToken
  | newline text => exact proper

theorem IsProper.text_of_token?_eq_inlineText {text : String} (proper : piece.IsProper)
    (hasToken : piece.token? = some (.inlineText text)) : piece.text = text.toList := by
  cases piece with
  | inlineText text =>
    cases hasToken
    exact String.toList_ofList.symm
  | tag tag text => cases tag <;> cases hasToken
  | lexeme token text =>
    cases hasToken
    exact proper.2.elim
  | blank text => cases hasToken
  | closeTag => cases hasToken
  | newline text => cases hasToken

theorem isProper_unlessEmpty {make : List Char → Piece} {text : List Char}
    (proper : text ≠ [] → (make text).IsProper) (isMember : piece ∈ unlessEmpty make text) :
    piece.IsProper := by
  cases text with
  | nil => cases isMember
  | cons character rest =>
    rw [List.mem_singleton.mp isMember]
    exact proper (List.cons_ne_nil _ _)

end Piece

theorem Arranged.isProper {region : Region} {pieces : List Piece}
    (arranged : Arranged region pieces) : ∀ piece ∈ pieces, piece.IsProper := by
  intro piece isMember
  induction arranged with
  | inlineOnly noTag => exact isProper_unlessEmpty id isMember
  | opens isTag spelled leftmost code ih =>
    rcases List.mem_append.mp isMember with isInline | isMember
    · exact isProper_unlessEmpty id isInline
    · rcases List.mem_cons.mp isMember with rfl | isMember
      · exact spelled
      · exact ih isMember
  | ends => cases isMember
  | blank nonempty isBlank code ih =>
    rcases List.mem_cons.mp isMember with rfl | isMember
    · exact ⟨nonempty, isBlank⟩
    · exact ih isMember
  | lexeme nonempty spelled code ih =>
    rcases List.mem_cons.mp isMember with rfl | isMember
    · exact ⟨nonempty, spelled⟩
    · exact ih isMember
  | @closes newline pieces swallowed rest ih =>
    rcases List.mem_cons.mp isMember with rfl | isMember
    · trivial
    · rcases List.mem_append.mp isMember with isNewline | isMember
      · refine isProper_unlessEmpty (fun nonempty => ?_) isNewline
        rcases swallowed with rfl | rfl | ⟨rfl, _⟩
        · exact .inr rfl
        · exact .inl rfl
        · exact absurd rfl nonempty
      · exact ih isMember

/-! ## Places of pieces and tokens -/

theorem mem_tokensFrom_iff {offset : Nat} {pieces : List Piece} {located : Located Token} :
    located ∈ tokensFrom offset pieces ↔ ∃ before piece after, pieces = before ++ piece :: after ∧
      piece.token? = some located.node ∧
      located.span = ⟨offset + Text.encodedSize (joined before),
        offset + Text.encodedSize (joined before) + Text.encodedSize piece.text⟩ := by
  constructor
  · intro isMember
    induction pieces generalizing offset with
    | nil => cases isMember
    | cons piece rest ih =>
      rw [tokensFrom, List.mem_append] at isMember
      rcases isMember with isFirst | isMember
      · rw [Option.mem_toList, Option.map_eq_some_iff] at isFirst
        rcases isFirst with ⟨token, isToken, rfl⟩
        exact ⟨[], piece, rest, rfl, isToken, rfl⟩
      · rcases ih isMember with ⟨before, other, after, rfl, isToken, place⟩
        refine ⟨piece :: before, other, after, rfl, isToken, ?_⟩
        rw [place, joined_cons, Text.encodedSize_append, Nat.add_assoc offset]
  · rintro ⟨before, piece, after, rfl, isToken, place⟩
    rw [tokensFrom_append, tokensFrom, isToken, Option.map_some, ← place]
    simp

theorem exists_piece_of_lt {pieces : List Piece} {offset : Nat}
    (isBefore : offset < Text.encodedSize (joined pieces)) :
    ∃ before piece after, pieces = before ++ piece :: after ∧
      Text.encodedSize (joined before) ≤ offset ∧
      offset < Text.encodedSize (joined before) + Text.encodedSize piece.text := by
  induction pieces generalizing offset with
  | nil => cases isBefore
  | cons piece rest ih =>
    by_cases isFirst : offset < Text.encodedSize piece.text
    · exact ⟨[], piece, rest, rfl, Nat.zero_le _, by simpa using isFirst⟩
    · rw [joined_cons, Text.encodedSize_append] at isBefore
      have isInRest : offset - Text.encodedSize piece.text < Text.encodedSize (joined rest) := by
        omega
      rcases ih isInRest with ⟨before, other, after, rfl, low, high⟩
      refine ⟨piece :: before, other, after, rfl, ?_, ?_⟩
      all_goals
        rw [joined_cons, Text.encodedSize_append]
        omega

section Proper

variable {offset : Nat} {pieces : List Piece}

theorem span_of_mem_tokensFrom {located : Located Token} (proper : ∀ piece ∈ pieces, piece.IsProper)
    (isMember : located ∈ tokensFrom offset pieces) :
    offset ≤ located.span.start ∧ located.span.start < located.span.stop ∧
      located.span.stop ≤ offset + Text.encodedSize (joined pieces) := by
  rcases mem_tokensFrom_iff.mp isMember with ⟨before, piece, after, rfl, _, place⟩
  have positive : 0 < Text.encodedSize piece.text :=
    Text.encodedSize_pos (proper piece (by simp)).text_ne_nil
  rw [place, joined_append, joined_cons, Text.encodedSize_append, Text.encodedSize_append]
  dsimp only
  omega

theorem pairwise_tokensFrom (proper : ∀ piece ∈ pieces, piece.IsProper) :
    (tokensFrom offset pieces).Pairwise fun earlier later =>
      earlier.span.stop ≤ later.span.start := by
  induction pieces generalizing offset with
  | nil => exact .nil
  | cons piece rest ih =>
    have restIsProper := fun other isMember => proper other (List.mem_cons_of_mem piece isMember)
    rw [tokensFrom]
    cases piece.token? with
    | none => exact ih restIsProper
    | some token =>
      refine .cons (fun later isMember => ?_) (ih restIsProper)
      exact (span_of_mem_tokensFrom restIsProper isMember).1

end Proper

end Token

theorem Text.slice_bytes {source : String} {before text after : List Char}
    (whole : source.toList = before ++ (text ++ after)) :
    ((bytes source).take (encodedSize before + encodedSize text)).drop (encodedSize before) =
      text.flatMap String.utf8EncodeChar := by
  have beforeSize := length_flatMap_utf8EncodeChar before
  have textSize := length_flatMap_utf8EncodeChar text
  rw [bytes_eq, whole, List.flatMap_append, List.flatMap_append, ← beforeSize, ← textSize,
    List.take_length_add_append, List.drop_left, List.take_left]

namespace Token

open Piece

/-- The tokens of a text follow one another without overlap, inline text is what stands at its
place, and what no token covers is passed over. -/
theorem scan_covers {source : String} {tokens : List (Located Token)}
    (scanned : scan source = .ok tokens) :
    (∀ token ∈ tokens,
      token.span.start < token.span.stop ∧ token.span.stop ≤ Text.byteLength source) ∧
    (tokens.Pairwise fun earlier later => earlier.span.stop ≤ later.span.start) ∧
    (∀ text span, ⟨.inlineText text, span⟩ ∈ tokens →
      ((Text.bytes source).take span.stop).drop span.start = Text.bytes text) ∧
    ∃ pieces, Arranged .inlineText pieces ∧ joined pieces = source.toList ∧
      tokens = tokensFrom 0 pieces ∧
      ∀ offset < Text.byteLength source,
        (∃ token ∈ tokens, token.span.start ≤ offset ∧ offset < token.span.stop) ∨
        ∃ before piece after, pieces = before ++ piece :: after ∧ piece.IsPassedOver ∧
          Text.encodedSize (joined before) ≤ offset ∧
          offset < Text.encodedSize (joined before) + Text.encodedSize piece.text := by
  rcases exists_arranged_of_scan scanned with ⟨pieces, arranged, whole, rfl⟩
  have proper := arranged.isProper
  have size : Text.byteLength source = Text.encodedSize (joined pieces) := by
    rw [Text.byteLength_eq, whole]
  rw [size]
  refine ⟨?_, pairwise_tokensFrom proper, ?_, pieces, arranged, whole, rfl, ?_⟩
  · intro token isMember
    have place := span_of_mem_tokensFrom proper isMember
    omega
  · intro text span isMember
    rcases mem_tokensFrom_iff.mp isMember with ⟨before, piece, after, rfl, isToken, rfl⟩
    have isText := (proper piece (by simp)).text_of_token?_eq_inlineText isToken
    rw [Text.bytes_eq text, ← isText, Nat.zero_add]
    apply Text.slice_bytes
    rw [← whole, joined_append, joined_cons]
  · intro offset isBefore
    rcases exists_piece_of_lt isBefore with ⟨before, piece, after, rfl, low, high⟩
    cases isToken : piece.token? with
    | none =>
        have isPassedOver := (proper piece (by simp)).isPassedOver isToken
        exact .inr ⟨before, piece, after, rfl, isPassedOver, low, high⟩
    | some token =>
        refine .inl ⟨⟨token, _, _⟩,
          mem_tokensFrom_iff.mpr ⟨before, piece, after, rfl, isToken, rfl⟩, ?_⟩
        dsimp only
        omega

theorem scan_covers_page :
    scan "é<?php\t#\nb /*?>*/?>\n<?" = .ok [⟨.inlineText "é", 0, 2⟩, ⟨.identifier "b", 10, 11⟩,
      ⟨.symbol .semicolon, 18, 20⟩, ⟨.inlineText "<?", 21, 23⟩] ∧
    ((Text.bytes "é<?php\t#\nb /*?>*/?>\n<?").take 23).drop 21 = Text.bytes "<?" := by
  have scanned : scan "é<?php\t#\nb /*?>*/?>\n<?" = .ok [⟨.inlineText "é", 0, 2⟩,
      ⟨.identifier "b", 10, 11⟩, ⟨.symbol .semicolon, 18, 20⟩, ⟨.inlineText "<?", 21, 23⟩] := by
    rfl
  exact ⟨scanned, (scan_covers scanned).2.2.1 "<?" ⟨21, 23⟩ (by simp)⟩

end Token

end PhpScript
