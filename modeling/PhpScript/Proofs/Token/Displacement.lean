import PhpScript.Proofs.Token.Layout

/-!
# Code at another place

Code is scanned alike wherever it stands: behind the tag that opens a script, as a text that begins
inside a code section, and as a piece of a longer text. Only places differ. A piece of code has no
sections: it is refused at the first closing tag.
-/

namespace PhpScript

def Located.shift {α : Type} (located : Located α) (distance : Nat) : Located α :=
  ⟨located.node, located.span.shift distance⟩

namespace Token

/-- What a scan gives for the same text further behind. -/
def displaced (distance : Nat) :
    Except (Located Fault) (List (Located Token)) → Except (Located Fault) (List (Located Token))
  | .ok tokens => .ok (tokens.map (·.shift distance))
  | .error fault => .error (fault.shift distance)

def Mode.shift (distance : Nat) : Mode → Mode
  | .inlineText start collected => .inlineText (start + distance) collected
  | .code => .code
  | .fragment => .fragment

/-- Whether a closing tag stands among the lexemes of some code, up to the first one that cannot be
scanned. The first `skip` characters belong to what was read last. -/
def meetsCloseTag (skip : Nat) : List Char → Bool
  | [] => false
  | character :: rest =>
    match skip with
    | skip + 1 => meetsCloseTag skip rest
    | 0 =>
      match Lexeme.read character rest with
      | (.closeTag, _) => true
      | (.unexpected, _) | (.unterminatedComment, _) => false
      | (.blank, length) | (.token _, length) => meetsCloseTag (length - 1) rest

section Shift

variable {distance : Nat}

theorem map_shift_collectInline (start stop : Nat) (collected : List Char)
    (tokens : List (Located Token)) :
    (collectInline start stop collected tokens).map (·.shift distance) =
      collectInline (start + distance) (stop + distance) collected
        (tokens.map (·.shift distance)) := by
  unfold collectInline
  split
  · rfl
  · rfl

/-- Every place the scan knows of moves along: the tokens found, the offset it has come to, and
where the inline text began that it is collecting. -/
theorem scanOnto_shift (tokens : List (Located Token)) (offset : Nat) (mode : Mode) (skip : Nat)
    (text : List Char) :
    scanOnto (tokens.map (·.shift distance)) (offset + distance) (mode.shift distance) skip text =
      displaced distance (scanOnto tokens offset mode skip text) := by
  induction text generalizing tokens offset mode skip with
  | nil =>
    cases mode with
    | inlineText start collected =>
      simp [scanOnto, Mode.shift, displaced, ← map_shift_collectInline]
    | code => simp [scanOnto, Mode.shift, displaced]
    | fragment => simp [scanOnto, Mode.shift, displaced]
  | cons character rest ih =>
    have next (offset size : Nat) : offset + distance + size = offset + size + distance := by
      omega
    cases skip with
    | succ skip =>
      simp only [scanOnto, next]
      apply ih
    | zero =>
      cases mode with
      | inlineText start collected =>
        simp only [scanOnto, Mode.shift, next, ← map_shift_collectInline]
        cases openTag? (character :: rest) with
        | none => apply ih _ _ (.inlineText start (character :: collected))
        | some tag =>
          cases tag with
          | code => apply ih _ _ .code
          | echo =>
            simp only [if_pos]
            apply ih (⟨.openEcho, offset, offset + 3⟩ :: _) _ .code
      | code =>
        rcases reads : Lexeme.read character rest with ⟨lexeme, length⟩
        simp only [scanOnto, Mode.shift, reads, next]
        cases lexeme with
        | blank => apply ih _ _ .code
        | token token => apply ih (⟨token, offset, _⟩ :: _) _ .code
        | closeTag => apply ih (⟨.symbol .semicolon, offset, _⟩ :: _) _ (.inlineText _ [])
        | unexpected => rfl
        | unterminatedComment => rfl
      | fragment =>
        rcases reads : Lexeme.read character rest with ⟨lexeme, length⟩
        simp only [scanOnto, Mode.shift, reads, next]
        cases lexeme with
        | blank => apply ih _ _ .fragment
        | token token => apply ih (⟨token, offset, _⟩ :: _) _ .fragment
        | closeTag => rfl
        | unexpected => rfl
        | unterminatedComment => rfl

end Shift

section Fragment

variable {tokens : List (Located Token)} {offset skip : Nat} {text : List Char}

theorem scanOnto_fragment_eq (noTag : meetsCloseTag skip text = false) :
    scanOnto tokens offset .fragment skip text = scanOnto tokens offset .code skip text := by
  induction text generalizing tokens offset skip with
  | nil => rfl
  | cons character rest ih =>
    cases skip with
    | succ skip =>
      simp only [meetsCloseTag] at noTag
      simp only [scanOnto]
      apply ih noTag
    | zero =>
      rcases reads : Lexeme.read character rest with ⟨lexeme, length⟩
      simp only [meetsCloseTag, reads] at noTag
      simp only [scanOnto, reads]
      cases lexeme with
      | blank => apply ih noTag
      | token token => apply ih noTag
      | closeTag => cases noTag
      | unexpected => rfl
      | unterminatedComment => rfl

theorem scanOnto_fragment_eq_error (meets : meetsCloseTag skip text = true) :
    ∃ before after, text = before ++ '?' :: '>' :: after ∧
      scanOnto tokens offset .fragment skip text =
        .error ⟨.unexpectedText "?>", offset + Text.encodedSize before,
          offset + Text.encodedSize before + 2⟩ := by
  induction text generalizing tokens offset skip with
  | nil => cases meets
  | cons character rest ih =>
    -- what is found behind the first character is found in the whole text
    have behind {tokens : List (Located Token)} {skip : Nat}
        (meets : meetsCloseTag skip rest = true) :
        ∃ before after, character :: rest = before ++ '?' :: '>' :: after ∧
          scanOnto tokens (offset + character.utf8Size) .fragment skip rest =
            .error ⟨.unexpectedText "?>", offset + Text.encodedSize before,
              offset + Text.encodedSize before + 2⟩ := by
      rcases @ih tokens (offset + character.utf8Size) skip meets with ⟨before, after, rfl, refused⟩
      refine ⟨character :: before, after, rfl, ?_⟩
      rw [refused, Text.encodedSize_cons, Nat.add_assoc]
    cases skip with
    | succ skip =>
      simp only [meetsCloseTag] at meets
      simp only [scanOnto]
      apply behind meets
    | zero =>
      rcases reads : Lexeme.read character rest with ⟨lexeme, length⟩
      simp only [meetsCloseTag, reads] at meets
      simp only [scanOnto, reads]
      cases lexeme with
      | blank => apply behind meets
      | token token => apply behind meets
      | closeTag =>
        have isAt := Lexeme.isAt_read character rest
        rw [reads] at isAt
        rcases isAt with ⟨piece, after, same, isLength, _, isTag⟩
        dsimp only [Lexeme.Fits] at isLength isTag
        subst isTag
        cases same
        subst isLength
        exact ⟨[], after, rfl, rfl⟩
      | unexpected => cases meets
      | unterminatedComment => cases meets

end Fragment

theorem scan_opened (code : String) :
    scan ("<?php " ++ code) = scanOnto [] 6 .code 0 code.toList := by
  have passes := scanOnto_skip [] 1 .code ['?', 'p', 'h', 'p'] (' ' :: code.toList)
  calc scan ("<?php " ++ code)
    _ = scanOnto [] 0 (.inlineText 0 []) 0 ('<' :: ("?php ".toList ++ code.toList)) := by
        rw [scan, String.toList_append]
        rfl
    _ = scanOnto [] 1 .code 4 ("?php ".toList ++ code.toList) := by
        rw [scanOnto]
        rfl
    _ = scanOnto [] 5 .code 0 (' ' :: code.toList) := passes
    _ = scanOnto [] 6 .code 0 code.toList := scanOnto_blank rfl [] 5 code.toList

/-- Wherever a code text is scanned, the tokens or the fault are those of the text on its own, at
places moved by how far behind it stands. -/
theorem scan_displaced (code : String) :
    scan ("<?php " ++ code) = displaced 6 (scanCode code) ∧
      ∀ offset,
        (meetsCloseTag 0 code.toList = false →
          scanFragment code offset = displaced offset (scanCode code)) ∧
        (meetsCloseTag 0 code.toList = true →
          ∃ before after, code.toList = before ++ '?' :: '>' :: after ∧
            scanFragment code offset =
              .error ⟨.unexpectedText "?>", offset + Text.encodedSize before,
                offset + Text.encodedSize before + 2⟩) := by
  have shifts (distance : Nat) :
      scanOnto [] distance .code 0 code.toList = displaced distance (scanCode code) := by
    have moved := @scanOnto_shift distance [] 0 .code 0 code.toList
    rwa [Nat.zero_add] at moved
  refine ⟨?_, ?_⟩
  · rw [scan_opened, shifts]
  · intro offset
    refine ⟨?_, ?_⟩
    · intro noTag
      rw [scanFragment, scanOnto_fragment_eq noTag, shifts]
    · apply scanOnto_fragment_eq_error

/-- A piece with a fault, where the tag stands inside a quoted text, and one with a tag. -/
theorem scan_displaced_quotedTag :
    (meetsCloseTag 0 "f('?>'); /* b".toList = false ∧
      scanFragment "f('?>'); /* b" 40 = displaced 40 (scanCode "f('?>'); /* b")) ∧
    meetsCloseTag 0 "f(1) ?> b".toList = true ∧
      ∃ before after, "f(1) ?> b".toList = before ++ '?' :: '>' :: after ∧
        scanFragment "f(1) ?> b" 40 = .error ⟨.unexpectedText "?>", 40 + Text.encodedSize before,
          40 + Text.encodedSize before + 2⟩ := by
  have noTag : meetsCloseTag 0 "f('?>'); /* b".toList = false := by decide +kernel
  have meets : meetsCloseTag 0 "f(1) ?> b".toList = true := by decide +kernel
  exact ⟨⟨noTag, ((scan_displaced _).2 40).1 noTag⟩, meets, ((scan_displaced _).2 40).2 meets⟩

end Token

end PhpScript
