import PhpScript.Proofs.Request.Trees
import PhpScript.Proofs.Token.NumberLiterals
import PhpScript.Proofs.Value.ArrayUnion
import PhpScript.Proofs.Value.TextOffsets

/-!
# Plain cookies

A cookie header whose names have no brackets is a list of names and values, and the first value of a
name counts. `Form.Unescapes` says what the escapes in a value stand for. Values take the way of
form fields, in which plus signs and ampersands have a meaning, so these are escaped first. The
escapes that this adds are read back, and nothing else changes.
-/

namespace PhpScript.Form

/-! ## Escapes -/

/-- Two hexadecimal digits stand for a byte. -/
def IsEscaped (high low byte : UInt8) : Prop :=
  ∃ highValue lowValue highDigit lowDigit, Lexeme.IsDigitOf 16 highValue highDigit ∧
    Lexeme.IsDigitOf 16 lowValue lowDigit ∧ high = highDigit.toUInt8 ∧ low = lowDigit.toUInt8 ∧
    byte.toNat = 16 * highValue + lowValue

def BeginsEscape (text : List UInt8) : Prop :=
  ∃ high low byte rest, text = high :: low :: rest ∧ IsEscaped high low byte

/-- What some bytes with escapes in them stand for. A percent sign without two digits behind it is
no escape. -/
inductive Unescapes : List UInt8 → List UInt8 → Prop
  | nil : Unescapes [] []
  | escape {high low byte : UInt8} {rest decoded : List UInt8} (isEscaped : IsEscaped high low byte)
      (further : Unescapes rest decoded) :
      Unescapes (0x25 :: high :: low :: rest) (byte :: decoded)
  | literal {byte : UInt8} {rest decoded : List UInt8}
      (isLiteral : byte = 0x25 → ¬BeginsEscape rest) (further : Unescapes rest decoded) :
      Unescapes (byte :: rest) (byte :: decoded)

theorem hexDigit?_of_isDigitOf {value : Nat} {digit : Char}
    (isDigit : Lexeme.IsDigitOf 16 value digit) :
    hexDigit? digit.toUInt8 = some (UInt8.ofNat value) := by
  rcases isDigit with ⟨small, written⟩
  interval_cases value <;> rcases written with rfl | rfl <;> decide

theorem exists_isDigitOf_of_hexDigit? {byte value : UInt8} (isHex : hexDigit? byte = some value) :
    ∃ digit, Lexeme.IsDigitOf 16 value.toNat digit ∧ byte = digit.toUInt8 := by
  have lowerOrUpper : ∀ code : Fin 256, (hexDigit? (UInt8.ofNat code)).all fun value =>
      value < 16 && ((Nat.digitChar value.toNat).toUInt8 = UInt8.ofNat code ||
        (Nat.digitChar value.toNat).toUpper.toUInt8 = UInt8.ofNat code) := by
    decide +kernel
  have found := lowerOrUpper ⟨byte.toNat, byte.toNat_lt⟩
  simp only [UInt8.ofNat_toNat, isHex, Option.all_some, Bool.and_eq_true, Bool.or_eq_true,
    decide_eq_true_eq] at found
  rcases found with ⟨small, lower | upper⟩
  · exact ⟨_, ⟨small, .inl rfl⟩, lower.symm⟩
  · exact ⟨_, ⟨small, .inr rfl⟩, upper.symm⟩

theorem isEscaped_iff {high low byte : UInt8} :
    IsEscaped high low byte ↔ ∃ highValue lowValue, hexDigit? high = some highValue ∧
      hexDigit? low = some lowValue ∧ byte = 16 * highValue + lowValue := by
  constructor
  · rintro ⟨highValue, lowValue, _, _, isHigh, isLow, rfl, rfl, isByte⟩
    refine ⟨_, _, hexDigit?_of_isDigitOf isHigh, hexDigit?_of_isDigitOf isLow, ?_⟩
    rw [← UInt8.ofNat_toNat (x := byte), isByte]
    simp
  · rintro ⟨highValue, lowValue, isHigh, isLow, rfl⟩
    rcases exists_isDigitOf_of_hexDigit? isHigh with ⟨highDigit, highIs, rfl⟩
    rcases exists_isDigitOf_of_hexDigit? isLow with ⟨lowDigit, lowIs, rfl⟩
    refine ⟨_, _, _, _, highIs, lowIs, rfl, rfl, ?_⟩
    have highSmall := highIs.1
    have lowSmall := lowIs.1
    rw [UInt8.toNat_add, UInt8.toNat_mul]
    change (16 * highValue.toNat % 256 + lowValue.toNat) % 256 = _
    omega

theorem IsEscaped.notMem {high low byte : UInt8} (isEscaped : IsEscaped high low byte) :
    high ∉ [0x25, 0x26, 0x2b] ∧ low ∉ [0x25, 0x26, 0x2b] := by
  have plain {value : Nat} {digit : Char} (isDigit : Lexeme.IsDigitOf 16 value digit) :
      digit.toUInt8 ∉ ([0x25, 0x26, 0x2b] : List UInt8) := by
    rcases isDigit with ⟨small, written⟩
    interval_cases value <;> rcases written with rfl | rfl <;> decide
  rcases isEscaped with ⟨_, _, _, _, isHigh, isLow, rfl, rfl, _⟩
  exact ⟨plain isHigh, plain isLow⟩

section Unescaping

variable {encoded decoded before after : List UInt8} {sign : UInt8}

theorem unescapes_unescape (encoded : List UInt8) : Unescapes encoded (unescape encoded) := by
  fun_induction unescape encoded with
  | case1 => exact .nil
  | case2 high low rest highValue lowValue isLow isHigh ih =>
    exact .escape (isEscaped_iff.mpr ⟨_, _, isHigh, isLow, rfl⟩) ih
  | case3 high low rest noEscape ih =>
    refine .literal ?_ ih
    rintro _ ⟨_, _, _, _, ⟨⟩, isEscaped⟩
    rcases isEscaped_iff.mp isEscaped with ⟨_, _, isHigh, isLow, _⟩
    exact noEscape _ _ isHigh isLow
  | case4 byte rest noEscape ih =>
    refine .literal ?_ ih
    rintro rfl ⟨high, low, _, behind, rfl, _⟩
    exact noEscape high low behind rfl rfl

theorem Unescapes.unique {other : List UInt8} (unescapes : Unescapes encoded decoded)
    (unescapesOther : Unescapes encoded other) : decoded = other := by
  induction unescapes generalizing other with
  | nil =>
    cases unescapesOther
    rfl
  | escape isEscaped _ ih =>
    cases unescapesOther with
    | escape isOther further =>
      rcases isEscaped_iff.mp isEscaped with ⟨_, _, isHigh, isLow, rfl⟩
      rcases isEscaped_iff.mp isOther with ⟨_, _, isHighOther, isLowOther, rfl⟩
      cases isHigh.symm.trans isHighOther
      cases isLow.symm.trans isLowOther
      rw [ih further]
    | literal isLiteral _ => exact absurd ⟨_, _, _, _, rfl, isEscaped⟩ (isLiteral rfl)
  | literal isLiteral _ ih =>
    cases unescapesOther with
    | escape isEscaped _ => exact absurd ⟨_, _, _, _, rfl, isEscaped⟩ (isLiteral rfl)
    | literal _ further => rw [ih further]

/-- A byte that cannot be part of an escape parts what stands in front of it from what stands behind
it. -/
theorem Unescapes.append (first : Unescapes before decoded) {others : List UInt8}
    (second : Unescapes after others) (isSign : sign = 0x2b ∨ sign = 0x26) :
    Unescapes (before ++ sign :: after) (decoded ++ sign :: others) := by
  have notMember : sign ∈ [0x25, 0x26, 0x2b] := by
    rcases isSign with rfl | rfl <;> decide
  induction first with
  | nil =>
    refine .literal ?_ second
    rintro rfl
    exact absurd isSign (by decide)
  | escape isEscaped _ ih => exact .escape isEscaped ih
  | @literal byte rest _ isLiteral _ ih =>
    refine .literal (fun isPercent => ?_) ih
    rintro ⟨high, low, escaped, behind, same, isEscaped⟩
    rcases rest with _ | ⟨first, _ | ⟨second, rest⟩⟩
    · cases same
      exact isEscaped.notMem.1 notMember
    · cases same
      exact isEscaped.notMem.2 notMember
    · cases same
      exact isLiteral isPercent ⟨_, _, _, _, rfl, isEscaped⟩

def guardByte (byte : UInt8) : List UInt8 :=
  if byte = 0x2b then [0x25, 0x32, 0x42]
  else if byte = 0x26 then [0x25, 0x32, 0x36]
  else [byte]

theorem guardByte_of_notMem {byte : UInt8} (isPlain : byte ∉ [0x25, 0x26, 0x2b]) :
    guardByte byte = [byte] := by
  simp only [List.mem_cons, List.not_mem_nil, or_false, not_or] at isPlain
  rw [guardByte, if_neg isPlain.2.2, if_neg isPlain.2.1]

/-- Escapes come in only with percent signs of their own, so other bytes at the head have been there
before. -/
theorem eq_cons_of_guarded {byte : UInt8} {text rest : List UInt8}
    (same : text.flatMap guardByte = byte :: rest) (noPercent : byte ≠ 0x25) :
    ∃ behind, text = byte :: behind ∧ rest = behind.flatMap guardByte := by
  cases text with
  | nil => cases same
  | cons first behind =>
    rw [List.flatMap_cons, guardByte] at same
    split at same
    · cases same
      exact absurd rfl noPercent
    · split at same
      · cases same
        exact absurd rfl noPercent
      · cases same
        exact ⟨behind, rfl, rfl⟩

theorem beginsEscape_of_guarded {text : List UInt8}
    (begins : BeginsEscape (text.flatMap guardByte)) : BeginsEscape text := by
  rcases begins with ⟨high, low, byte, rest, same, isEscaped⟩
  rcases isEscaped.notMem with ⟨highPlain, lowPlain⟩
  rcases eq_cons_of_guarded same (List.ne_of_not_mem_cons highPlain) with ⟨_, rfl, isRest⟩
  rcases eq_cons_of_guarded isRest.symm (List.ne_of_not_mem_cons lowPlain) with ⟨_, rfl, _⟩
  exact ⟨high, low, byte, _, rfl, isEscaped⟩

theorem Unescapes.guarded (unescapes : Unescapes encoded decoded) :
    Unescapes (encoded.flatMap guardByte) decoded := by
  induction unescapes with
  | nil => exact .nil
  | escape isEscaped _ ih =>
    rcases isEscaped.notMem with ⟨highPlain, lowPlain⟩
    rw [List.flatMap_cons, List.flatMap_cons, List.flatMap_cons, guardByte_of_notMem highPlain,
      guardByte_of_notMem lowPlain]
    exact .escape isEscaped ih
  | @literal byte rest _ isLiteral _ ih =>
    rw [List.flatMap_cons, guardByte]
    split
    · rename_i isPlus
      subst isPlus
      exact .escape (isEscaped_iff.mpr ⟨2, 11, rfl, rfl, rfl⟩) ih
    · split
      · rename_i isAmpersand
        subst isAmpersand
        exact .escape (isEscaped_iff.mpr ⟨2, 6, rfl, rfl, rfl⟩) ih
      · exact .literal
          (fun isPercent begins => isLiteral isPercent (beginsEscape_of_guarded begins)) ih

end Unescaping

/-! ## Values -/

theorem flatMap_guardCharacter (character : Char) :
    (guardCharacter character).flatMap String.utf8EncodeChar =
      (String.utf8EncodeChar character).flatMap guardByte := by
  unfold guardCharacter
  split
  · rename_i isPlus
    subst isPlus
    decide
  · rename_i notPlus
    split
    · rename_i isAmpersand
      subst isAmpersand
      decide
    · rename_i notAmpersand
      have single : ∀ byte ∈ String.utf8EncodeChar character, guardByte byte = [byte] := by
        intro byte member
        rw [guardByte, if_neg, if_neg]
        · rintro rfl
          exact notAmpersand
            (Char.toNat_inj.mp (Text.toNat_of_mem_utf8EncodeChar member (by decide)))
        · rintro rfl
          exact notPlus (Char.toNat_inj.mp (Text.toNat_of_mem_utf8EncodeChar member (by decide)))
      rw [List.flatMap_singleton, List.flatMap_congr single, List.flatMap_singleton']

theorem bytes_guarded (raw : List Char) :
    Text.bytes (String.ofList (raw.flatMap guardCharacter)) =
      (Text.bytes (String.ofList raw)).flatMap guardByte := by
  rw [Text.bytes_eq, Text.bytes_eq, String.toList_ofList, String.toList_ofList, List.flatMap_assoc,
    List.flatMap_assoc]
  exact List.flatMap_congr fun character _ => flatMap_guardCharacter character

theorem notMem_guardByte (encoded : List UInt8) :
    0x26 ∉ encoded.flatMap guardByte ∧ 0x2b ∉ encoded.flatMap guardByte := by
  simp only [List.mem_flatMap, not_exists, not_and]
  refine ⟨fun byte _ => ?_, fun byte _ => ?_⟩
  all_goals
    unfold guardByte
    split
    · decide
    · split
      · decide
      · rename_i notPlus notAmpersand
        simp [eq_comm, notPlus, notAmpersand]

theorem piecesOnto_eq {α : Type} [DecidableEq α] (divider : α) (pieces : List (List α))
    (current elements : List α) :
    piecesOnto divider pieces current elements =
      pieces.reverse ++ List.splitOnPPrepend (· == divider) elements current := by
  induction elements generalizing pieces current with
  | nil => simp [piecesOnto]
  | cons element rest ih =>
    by_cases isDivider : element = divider
    · simp [piecesOnto, List.splitOnPPrepend_cons_eq_if, isDivider, ih]
    · simp [piecesOnto, List.splitOnPPrepend_cons_eq_if, isDivider, ih]

theorem pieces_eq_splitOn {α : Type} [DecidableEq α] (divider : α) (elements : List α) :
    pieces divider elements = elements.splitOn divider :=
  piecesOnto_eq divider [] [] elements

theorem fields_guarded (raw : List Char) :
    fields (String.ofList ('=' :: raw.flatMap guardCharacter)) =
      [("", decode (Text.bytes (String.ofList (raw.flatMap guardCharacter))))] := by
  have first : Text.bytes (String.ofList ('=' :: raw.flatMap guardCharacter)) =
      0x3d :: (Text.bytes (String.ofList raw)).flatMap guardByte := by
    rw [← bytes_guarded, Text.bytes_eq, Text.bytes_eq, String.toList_ofList, String.toList_ofList,
      List.flatMap_cons]
    rfl
  rcases notMem_guardByte (Text.bytes (String.ofList raw)) with ⟨noAmpersand, noPlus⟩
  have whole : pieces 0x26 (0x3d :: (Text.bytes (String.ofList raw)).flatMap guardByte) =
      [0x3d :: (Text.bytes (String.ofList raw)).flatMap guardByte] := by
    rw [pieces_eq_splitOn]
    refine List.splitOnP_eq_singleton (List.forall_mem_cons.mpr ⟨rfl, fun byte member => ?_⟩)
    exact beq_false_of_ne (ne_of_mem_of_not_mem member noAmpersand)
  have plain : ((Text.bytes (String.ofList raw)).flatMap guardByte).map
      (fun byte => if byte = 0x2b then 0x20 else byte) =
        (Text.bytes (String.ofList raw)).flatMap guardByte := by
    refine (List.map_congr_left fun byte member => ?_).trans (List.map_id _)
    exact if_neg (ne_of_mem_of_not_mem member noPlus)
  have nameless : decode [] = "" := rfl
  rw [fields, first, whole, bytes_guarded]
  simp [cut, decodeField, plain, nameless]

theorem cookieValue_eq {raw : List Char} {decoded : List UInt8}
    (unescapes : Unescapes (Text.bytes (String.ofList raw)) decoded) :
    cookieValue raw = Text.ofBytes decoded := by
  have guarded := unescapes.guarded
  rw [← bytes_guarded] at guarded
  rw [cookieValue, fields_guarded, guarded.unique (unescapes_unescape _)]
  rfl

/-! ## Names -/

section Names

variable {name : List Char} {table : Table Key Value}

def UsesBrackets (name : List Char) : Prop :=
  ∃ before inside after, name = before ++ '[' :: (inside ++ ']' :: after)

/-- A name as it is used: characters with a meaning in names are replaced. -/
def mangled (name : List Char) : String := String.ofList (name.map nameCharacter)

theorem contains_dropWhile_of_plain (plain : ¬UsesBrackets name) :
    (name.dropWhile (· ≠ '[')).contains ']' = false := by
  rw [← Bool.not_eq_true, List.contains_iff_mem]
  intro closed
  have opens := List.head_dropWhile_not _ (List.ne_nil_of_mem closed)
  rcases dropped : name.dropWhile (· ≠ '[') with _ | ⟨first, rest⟩
  · rw [dropped] at closed
    cases closed
  · simp only [dropped, List.head_cons, decide_eq_false_iff_not, not_not] at opens
    subst opens
    rw [dropped, List.mem_cons] at closed
    rcases List.append_of_mem (closed.resolve_left (by decide)) with ⟨inside, after, rfl⟩
    refine plain ⟨name.takeWhile (· ≠ '['), inside, after, ?_⟩
    rw [← dropped, List.takeWhile_append_dropWhile]

theorem path?_of_plain (plain : ¬UsesBrackets name) (noBlank : name.dropWhile (· = ' ') = name) :
    path? name = if name = [] then none else some [some (Key.ofString (mangled name))] := by
  simp only [path?, noBlank, contains_dropWhile_of_plain plain]
  cases name with
  | nil => rfl
  | cons first rest => rfl

theorem dropWhile_trim (text : List Char) :
    (Text.trim text).dropWhile (· = ' ') = Text.trim text := by
  have isPrefix : Text.trim text <+: Text.trimStart text := List.rdropWhile_prefix _ _
  cases trimmed : Text.trim text with
  | nil => rfl
  | cons first rest =>
    rw [trimmed] at isPrefix
    rcases isPrefix with ⟨after, whole⟩
    have same : text.dropWhile Text.isWhitespace = first :: (rest ++ after) := whole.symm
    have starts : Text.isWhitespace first = false := by
      have started := List.head_dropWhile_not Text.isWhitespace (l := text) (by simp [same])
      simpa only [same, List.head_cons] using started
    rw [List.dropWhile_cons_of_neg]
    intro isBlank
    cases of_decide_eq_true isBlank
    cases starts

/-- The name and the value of a pair, without the blanks around them. -/
def cookiePair (pair : List Char) : List Char × List Char :=
  (Text.trim (pair.takeWhile (· ≠ '=')), Text.trim ((pair.dropWhile (· ≠ '=')).drop 1))

def cookiePairs (header : String) : List (List Char × List Char) :=
  (header.toList.splitOn ';').map cookiePair

/-- A pair under the name that it is used with, if it has one. -/
def named? (pair : List Char × List Char) : Option (String × List Char) :=
  if pair.1 = [] then none else some (mangled pair.1, pair.2)

def namedCookies (header : String) : List (String × List Char) :=
  (cookiePairs header).filterMap named?

def keepFirst (table : Table Key Value) (cookie : String × List Char) : Table Key Value :=
  if table.contains (Key.ofString cookie.1) then table
  else table.insert (Key.ofString cookie.1) (.str (cookieValue cookie.2))

theorem addCookie_of_plain {pair : List Char} (plain : ¬UsesBrackets (cookiePair pair).1) :
    addCookie table pair = (named? (cookiePair pair)).elim table (keepFirst table) := by
  have isName : Text.trim (pair.takeWhile (· ≠ '=')) = (cookiePair pair).1 := rfl
  simp only [addCookie, cut]
  rw [isName, path?_of_plain plain (dropWhile_trim _), named?]
  by_cases isEmpty : (cookiePair pair).1 = []
  · rw [if_pos isEmpty, if_pos isEmpty]
    rfl
  · rw [if_neg isEmpty, if_neg isEmpty]
    rfl

theorem cookies_of_plain {header : String}
    (plain : ∀ pair ∈ cookiePairs header, ¬UsesBrackets pair.1) :
    cookies header = (namedCookies header).foldl keepFirst .empty := by
  rw [cookies, pieces_eq_splitOn, namedCookies, List.foldl_filterMap, cookiePairs, List.foldl_map]
  refine List.foldl_ext _ _ _ fun table pair member => ?_
  rw [addCookie_of_plain (plain _ (List.mem_map_of_mem member))]
  cases named? (cookiePair pair) <;> rfl

theorem ofString_injective : Function.Injective Key.ofString :=
  Function.LeftInverse.injective Key.render_ofString

theorem get?_keepFirst (own : String) (raw : List Char) (key : Key) :
    (keepFirst table (own, raw)).get? key =
      (table.get? key).or
        (if Key.ofString own = key then some (.str (cookieValue raw)) else none) := by
  unfold keepFirst Table.contains
  cases found : table.get? (Key.ofString own) with
  | some value =>
    by_cases same : Key.ofString own = key
    · simp [← same, found]
    · simp [same]
  | none =>
    by_cases same : Key.ofString own = key
    · simp [← same, found]
    · simp [same]

theorem keys_keepFirst (own : String) (raw : List Char) :
    (keepFirst table (own, raw)).keys =
      if Key.ofString own ∈ table.keys then table.keys else table.keys ++ [Key.ofString own] := by
  unfold keepFirst
  by_cases isTaken : Key.ofString own ∈ table.keys
  · rw [if_pos (Table.contains_iff_mem_keys.mpr isTaken), if_pos isTaken]
  · rw [if_neg (mt Table.contains_iff_mem_keys.mp isTaken), if_neg isTaken, Table.insert,
      Table.keys, Table.insertEntry_of_notMem isTaken, List.map_append]
    rfl

theorem get?_foldl_keepFirst (cookies : List (String × List Char)) (name : String) :
    (cookies.foldl keepFirst .empty).get? (Key.ofString name) =
      (cookies.lookup name).map fun raw => .str (cookieValue raw) := by
  induction cookies using List.reverseRecOn with
  | nil => rfl
  | append_singleton cookies cookie ih =>
    rcases cookie with ⟨own, raw⟩
    rw [List.foldl_append, List.foldl_cons, List.foldl_nil, get?_keepFirst, ih, List.lookup_append,
      Option.map_or]
    by_cases same : name = own
    · simp [same]
    · have differs : Key.ofString own ≠ Key.ofString name :=
        fun equal => same (ofString_injective equal).symm
      simp [List.lookup, beq_false_of_ne same, differs]

theorem keys_foldl_keepFirst (cookies : List (String × List Char)) :
    (cookies.foldl keepFirst .empty).keys =
      (cookies.map Prod.fst).eraseDups.map Key.ofString := by
  induction cookies using List.reverseRecOn with
  | nil => rfl
  | append_singleton cookies cookie ih =>
    rcases cookie with ⟨own, raw⟩
    have isTaken : Key.ofString own ∈ (cookies.map Prod.fst).eraseDups.map Key.ofString ↔
        own ∈ cookies.map Prod.fst := by
      rw [List.mem_map_of_injective ofString_injective, List.mem_eraseDups]
    rw [List.foldl_append, List.foldl_cons, List.foldl_nil, keys_keepFirst, ih, List.map_append,
      List.eraseDups_append, List.map_append, List.map_singleton]
    by_cases isOld : own ∈ cookies.map Prod.fst
    · rw [if_pos (isTaken.mpr isOld)]
      simp [List.removeAll, isOld]
    · rw [if_neg (mt isTaken.mp isOld)]
      simp [List.removeAll, isOld, List.eraseDups_cons]

end Names

/-- Of the cookies without brackets in their names, the first one of each name counts. Its value is
the text behind the first equality sign with all escapes resolved. Escapes that are added for plus
signs and ampersands on the way leave everything around them as it is. -/
theorem first_cookies_count :
    (∀ header, (∀ pair ∈ cookiePairs header, ¬UsesBrackets pair.1) →
      (cookies header).keys = ((namedCookies header).map Prod.fst).eraseDups.map Key.ofString ∧
      (cookies header).keys.Nodup ∧
      ∀ name raw, (namedCookies header).lookup name = some raw →
        ∃ decoded, Unescapes (Text.bytes (String.ofList raw)) decoded ∧
          (cookies header).get? (Key.ofString name) = some (.str (Text.ofBytes decoded))) ∧
    ∀ before after decodedBefore decodedAfter,
      Unescapes (Text.bytes (String.ofList before)) decodedBefore →
      Unescapes (Text.bytes (String.ofList after)) decodedAfter →
      ∀ sign, sign = '+' ∨ sign = '&' →
        Unescapes (Text.bytes (String.ofList ((before ++ sign :: after).flatMap guardCharacter)))
          (decodedBefore ++ sign.toUInt8 :: decodedAfter) := by
  constructor
  · intro header plain
    have keys := keys_foldl_keepFirst (namedCookies header)
    have values := get?_foldl_keepFirst (namedCookies header)
    rw [← cookies_of_plain plain] at keys values
    refine ⟨keys, (admits_cookies header).distinct, fun name raw found => ?_⟩
    have unescapes := unescapes_unescape (Text.bytes (String.ofList raw))
    refine ⟨_, unescapes, ?_⟩
    rw [values, found, Option.map_some, cookieValue_eq unescapes]
  · intro before after decodedBefore decodedAfter first second sign isSign
    rw [bytes_guarded]
    apply Unescapes.guarded
    have parts : Text.bytes (String.ofList (before ++ sign :: after)) =
        Text.bytes (String.ofList before) ++ sign.toUInt8 :: Text.bytes (String.ofList after) := by
      simp only [Text.bytes_eq, String.toList_ofList, List.flatMap_append, List.flatMap_cons]
      rcases isSign with rfl | rfl <;> rfl
    rw [parts]
    exact first.append second (by rcases isSign with rfl | rfl <;> decide)

/-- The name is trimmed and replaced, the second pair of this name does not count, and the plus sign
stands between an escape and a percent sign without digits. -/
theorem first_cookies_count_plus :
    let header := " a.b = %2B+%4 ;x;a_b=2"
    (∀ pair ∈ cookiePairs header, ¬UsesBrackets pair.1) ∧
      (cookies header).keys = [.str "a_b", .str "x"] ∧
      (cookies header).get? (.str "a_b") = some (.str "++%4") := by
  intro header
  have noBracket : (cookiePairs header).all (fun pair => !pair.1.contains '[') = true := by
    decide +kernel
  have plain : ∀ pair ∈ cookiePairs header, ¬UsesBrackets pair.1 := by
    rintro pair member ⟨before, inside, after, same⟩
    have found := List.all_eq_true.mp noBracket pair member
    simp [same] at found
  rcases first_cookies_count.1 header plain with ⟨keys, _, values⟩
  have named : namedCookies header = [("a_b", "%2B+%4".toList), ("x", []), ("a_b", ['2'])] := by
    decide +kernel
  rw [named] at keys values
  rcases values "a_b" "%2B+%4".toList rfl with ⟨decoded, unescapes, found⟩
  have isDecoded : decoded = "++%4".toList.map Char.toUInt8 :=
    (unescapes.unique (unescapes_unescape _)).trans (by decide +kernel)
  rw [isDecoded, Text.ofBytes_of_isAscii (by decide)] at found
  exact ⟨plain, keys.trans (by decide +kernel), found⟩

end PhpScript.Form
