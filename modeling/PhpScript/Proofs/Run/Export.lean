import PhpScript.Run.Statement
import PhpScript.Proofs.Run.Effect
import PhpScript.Proofs.Syntax.Reading
import PhpScript.Proofs.Token.Scanning
import PhpScript.Proofs.Value.Regular

/-!
# Exported values

The export of a value is code for this value. `Spells` says of a piece of text that it is scanned
into some tokens, that the tokens are read as an expression, and that the expression has the value
and does nothing else.

Floats are left out, and so is the smallest integer as a value: without its sign it is out of range,
so that the literal is a float. As a key it comes back all the same.
-/

namespace PhpScript

/-- An expression has a value as soon as steps can nest to a depth, and nothing else happens. -/
def Expr.Evaluates (depth : Nat) (value : Value) (code : Expr) : Prop :=
  ∀ more span machine,
    (Evaluator.ofDepth (depth + more)).expression ⟨code, span⟩ machine = .ok value machine

namespace Expr

theorem evaluates_succ {code : Expr} {value : Value} {depth : Nat}
    (step : ∀ more span machine,
      (Evaluator.ofDepth (depth + more)).expressionStep ⟨code, span⟩ machine = .ok value machine) :
    code.Evaluates (depth + 1) value := by
  intro more span machine
  rw [Nat.add_right_comm]
  exact step more span machine

theorem evaluates_neg {operand : Located Expr} {number : Numeric} {depth : Nat}
    (evaluates : operand.node.Evaluates depth number.toValue) :
    (Expr.unary .neg operand).Evaluates (depth + 1) number.neg.toValue := by
  refine evaluates_succ fun more span machine => ?_
  have isNumber := evaluates more operand.span machine
  have isNegated : Run.check span (Value.unary .neg number.toValue) machine =
      .ok number.neg.toValue machine := by cases number <;> rfl
  change (Evaluator.ofDepth (depth + more)).unary span .neg operand machine = _
  rw [Evaluator.unary, Run.bind_of_ok isNumber, isNegated]

end Expr

/-- The characters that follow a key or an element of an export. -/
def EndsLiteral (rest : List Char) : Prop := ∃ next ∈ [',', ';', ' '], rest.head? = some next

theorem EndsLiteral.stopsBefore {rest : List Char} (ends : EndsLiteral rest) {isPart : Char → Bool}
    (apart : [',', ';', ' '].all (!isPart ·) = true) : StopsBefore isPart rest := by
  rcases ends with ⟨next, member, isHead⟩
  intro first isFirst
  rw [isHead] at isFirst
  cases isFirst
  simpa using List.all_eq_true.mp apart next member

/-- A text is code for a value: it is scanned into some tokens, and these are read as an expression
with this value. -/
structure Spells (text : String) (value : Value) (tokens : List Token) : Prop where
  scans : ∀ rest, EndsLiteral rest → Token.Scans text.toList tokens rest
  reads : ∀ depth, tokens.length ≤ depth →
    (Grammar.ofDepth depth).expressionStep.Reads tokens Grammar.Closing fun code =>
      code.node.Evaluates depth value
  begins : ∃ token ∈ tokens.head?,
    token.isSymbol .rightParen = false ∧ token.isSymbol .semicolon = false

namespace Spells

theorem of_operand {text : String} {value : Value} {token : Token} {node : Expr}
    (scans : ∀ rest, EndsLiteral rest → Token.Scans text.toList [token] rest)
    (isOperand : Grammar.operandOf? token = some node)
    (evaluates : ∀ depth, node.Evaluates (depth + 1) value) : Spells text value [token] where
  scans := scans
  reads depth enough := by
    rcases Nat.exists_eq_add_of_le' enough with ⟨more, rfl⟩
    refine (Grammar.reads_expressionStep (Grammar.reads_operand isOperand)).mono ?_
    intro code isNode
    rw [isNode]
    exact evaluates more
  begins := by
    refine ⟨token, rfl, ?_⟩
    cases token <;> first | exact ⟨rfl, rfl⟩ | cases isOperand

theorem null : Spells "NULL" .null [.identifier "NULL"] :=
  .of_operand (fun _ ends => Token.scans_word rfl rfl (ends.stopsBefore rfl) rfl) rfl
    (fun _ => Expr.evaluates_succ fun _ _ _ => rfl)

theorem bool (value : Bool) :
    Spells (if value then "true" else "false") (.bool value)
      [.identifier (if value then "true" else "false")] := by
  cases value <;> exact .of_operand
    (fun _ ends => Token.scans_word rfl rfl (ends.stopsBefore rfl) rfl) rfl
    (fun _ => Expr.evaluates_succ fun _ _ _ => rfl)

theorem text (value : String) :
    Spells (Value.exportText value) (.str value) [.singleQuoted value] :=
  .of_operand (fun rest _ => Token.scans_exportText value rest) rfl
    (fun _ => Expr.evaluates_succ fun _ _ _ => rfl)

/-! ## Integers -/

def numeral (number : Nat) : Numeric := Numeral.toNumeric false ⟨Nat.toDigits 10 number, none, none⟩

theorem numeral_eq {number : Nat} {word : Int64} (isWord : word.toInt = number) :
    numeral number = .int word := by
  have fits : Integer.fit? number = some word := Integer.fit?_eq_some_iff.mpr isWord
  simp [numeral, Numeral.toNumeric, Integer.ofDigits_eq_foldDigits, Integer.foldDigits_toDigits,
    fits]

theorem scans_numeral (number : Nat) {rest : List Char} (ends : EndsLiteral rest) :
    Token.Scans (Nat.toDigits 10 number) [.number (numeral number)] rest :=
  Token.scans_toDigits number (ends.stopsBefore rfl)

theorem operandOf?_number (number : Numeric) :
    ∃ node, Grammar.operandOf? (.number number) = some node ∧
      ∀ depth, node.Evaluates (depth + 1) number.toValue := by
  cases number <;> exact ⟨_, rfl, fun _ => Expr.evaluates_succ fun _ _ _ => rfl⟩

theorem number (number : Nat) :
    Spells (String.ofList (Nat.toDigits 10 number)) (numeral number).toValue
      [.number (numeral number)] := by
  rcases operandOf?_number (numeral number) with ⟨node, isOperand, evaluates⟩
  refine .of_operand (fun rest ends => ?_) isOperand evaluates
  rw [String.toList_ofList]
  exact scans_numeral number ends

theorem scans_minus (number : Nat) (rest : List Char) :
    Token.Scans ['-'] [.symbol .minus] (Nat.toDigits 10 number ++ rest) := by
  refine Token.scans_symbol .minus rfl fun next isNext => ?_
  have isDigit : next.isDigit = true := by
    rw [List.head?_append_of_ne_nil _ Nat.toDigits_ne_nil] at isNext
    exact Nat.isDigit_of_mem_toDigits (by decide) (by decide) (List.mem_of_mem_head? isNext)
  have apart : (Token.extensions .minus).all (!·.isDigit) = true := by decide +kernel
  rw [← Bool.not_eq_true, List.contains_iff_mem]
  intro isLonger
  have isOther := List.all_eq_true.mp apart next isLonger
  rw [isDigit] at isOther
  cases isOther

theorem negated (number : Nat) :
    Spells (String.ofList ('-' :: Nat.toDigits 10 number)) (numeral number).neg.toValue
      [.symbol .minus, .number (numeral number)] where
  scans rest ends := by
    rw [String.toList_ofList]
    exact (scans_minus number rest).append (scans_numeral number ends)
  reads depth enough := by
    rcases Nat.exists_eq_add_of_le' enough with ⟨more, rfl⟩
    rcases operandOf?_number (numeral number) with ⟨node, isOperand, evaluates⟩
    have operand : (Grammar.ofDepth (more + 2)).unary.Reads [.number (numeral number)]
        Grammar.Closing fun code => code.node = node := Grammar.reads_operand isOperand
    refine (Grammar.reads_negation operand).mono ?_
    rintro code ⟨found, isNegation, isNode⟩
    rw [isNegation]
    rw [← isNode] at evaluates
    exact Expr.evaluates_neg (evaluates more)
  begins := ⟨.symbol .minus, rfl, rfl, rfl⟩

theorem ofValue_number (number : Numeric) :
    Key.ofValue number.toValue = .ok (.int number.toInt64) := by
  cases number <;> rfl

/-- Without its sign the smallest integer is out of range; the float that is read for it still
stands for the key. -/
theorem integer (index : Int64) :
    ∃ tokens value, Spells (Integer.render index) value tokens ∧
      Key.ofValue value = .ok (.int index) ∧
        (index.toInt ≠ Integer.minimum → value = .int index) := by
  have lower : Integer.minimum ≤ index.toInt := Int64.minValue_le_toInt index
  rcases Int.lt_or_le index.toInt 0 with negative | natural
  · have isNegated : index.toInt = -(index.toInt.natAbs : Int) := by omega
    rw [Key.render_eq_of_neg (by omega) isNegated]
    refine ⟨_, _, negated _, ?_⟩
    by_cases isMinimum : index.toInt = Integer.minimum
    · have isLeast : index = Int64.minValue := Int64.toInt_inj.mp isMinimum
      subst isLeast
      have isKey : (numeral Int64.minValue.toInt.natAbs).neg.toInt64 = Int64.minValue := by
        decide +kernel
      rw [ofValue_number, isKey]
      exact ⟨rfl, fun other => absurd isMinimum other⟩
    · have isWord : (Int64.ofInt index.toInt.natAbs).toInt = index.toInt.natAbs := by
        unfold Integer.minimum at lower isMinimum
        exact Int64.toInt_ofInt_of_le (by omega) (by omega)
      have isIndex : (numeral index.toInt.natAbs).neg = .int index := by
        rw [numeral_eq isWord, Numeric.neg, Numeric.ofExact, isWord, ← isNegated,
          Integer.fit?_toInt]
      rw [isIndex]
      exact ⟨rfl, fun _ => rfl⟩
  · have isNatural : index.toInt = (index.toInt.natAbs : Int) := by omega
    rw [Key.render_eq_of_pos isNatural]
    refine ⟨_, _, number _, ?_⟩
    rw [numeral_eq isNatural]
    exact ⟨rfl, fun _ => rfl⟩

theorem key {key : Key} (canonical : key.IsCanonical) :
    ∃ tokens value, Spells (Value.exportKey key) value tokens ∧ Key.ofValue value = .ok key := by
  cases key with
  | int index =>
    rcases integer index with ⟨tokens, value, spells, isKey, _⟩
    exact ⟨tokens, value, spells, isKey⟩
  | str name => exact ⟨_, _, text name, Key.ofValue_toValue canonical⟩

end Spells

/-! ## Arrays -/

def ArrayItem.Gives (depth : Nat) (entry : Key × Value) (item : ArrayItem Expr) : Prop :=
  ∃ code, item.key = some code ∧
    (∃ value, code.node.Evaluates depth value ∧ Key.ofValue value = .ok entry.1) ∧
      item.value.node.Evaluates depth entry.2

variable {depth : Nat} {entries : List (Key × Value)} {items : List (ArrayItem Expr)}

theorem ArrayItem.Gives.arrayLiteral_cons {entry : Key × Value} {item : ArrayItem Expr}
    (gives : item.Gives depth entry) (more : Nat) (collected : Table Key Value)
    (rest : List (ArrayItem Expr)) (machine : Machine) :
    (Evaluator.ofDepth (depth + more)).arrayLiteral collected (item :: rest) machine =
      (Evaluator.ofDepth (depth + more)).arrayLiteral (collected.insert entry.1 entry.2) rest
        machine := by
  rcases gives with ⟨code, isCode, ⟨value, evaluatesKey, isKey⟩, evaluatesElement⟩
  have key := evaluatesKey more code.span machine
  have element := evaluatesElement more item.value.span machine
  simp only [Evaluator.arrayLiteral, isCode, Run.bind_of_ok key, isKey, Run.ofExcept, pure_bind,
    Run.bind_of_ok element]

theorem Evaluator.arrayLiteral_eq (give : List.Forall₂ (ArrayItem.Gives depth) entries items)
    (more : Nat) (machine : Machine) {collected : List (Key × Value)}
    (distinct : ((collected ++ entries).map Prod.fst).Nodup) :
    (Evaluator.ofDepth (depth + more)).arrayLiteral ⟨collected⟩ items machine =
      .ok (.array ⟨collected ++ entries⟩) machine := by
  induction give generalizing collected with
  | nil =>
    rw [List.append_nil]
    rfl
  | @cons entry item entries items gives _ ih =>
    have isNew : entry.1 ∉ collected.map Prod.fst := by
      rw [List.map_append, List.nodup_append] at distinct
      exact fun member => distinct.2.2 _ member _ List.mem_cons_self rfl
    rw [List.append_cons] at distinct ⊢
    rw [gives.arrayLiteral_cons, Table.insert, Table.insertEntry_of_notMem isNew, ih distinct]

theorem Expr.evaluates_array (distinct : (entries.map Prod.fst).Nodup)
    (give : List.Forall₂ (ArrayItem.Gives depth) entries items) :
    (Expr.array items).Evaluates (depth + 1) (.array ⟨entries⟩) :=
  evaluates_succ fun more _ machine => Evaluator.arrayLiteral_eq give more machine distinct

namespace Grammar

theorem length_arrayTokens {ι : Type} {keyTokens valueTokens : ι → List Token} (entries : List ι) :
    entries.length < (arrayTokens keyTokens valueTokens entries).length ∧
      ∀ entry ∈ entries,
        (keyTokens entry).length < (arrayTokens keyTokens valueTokens entries).length ∧
          (valueTokens entry).length < (arrayTokens keyTokens valueTokens entries).length := by
  simp only [arrayTokens, List.length_cons, List.length_append, List.length_nil]
  induction entries with
  | nil => simp
  | cons entry rest ih =>
    simp only [List.flatMap_cons, List.length_append, List.length_cons, List.length_nil,
      List.forall_mem_cons] at ih ⊢
    refine ⟨by omega, by omega, fun other member => ?_⟩
    have shorter := ih.2 other member
    omega

end Grammar

theorem scans_margin (count : Nat) (rest : List Char) :
    Token.Scans (Text.blanks count).toList [] rest := by
  rw [Text.toList_blanks]
  exact Token.scans_blanks (List.all_eq_true.mpr fun _ isBlank =>
    (List.eq_of_mem_replicate isBlank).symm ▸ rfl) rest

theorem scans_blank (rest : List Char) : Token.Scans [' '] [] rest := Token.scans_blanks rfl rest

theorem scans_arrow (rest : List Char) : Token.Scans " => ".toList [.symbol .fatArrow] rest := by
  have arrow := Token.scans_symbol_of_extensions_eq_nil .fatArrow rfl (by decide +kernel)
  exact ((scans_blank _).append (arrow _)).append (scans_blank rest)

theorem scans_comma (rest : List Char) : Token.Scans ",\n".toList [.symbol .comma] rest := by
  have comma := Token.scans_symbol_of_extensions_eq_nil .comma rfl (by decide +kernel)
  exact (comma _).append (Token.scans_blanks rfl rest)

theorem scans_opening (rest : List Char) :
    Token.Scans "array (\n".toList [.keyword .kwArray, .symbol .leftParen] rest := by
  have word (rest : List Char) : Token.Scans "array".toList [.keyword .kwArray] (' ' :: rest) :=
    Token.scans_word rfl rfl (fun _ isNext => by cases isNext; rfl) rfl
  have opens := Token.scans_symbol_of_extensions_eq_nil .leftParen rfl (by decide +kernel)
  have line : Token.Scans ['\n'] [] rest := Token.scans_blanks rfl rest
  exact (word _).append ((scans_blank _).append ((opens _).append line))

section Entries

variable {indent : Nat} {entries : List (Key × Value)}
  {keyTokens valueTokens : Key × Value → List Token}
  (keys : ∀ entry ∈ entries, ∃ value, Spells (Value.exportKey entry.1) value (keyTokens entry) ∧
    Key.ofValue value = .ok entry.1)
  (values : ∀ entry ∈ entries, Spells (entry.2.exported (indent + 2)) entry.2 (valueTokens entry))
include keys values

theorem scans_exportedEntries (rest : List Char) :
    Token.Scans (Value.exportedEntries indent entries).toList
      (entries.flatMap fun entry =>
        keyTokens entry ++ .symbol .fatArrow :: valueTokens entry ++ [.symbol .comma]) rest := by
  induction entries with
  | nil => exact .nil rest
  | cons entry others ih =>
    rcases entry with ⟨key, element⟩
    rcases List.forall_mem_cons.mp keys with ⟨⟨value, ownKey, _⟩, otherKeys⟩
    rcases List.forall_mem_cons.mp values with ⟨ownValue, otherValues⟩
    have gap (rest : List Char) : Token.Scans
        (if element.isArray then "\n" ++ Text.blanks (indent + 2) else "").toList [] rest := by
      split
      · rw [String.toList_append]
        exact (Token.scans_blanks rfl _).append (scans_margin _ rest)
      · exact .nil rest
    have scans := (scans_margin (indent + 2) _).append <|
      (ownKey.scans _ ⟨' ', by decide, rfl⟩).append <| (scans_arrow _).append <|
        (gap _).append <| (ownValue.scans _ ⟨',', by decide, rfl⟩).append <|
          (scans_comma _).append (ih otherKeys otherValues)
    rw [Value.exportedEntries]
    simpa only [String.toList_append, List.flatMap_cons, List.append_assoc, List.nil_append,
      List.cons_append] using scans

theorem Spells.array (distinct : (entries.map Prod.fst).Nodup) :
    Spells ((Value.array ⟨entries⟩).exported indent) (.array ⟨entries⟩)
      (Grammar.arrayTokens keyTokens valueTokens entries) where
  scans rest _ := by
    have closes := Token.scans_symbol_of_extensions_eq_nil .rightParen rfl (by decide +kernel) rest
    have scans := (scans_opening _).append <| (scans_exportedEntries keys values _).append <|
      (scans_margin indent _).append closes
    rw [Value.exported, String.toList_append, String.toList_append, String.toList_append,
      List.append_assoc, List.append_assoc]
    exact scans
  reads depth enough := by
    rcases Grammar.length_arrayTokens entries with ⟨fewer, shorter⟩
    cases depth with
    | zero => exact absurd (fewer.trans_le enough) (Nat.not_lt_zero _)
    | succ depth =>
      -- The parts are read one level below, where their own tokens still fit.
      have keysRead : ∀ entry ∈ entries,
          (Grammar.ofDepth (depth + 1)).expression.Reads (keyTokens entry) Grammar.Closing
            fun code =>
              ∃ value, code.node.Evaluates depth value ∧ Key.ofValue value = .ok entry.1 := by
        intro entry member
        rcases keys entry member with ⟨value, spells, isKey⟩
        have reads := spells.reads depth
          (Nat.le_of_lt_succ ((shorter entry member).1.trans_le enough))
        exact reads.mono fun code evaluates => ⟨value, evaluates, isKey⟩
      have valuesRead : ∀ entry ∈ entries,
          (Grammar.ofDepth (depth + 1)).expression.Reads (valueTokens entry) Grammar.Closing
            fun code => code.node.Evaluates depth entry.2 := fun entry member =>
        (values entry member).reads depth
          (Nat.le_of_lt_succ ((shorter entry member).2.trans_le enough))
      refine (Grammar.reads_array (Nat.le_of_lt_succ (fewer.trans_le enough)) keysRead valuesRead
        ?_).mono ?_
      · intro entry member
        rcases keys entry member with ⟨_, ⟨_, _, token, isHead, isOther, _⟩, _⟩
        rw [isHead]
        simpa using isOther
      · rintro code ⟨items, isArray, give⟩
        rw [isArray]
        exact Expr.evaluates_array distinct give
  begins := ⟨.keyword .kwArray, rfl, rfl, rfl⟩

end Entries

/-! ## All values -/

/-- Null, truth values, texts, all integers but the smallest one, and arrays of such values under
distinct canonical keys. -/
inductive Value.IsExportable : Value → Prop
  | null : IsExportable .null
  | bool (value : Bool) : IsExportable (.bool value)
  | int {value : Int64} (notLeast : value.toInt ≠ Integer.minimum) : IsExportable (.int value)
  | str (value : String) : IsExportable (.str value)
  | array {elements : Table Key Value} (distinct : elements.keys.Nodup)
      (canonical : ∀ entry ∈ elements.entries, entry.1.IsCanonical)
      (exportable : ∀ entry ∈ elements.entries, IsExportable entry.2) :
      IsExportable (.array elements)

namespace Value.IsExportable

theorem spells {value : Value} (exportable : value.IsExportable) (indent : Nat) :
    ∃ tokens, Spells (value.exported indent) value tokens := by
  induction exportable generalizing indent with
  | null => exact ⟨_, .null⟩
  | bool value => exact ⟨_, .bool value⟩
  | @int value notLeast =>
    rcases Spells.integer value with ⟨tokens, _, spells, _, isInteger⟩
    cases isInteger notLeast
    exact ⟨tokens, spells⟩
  | str value => exact ⟨_, .text value⟩
  | @array elements distinct canonical _ ih =>
    choose! keyTokens keys using fun entry member => Spells.key (canonical entry member)
    choose! valueTokens values using fun entry member => ih entry member (indent + 2)
    exact ⟨_, .array keys values distinct⟩

theorem identicalEntries_self {entries : List (Key × Value)}
    (same : ∀ entry ∈ entries, entry.2.identical entry.2 = true) :
    identicalEntries entries entries = true := by
  induction entries with
  | nil => rfl
  | cons entry rest ih =>
    rcases List.forall_mem_cons.mp same with ⟨own, others⟩
    simp [identicalEntries, own, ih others]

theorem identical_self {value : Value} (exportable : value.IsExportable) :
    value.identical value = true := by
  induction exportable with
  | null => rfl
  | bool value | int _ | str value => simp [identical]
  | array _ _ _ ih =>
    rw [identical]
    exact identicalEntries_self ih

theorem orNull {value : Value} (exportable : value.IsExportable) : value.orNull = value := by
  cases exportable <;> rfl

end Value.IsExportable

/-! ## Programs -/

theorem Token.length_le_totalWeight (tokens : List (Located Token)) :
    tokens.length + 2 ≤ Token.totalWeight tokens := by
  have grows : ∀ total, tokens.length + total ≤
      tokens.foldl (fun total token => total + token.node.weight) total := by
    induction tokens with
    | nil => simp
    | cons token tokens ih =>
      intro total
      have own : 1 ≤ token.node.weight := by cases token.node <;> simp [Token.weight]
      have others := ih (total + token.node.weight)
      rw [List.length_cons, List.foldl_cons]
      omega
  exact grows 2

def Stmt.Returns (depth : Nat) (value : Value) (statement : Stmt) : Prop :=
  ∃ code, statement = .ret (some code) ∧ code.node.Evaluates depth value

theorem Evaluator.program_of_returns {depth : Nat} {value : Value} {statement : Located Stmt}
    (returns : statement.node.Returns depth value) (more : Nat) (filename : String)
    (lines : LineTable) (machine : Machine) :
    (Evaluator.ofDepth (depth + more + 1)).program ⟨filename, [statement], lines⟩ machine =
      .ok (.ret value) machine := by
  rcases statement with ⟨node, span⟩
  rcases returns with ⟨code, rfl, evaluates⟩
  have own (machine : Machine) :
      (Evaluator.ofDepth (depth + more + 1)).block [⟨.ret (some code), span⟩] machine =
        .ok (.ret value) machine := by
    have isValue := evaluates more code.span machine
    have returned : (Evaluator.ofDepth (depth + more + 1)).statement ⟨.ret (some code), span⟩
        machine = .ok (.ret value) machine := by
      change (Evaluator.ofDepth (depth + more)).returnStatement (some code) machine = _
      rw [Evaluator.returnStatement, Run.bind_of_ok isValue]
      rfl
    rw [Evaluator.block, Run.bind_of_ok returned]
    rfl
  change Run.inFile ⟨filename, lines⟩ (Run.outsideLoops _) machine = _
  simp only [Run.inFile, Run.outsideLoops, Run.bracket, own]

namespace Spells

variable {text : String} {value : Value} {tokens : List Token} (spells : Spells text value tokens)
include spells

theorem scanCode_return :
    ∃ located, Token.scanCode ("return " ++ text ++ ";") = .ok located ∧
      located.map Located.node = .keyword .kwReturn :: (tokens ++ [.symbol .semicolon]) := by
  have word (rest : List Char) : Token.Scans "return".toList [.keyword .kwReturn] (' ' :: rest) :=
    Token.scans_word rfl rfl (fun _ isNext => by cases isNext; rfl) rfl
  have ends := Token.scans_symbol_of_extensions_eq_nil .semicolon rfl (by decide +kernel) []
  have scans := (word _).append <| (scans_blank _).append <|
    (spells.scans _ ⟨';', by decide, rfl⟩).append ends
  rcases scans [] 0 with ⟨located, stop, areTokens, scanned⟩
  refine ⟨located, ?_, areTokens⟩
  rw [Token.scanCode, String.toList_append, String.toList_append, List.append_assoc]
  rw [List.append_nil, List.append_nil] at scanned
  refine scanned.trans ?_
  rw [Token.scanOnto, List.reverse_reverse]

theorem read_return :
    ∃ depth, ∀ filename nextId, ∃ statement,
      Program.read .code filename ("return " ++ text ++ ";") nextId =
        (.ok ⟨filename, [statement], .ofText ("return " ++ text ++ ";")⟩, nextId) ∧
      statement.node.Returns depth value := by
  rcases spells.scanCode_return with ⟨located, scanned, areTokens⟩
  -- The grammar is as deep as the tokens weigh, and the expression lies two levels below it.
  have weighs := Token.length_le_totalWeight located
  have length := congrArg List.length areTokens
  simp only [List.length_map, List.length_cons, List.length_append, List.length_nil] at length
  rcases Nat.exists_eq_add_of_le' (show 1 ≤ Token.totalWeight located by omega) with
    ⟨depth, isWeight⟩
  refine ⟨depth, fun filename nextId => ?_⟩
  rcases spells.begins with ⟨first, isFirst, _, isOther⟩
  rcases List.head?_eq_some_iff.mp isFirst with ⟨others, rfl⟩
  have statementRead : (Grammar.ofDepth (depth + 2)).statement.Reads
      (.keyword .kwReturn :: (first :: others ++ [.symbol .semicolon])) (fun _ => True)
      (·.node.Returns depth value) :=
    Grammar.reads_statementStep (spells.reads depth (by omega)) isOther
  have programRead : (Grammar.ofDepth (depth + 2)).program.Reads
      ([()].flatMap fun _ => located.map Located.node) (· = none)
      (List.Forall₂ (fun _ statement => statement.node.Returns depth value) [()]) := by
    rw [areTokens]
    exact Grammar.reads_program (show 1 < depth + 1 by omega) (fun _ _ => statementRead)
      (fun _ _ => rfl)
  let stop := Text.byteLength ("return " ++ text ++ ";")
  rcases programRead { tokens := located, endSpan := ⟨stop, stop⟩, nextId } located []
    (List.append_nil _).symm (List.append_nil _).symm rfl with ⟨_, _, ran, valid⟩
  cases valid with
  | cons returns none =>
    cases none
    refine ⟨_, ?_, returns⟩
    simp only [Program.read, scanned, Program.ofTokens, isWeight]
    rw [ran]

theorem exists_program :
    ∃ least, ∀ filename nextId, ∃ program,
      Program.read .code filename ("return " ++ text ++ ";") nextId = (.ok program, nextId) ∧
        ∀ depth, least ≤ depth → ∀ machine,
          (Evaluator.ofDepth depth).program program machine = .ok (.ret value) machine := by
  rcases spells.read_return with ⟨least, reads⟩
  refine ⟨least + 1, fun filename nextId => ?_⟩
  rcases reads filename nextId with ⟨statement, isRead, returns⟩
  refine ⟨_, isRead, fun depth enough machine => ?_⟩
  rcases Nat.exists_eq_add_of_le enough with ⟨more, rfl⟩
  rw [Nat.add_right_comm]
  exact Evaluator.program_of_returns returns more filename _ machine

end Spells

namespace Evaluator

theorem evaluateText_eq {self : Evaluator} {code : Located Expr} {source : String} {value : Value}
    {machine after : Machine} (isText : self.expression code machine = .ok (.str source) after)
    (reads : ∀ filename, ∃ program,
      Program.read .code filename source after.nextId = (.ok program, after.nextId) ∧
        self.program program after = .ok (.ret value) after) (span : Span) :
    self.evaluateText span code machine = .ok value.orNull after := by
  have isSource : self.text code machine = .ok source after := by
    rw [text, Run.bind_of_ok isText]
    rfl
  have isLine : Run.lineOf span after = .ok (after.file.lines.line span.start) after := rfl
  rw [evaluateText, Run.bind_of_ok isSource, Run.bind_of_ok isLine, Run.get_bind]
  rcases reads _ with ⟨program, isRead, returns⟩
  rw [Run.bind_of_ok (Run.read_eq_ok_iff.mpr ⟨_, isRead, rfl⟩), Run.bind_of_ok returns]
  rfl

/-- An export, returned by a text that is evaluated, is the value that was exported: the text is
read without fault, and running it gives the value and leaves the machine as it was. -/
theorem exported_value_reads_back {value : Value} (exportable : value.IsExportable) :
    (∀ (self : Evaluator) span (machine : Machine),
      machine.scopes.root.natives = Table.ofList Native.names →
        self.callFunction "var_export" span [value, .bool true] machine =
          .ok (.str (value.exported 0)) machine) ∧
    value.identical value = true ∧
    ∃ least,
      (∀ filename nextId, ∃ program,
        Program.read .code filename ("return " ++ value.exported 0 ++ ";") nextId =
          (.ok program, nextId) ∧
        ∀ depth, least ≤ depth → ∀ machine,
          (ofDepth depth).program program machine = .ok (.ret value) machine) ∧
      ∀ depth, least ≤ depth → ∀ code span machine after,
        (ofDepth depth).expression code machine =
            .ok (.str ("return " ++ value.exported 0 ++ ";")) after →
          (ofDepth (depth + 1)).expression ⟨.evaluate code, span⟩ machine = .ok value after := by
  rcases exportable.spells 0 with ⟨tokens, spells⟩
  rcases spells.exists_program with ⟨least, returns⟩
  refine ⟨fun self span machine natives => ?_, exportable.identical_self, least, returns, ?_⟩
  · have isNative : machine.scopes.root.native? "var_export" = some (.output .export) := by
      rw [GlobalScope.native?, natives]
      rfl
    rw [callFunction, Run.get_bind]
    simp only [isNative]
    rfl
  · intro depth enough code span machine after isText
    have runs : ∀ filename, ∃ program,
        Program.read .code filename ("return " ++ value.exported 0 ++ ";") after.nextId =
          (.ok program, after.nextId) ∧
        (ofDepth depth).program program after = .ok (.ret value) after := by
      intro filename
      rcases returns filename after.nextId with ⟨program, isRead, runs⟩
      exact ⟨program, isRead, runs depth enough after⟩
    have evaluated := evaluateText_eq isText runs span
    rw [exportable.orNull] at evaluated
    exact evaluated

theorem exported_nested_value_reads_back :
    let value : Value := .array ⟨[(.int (-5), .str "it's \\"),
      (.str "-0", .array ⟨[(.int Int64.minValue, .int (-7)), (.str "", .array ⟨[]⟩)]⟩)]⟩
    value.IsExportable ∧
    value.exported 0 = "array (\n  -5 => 'it\\'s \\\\',\n  '-0' => \n  array (\n" ++
      "    -9223372036854775808 => -7,\n    '' => \n    array (\n    ),\n  ),\n)" ∧
    ∃ least, ∀ depth, least ≤ depth → ∀ span machine,
      (ofDepth (depth + 2)).expression
          ⟨.evaluate ⟨.str ("return " ++ value.exported 0 ++ ";"), span⟩, span⟩ machine =
        .ok value machine := by
  intro value
  have empty : (Value.array ⟨[]⟩).IsExportable := .array (by decide) (by decide) (by simp)
  have inner : Value.IsExportable
      (.array ⟨[(.int Int64.minValue, .int (-7)), (.str "", .array ⟨[]⟩)]⟩) :=
    .array (by decide) (by decide) (by simpa using ⟨.int (by decide), empty⟩)
  have exportable : value.IsExportable :=
    .array (by decide) (by decide) (by simpa using ⟨.str _, inner⟩)
  refine ⟨exportable, by decide +kernel, ?_⟩
  rcases (exported_value_reads_back exportable).2.2 with ⟨least, _, evaluates⟩
  exact ⟨least, fun depth enough span machine =>
    evaluates (depth + 1) (Nat.le_succ_of_le enough) _ span machine machine rfl⟩

end Evaluator

end PhpScript
