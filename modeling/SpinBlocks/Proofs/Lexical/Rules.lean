import Mathlib.Tactic.SplitIfs
import SpinBlocks.Proofs.Lexical.Quoted

namespace SpinBlocks

namespace Character

theorem isDigit_iff {c : Char} : c.isDigit = true ↔ 48 ≤ c.toNat ∧ c.toNat ≤ 57 := by
  change (decide ('0'.val ≤ c.val) && decide (c.val ≤ '9'.val)) = true ↔ _
  rw [Bool.and_eq_true_iff, decide_eq_true_iff, decide_eq_true_iff, UInt32.le_iff_toNat_le,
    UInt32.le_iff_toNat_le]
  rfl

theorem isLower_iff {c : Char} : c.isLower = true ↔ 97 ≤ c.toNat ∧ c.toNat ≤ 122 := by
  change (decide ('a'.val ≤ c.val) && decide (c.val ≤ 'z'.val)) = true ↔ _
  rw [Bool.and_eq_true_iff, decide_eq_true_iff, decide_eq_true_iff, UInt32.le_iff_toNat_le,
    UInt32.le_iff_toNat_le]
  rfl

theorem isUpper_iff {c : Char} : c.isUpper = true ↔ 65 ≤ c.toNat ∧ c.toNat ≤ 90 := by
  change decide ('A'.val ≤ c.val ∧ c.val ≤ 'Z'.val) = true ↔ _
  rw [decide_eq_true_iff, UInt32.le_iff_toNat_le, UInt32.le_iff_toNat_le]
  rfl

theorem isAlpha_of_isDigit {c : Char} (digit : c.isDigit = true) : c.isAlpha = false := by
  have range := isDigit_iff.mp digit
  have upper : c.isUpper = false := by
    rw [Bool.eq_false_iff, Ne, isUpper_iff]
    omega
  have lower : c.isLower = false := by
    rw [Bool.eq_false_iff, Ne, isLower_iff]
    omega
  change (c.isUpper || c.isLower) = false
  rw [upper, lower]
  rfl

end Character

namespace Lexeme

/-! The rules by which lexemes are written.

`Reads first body tail kind text` says that the text `first :: body ++ tail`
begins with a sound lexeme that takes `first :: body`. Of `tail` each rule asks
no more than that it does not go on in some class of characters. Scanning finds
a lexeme by these rules wherever it finds no fault, and no other lexeme.
-/

def isNumeral (radix : Radix) (c : Char) : Bool :=
  radix.isDigit c || Character.isGroupSeparator c

def wordKind (letters : List Char) : Kind :=
  match keyword? letters with
  | some keyword => .keyword keyword
  | none => .identifier

/-- The characters that go on with an operator or a number behind a `%`. -/
def joinsPercent (c : Char) : Bool :=
  c == '%' || c == '=' || Character.isBinaryDigit c

def joins (first c : Char) : Bool := (Operator.pair? first c).isSome

inductive Reads : Char → List Char → List Char → Kind → String → Prop
  | newline {tail : List Char} : Reads '\n' [] tail .newline "\n"
  | blanks {first : Char} {body tail : List Char} (blank : Character.isSpace first = true)
      (run : Run Character.isSpace body tail) :
      Reads first body tail .space (String.ofList (first :: body))
  | word {first : Char} {body tail : List Char} (start : Character.isIdentifierStart first = true)
      (run : Run Character.isIdentifierContinue body tail) :
      Reads first body tail (wordKind (first :: body)) (String.ofList (first :: body))
  | decimal {first : Char} {body tail : List Char} (digit : Character.isDecimalDigit first = true)
      (run : Run (isNumeral .decimal) body tail) :
      Reads first body tail (.number .decimal) (String.ofList (first :: body))
  | hexadecimal {first : Char} {body tail : List Char}
      (digit : Character.isHexadecimalDigit first = true)
      (run : Run (isNumeral .hexadecimal) body tail) :
      Reads '$' (first :: body) tail (.number .hexadecimal) (String.ofList (first :: body))
  | dollar {tail : List Char} (stops : Stops Character.isHexadecimalDigit tail) :
      Reads '$' [] tail (.operator .dollar) "$"
  | quaternary {body tail : List Char} (run : Run (isNumeral .quaternary) body tail) :
      Reads '%' ('%' :: body) tail (.number .quaternary) (String.ofList body)
  | moduloAssign {tail : List Char} : Reads '%' ['='] tail (.operator .moduloAssign) "%="
  | binary {first : Char} {body tail : List Char} (digit : Character.isBinaryDigit first = true)
      (run : Run (isNumeral .binary) body tail) :
      Reads '%' (first :: body) tail (.number .binary) (String.ofList (first :: body))
  | modulo {tail : List Char} (stops : Stops joinsPercent tail) :
      Reads '%' [] tail (.operator .modulo) "%"
  | string {body decoded tail : List Char} (quoted : Quotation.Quoted body decoded) :
      Reads '"' body tail .string (String.ofList decoded)
  | lineComment {body tail : List Char} (plain : Stops Character.isLineCommentStart body)
      (run : Run isOnLine body tail) : Reads '\'' body tail .comment (String.ofList body)
  | lineDoc {body tail : List Char} (run : Run isOnLine body tail) :
      Reads '\'' ('\'' :: body) tail .docComment (String.ofList body)
  | blockComment {body tail : List Char} (plain : Stops Character.isBlockCommentStart body)
      (inside : ∀ c ∈ body, Character.isBlockCommentEnd c = false) :
      Reads '\x7b' (body ++ ['\x7d']) tail .comment (String.ofList body)
  | blockDoc {body tail : List Char}
      (inside : ∀ c ∈ body, Character.isBlockCommentEnd c = false) :
      Reads '\x7b' ('\x7b' :: (body ++ ['\x7d', '\x7d'])) tail .docComment (String.ofList body)
  | pair {first second : Char} {tail : List Char} {operator : Operator}
      (found : Operator.pair? first second = some operator) :
      Reads first [second] tail (.operator operator) (String.ofList [first, second])
  | single {first : Char} {tail : List Char} {operator : Operator}
      (found : Operator.single? first = some operator) (stops : Stops (joins first) tail) :
      Reads first [] tail (.operator operator) (String.ofList [first])

/-- A lexeme found by the rules at the front of `first :: rest`. -/
def Found (first : Char) (rest : List Char) (lexeme : Lexeme) : Prop :=
  ∃ body tail, rest = body ++ tail ∧ lexeme.length = body.length ∧
    Reads first body tail lexeme.kind lexeme.text

theorem Found.of_run (within : Char → Bool) {first : Char} {rest : List Char} {kind : Kind}
    {text : String}
    (reads : Reads first (rest.takeWhile within) (rest.dropWhile within) kind text) :
    Found first rest ⟨kind, text, (rest.takeWhile within).length⟩ :=
  ⟨_, _, List.takeWhile_append_dropWhile.symm, rfl, reads⟩

theorem Found.behind_run {within : Char → Bool} {first second : Char} {rest : List Char}
    {kind : Kind} {text : String}
    (reads : Reads first (second :: rest.takeWhile within) (rest.dropWhile within) kind text) :
    Found first (second :: rest) ⟨kind, text, (rest.takeWhile within).length + 1⟩ :=
  ⟨_, _, by rw [List.cons_append, List.takeWhile_append_dropWhile], rfl, reads⟩

theorem Found.alone {first : Char} {rest : List Char} {kind : Kind} {text : String}
    (reads : Reads first [] rest kind text) : Found first rest ⟨kind, text, 0⟩ :=
  ⟨[], rest, rfl, rfl, reads⟩

theorem blanks_found {first : Char} (rest : List Char) (blank : Character.isSpace first = true) :
    Found first rest (blanks first rest) :=
  .of_run _ (.blanks blank (.of_takeWhile _ rest))

theorem word_found {first : Char} (rest : List Char)
    (start : Character.isIdentifierStart first = true) : Found first rest (word first rest) :=
  .of_run _ (.word start (.of_takeWhile _ rest))

theorem decimal_found {first : Char} (rest : List Char)
    (digit : Character.isDecimalDigit first = true) :
    Found first rest (number .decimal first rest) :=
  .of_run _ (.decimal digit (.of_takeWhile _ rest))

theorem dollar_found (rest : List Char) : Found '$' rest (dollar rest) := by
  unfold dollar
  split
  · rename_i c more
    split
    · rename_i digit
      exact .behind_run (.hexadecimal digit (.of_takeWhile _ more))
    · rename_i digit
      refine .alone (.dollar ?_)
      simpa [Stops] using digit
  · exact .alone (.dollar (by simp [Stops]))

theorem percent_found (rest : List Char) : Found '%' rest (percent rest) := by
  unfold percent
  split
  · rename_i more
    exact .behind_run (.quaternary (.of_takeWhile _ more))
  · rename_i more
    exact ⟨['='], more, rfl, rfl, .moduloAssign⟩
  · rename_i c more notPercent notAssign
    split
    · rename_i digit
      exact .behind_run (.binary digit (.of_takeWhile _ more))
    · rename_i digit
      refine .alone (.modulo ?_)
      have other : c ≠ '%' ∧ c ≠ '=' := ⟨notPercent, notAssign⟩
      simpa [Stops, joinsPercent, other] using digit
  · exact .alone (.modulo (by simp [Stops]))

theorem quotation_found {rest : List Char} (sound : (quotation rest).kind.isFault = false) :
    Found '"' rest (quotation rest) := by
  unfold quotation at sound ⊢
  dsimp only at sound ⊢
  split
  · rename_i closed
    obtain ⟨body, tail, parts, taken, quoted⟩ := Quotation.read_quoted closed
    exact ⟨body, tail, parts, taken, .string quoted⟩
  · rename_i unfinished
    simp [unfinished, Kind.isFault] at sound
  · rename_i illegal
    simp [illegal, Kind.isFault] at sound

theorem quoteComment_found (rest : List Char) : Found '\'' rest (quoteComment rest) := by
  unfold quoteComment
  split
  · exact .of_run isOnLine (.lineComment (by simp [Stops]) ⟨by simp, by simp [Stops]⟩)
  · rename_i c more
    split
    · rename_i mark
      have mark : c = '\'' := by simpa [Character.isLineCommentStart] using mark
      subst mark
      exact .behind_run (.lineDoc (.of_takeWhile isOnLine more))
    · rename_i mark
      refine .of_run isOnLine (.lineComment ?_ (.of_takeWhile isOnLine (c :: more)))
      intro d front
      rw [List.takeWhile_cons] at front
      split at front
      · simp only [List.head?_cons, Option.mem_def, Option.some.injEq] at front
        subst front
        simpa using mark
      · simp at front

theorem commentBody_end {rest tail : List Char} {c : Char}
    (behind : rest.drop (commentBody rest).length = c :: tail) :
    rest = commentBody rest ++ '\x7d' :: tail := by
  have run := Run.of_takeWhile (fun c => !Character.isBlockCommentEnd c) rest
  unfold commentBody at behind ⊢
  rw [drop_takeWhile] at behind
  have closes := run.stops c (by simp [behind])
  have brace : c = '\x7d' := by simpa [Character.isBlockCommentEnd] using closes
  rw [← brace, ← behind, List.takeWhile_append_dropWhile]

theorem commentBody_inside (rest : List Char) :
    ∀ c ∈ commentBody rest, Character.isBlockCommentEnd c = false := by
  intro c member
  simpa using List.mem_takeWhile_imp member

theorem blockComment_found {rest : List Char} (plain : Stops Character.isBlockCommentStart rest)
    (sound : (blockComment rest).kind.isFault = false) :
    Found '\x7b' rest (blockComment rest) := by
  unfold blockComment at sound ⊢
  dsimp only at sound ⊢
  split
  · rename_i missing
    simp [missing, Kind.isFault] at sound
  · rename_i c tail behind
    have parts := commentBody_end behind
    refine ⟨commentBody rest ++ ['\x7d'], tail, ?_, by simp,
      .blockComment ?_ (commentBody_inside rest)⟩
    · rw [List.append_assoc]
      exact parts
    · intro d front
      refine plain d ?_
      rw [parts]
      cases body : commentBody rest with
      | nil => simp [body] at front
      | cons first more =>
          rw [body] at front
          exact front

theorem blockDocComment_found {rest : List Char}
    (sound : (blockDocComment rest).kind.isFault = false) :
    Found '\x7b' ('\x7b' :: rest) ((blockDocComment rest).behind 1) := by
  unfold blockDocComment at sound ⊢
  dsimp only at sound ⊢
  split
  · rename_i c d tail closing
    have parts := commentBody_end closing
    simp only [closing] at sound
    split
    · rename_i closes
      have brace : d = '\x7d' := by simpa [Character.isBlockCommentEnd] using closes
      subst brace
      refine ⟨'\x7b' :: (commentBody rest ++ ['\x7d', '\x7d']), tail, ?_, by simp [behind],
        .blockDoc (commentBody_inside rest)⟩
      rw [List.cons_append, List.append_assoc]
      exact congrArg _ parts
    · rename_i closes
      simp [closes, Kind.isFault] at sound
  · rename_i short
    split at sound
    · rename_i c d tail closing
      exact absurd closing (short c d tail)
    · simp [Kind.isFault] at sound

theorem braceComment_found {rest : List Char} (sound : (braceComment rest).kind.isFault = false) :
    Found '\x7b' rest (braceComment rest) := by
  unfold braceComment at sound ⊢
  split
  · exact blockComment_found (by simp [Stops]) sound
  · rename_i c more
    split
    · rename_i mark
      have mark : c = '\x7b' := by simpa [Character.isBlockCommentStart] using mark
      subst mark
      simp only [Character.isBlockCommentStart, BEq.rfl, if_true] at sound
      exact blockDocComment_found sound
    · rename_i mark
      simp only [mark] at sound
      exact blockComment_found (by simpa [Stops] using mark) sound

theorem loneSymbol_found {first : Char} {rest : List Char} (stops : Stops (joins first) rest)
    (sound : (loneSymbol first).kind.isFault = false) : Found first rest (loneSymbol first) := by
  unfold loneSymbol at sound ⊢
  split
  · rename_i operator found
    exact .alone (.single found stops)
  · rename_i missing
    simp [missing, Kind.isFault] at sound

theorem symbol_found {first : Char} {rest : List Char}
    (sound : (symbol first rest).kind.isFault = false) : Found first rest (symbol first rest) := by
  unfold symbol at sound ⊢
  split
  · exact loneSymbol_found (by simp [Stops]) sound
  · rename_i second more
    split
    · rename_i operator found
      exact ⟨[second], more, rfl, rfl, .pair found⟩
    · rename_i missing
      simp only [missing] at sound
      exact loneSymbol_found (by simp [Stops, joins, missing]) sound

/-- Scanning finds a lexeme by the rules, or a fault. -/
theorem scan_found {first : Char} {rest : List Char}
    (sound : (scan first rest).kind.isFault = false) : Found first rest (scan first rest) := by
  unfold scan at sound ⊢
  split_ifs at sound ⊢ with newline blank start digit dollar percent quote mark brace
  · have newline : first = '\n' := by simpa [Character.isNewline] using newline
    subst newline
    exact .alone .newline
  · exact blanks_found rest blank
  · exact word_found rest start
  · exact decimal_found rest digit
  · subst dollar
    exact dollar_found rest
  · subst percent
    exact percent_found rest
  · subst quote
    exact quotation_found sound
  · have mark : first = '\'' := by simpa [Character.isLineCommentStart] using mark
    subst mark
    exact quoteComment_found rest
  · have brace : first = '\x7b' := by simpa [Character.isBlockCommentStart] using brace
    subst brace
    exact braceComment_found sound
  · exact symbol_found sound

/-- The characters that open an operator by the tables, or nothing at all. -/
def opensSymbol (c : Char) : Bool :=
  !(Character.isNewline c || Character.isSpace c || Character.isIdentifierStart c ||
    Character.isDecimalDigit c || c == '$' || c == '%' || c == '"' ||
    Character.isLineCommentStart c || Character.isBlockCommentStart c)

theorem mem_of_lookup {α β : Type} [BEq α] [LawfulBEq α] {table : List (α × β)} {key : α}
    {value : β} (found : table.lookup key = some value) : (key, value) ∈ table := by
  obtain ⟨before, behind, parts, _⟩ := List.lookup_eq_some_iff.mp found
  rw [parts]
  simp

theorem single?_opensSymbol {c : Char} {operator : Operator}
    (found : Operator.single? c = some operator) : opensSymbol c = true := by
  have every : ∀ entry ∈ Operator.singles, opensSymbol entry.1 = true := by decide
  exact every (c, operator) (mem_of_lookup found)

theorem pair?_opensSymbol {first second : Char} {operator : Operator}
    (found : Operator.pair? first second = some operator) :
    opensSymbol first = true ∧ opensSymbol second = true := by
  have every : ∀ entry ∈ Operator.pairs,
      opensSymbol entry.1.1 = true ∧ opensSymbol entry.1.2 = true := by decide
  exact every ((first, second), operator) (mem_of_lookup found)

theorem scan_symbol {first : Char} (rest : List Char) (opens : opensSymbol first = true) :
    scan first rest = symbol first rest := by
  simp only [opensSymbol, Bool.not_eq_true', Bool.or_eq_false_iff, beq_eq_false_iff_ne] at opens
  simp [scan, opens]

theorem scan_blanks {first : Char} (rest : List Char) (blank : Character.isSpace first = true) :
    scan first rest = blanks first rest := by
  have inline : Character.isNewline first = false := by
    simp only [Character.isSpace, Bool.or_eq_true, beq_iff_eq] at blank
    rcases blank with rfl | rfl <;> rfl
  simp [scan, inline, blank]

theorem ne_of_within {within : Char → Bool} {c d : Char} (inside : within c = true)
    (outside : within d = false) : c ≠ d := by
  rintro rfl
  rw [inside] at outside
  contradiction

theorem scan_word {first : Char} (rest : List Char)
    (start : Character.isIdentifierStart first = true) : scan first rest = word first rest := by
  have newline : first ≠ '\n' := ne_of_within start (by decide)
  have space : first ≠ ' ' := ne_of_within start (by decide)
  have tab : first ≠ '\t' := ne_of_within start (by decide)
  simp [scan, Character.isNewline, Character.isSpace, newline, space, tab, start]

theorem identifierStart_of_digit {c : Char} (digit : Character.isDecimalDigit c = true) :
    Character.isIdentifierStart c = false := by
  have underscore : c ≠ '_' := ne_of_within digit (by decide)
  simp [Character.isIdentifierStart, Character.isAlpha_of_isDigit digit, underscore]

theorem scan_decimal {first : Char} (rest : List Char)
    (digit : Character.isDecimalDigit first = true) :
    scan first rest = number .decimal first rest := by
  have newline : first ≠ '\n' := ne_of_within digit (by decide)
  have space : first ≠ ' ' := ne_of_within digit (by decide)
  have tab : first ≠ '\t' := ne_of_within digit (by decide)
  simp [scan, Character.isNewline, Character.isSpace, newline, space, tab, digit,
    identifierStart_of_digit digit]

theorem number_run {radix : Radix} {body tail : List Char} (first : Char)
    (run : Run (isNumeral radix) body tail) :
    number radix first (body ++ tail) =
      ⟨.number radix, String.ofList (first :: body), body.length⟩ := by
  have more : digits radix (body ++ tail) = body := run.takeWhile
  rw [number, more]

theorem dollar_stop {tail : List Char} (stops : Stops Character.isHexadecimalDigit tail) :
    dollar tail = ⟨.operator .dollar, "$", 0⟩ := by
  cases tail with
  | nil => rfl
  | cons c rest =>
      have other : Character.isHexadecimalDigit c = false := stops c (by simp)
      simp [dollar, other]

theorem percent_binary {c : Char} {rest : List Char} (digit : Character.isBinaryDigit c = true) :
    percent (c :: rest) = (number .binary c rest).behind 1 := by
  simp only [Character.isBinaryDigit, Bool.or_eq_true, beq_iff_eq] at digit
  rcases digit with rfl | rfl <;> rfl

theorem percent_stop {tail : List Char} (stops : Stops joinsPercent tail) :
    percent tail = ⟨.operator .modulo, "%", 0⟩ := by
  cases tail with
  | nil => rfl
  | cons c rest =>
      have other : joinsPercent c = false := stops c (by simp)
      simp only [joinsPercent, Bool.or_eq_false_iff, beq_eq_false_iff_ne] at other
      unfold percent
      split
      · simp_all
      · simp_all
      · simp_all
      · rfl

theorem lineComment_run {body tail : List Char} (kind : Kind) (run : Run isOnLine body tail) :
    lineComment kind (body ++ tail) = ⟨kind, String.ofList body, body.length⟩ := by
  have same : (body ++ tail).takeWhile (fun c => !Character.isNewline c) = body := run.takeWhile
  simp only [lineComment, same]

theorem quoteComment_plain {rest : List Char} (plain : Stops Character.isLineCommentStart rest) :
    quoteComment rest = lineComment .comment rest := by
  cases rest with
  | nil => rfl
  | cons c more =>
      have other : Character.isLineCommentStart c = false := plain c (by simp)
      simp [quoteComment, other]

theorem commentBody_append {body tail : List Char}
    (inside : ∀ c ∈ body, Character.isBlockCommentEnd c = false) :
    commentBody (body ++ '\x7d' :: tail) = body := by
  refine Run.takeWhile ⟨?_, ?_⟩
  · intro c member
    simp [inside c member]
  · intro c front
    simp only [List.head?_cons, Option.mem_def, Option.some.injEq] at front
    subst front
    rfl

theorem blockComment_append {body tail : List Char}
    (inside : ∀ c ∈ body, Character.isBlockCommentEnd c = false) :
    blockComment (body ++ '\x7d' :: tail) =
      ⟨.comment, String.ofList body, body.length + 1⟩ := by
  simp [blockComment, commentBody_append inside]

theorem braceComment_plain {rest : List Char} (plain : Stops Character.isBlockCommentStart rest) :
    braceComment rest = blockComment rest := by
  cases rest with
  | nil => rfl
  | cons c more =>
      have other : Character.isBlockCommentStart c = false := plain c (by simp)
      simp [braceComment, other]

theorem loneSymbol_single {first : Char} {operator : Operator}
    (found : Operator.single? first = some operator) :
    loneSymbol first = ⟨.operator operator, String.ofList [first], 0⟩ := by
  simp only [loneSymbol, found]

theorem symbol_stop {first : Char} {tail : List Char} (stops : Stops (joins first) tail) :
    symbol first tail = loneSymbol first := by
  cases tail with
  | nil => rfl
  | cons c rest =>
      have other : joins first c = false := stops c (by simp)
      simp only [joins, Option.isSome_eq_false_iff, Option.isNone_iff_eq_none] at other
      simp only [symbol, other]

/-- Scanning finds no other lexeme than the one the rules give. -/
theorem Reads.scan_eq {first : Char} {body tail : List Char} {kind : Kind} {text : String}
    (reads : Reads first body tail kind text) :
    scan first (body ++ tail) = ⟨kind, text, body.length⟩ := by
  cases reads with
  | newline => rfl
  | blanks blank run => rw [scan_blanks _ blank, Lexeme.blanks, run.takeWhile]
  | word start run =>
      rw [scan_word _ start, Lexeme.word, run.takeWhile]
      rfl
  | decimal digit run => rw [scan_decimal _ digit, number_run first run]
  | @hexadecimal c body tail digit run =>
      change Lexeme.dollar (c :: (body ++ tail)) = _
      rw [Lexeme.dollar, if_pos digit, number_run c run]
      rfl
  | dollar stops => exact dollar_stop stops
  | @quaternary body tail run =>
      have more : digits .quaternary (body ++ tail) = body := run.takeWhile
      change percent ('%' :: (body ++ tail)) = _
      rw [Lexeme.percent, more]
      rfl
  | moduloAssign => rfl
  | @binary c body tail digit run =>
      change percent (c :: (body ++ tail)) = _
      rw [percent_binary digit, number_run c run]
      rfl
  | modulo stops => exact percent_stop stops
  | string quoted =>
      change quotation _ = _
      simp only [quotation, quoted.read_append]
  | lineComment plain run =>
      change quoteComment _ = _
      rw [quoteComment_plain (plain.append_of (run.stops.of_onLine rfl)), lineComment_run _ run]
  | @lineDoc body tail run =>
      change (Lexeme.lineComment .docComment (body ++ tail)).behind 1 = _
      rw [lineComment_run _ run]
      rfl
  | @blockComment body tail plain inside =>
      have closing : Stops Character.isBlockCommentStart ('\x7d' :: tail) := by
        simp [Stops, Character.isBlockCommentStart]
      change braceComment (body ++ ['\x7d'] ++ tail) = _
      rw [List.append_assoc, List.singleton_append, braceComment_plain (plain.append_of closing),
        blockComment_append inside, List.length_append]
      rfl
  | @blockDoc body tail inside =>
      change (blockDocComment (body ++ ['\x7d', '\x7d'] ++ tail)).behind 1 = _
      rw [List.append_assoc]
      simp [blockDocComment, commentBody_append inside, Character.isBlockCommentEnd, behind]
  | pair found =>
      rw [scan_symbol _ (pair?_opensSymbol found).1]
      simp [symbol, found]
  | single found stops =>
      rw [scan_symbol _ (single?_opensSymbol found), List.nil_append, symbol_stop stops,
        loneSymbol_single found]
      rfl

end Lexeme

end SpinBlocks
