import SpinBlocks.Proofs.Lexical.Shape

namespace SpinBlocks.Lexeme

/-! The rules by which a text goes wrong.

A fault takes a stretch of the text as a lexeme does: one character that opens
nothing, a comment without its end, or a string up to where it breaks off. With
the rules for lexemes these rules leave no text out, and no two of them give
different answers.
-/

namespace Quotation

/-- What may follow an opening quote if the string goes on with `tail`. -/
inductive Items : List Char → List Char → Prop
  | nil {tail : List Char} : Items [] tail
  | plain {c : Char} {body tail : List Char} (unquoted : c ≠ '"') (unescaped : c ≠ '\\')
      (more : Items body tail) : Items (c :: body) tail
  | escape {letter c : Char} {body tail : List Char} (short : (letter, c) ∈ shortEscapes)
      (more : Items body tail) : Items ('\\' :: letter :: body) tail
  | code {digit c : Char} {digits body tail : List Char}
      (first : Character.isDecimalDigit digit = true)
      (run : Run Character.isDecimalDigit digits (body ++ tail))
      (value : decode? (digit :: digits) = some c) (more : Items body tail) :
      Items ('\\' :: digit :: (digits ++ body)) tail

/-- How a string breaks off without its closing quote. -/
inductive Flaw : List Char → List Char → Ending → Prop
  | unfinished : Flaw [] [] .unfinished
  | cut : Flaw ['\\'] [] .unfinished
  | unknown {c : Char} {tail : List Char} (long : ∀ entry ∈ shortEscapes, entry.1 ≠ c)
      (word : Character.isDecimalDigit c = false) : Flaw ['\\', c] tail (.illegal [c])
  | code {digit : Char} {digits tail : List Char}
      (first : Character.isDecimalDigit digit = true)
      (run : Run Character.isDecimalDigit digits tail)
      (missing : decode? (digit :: digits) = none) :
      Flaw ('\\' :: digit :: digits) tail (.illegal (digit :: digits))

theorem Items.read_append {body tail : List Char} (items : Items body tail) :
    (read (body ++ tail)).ending = (read tail).ending ∧
      (read (body ++ tail)).length = body.length + (read tail).length := by
  induction items with
  | nil => simp
  | @plain c body tail unquoted unescaped more ih =>
      rw [List.cons_append, read_character (Item.read_plain _ unquoted unescaped)]
      refine ⟨ih.1, ?_⟩
      simp only [List.drop_succ_cons, List.drop_zero, ih.2, List.length_cons]
      omega
  | @escape letter c body tail short more ih =>
      rw [List.cons_append, List.cons_append, read_character (Item.read_short _ short)]
      refine ⟨ih.1, ?_⟩
      simp only [List.drop_succ_cons, List.drop_zero, ih.2, List.length_cons]
      omega
  | @code digit c digits body tail first run value more ih =>
      rw [List.cons_append, List.cons_append, List.append_assoc,
        read_character (Item.read_code first run value)]
      simp only [List.drop_succ_cons, List.drop_left, ih, List.length_cons, List.length_append,
        true_and]
      omega

theorem Item.escape_unknown {c : Char} (rest : List Char)
    (long : ∀ entry ∈ shortEscapes, entry.1 ≠ c) (word : Character.isDecimalDigit c = false) :
    Item.escape (c :: rest) = .ending (.illegal [c]) 2 := by
  simp only [shortEscapes, List.forall_mem_cons, List.not_mem_nil, false_implies, implies_true,
    and_true] at long
  obtain ⟨notFeed, notTab, notQuote⟩ := long
  unfold Item.escape
  split <;> simp_all

theorem Flaw.read {taken tail : List Char} {ending : Ending} (flaw : Flaw taken tail ending) :
    Item.read (taken ++ tail) = .ending ending taken.length := by
  cases flaw with
  | unfinished => rfl
  | cut => rfl
  | unknown long word => exact Item.escape_unknown tail long word
  | @code digit digits tail first run missing =>
      change Item.escape (digit :: (digits ++ tail)) = _
      rw [Item.escape_digit _ first, run.takeWhile, Item.ofCode, missing]
      rfl

theorem Item.escape_flaw {rest : List Char} {ending : Ending} {length : Nat}
    (found : Item.escape rest = .ending ending length) :
    ∃ taken tail, '\\' :: rest = taken ++ tail ∧ length = taken.length ∧
      Flaw taken tail ending := by
  unfold Item.escape at found
  split at found
  case h_1 =>
    cases found
    exact ⟨['\\'], [], rfl, rfl, .cut⟩
  case h_2 => cases found
  case h_3 => cases found
  case h_4 => cases found
  case h_5 c more notFeed notTab notQuote =>
    split at found
    · rename_i digit
      have run := Run.of_takeWhile Character.isDecimalDigit more
      unfold Item.ofCode at found
      split at found
      · cases found
      · rename_i missing
        cases found
        refine ⟨'\\' :: c :: more.takeWhile Character.isDecimalDigit, _, ?_, rfl,
          .code digit run missing⟩
        rw [List.cons_append, List.cons_append, List.takeWhile_append_dropWhile]
    · rename_i word
      cases found
      refine ⟨['\\', c], more, rfl, rfl, .unknown ?_ (by simpa using word)⟩
      simp only [shortEscapes, List.forall_mem_cons, List.not_mem_nil, false_implies,
        implies_true, and_true]
      exact ⟨Ne.symm notFeed, Ne.symm notTab, Ne.symm notQuote⟩

theorem Item.read_flaw {input : List Char} {ending : Ending} {length : Nat}
    (found : Item.read input = .ending ending length) (broken : ending ≠ .closed) :
    ∃ taken tail, input = taken ++ tail ∧ length = taken.length ∧ Flaw taken tail ending := by
  unfold Item.read at found
  split at found
  · cases found
    exact ⟨[], [], rfl, rfl, .unfinished⟩
  · cases found
    contradiction
  · exact Item.escape_flaw found
  · cases found

/-- A string that is not closed goes on item by item up to its flaw. -/
theorem read_broken {input : List Char} (broken : (read input).ending ≠ .closed) :
    ∃ body taken tail, input = body ++ (taken ++ tail) ∧ Items body (taken ++ tail) ∧
      Flaw taken tail (read input).ending ∧ (read input).length = body.length + taken.length := by
  fun_induction read input with
  | case1 input c length found rest ih =>
      obtain ⟨body, taken, tail, parts, items, flaw, total⟩ := ih broken
      dsimp only
      rcases Item.read_cases found with ⟨more, rfl, unquoted, unescaped, rfl⟩ |
        ⟨letter, more, rfl, short, rfl⟩ | ⟨digit, more, rfl, first, value, rfl⟩
      · have split : more = body ++ (taken ++ tail) := parts
        refine ⟨c :: body, taken, tail, by rw [split, List.cons_append],
          .plain unquoted unescaped items, flaw, ?_⟩
        rw [total, List.length_cons]
        omega
      · have split : more = body ++ (taken ++ tail) := parts
        refine ⟨'\\' :: letter :: body, taken, tail, by rw [split]; rfl, .escape short items, flaw,
          ?_⟩
        rw [total, List.length_cons, List.length_cons]
        omega
      · have run := Run.of_takeWhile Character.isDecimalDigit more
        simp only [List.drop_succ_cons, drop_takeWhile] at parts
        rw [parts] at run
        refine ⟨'\\' :: digit :: (more.takeWhile Character.isDecimalDigit ++ body), taken, tail, ?_,
          .code first run value items, flaw, ?_⟩
        · rw [List.cons_append, List.cons_append, List.append_assoc, ← parts,
            List.takeWhile_append_dropWhile]
        · rw [total]
          simp only [List.length_cons, List.length_append]
          omega
  | case2 input ending length found =>
      obtain ⟨taken, tail, parts, rfl, flaw⟩ := Item.read_flaw found broken
      exact ⟨[], taken, tail, parts, .nil, flaw, by simp⟩

end Quotation

/-- `Fails first body tail kind text` says that the text `first :: body ++ tail`
begins with a fault that takes `first :: body`. -/
inductive Fails : Char → List Char → List Char → Kind → String → Prop
  | stray {first : Char} {tail : List Char} (opens : opensSymbol first = true)
      (unknown : Operator.single? first = none) (stops : Stops (joins first) tail) :
      Fails first [] tail .illegal (String.ofList [first])
  | openComment {body : List Char} (plain : Stops Character.isBlockCommentStart body)
      (inside : ∀ c ∈ body, Character.isBlockCommentEnd c = false) :
      Fails '\x7b' body [] .unexpectedEof ""
  | openDoc {body : List Char} (inside : ∀ c ∈ body, Character.isBlockCommentEnd c = false) :
      Fails '\x7b' ('\x7b' :: body) [] .illegal ""
  | cutDoc {body : List Char} (inside : ∀ c ∈ body, Character.isBlockCommentEnd c = false) :
      Fails '\x7b' ('\x7b' :: (body ++ ['\x7d'])) [] .illegal ""
  | halfDoc {body tail : List Char} {c : Char}
      (inside : ∀ c ∈ body, Character.isBlockCommentEnd c = false)
      (other : Character.isBlockCommentEnd c = false) :
      Fails '\x7b' ('\x7b' :: (body ++ ['\x7d', c])) tail .illegal (String.ofList [c])
  | openString {body taken tail : List Char} (items : Quotation.Items body (taken ++ tail))
      (flaw : Quotation.Flaw taken tail .unfinished) :
      Fails '"' (body ++ taken) tail .unexpectedEof ""
  | brokenString {body taken tail text : List Char} (items : Quotation.Items body (taken ++ tail))
      (flaw : Quotation.Flaw taken tail (.illegal text)) :
      Fails '"' (body ++ taken) tail .illegal (String.ofList text)

theorem commentBody_open {body : List Char}
    (inside : ∀ c ∈ body, Character.isBlockCommentEnd c = false) : commentBody body = body := by
  have all : ∀ c ∈ body, (!Character.isBlockCommentEnd c) = true := fun c member => by
    simp [inside c member]
  exact List.takeWhile_eq_self_iff.mpr all

theorem Fails.scan_eq {first : Char} {body tail : List Char} {kind : Kind} {text : String}
    (fails : Fails first body tail kind text) :
    scan first (body ++ tail) = ⟨kind, text, body.length⟩ := by
  cases fails with
  | stray opens unknown stops =>
      rw [scan_symbol _ opens, List.nil_append, symbol_stop stops]
      simp only [loneSymbol, unknown]
      rfl
  | openComment plain inside =>
      change braceComment (body ++ []) = _
      rw [List.append_nil, braceComment_plain plain]
      simp [blockComment, commentBody_open inside]
  | @openDoc body inside =>
      change (blockDocComment (body ++ [])).behind 1 = _
      simp [blockDocComment, commentBody_open inside, behind]
  | @cutDoc body inside =>
      change (blockDocComment (body ++ ['\x7d'] ++ [])).behind 1 = _
      simp [blockDocComment, commentBody_append inside, behind]
  | @halfDoc body tail c inside other =>
      change (blockDocComment (body ++ ['\x7d', c] ++ tail)).behind 1 = _
      rw [List.append_assoc]
      simp [blockDocComment, commentBody_append inside, other, behind]
  | @openString body taken tail items flaw =>
      change quotation (body ++ taken ++ tail) = _
      rw [List.append_assoc]
      obtain ⟨ending, total⟩ := items.read_append
      rw [Quotation.read_ending flaw.read] at ending total
      simp only [quotation, ending, total, List.length_append]
  | @brokenString body taken tail text items flaw =>
      change quotation (body ++ taken ++ tail) = _
      rw [List.append_assoc]
      obtain ⟨ending, total⟩ := items.read_append
      rw [Quotation.read_ending flaw.read] at ending total
      simp only [quotation, ending, total, List.length_append]

/-- A fault found by the rules at the front of `first :: rest`. -/
def Failed (first : Char) (rest : List Char) (lexeme : Lexeme) : Prop :=
  ∃ body tail, rest = body ++ tail ∧ lexeme.length = body.length ∧
    Fails first body tail lexeme.kind lexeme.text

theorem loneSymbol_failed {first : Char} {rest : List Char} (opens : opensSymbol first = true)
    (stops : Stops (joins first) rest) (fault : (loneSymbol first).kind.isFault = true) :
    Failed first rest (loneSymbol first) := by
  unfold loneSymbol at fault ⊢
  split
  · rename_i operator found
    simp [found, Kind.isFault] at fault
  · rename_i unknown
    exact ⟨[], rest, rfl, rfl, .stray opens unknown stops⟩

theorem symbol_failed {first : Char} {rest : List Char} (opens : opensSymbol first = true)
    (fault : (symbol first rest).kind.isFault = true) : Failed first rest (symbol first rest) := by
  unfold symbol at fault ⊢
  split
  · exact loneSymbol_failed opens (by simp [Stops]) fault
  · rename_i second more
    split
    · rename_i operator found
      simp [found, Kind.isFault] at fault
    · rename_i missing
      simp only [missing] at fault
      exact loneSymbol_failed opens (by simp [Stops, joins, missing]) fault

theorem quotation_failed {rest : List Char} (fault : (quotation rest).kind.isFault = true) :
    Failed '"' rest (quotation rest) := by
  have broken : (Quotation.read rest).ending ≠ .closed := by
    intro closed
    simp [quotation, closed, Kind.isFault] at fault
  obtain ⟨body, taken, tail, parts, items, flaw, total⟩ := Quotation.read_broken broken
  refine ⟨body ++ taken, tail, by rw [parts, List.append_assoc], ?_, ?_⟩
  · rw [List.length_append, ← total, quotation]
    split <;> rfl
  · unfold quotation
    dsimp only
    split
    · contradiction
    · rename_i unfinished
      rw [unfinished] at flaw
      exact .openString items flaw
    · rename_i text illegal
      rw [illegal] at flaw
      exact .brokenString items flaw

theorem commentBody_whole {rest : List Char} (missing : rest.drop (commentBody rest).length = []) :
    commentBody rest = rest := by
  have parts := List.takeWhile_append_dropWhile (p := fun c => !Character.isBlockCommentEnd c)
    (l := rest)
  unfold commentBody at missing ⊢
  rw [drop_takeWhile] at missing
  rwa [missing, List.append_nil] at parts

theorem blockComment_failed {rest : List Char} (plain : Stops Character.isBlockCommentStart rest)
    (fault : (blockComment rest).kind.isFault = true) :
    Failed '\x7b' rest (blockComment rest) := by
  unfold blockComment at fault ⊢
  dsimp only at fault ⊢
  split
  · rename_i missing
    have inside := commentBody_inside rest
    rw [commentBody_whole missing] at inside
    exact ⟨rest, [], by rw [List.append_nil], rfl, .openComment plain inside⟩
  · rename_i closing
    simp [closing, Kind.isFault] at fault

theorem blockDocComment_failed {rest : List Char}
    (fault : (blockDocComment rest).kind.isFault = true) :
    Failed '\x7b' ('\x7b' :: rest) ((blockDocComment rest).behind 1) := by
  have inside := commentBody_inside rest
  cases closing : rest.drop (commentBody rest).length with
  | nil =>
      rw [commentBody_whole closing] at inside
      refine ⟨'\x7b' :: rest, [], by rw [List.append_nil], ?_, ?_⟩
      · simp [blockDocComment, closing, behind]
      · simp only [blockDocComment, closing, behind]
        exact .openDoc inside
  | cons brace more =>
      have parts := commentBody_end closing
      cases more with
      | nil =>
          refine ⟨'\x7b' :: (commentBody rest ++ ['\x7d']), [], ?_, ?_, ?_⟩
          · rw [List.append_nil, ← parts]
          · simp only [blockDocComment, closing, behind, List.length_cons]
            rw [← parts]
          · simp only [blockDocComment, closing, behind]
            exact .cutDoc inside
      | cons c tail =>
          have other : Character.isBlockCommentEnd c = false := by
            cases closes : Character.isBlockCommentEnd c with
            | true => simp [blockDocComment, closing, closes, Kind.isFault] at fault
            | false => rfl
          refine ⟨'\x7b' :: (commentBody rest ++ ['\x7d', c]), tail, ?_, ?_, ?_⟩
          · rw [List.cons_append, List.append_assoc]
            exact congrArg _ parts
          · simp [blockDocComment, closing, other, behind]
          · simp only [blockDocComment, closing, other, behind]
            exact .halfDoc inside other

theorem braceComment_failed {rest : List Char} (fault : (braceComment rest).kind.isFault = true) :
    Failed '\x7b' rest (braceComment rest) := by
  unfold braceComment at fault ⊢
  split
  · exact blockComment_failed (by simp [Stops]) fault
  · rename_i c more
    split
    · rename_i mark
      have mark : c = '\x7b' := by simpa [Character.isBlockCommentStart] using mark
      subst mark
      exact blockDocComment_failed fault
    · rename_i mark
      simp only [mark] at fault
      exact blockComment_failed (by simpa [Stops] using mark) fault

theorem Found.isFault {first : Char} {rest : List Char} {lexeme : Lexeme}
    (found : Found first rest lexeme) : lexeme.kind.isFault = false := by
  obtain ⟨_, _, _, _, reads⟩ := found
  exact reads.isFault

/-- Scanning finds a fault by the rules, or a lexeme. -/
theorem scan_failed {first : Char} {rest : List Char}
    (fault : (scan first rest).kind.isFault = true) : Failed first rest (scan first rest) := by
  unfold scan at fault ⊢
  split_ifs at fault ⊢ with newline blank start digit dollar percent quote mark brace
  · cases fault
  · cases fault
  · have sound := (word_found rest start).isFault
    rw [sound] at fault
    cases fault
  · cases fault
  · rw [(dollar_found rest).isFault] at fault
    cases fault
  · rw [(percent_found rest).isFault] at fault
    cases fault
  · subst quote
    exact quotation_failed fault
  · rw [(quoteComment_found rest).isFault] at fault
    cases fault
  · have brace : first = '\x7b' := by simpa [Character.isBlockCommentStart] using brace
    subst brace
    exact braceComment_failed fault
  · refine symbol_failed ?_ fault
    simp [opensSymbol, newline, blank, start, digit, dollar, percent, quote, mark, brace]

end SpinBlocks.Lexeme
