import SpinBlocks.Proofs.Lexical.Faults
import SpinBlocks.Proofs.Tiling

namespace SpinBlocks

/-! Every token is decided by the text in front of it alone.

The lexer keeps a region and a layout, but they only add marks that cover
nothing. Without those its tokens are what the rules for lexemes and faults cut
off the text one after the other.
-/

/-- A token without the region it belongs to. -/
structure Piece where
  kind : Kind
  text : String
  start : Position
  stop : Nat
deriving Repr, DecidableEq

def Token.piece (token : Token) : Piece :=
  ⟨token.kind, token.text, ⟨token.span.start, token.line, token.column⟩, token.span.stop⟩

/-- The rules cut a text that begins at `start` into `pieces`. -/
inductive Scans : Position → List Char → List Piece → Prop
  | nil {start : Position} : Scans start [] []
  | cons {start : Position} {first : Char} {body tail : List Char} {kind : Kind} {text : String}
      {pieces : List Piece}
      (rule : Lexeme.Reads first body tail kind text ∨ Lexeme.Fails first body tail kind text)
      (more : Scans (start.advanceAll (first :: body)) tail pieces) :
      Scans start (first :: (body ++ tail))
        (⟨kind, text, start, (start.advanceAll (first :: body)).offset⟩ :: pieces)

theorem Lexeme.exists_rule (first : Char) (rest : List Char) :
    ∃ body tail kind text, rest = body ++ tail ∧
      (Reads first body tail kind text ∨ Fails first body tail kind text) := by
  cases fault : (scan first rest).kind.isFault with
  | false =>
      obtain ⟨body, tail, parts, _, reads⟩ := scan_found fault
      exact ⟨body, tail, _, _, parts, .inl reads⟩
  | true =>
      obtain ⟨body, tail, parts, _, fails⟩ := scan_failed fault
      exact ⟨body, tail, _, _, parts, .inr fails⟩

theorem exists_scans (start : Position) (text : List Char) : ∃ pieces, Scans start text pieces := by
  induction length : text.length using Nat.strongRecOn generalizing start text with
  | _ count ih =>
      cases text with
      | nil => exact ⟨[], .nil⟩
      | cons first rest =>
          obtain ⟨body, tail, kind, shown, rfl, rule⟩ := Lexeme.exists_rule first rest
          have shorter : tail.length < count := by
            rw [← length, List.length_cons, List.length_append]
            omega
          obtain ⟨pieces, more⟩ :=
            ih tail.length shorter (start.advanceAll (first :: body)) tail rfl
          exact ⟨_, .cons rule more⟩

namespace Lexer

variable {lexer : Lexer}

/-- The pieces that a run cuts off its text. -/
def pieces (lexer : Lexer) : List Piece :=
  (lexer.steps.filter fun step => !step.covered.isEmpty).map (·.token.piece)

theorem pieces_nil (atEnd : lexer.reader.rest = []) : lexer.pieces = [] := by
  have covered := lexer.covered_flatten
  rw [atEnd, List.flatten_eq_nil_iff] at covered
  have none : (lexer.steps.filter fun step => !step.covered.isEmpty) = [] := by
    refine List.filter_eq_nil_iff.mpr fun step member => ?_
    simp [covered step.covered (List.mem_map_of_mem member)]
  rw [pieces, none, List.map_nil]

theorem stepAt_piece {first : Char} {body tail : List Char} {kind : Kind} {text : String}
    (next : lexer.reader.rest = first :: (body ++ tail))
    (found : Lexeme.scan first (body ++ tail) = ⟨kind, text, body.length⟩) :
    let step := lexer.stepAt first (body ++ tail)
    step.covered = first :: body ∧ step.after.reader.rest = tail ∧
      step.after.position = lexer.position.advanceAll (first :: body) ∧
      step.token.piece = ⟨kind, text, lexer.position, step.after.position.offset⟩ := by
  intro step
  have same : step = _ := stepAt_eq lexer first (body ++ tail)
  simp only [found, List.take_left] at same
  rw [same]
  refine ⟨rfl, ?_, ?_, rfl⟩
  · simp [Reader.skip, next]
  · simp [Lexer.position, Reader.skip, next]

theorem pieces_cons {first : Char} {body tail : List Char} {kind : Kind} {text : String}
    (next : lexer.reader.rest = first :: (body ++ tail))
    (found : Lexeme.scan first (body ++ tail) = ⟨kind, text, body.length⟩) :
    ∃ after : Lexer, after.reader.rest = tail ∧
      after.position = lexer.position.advanceAll (first :: body) ∧
      lexer.pieces = ⟨kind, text, lexer.position, after.position.offset⟩ :: after.pieces := by
  obtain ⟨shifts, settled, settles⟩ := Layout.exists_settles first lexer.layout
  obtain ⟨marks, steps, _, silent⟩ := steps_settles next settles
  obtain ⟨covered, behind, place, shown⟩ :=
    @stepAt_piece { lexer with layout := settled } first body tail kind text next found
  refine ⟨_, behind, place, ?_⟩
  have hidden : (marks.filter fun step => !step.covered.isEmpty) = [] := by
    refine List.filter_eq_nil_iff.mpr fun step member => ?_
    simp [silent step member]
  rw [pieces, steps, List.filter_append, hidden, List.nil_append,
    List.filter_cons_of_pos (by simp [covered]), List.map_cons, shown]
  rfl

theorem pieces_eq {start : Position} {text : List Char} {pieces : List Piece}
    (scans : Scans start text pieces) (next : lexer.reader.rest = text)
    (place : lexer.position = start) : lexer.pieces = pieces := by
  induction scans generalizing lexer with
  | nil => exact pieces_nil next
  | @cons start first body tail kind text pieces rule more ih =>
      have found : Lexeme.scan first (body ++ tail) = ⟨kind, text, body.length⟩ :=
        rule.elim (·.scan_eq) (·.scan_eq)
      obtain ⟨after, behind, reached, cut⟩ := pieces_cons next found
      rw [place] at reached
      rw [cut, ih behind reached, reached, place]

end Lexer

theorem map_piece_tokens (source : String) :
    ((tokens source).filter (!·.span.isEmpty)).map (·.piece) = (Lexer.ofString source).pieces := by
  rw [tokens, List.filter_map, List.map_map, Lexer.pieces]
  refine congrArg _ (List.filter_congr fun step member => ?_)
  exact congrArg _ (Lexer.isEmpty_span member)

theorem Keyword.ofSpelling?_eq_some {text : String} {word : Keyword} :
    ofSpelling? text = some word ↔ word.spelling = text := by
  have blocks : ∀ kind ∈ BlockKind.all, ofSpelling? kind.spelling = some (.block kind) := by
    decide +kernel
  have words : ∀ spelling ∈ vocabulary, ∀ kind ∈ BlockKind.all, kind.spelling ≠ spelling := by
    decide +kernel
  constructor
  · intro found
    unfold ofSpelling? at found
    split at found
    · rename_i kind first
      obtain rfl := Option.some.inj found
      have same : kind.spelling = text := by simpa using List.find?_some first
      exact same
    · split at found
      · obtain rfl := Option.some.inj found
        rfl
      · cases found
  · rintro rfl
    cases word with
    | block kind => exact blocks kind (by cases kind <;> decide)
    | word spelling reserved =>
        have other : BlockKind.all.find? (·.spelling == spelling) = none :=
          List.find?_eq_none.mpr fun kind member => by
            simpa using words spelling reserved kind member
        simp [ofSpelling?, Keyword.spelling, other, reserved]

theorem Lexeme.wordKind_eq_keyword {letters : List Char} {word : Keyword} :
    wordKind letters = .keyword word ↔
      word.spelling = String.ofList (letters.map Char.toUpper) := by
  rw [← Keyword.ofSpelling?_eq_some, wordKind, keyword?]
  split <;> simp_all

theorem Lexeme.wordKind_eq_identifier {letters : List Char} :
    wordKind letters = .identifier ↔
      ∀ word : Keyword, word.spelling ≠ String.ofList (letters.map Char.toUpper) := by
  simp only [Ne, ← wordKind_eq_keyword]
  rcases wordKind_cases letters with ⟨word, kind⟩ | kind <;> simp [kind]

theorem Operator.pair?_eq_some {first second : Char} {operator : Operator} :
    pair? first second = some operator ↔ ((first, second), operator) ∈ pairs := by
  have every : ∀ entry ∈ pairs, pair? entry.1.1 entry.1.2 = some entry.2 := by decide
  exact ⟨Lexeme.mem_of_lookup, every _⟩

theorem Operator.single?_eq_some {character : Char} {operator : Operator} :
    single? character = some operator ↔ (character, operator) ∈ singles := by
  have every : ∀ entry ∈ singles, single? entry.1 = some entry.2 := by decide
  exact ⟨Lexeme.mem_of_lookup, every _⟩

/-- The tokens that cover anything are those that the rules cut off the text. A
word is reserved just if it spells a keyword in upper case, and operators are
those of the tables. -/
theorem tokens_scanned (source : String) :
    (∀ pieces, Scans .start source.toList pieces ↔
      pieces = ((tokens source).filter (!·.span.isEmpty)).map (·.piece)) ∧
    (∀ letters : List Char,
      (∀ word, Lexeme.wordKind letters = .keyword word ↔
        word.spelling = String.ofList (letters.map Char.toUpper)) ∧
      (Lexeme.wordKind letters = .identifier ↔
        ∀ word : Keyword, word.spelling ≠ String.ofList (letters.map Char.toUpper))) ∧
    (∀ first second operator, Operator.pair? first second = some operator ↔
      ((first, second), operator) ∈ Operator.pairs) ∧
    ∀ character operator, Operator.single? character = some operator ↔
      (character, operator) ∈ Operator.singles := by
  refine ⟨fun pieces => ?_, fun letters => ⟨fun word => Lexeme.wordKind_eq_keyword,
    Lexeme.wordKind_eq_identifier⟩, fun _ _ _ => Operator.pair?_eq_some,
    fun _ _ => Operator.single?_eq_some⟩
  rw [map_piece_tokens]
  constructor
  · intro scans
    exact (Lexer.pieces_eq scans rfl rfl).symm
  · rintro rfl
    obtain ⟨pieces, scans⟩ := exists_scans .start source.toList
    have same : (Lexer.ofString source).pieces = pieces := Lexer.pieces_eq scans rfl rfl
    rwa [same]

end SpinBlocks
