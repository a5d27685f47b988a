import SpinBlocks.Command.Outcome
import SpinBlocks.Proofs.Placing
import SpinBlocks.Proofs.Rendering

namespace SpinBlocks

/-! Indentation is closed as often as it is opened.

Whatever is done with a lexer, the marks that it has given so far are worth the
levels that are open now. A token opens or closes a level only if the layout
does, so it is enough to look at one operation at a time.
-/

def indents (tokens : List Token) : Nat :=
  tokens.countP (·.kind == .indent)

def dedents (tokens : List Token) : Nat :=
  tokens.countP (·.kind == .dedent)

theorem indents_append (front back : List Token) :
    indents (front ++ back) = indents front + indents back :=
  List.countP_append

theorem dedents_append (front back : List Token) :
    dedents (front ++ back) = dedents front + dedents back :=
  List.countP_append

namespace Layout

/-- The innermost level is the widest, and each one wider than the one around it. -/
def Nested (layout : Layout) : Prop :=
  layout.levels.Pairwise (· > ·)

variable {layout after : Layout} {shift? : Option Shift}

theorem Resolution.nested (resolution : layout.Resolution shift? after) (nested : layout.Nested) :
    after.Nested := by
  unfold Nested at nested ⊢
  cases resolution with
  | drain starts levels =>
      rw [levels] at nested
      exact nested.tail
  | seat => exact List.pairwise_singleton _ _
  | first => exact List.pairwise_singleton _ _
  | reseat => exact List.pairwise_singleton _ _
  | stay => exact nested
  | @deepen top outer goesOn levels wider =>
      refine List.pairwise_cons.mpr ⟨fun level member => ?_, nested⟩
      rw [levels] at nested member
      rcases List.mem_cons.mp member with rfl | member
      · exact wider
      · exact Nat.lt_trans ((List.pairwise_cons.mp nested).1 level member) wider
  | leave goesOn levels =>
      rw [levels] at nested
      exact nested.tail
  | misfit => exact nested

theorem Resolution.depth (resolution : layout.Resolution shift? after) :
    [shift?].count (some .indent) + layout.depth = [shift?].count (some .dedent) + after.depth := by
  cases resolution with
  | drain starts levels =>
      simp [Layout.depth, levels]
      omega
  | seat starts shallow =>
      simp [Layout.depth, settle]
      omega
  | first goesOn levels => simp [Layout.depth, settle, levels]
  | reseat goesOn levels => simp [Layout.depth, settle, levels]
  | stay => rfl
  | deepen goesOn levels =>
      simp [Layout.depth, settle, levels]
      omega
  | leave goesOn levels =>
      simp [Layout.depth, levels]
      omega
  | misfit => rfl

end Layout

/-- What can be scanned behind a first character that is already known. -/
inductive Scan where
  | word (first : Char)
  | decimal (first : Char)
  | dollar
  | percent
  | quotation
  | quoteComment
  | lineComment
  | lineDocComment
  | braceComment
  | blockComment
  | blockDocComment
deriving Repr, DecidableEq

def Scan.lexeme (rest : List Char) : Scan → Lexeme
  | .word first => .word first rest
  | .decimal first => .number .decimal first rest
  | .dollar => .dollar rest
  | .percent => .percent rest
  | .quotation => .quotation rest
  | .quoteComment => .quoteComment rest
  | .lineComment => .lineComment .comment rest
  | .lineDocComment => .lineComment .docComment rest
  | .braceComment => .braceComment rest
  | .blockComment => .blockComment rest
  | .blockDocComment => .blockDocComment rest

theorem Lexeme.symbol_isMark (first : Char) (rest : List Char) :
    (symbol first rest).kind.isMark = false := by
  have alone : (loneSymbol first).kind.isMark = false := by
    unfold loneSymbol
    split <;> rfl
  unfold symbol
  split
  · exact alone
  · split
    · rfl
    · exact alone

theorem Scan.isMark_lexeme (scan : Scan) (rest : List Char) :
    (scan.lexeme rest).kind.isMark = false := by
  -- Where a scan is the one that some character always opens, it is known already.
  cases scan with
  | word first =>
      change (Lexeme.wordKind _).isMark = false
      rcases Lexeme.wordKind_cases (first :: rest.takeWhile Character.isIdentifierContinue) with
        ⟨keyword, found⟩ | found <;> rw [found] <;> rfl
  | decimal => rfl
  | dollar => exact Lexeme.scan_isMark '$' rest
  | percent => exact Lexeme.scan_isMark '%' rest
  | quotation => exact Lexeme.scan_isMark '"' rest
  | quoteComment => exact Lexeme.scan_isMark '\'' rest
  | lineComment => rfl
  | lineDocComment => rfl
  | braceComment => exact Lexeme.scan_isMark '\x7b' rest
  | blockComment =>
      simp only [lexeme, Lexeme.blockComment]
      split <;> rfl
  | blockDocComment => exact Lexeme.scan_isMark '\x7b' ('\x7b' :: rest)

/-- What can be done with a lexer. A scan is told where its token starts. -/
inductive Operation where
  | next
  | beginLine
  | noteBlanks (column width : Nat)
  | resolveLine
  | endOfInput
  | enterRegion (region : Region)
  | scan (scan : Scan) (start : Position)
  | symbol (first : Char)
  | digits (radix : Radix)
  | code (first : Char)
  | accept (expected : Char)
deriving Repr, DecidableEq

namespace Lexer

/-- The token that an operation gives, if any, and the lexer behind it. -/
def perform (lexer : Lexer) : Operation → Option Token × Lexer
  | .next => (some lexer.step.token, lexer.step.after)
  | .beginLine => (none, lexer.beginLine)
  | .noteBlanks column width => (none, lexer.noteBlanks column width)
  | .resolveLine => lexer.resolveLine
  | .endOfInput => (some lexer.endOfInput.1, lexer.endOfInput.2)
  | .enterRegion region => (none, lexer.enterRegion region)
  | .scan scan start =>
      let (token, after) := lexer.take start (scan.lexeme lexer.reader.rest)
      (some token, after)
  | .symbol first => (some (lexer.takeSymbol first).1, (lexer.takeSymbol first).2)
  | .digits radix => (none, (lexer.takeDigits radix).2)
  | .code first => (none, (lexer.takeCode first).2)
  | .accept expected => (none, (lexer.accept expected).2)

/-- All tokens that some operations give, and the lexer behind the last one. -/
def performAll (lexer : Lexer) : List Operation → List Token × Lexer
  | [] => ([], lexer)
  | operation :: rest =>
      let (token?, after) := lexer.perform operation
      let (tokens, last) := after.performAll rest
      (token?.toList ++ tokens, last)

/-- The levels stay nested, and change by what the tokens say. -/
structure Keeps (lexer : Lexer) (given : List Token) (after : Lexer) : Prop where
  nested : lexer.layout.Nested → after.layout.Nested
  counts : indents given + lexer.layout.depth = dedents given + after.layout.depth

variable {lexer after : Lexer} {given : List Token}

theorem Keeps.refl (lexer : Lexer) : lexer.Keeps [] lexer :=
  ⟨id, rfl⟩

theorem Keeps.trans {more : List Token} {last : Lexer} (first : lexer.Keeps given after)
    (second : after.Keeps more last) : lexer.Keeps (given ++ more) last where
  nested := second.nested ∘ first.nested
  counts := by
    have before := first.counts
    have behind := second.counts
    rw [indents_append, dedents_append]
    omega

theorem Keeps.of_levels (levels : after.layout.levels = lexer.layout.levels)
    (unmarked : ∀ token ∈ given, token.kind.isMark = false) : lexer.Keeps given after where
  nested := by
    unfold Layout.Nested
    rw [levels]
    exact id
  counts := by
    have none (kind : Kind) (mark : kind.isMark = true) :
        given.countP (fun token => token.kind == kind) = 0 := by
      refine List.countP_eq_zero.mpr fun token member => ?_
      have other := unmarked token member
      intro same
      rw [beq_iff_eq.mp same, mark] at other
      cases other
    rw [indents, dedents, none .indent rfl, none .dedent rfl, Layout.depth, Layout.depth, levels]

theorem take_keeps (lexer : Lexer) (start : Position) {lexeme : Lexeme}
    (unmarked : lexeme.kind.isMark = false) :
    lexer.Keeps [(lexer.take start lexeme).1] (lexer.take start lexeme).2 := by
  refine .of_levels ?_ ?_
  · simp only [take, apply_eq, Layout.levels_behind]
  · intro token found
    rw [List.mem_singleton.mp found]
    exact unmarked

theorem resolution_keeps {shift? : Option Shift} {layout : Layout}
    (resolution : lexer.layout.Resolution shift? layout) :
    lexer.Keeps (shift?.map fun shift => { lexer with layout }.marker shift.kind).toList
      { lexer with layout } where
  nested := resolution.nested
  counts := by
    have depth := resolution.depth
    cases shift? with
    | none => simpa [indents, dedents] using depth
    | some shift =>
        cases shift <;>
          simpa [indents, dedents, marker, tokenFrom, Token.between, Shift.kind] using depth

theorem resolveLine_keeps (lexer : Lexer) :
    lexer.Keeps lexer.resolveLine.1.toList lexer.resolveLine.2 := by
  have keeps := resolution_keeps lexer.layout.resolve_resolution
  unfold resolveLine
  cases resolved : lexer.layout.resolve with
  | mk shift? layout =>
      rw [resolved] at keeps
      cases shift? with
      | none => exact keeps
      | some shift => cases shift <;> exact keeps

theorem endOfInput_keeps (lexer : Lexer) :
    lexer.Keeps [lexer.endOfInput.1] lexer.endOfInput.2 := by
  rcases lexer.layout.finish_cases with ⟨top, level, outer, levels, finished⟩ | ⟨shallow, finished⟩
  · constructor
    · intro nested
      rw [Layout.Nested, levels] at nested
      simp only [endOfInput, finished]
      exact nested.tail
    · simp [endOfInput, finished, indents, dedents, marker, tokenFrom, Token.between, Layout.depth,
        Layout.settle, levels]
      omega
  · constructor
    · intro _
      simp only [endOfInput, finished]
      exact List.Pairwise.nil
    · simp [endOfInput, finished, indents, dedents, marker, tokenFrom, Token.between, Layout.depth,
        Layout.settle]
      omega

theorem ready_keeps {first : Char} {layout : Layout} (ready : lexer.layout.Ready first layout) :
    lexer.Keeps [] { lexer with layout } := by
  unfold Layout.Ready at ready
  split at ready
  · exact resolution_keeps (.of_resolve ready)
  · exact .of_levels (by rw [ready]) (by simp)

theorem Transition.keeps {step : Step} (transition : lexer.Transition step) :
    lexer.Keeps [step.token] step.after := by
  cases transition with
  | close atEnd => exact lexer.endOfInput_keeps
  | shift next waits resolved => exact resolution_keeps (.of_resolve resolved)
  | @read first rest layout next ready =>
      refine (ready_keeps ready).trans (.of_levels ?_ ?_)
      · rw [stepAt_eq]
        exact Layout.levels_behind _ _ _ _
      · intro token found
        rw [List.mem_singleton.mp found, stepAt_eq]
        exact Lexeme.scan_isMark first rest

theorem takeSymbol_keeps (lexer : Lexer) (first : Char) :
    lexer.Keeps [(lexer.takeSymbol first).1] (lexer.takeSymbol first).2 :=
  take_keeps lexer lexer.position (Lexeme.symbol_isMark first lexer.reader.rest)

theorem perform_keeps (lexer : Lexer) (operation : Operation) :
    lexer.Keeps (lexer.perform operation).1.toList (lexer.perform operation).2 := by
  cases operation with
  | next => exact lexer.step_transition.keeps
  | beginLine =>
      refine .of_levels ?_ (by simp [perform])
      simp only [perform, beginLine]
      split <;> rfl
  | noteBlanks column width =>
      refine .of_levels ?_ (by simp [perform])
      simp only [perform, noteBlanks, Layout.noteBlanks]
      split <;> rfl
  | resolveLine => exact lexer.resolveLine_keeps
  | endOfInput => exact lexer.endOfInput_keeps
  | enterRegion region => exact .of_levels rfl (by simp [perform])
  | scan scan start => exact lexer.take_keeps start (scan.isMark_lexeme _)
  | symbol first => exact lexer.takeSymbol_keeps first
  | digits radix => exact .of_levels rfl (by simp [perform])
  | code first => exact .of_levels rfl (by simp [perform])
  | accept expected =>
      refine .of_levels ?_ (by simp [perform])
      simp only [perform, accept]
      split <;> rfl

theorem performAll_keeps (lexer : Lexer) (operations : List Operation) :
    lexer.Keeps (lexer.performAll operations).1 (lexer.performAll operations).2 := by
  induction operations generalizing lexer with
  | nil => exact .refl lexer
  | cons operation rest ih => exact (lexer.perform_keeps operation).trans (ih _)

namespace Reaches

variable {reached : Lexer} {front : List Step}

theorem keeps (reaches : lexer.Reaches front reached) :
    lexer.Keeps (front.map (·.token)) reached := by
  induction reaches with
  | here lexer => exact .refl lexer
  | @step lexer reached front more ih => exact lexer.step_transition.keeps.trans ih

theorem performAll_eq (reaches : lexer.Reaches front reached) :
    lexer.performAll (List.replicate front.length .next) = (front.map (·.token), reached) := by
  induction reaches with
  | here => rfl
  | step more ih =>
      rw [List.length_cons, List.replicate_succ, performAll, perform]
      simp only [ih]
      rfl

end Reaches

theorem final_levels (lexer : Lexer) : ∃ final, lexer.Reaches lexer.steps final ∧
    final.layout.levels = [] := by
  fun_induction steps lexer with
  | case1 lexer next atEnd =>
      refine ⟨next.after, .step (.here _), ?_⟩
      have stepped : next = _ := step_nil (lexer.step_transition.atEnd atEnd)
      rw [stepped] at atEnd ⊢
      rcases lexer.layout.finish_cases with ⟨_, _, _, _, finished⟩ | ⟨_, finished⟩
      · simp [endOfInput, finished, marker, tokenFrom, Token.between] at atEnd
      · simp [endOfInput, finished, Layout.settle]
  | case2 lexer next unfinished ih =>
      obtain ⟨final, reaches, levels⟩ := ih
      exact ⟨final, .step reaches, levels⟩

end Lexer

namespace Reindent.Draft

theorem depth_write (draft : Draft) (token : Token) (covered : List Char) :
    (draft.write token covered).depth = draft.depth := by
  unfold write
  split <;> rfl

theorem depth_add (draft : Draft) (token : Token) (covered : List Char) :
    (draft.add token covered).depth = draft.depth + indents [token] - dedents [token] := by
  unfold add
  cases kind : token.kind with
  | space =>
      simp only [indents, dedents, List.countP_singleton, kind]
      split
      · rfl
      · exact depth_write _ _ _
  | eof => simp [indents, dedents, kind]
  | indent => simp [indents, dedents, kind]
  | dedent => simp [indents, dedents, kind]
  | newline => simp [indents, dedents, kind, endLine, append, trim]
  | _ => simp [indents, dedents, kind, depth_write]

/-- A draft that knows the depth of the layout keeps knowing it. -/
theorem depth_foldl {draft : Draft} {lexer reached : Lexer} {front : List Step}
    (reaches : lexer.Reaches front reached) (depth : draft.depth = lexer.layout.depth) :
    (front.foldl after draft).depth = reached.layout.depth := by
  induction reaches generalizing draft with
  | here => exact depth
  | @step lexer reached front more ih =>
      refine ih ?_
      have counts := lexer.step_transition.keeps.counts
      rw [after, depth_add]
      omega

end Reindent.Draft

namespace Command

theorem listing_cons (depth : Nat) (token : Token) (rest : List Token) :
    (listing depth (token :: rest)).1 =
      listingLine token (depth - dedents [token]) ::
        if token.kind.isFault then []
        else (listing (depth + indents [token] - dedents [token]) rest).1 := by
  cases sound : token.kind.isFault with
  | true =>
      have faulty : token.fault? ≠ none := by simp [Token.fault?_eq_none, sound]
      obtain ⟨error, fault⟩ := Option.ne_none_iff_exists'.mp faulty
      simp only [listing, fault]
      cases kind : token.kind <;> simp_all [dedents]
  | false =>
      have fault := Token.fault?_eq_none.mpr sound
      simp only [listing, fault]
      cases kind : token.kind <;> simp [indents, dedents, kind]

theorem listing_front {lexer reached : Lexer} {front : List Step}
    (reaches : lexer.Reaches front reached) (faultless : Faultless front) (rest : List Token) :
    ∃ lines, lines.length = front.length ∧
      (listing lexer.layout.depth (front.map (·.token) ++ rest)).1 =
        lines ++ (listing reached.layout.depth rest).1 := by
  induction reaches with
  | here => exact ⟨[], rfl, rfl⟩
  | @step lexer reached front more ih =>
      obtain ⟨sound, faultless⟩ := faultless_cons.mp faultless
      obtain ⟨lines, length, whole⟩ := ih faultless
      have counts := lexer.step_transition.keeps.counts
      have depth : lexer.layout.depth + indents [lexer.step.token] - dedents [lexer.step.token] =
          lexer.step.after.layout.depth := by
        omega
      let line := listingLine lexer.step.token (lexer.layout.depth - dedents [lexer.step.token])
      refine ⟨line :: lines, by rw [List.length_cons, length, List.length_cons], ?_⟩
      rw [List.map_cons, List.cons_append, listing_cons, sound, depth, whole]
      rfl

end Command

/-- What a lexer has given so far is worth the levels that it has open. -/
structure Balanced (given : List Token) (lexer : Lexer) : Prop where
  nested : lexer.layout.levels.reverse.Pairwise (· < ·)
  counts : indents given = dedents given + (max lexer.layout.levels.length 1 - 1)

theorem Lexer.Keeps.balanced {source : String} {given : List Token} {lexer : Lexer}
    (keeps : (ofString source).Keeps given lexer) : Balanced given lexer where
  nested := List.pairwise_reverse.mpr (keeps.nested List.Pairwise.nil)
  counts := by
    have counts := keeps.counts
    have start : (ofString source).layout.depth = 0 := rfl
    rw [start, Layout.depth] at counts
    omega

/-- The depth at which a token is listed. -/
theorem Command.getElem?_listing {source : String} {front behind : List Token} {token : Token}
    (parts : tokens source = front ++ token :: behind)
    (sound : ∀ token ∈ front, token.kind.isFault = false) :
    ∃ depth, depth + dedents (front ++ [token]) = indents front ∧
      (listing 0 (tokens source)).1[front.length]? = some (listingLine token depth) := by
  obtain ⟨steps, rest, split, rfl, same⟩ := List.map_eq_append_iff.mp parts
  obtain ⟨step, more, rfl, rfl, rfl⟩ := List.map_eq_cons_iff.mp same
  obtain ⟨reached, reaches, next⟩ := Lexer.steps_reaches split
  have faultless : Faultless steps := fun step member =>
    sound step.token (List.mem_map.mpr ⟨step, member, rfl⟩)
  obtain ⟨lines, length, whole⟩ := listing_front reaches faultless ((step :: more).map (·.token))
  have depth : (Lexer.ofString source).layout.depth = 0 := rfl
  have counts := reaches.keeps.counts
  -- The next step closes a level only if one is open.
  have stepped : reached.step = step := by
    have first := reached.head?_steps
    rw [next (by simp)] at first
    simpa using first.symm
  have moved := reached.step_transition.keeps.counts
  have level : indents [step.token] = 0 ∨ dedents [step.token] = 0 := by
    cases kind : step.token.kind <;> simp [indents, dedents, kind]
  rw [stepped] at moved
  rw [depth] at counts whole
  refine ⟨reached.layout.depth - dedents [step.token], ?_, ?_⟩
  · rw [dedents_append]
    omega
  · rw [parts, ← List.map_cons, whole, List.length_map, ← length, List.map_cons, listing_cons]
    simp

/-- For each level that is opened one is closed. Neither reindenting nor a listing
ever closes a level that is not open. -/
theorem marks_balance (source : String) :
    (∀ operations, Balanced ((Lexer.ofString source).performAll operations).1
        ((Lexer.ofString source).performAll operations).2) ∧
      (∃ final, (Lexer.ofString source).performAll
          (List.replicate (tokens source).length .next) = (tokens source, final) ∧
        final.layout.levels = [] ∧ indents (tokens source) = dedents (tokens source)) ∧
      (∀ front behind, steps source = front ++ behind →
        (front.foldl Reindent.Draft.after .initial).depth + dedents (front.map (·.token)) =
          indents (front.map (·.token))) ∧
      ∀ front token behind, tokens source = front ++ token :: behind →
        (∀ token ∈ front, token.kind.isFault = false) →
        ∃ depth, depth + dedents (front ++ [token]) = indents front ∧
          (Command.listing 0 (tokens source)).1[front.length]? =
            some (Command.listingLine token depth) := by
  refine ⟨fun operations => (Lexer.performAll_keeps _ operations).balanced, ?_, ?_, ?_⟩
  · obtain ⟨final, reaches, levels⟩ := (Lexer.ofString source).final_levels
    have counts := reaches.keeps.balanced.counts
    have performed := reaches.performAll_eq
    rw [levels] at counts
    refine ⟨final, ?_, levels, counts⟩
    rw [tokens, List.length_map]
    exact performed
  · intro front behind parts
    obtain ⟨reached, reaches, _⟩ := Lexer.steps_reaches parts
    have depth : (Lexer.ofString source).layout.depth = 0 := rfl
    have counts := reaches.keeps.counts
    rw [Reindent.Draft.depth_foldl reaches rfl]
    omega
  · intro front token behind parts sound
    exact Command.getElem?_listing parts sound

end SpinBlocks
