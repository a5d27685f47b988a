import SpinBlocks.Proofs.Extents
import SpinBlocks.Proofs.FirstFault
import SpinBlocks.Proofs.Locality
import SpinBlocks.Proofs.Rereading

namespace SpinBlocks

/-! A block reads the same on its own as it does in its file.

A lexer that comes to a block keyword may still have levels open and a region to
leave. One that begins with the keyword has neither. Behind the keyword the first
one closes its levels before anything else, and from then on both go in step. So
the text of a block is cut into the same tokens wherever it stands, but for marks
of layout.
-/

namespace Layout

/-- The layout `own` of a block's first lines expects the same of the next line as
`whole`, which may have to close levels of earlier blocks first. -/
structure Follows (own whole : Layout) : Prop where
  pending : own.pending = whole.pending
  blockStart : own.blockStart = whole.blockStart
  width : own.pending = true → own.width = whole.width
  fresh : own.blockStart = true → own.levels = []
  levels : own.blockStart = false → own.levels = whole.levels

variable {own whole after settled : Layout} {first : Char}

theorem Follows.refl {layout : Layout} (goesOn : layout.blockStart = false) :
    layout.Follows layout :=
  ⟨rfl, rfl, fun _ => rfl, fun starts => by simp [goesOn] at starts, fun _ => rfl⟩

theorem Follows.initial (calm : whole.pending = false) :
    Layout.initial.openBlock.Follows whole.openBlock :=
  ⟨calm.symm, rfl, nofun, fun _ => rfl, nofun⟩

theorem Follows.eq (follows : own.Follows whole) (pends : own.pending = true)
    (goesOn : own.blockStart = false) : own = whole := by
  obtain ⟨pending, blockStart, width, fresh, levels⟩ := follows
  cases own
  cases whole
  simp_all

/-- A level that is closed for the sake of a new block is none of its own. Any
other shift is told by both. -/
theorem Follows.shift (follows : own.Follows whole) (pends : own.pending = true) {shift : Shift}
    (resolved : whole.resolve = (some shift, after)) :
    own.Follows after ∨ own.resolve = (some shift, after) ∧ after.Follows after := by
  cases starts : own.blockStart with
  | true =>
      have opens := follows.blockStart.symm.trans starts
      cases Resolution.of_resolve resolved with
      | drain =>
          exact .inl ⟨follows.pending, follows.blockStart, follows.width, follows.fresh,
            fun goesOn => by simp [starts] at goesOn⟩
      | deepen goesOn => simp [opens] at goesOn
      | leave goesOn => simp [opens] at goesOn
      | misfit goesOn => simp [opens] at goesOn
  | false =>
      obtain rfl := follows.eq pends starts
      refine .inr ⟨resolved, .refl ?_⟩
      cases Resolution.of_resolve resolved with
      | drain opens => simp [starts] at opens
      | deepen goesOn => exact goesOn
      | leave goesOn => exact goesOn
      | misfit goesOn => exact goesOn

theorem Follows.settle (follows : own.Follows whole) (pends : own.pending = true)
    (resolved : whole.resolve = (none, settled)) :
    own.resolve = (none, settled) ∧ settled.Follows settled := by
  cases starts : own.blockStart with
  | true =>
      have opens := follows.blockStart.symm.trans starts
      cases Resolution.of_resolve resolved with
      | seat =>
          refine ⟨?_, .refl rfl⟩
          simp [resolve, starts, follows.fresh starts, Layout.settle, follows.width pends]
      | first goesOn => simp [opens] at goesOn
      | reseat goesOn => simp [opens] at goesOn
      | stay goesOn => simp [opens] at goesOn
  | false =>
      obtain rfl := follows.eq pends starts
      refine ⟨resolved, .refl ?_⟩
      cases Resolution.of_resolve resolved with
      | seat opens => simp [starts] at opens
      | first goesOn => exact goesOn
      | reseat goesOn => exact goesOn
      | stay goesOn => exact goesOn

theorem Follows.waits (follows : own.Follows whole) (first : Char) :
    own.waits first = whole.waits first := by
  rw [Layout.waits, Layout.waits, follows.pending]

theorem Follows.ready (follows : own.Follows whole) (ready : whole.Ready first settled) :
    ∃ other, own.Ready first other ∧ other.Follows settled ∧
      (other.pending = true → own.pending = true) := by
  unfold Ready at ready ⊢
  rw [follows.waits first]
  cases waits : whole.waits first with
  | false =>
      simp only [waits, Bool.false_eq_true, if_false] at ready ⊢
      subst ready
      exact ⟨own, rfl, follows, id⟩
  | true =>
      simp only [waits, if_true] at ready ⊢
      have pends : own.pending = true := by
        rw [← follows.waits first] at waits
        exact (Bool.and_eq_true_iff.mp waits).1
      obtain ⟨resolved, same⟩ := follows.settle pends ready
      exact ⟨settled, resolved, same, fun _ => pends⟩

/-- Two layouts stay alike behind any lexeme but a block keyword, if it stands in
the same column of a line that is pending. -/
theorem Follows.behind (follows : own.Follows whole) {region : Region} {start place : Position}
    {lexeme : Lexeme} (plain : lexeme.kind.isBlockKeyword = false)
    (column : own.pending = true → start.column = place.column) :
    (own.behind region start lexeme).Follows (whole.behind region place lexeme) := by
  unfold Layout.behind
  cases kind : lexeme.kind with
  | newline =>
      dsimp only
      split
      · exact ⟨rfl, follows.blockStart, fun _ => rfl, follows.fresh, follows.levels⟩
      · exact follows
  | space =>
      dsimp only [noteBlanks]
      cases pends : own.pending with
      | false =>
          have calm := follows.pending.symm.trans pends
          simpa [calm] using follows
      | true =>
          have opens := follows.pending.symm.trans pends
          rw [opens, column pends]
          split
          · exact ⟨rfl, follows.blockStart, fun _ => rfl, follows.fresh, follows.levels⟩
          · exact follows
  | keyword word =>
      cases word with
      | block block => simp [kind, Kind.isBlockKeyword, Kind.block?] at plain
      | word spelling reserved => exact follows
  | _ => exact follows

end Layout

/-! Moving what is read. -/

def Span.moved (span : Span) (bytes : Nat) : Span :=
  ⟨span.start + bytes, span.stop + bytes⟩

def Declaration.moved (declaration : Declaration) (bytes : Nat) : Declaration :=
  { declaration with span := declaration.span.moved bytes }

/-- The same block further on by some bytes. -/
def Block.moved (bytes : Nat) : Block → Block
  | .constants declarations span =>
      .constants (declarations.map (·.moved bytes)) (span.moved bytes)
  | .raw kind unread span => .raw kind unread (span.moved bytes)

namespace Span

variable (span : Span) (bytes : Nat)

theorem isEmpty_moved : (span.moved bytes).isEmpty = span.isEmpty := by
  rw [Bool.eq_iff_iff]
  simp [isEmpty, moved]

theorem merge_moved (other : Span) :
    (span.moved bytes).merge (other.moved bytes) = (span.merge other).moved bytes := by
  simp only [merge, moved, Nat.add_min_add_right, Nat.add_max_add_right]

theorem mergeAll_moved (spans : List Span) :
    (span.moved bytes).mergeAll (spans.map (·.moved bytes)) =
      (span.mergeAll spans).moved bytes := by
  induction spans generalizing span with
  | nil => rfl
  | cons next spans ih =>
      rw [List.map_cons, mergeAll, List.foldl_cons, merge_moved]
      exact ih (span.merge next)

end Span

namespace Token

/-- The token says the same as `own`, further on by some bytes. -/
structure Echoes (bytes : Nat) (own token : Token) : Prop where
  kind : token.kind = own.kind
  text : token.text = own.text
  span : token.span = own.span.moved bytes

variable {bytes : Nat} {own token : Token}

theorem Echoes.isEmpty (echoes : Echoes bytes own token) :
    token.span.isEmpty = own.span.isEmpty := by
  rw [echoes.span, Span.isEmpty_moved]

end Token

theorem contents_cons_of_isEmpty {token : Token} (empty : token.span.isEmpty = true)
    (tokens : List Token) : contents (token :: tokens) = contents tokens := by
  unfold contents significant
  rw [List.filter_cons]
  split
  · rw [List.filter_cons_of_neg (by simp [empty])]
  · rfl

/-- The tokens say the same as `owns`, one by one. -/
def Echo (bytes : Nat) (owns tokens : List Token) : Prop :=
  List.Forall₂ (Token.Echoes bytes) owns tokens

namespace Echo

variable {bytes : Nat} {own token : Token} {owns tokens : List Token}

theorem contents_cons (echoes : Token.Echoes bytes own token)
    (more : Echo bytes (contents owns) (contents tokens)) :
    Echo bytes (contents (own :: owns)) (contents (token :: tokens)) := by
  unfold contents significant at more ⊢
  rw [List.filter_cons, List.filter_cons, echoes.kind]
  split
  · rw [List.filter_cons, List.filter_cons, echoes.isEmpty]
    split
    · exact .cons echoes more
    · exact more
  · exact more

theorem spans (echo : Echo bytes owns tokens) :
    tokens.map (·.span) = (owns.map (·.span)).map (·.moved bytes) := by
  induction echo with
  | nil => rfl
  | cons echoes more ih =>
      rw [List.map_cons, List.map_cons, List.map_cons, echoes.span, ih]

/-- What the tokens declare is declared by those that they echo. -/
theorem declares (echo : Echo bytes owns tokens) {declarations : List Declaration}
    (declares : Declares tokens declarations) :
    ∃ alone, Declares owns alone ∧ alone.map (·.moved bytes) = declarations := by
  induction declares generalizing owns with
  | nil =>
      cases echo
      exact ⟨[], .nil, rfl⟩
  | @cons name assign number radix tokens declarations named assigns counts more ih =>
      obtain _ | ⟨first, echo⟩ := echo
      obtain _ | ⟨second, echo⟩ := echo
      obtain _ | ⟨third, echo⟩ := echo
      obtain ⟨alone, declares, rfl⟩ := ih echo
      obtain ⟨counted, literal⟩ := counts.congr third.kind.symm third.text.symm
      refine ⟨_, .cons (first.kind.symm.trans named) (second.kind.symm.trans assigns) counted
        declares, ?_⟩
      rw [List.map_cons, Declaration.moved, ← Span.merge_moved, ← first.text, ← first.span,
        ← third.span, literal]

/-- A block is formed by the tokens that its own tokens echo. Marks may stand
between these, unless they are constants. -/
theorem forms {start : Token} {body : List Token} {block : Block}
    (echoes : Token.Echoes bytes own start)
    (echo : Echo bytes (owns.filter (!·.span.isEmpty)) (body.filter (!·.span.isEmpty)))
    (forms : Forms (start :: body) block) (row : Row (start :: body))
    (inside : ∀ token ∈ owns, token.kind.endsBlock = false)
    (unmarked : block.kind = .con → ∀ token ∈ owns, token.span.isEmpty = false) :
    ∃ alone : Block, Forms (own :: owns) alone ∧ alone.moved bytes = block := by
  cases forms with
  | @constants _ _ declarations opens declares =>
      have solid := declares.solid row.tail
      rw [List.filter_eq_self.mpr (by simpa using unmarked rfl),
        List.filter_eq_self.mpr (by simpa using solid)] at echo
      obtain ⟨alone, declared, rfl⟩ := echo.declares declares
      refine ⟨_, .constants (echoes.kind.symm.trans opens) declared, ?_⟩
      have spans : (alone.map (·.moved bytes)).map (·.span) =
          (alone.map (·.span)).map (·.moved bytes) := by
        rw [List.map_map, List.map_map]
        rfl
      rw [Block.moved, spans, echoes.span, Span.mergeAll_moved]
  | raw unread opens inner =>
      refine ⟨_, .raw unread (echoes.kind.symm.trans opens) inside, ?_⟩
      rw [Block.moved, echoes.span, solidSpans, solidSpans, echo.spans, Span.mergeAll_moved]

end Echo

theorem Position.column_advanceAll_congr {position other : Position}
    (same : position.column = other.column) (characters : List Char) :
    (position.advanceAll characters).column = (other.advanceAll characters).column := by
  induction characters generalizing position other with
  | nil => exact same
  | cons c rest ih =>
      rw [advanceAll_cons, advanceAll_cons]
      apply ih
      unfold advance
      split
      · rfl
      · exact congrArg (· + 1) same

theorem Lexeme.replaces_append (front back : List Char) : Replaces front (front ++ back) := by
  intro c begins
  exact .inl (List.mem_head?_append_of_mem_head? begins)

namespace Lexer

/-- The lexer `own`, which began with the block, is as far in it as `whole`, which
came to it on its way. -/
structure Trails (bytes : Nat) (own whole : Lexer) : Prop where
  region : own.region = whole.region
  offset : whole.position.offset = own.position.offset + bytes
  column : own.layout.pending = true → own.position.column = whole.position.column
  layout : own.layout.Follows whole.layout

variable {bytes : Nat} {own whole reached : Lexer}

/-- A step that reads without a fault reads a lexeme. -/
theorem exists_reads {lexer : Lexer} {first : Char} {rest : List Char} {layout : Layout}
    (next : lexer.reader.rest = first :: rest) (ready : lexer.layout.Ready first layout)
    (sound : lexer.step.token.kind.isFault = false) :
    ∃ body text, rest = body ++ lexer.step.after.reader.rest ∧
      Lexeme.Reads first body lexer.step.after.reader.rest lexer.step.token.kind text := by
  have stepped := step_read next ready
  rw [stepAt_eq] at stepped
  rw [stepped] at sound
  obtain ⟨body, tail, rfl, _, reads⟩ := Lexeme.scan_found sound
  have whole := step_reads next reads ready
  have behind : lexer.step.after.reader.rest = tail := by rw [whole]
  have kind : lexer.step.token.kind = (Lexeme.scan first (body ++ tail)).kind := by rw [whole]; rfl
  rw [behind, kind]
  exact ⟨body, _, rfl, reads⟩

/-- What both lexers read is the same, also where the text of one ends behind it. -/
theorem reads_echo {first : Char} {body more tail : List Char} {kind : Kind} {text : String}
    {mine theirs : Layout} (reads : Lexeme.Reads first body (more ++ tail) kind text)
    (next : own.reader.rest = first :: (body ++ more))
    (ahead : whole.reader.rest = first :: (body ++ (more ++ tail)))
    (ready : own.layout.Ready first mine) (set : whole.layout.Ready first theirs)
    (offset : whole.position.offset = own.position.offset + bytes) :
    own.step.token.Echoes bytes whole.step.token ∧
      whole.step.after.position.offset = own.step.after.position.offset + bytes := by
  have place : (whole.position.advanceAll (first :: body)).offset =
      (own.position.advanceAll (first :: body)).offset + bytes := by
    rw [Position.advanceAll_offset, Position.advanceAll_offset, offset]
    omega
  have shorter := reads.replace (Lexeme.replaces_append more tail)
  rw [step_reads next shorter ready, step_reads ahead reads set]
  refine ⟨⟨rfl, rfl, ?_⟩, place⟩
  simp only [Token.between, Span.moved, offset, place]

/-- A step within a block is taken by both lexers, or it closes a level that was
open before the block began. -/
theorem Trails.step (trails : Trails bytes own whole) {more tail : List Char}
    (text : own.reader.rest = whole.step.covered ++ more)
    (behind : whole.step.after.reader.rest = more ++ tail) (unread : own.reader.rest ≠ [])
    (sound : whole.step.token.kind.isFault = false)
    (plain : whole.step.token.kind.isBlockKeyword = false) :
    (whole.step.covered = [] ∧ Trails bytes own whole.step.after) ∨
      own.step.token.Echoes bytes whole.step.token ∧ own.step.after.reader.rest = more ∧
        Trails bytes own.step.after whole.step.after := by
  have ahead : whole.reader.rest = own.reader.rest ++ tail := by
    rw [whole.step_transition.text, behind, text, List.append_assoc]
  obtain ⟨c, others, front⟩ := List.exists_cons_of_ne_nil unread
  rw [front, List.cons_append] at ahead
  have transition := whole.step_transition
  generalize stepped : whole.step = step at *
  cases transition with
  | close atEnd => cases atEnd.symm.trans ahead
  | @shift first rest shift layout next waits resolved =>
      obtain ⟨rfl, rfl⟩ := List.cons.inj (next.symm.trans ahead)
      have pends : own.layout.pending = true := by
        rw [trails.layout.pending]
        exact (Bool.and_eq_true_iff.mp waits).1
      -- Only a level of an earlier block is closed by one lexer alone.
      rcases trails.layout.shift pends resolved with drained | ⟨also, follows⟩
      · exact .inl ⟨rfl, trails.region, trails.offset, trails.column, drained⟩
      · rw [← trails.layout.waits] at waits
        rw [step_shift front waits also]
        refine .inr ⟨⟨rfl, rfl, ?_⟩, text, trails.region, trails.offset,
          fun _ => trails.column pends, follows⟩
        exact congrArg (fun offset => (⟨offset, offset⟩ : Span)) trails.offset
  | @read first rest layout next ready =>
      rw [← stepped] at sound plain text behind ⊢
      obtain ⟨body, shown, rfl, reads⟩ := exists_reads next ready sound
      rw [behind] at next reads
      generalize whole.step.token.kind = kind at plain reads
      have wholeStep := step_reads next reads ready
      rw [wholeStep] at text
      obtain ⟨mine, prepared, follows, calm⟩ := trails.layout.ready ready
      obtain ⟨echoes, offset⟩ := reads_echo reads text next prepared ready trails.offset
      have ownStep := step_reads text (reads.replace (Lexeme.replaces_append more tail)) prepared
      refine .inr ⟨echoes, by rw [ownStep], ?_, offset, ?_, ?_⟩
      · rw [ownStep, wholeStep, trails.region]
      · rw [ownStep, wholeStep]
        intro pends
        -- A line is pending from a line feed within the block on, and columns count from there.
        rcases Layout.pending_behind _ _ _ _ pends with pends | ⟨newline, _⟩
        · exact Position.column_advanceAll_congr (trails.column (calm pends)) _
        · obtain ⟨rfl, rfl, _⟩ := reads.newline_body newline
          rfl
      · rw [ownStep, wholeStep, trails.region]
        exact follows.behind plain fun pends => trails.column (calm pends)

theorem covered_ne_nil {front : List Step} (nonempty : front ≠ [])
    (ends : ∀ last ∈ front.getLast?, last.covered ≠ []) :
    (front.map (·.covered)).flatten ≠ [] := by
  intro silent
  have last := List.getLast?_eq_some_getLast nonempty
  refine ends _ last (List.flatten_eq_nil_iff.mp silent _ ?_)
  exact List.mem_map_of_mem (List.mem_of_mem_getLast? last)

/-- A run within a block, up to some lexeme of it, is repeated by a lexer that
began with the block and whose text ends behind that lexeme. -/
theorem Trails.run {front : List Step} (trails : Trails bytes own whole)
    (reaches : whole.Reaches front reached)
    (text : own.reader.rest = (front.map (·.covered)).flatten)
    (ends : ∀ last ∈ front.getLast?, last.covered ≠ []) (sound : Faultless front)
    (inside : ∀ step ∈ front, step.token.kind.endsBlock = false) :
    ∃ run last, own.Reaches run last ∧ last.reader.rest = [] ∧
      Echo bytes (contents (run.map (·.token))) (contents (front.map (·.token))) ∧
      Faultless run ∧ ∀ step ∈ run, step.token.kind.endsBlock = false := by
  induction reaches generalizing own with
  | here => exact ⟨[], own, .here own, text, List.Forall₂.nil, by simp [Faultless], by simp⟩
  | @step whole reached front more ih =>
      obtain ⟨here, others⟩ := faultless_cons.mp sound
      obtain ⟨within, beyond⟩ := List.forall_mem_cons.mp inside
      have unread : own.reader.rest ≠ [] := by
        rw [text]
        exact covered_ne_nil (List.cons_ne_nil _ _) ends
      have plain := (Kind.endsBlock_eq_false.mp within).2
      have later : ∀ last ∈ front.getLast?, last.covered ≠ [] := fun last closes =>
        ends last (List.mem_getLast?_cons closes)
      rw [List.map_cons, List.flatten_cons] at text
      rcases trails.step text more.text unread here plain with ⟨silent, trails⟩ |
          ⟨echoes, next, trails⟩
      · rw [silent] at text
        obtain ⟨run, last, reaches, atEnd, echo, rest⟩ := ih trails text later others beyond
        refine ⟨run, last, reaches, atEnd, ?_, rest⟩
        have hidden : whole.step.token.span.isEmpty = true := by
          rw [whole.step_transition.isEmpty_span, silent]
          rfl
        rw [List.map_cons, contents_cons_of_isEmpty hidden]
        exact echo
      · obtain ⟨run, last, reaches, atEnd, echo, faultless, plain⟩ :=
          ih trails next later others beyond
        refine ⟨own.step :: run, last, .step reaches, atEnd, Echo.contents_cons echoes echo,
          faultless_cons.mpr ⟨?_, faultless⟩, List.forall_mem_cons.mpr ⟨?_, plain⟩⟩
        · rw [← echoes.kind]
          exact here
        · rw [← echoes.kind]
          exact within

/-- Behind the keyword of a block, the lexer that began with it trails the one that
came to it. -/
theorem trails_keyword {kind : BlockKind} {more tail : List Char}
    (opens : whole.step.token.kind = .keyword (.block kind))
    (next : own.reader.rest = whole.step.covered ++ more)
    (behind : whole.step.after.reader.rest = more ++ tail)
    (start : own.position = .start) (layout : own.layout = .initial) :
    own.step.token.Echoes whole.position.offset whole.step.token ∧
      own.step.after.reader.rest = more ∧
      Trails whole.position.offset own.step.after whole.step.after := by
  have transition := whole.step_transition
  generalize stepped : whole.step = step at *
  cases transition with
  | close atEnd =>
      rcases whole.endOfInput_kind with other | other <;> cases other.symm.trans opens
  | @shift first rest shift settled ahead waits resolved => cases shift <;> cases opens
  | @read first rest settled ahead ready =>
      rw [← stepped] at opens next behind ⊢
      obtain ⟨body, shown, rfl, reads⟩ := exists_reads ahead ready (by rw [opens]; rfl)
      rw [behind] at ahead reads
      rw [opens] at reads
      have wholeStep := step_reads ahead reads ready
      rw [wholeStep] at next
      have prepared : own.layout.Ready first .initial := by
        simp [Layout.Ready, Layout.waits, layout, Layout.initial]
      have offset : whole.position.offset = own.position.offset + whole.position.offset := by
        rw [start]
        exact (Nat.zero_add _).symm
      obtain ⟨echoes, place⟩ := reads_echo reads next ahead prepared ready offset
      have ownStep := step_reads next (reads.replace (Lexeme.replaces_append more tail)) prepared
      have significant : Character.isSignificant first = true := by
        rw [reads.isSignificant]
        rfl
      refine ⟨echoes, by rw [ownStep], ?_, place, ?_, ?_⟩
      · rw [ownStep, wholeStep]
        rfl
      · rw [ownStep]
        intro pends
        cases pends
      · rw [ownStep, wholeStep]
        exact .initial (Layout.ready_pending ready significant)

/-- Behind the whole text a lexer gives nothing but marks that cover nothing. -/
theorem tokens_of_reaches {source : String} {run : List Step}
    (reaches : (ofString source).Reaches run reached) (atEnd : reached.reader.rest = [])
    (unfinished : ∀ step ∈ run, step.token.kind ≠ .eof) :
    ∃ marks, tokens source = run.map (·.token) ++ marks ∧
      ∀ mark ∈ marks, mark.kind.isMark = true ∧ mark.span.isEmpty = true := by
  refine ⟨reached.steps.map (·.token), ?_, ?_⟩
  · rw [tokens, SpinBlocks.steps, reaches.steps_eq unfinished, List.map_append]
  · intro mark member
    obtain ⟨step, among, rfl⟩ := List.mem_map.mp member
    refine ⟨Reindent.Draft.isMark_atEnd atEnd step among, ?_⟩
    have covered := reached.covered_flatten
    rw [atEnd, List.flatten_eq_nil_iff] at covered
    rw [isEmpty_span among, covered _ (List.mem_map_of_mem among)]
    rfl

end Lexer

/-- Where no level is opened, none is closed. -/
theorem dedent_not_mem {source : String} (flat : ∀ token ∈ tokens source, token.kind ≠ .indent) :
    ∀ token ∈ tokens source, token.kind ≠ .dedent := by
  obtain ⟨final, reaches, levels⟩ := (Lexer.ofString source).final_levels
  have counts := reaches.keeps.balanced.counts
  have opened : indents (tokens source) = 0 :=
    List.countP_eq_zero.mpr fun token member => by simpa using flat token member
  have closed : dedents (tokens source) = 0 := by
    rw [levels] at counts
    exact counts.symm.trans opened
  intro token member
  simpa using List.countP_eq_zero.mp closed token member

theorem contents_append (front back : List Token) :
    contents (front ++ back) = contents front ++ contents back := by
  simp [contents, significant]

theorem contents_eq_nil {tokens : List Token}
    (empty : ∀ token ∈ tokens, token.span.isEmpty = true) : contents tokens = [] :=
  List.filter_eq_nil_iff.mpr fun token member => by
    simp [empty token (List.mem_filter.mp member).1]

/-- The text gives the tokens of a block and nothing besides them but marks and
trivia. -/
structure Excerpt (bytes : Nat) (keyword : Token) (body : List Token) (text : String) : Prop where
  opens : ∃ own owns, tokens text = own :: owns ∧ own.Echoes bytes keyword ∧
    ∀ token ∈ owns, token.kind.isBlockKeyword = false
  echo : Echo bytes (contents (tokens text)) (contents (keyword :: body))
  sound : ∀ token ∈ tokens text, token.kind.isFault = false

namespace Excerpt

variable {bytes : Nat} {keyword : Token} {body : List Token} {text : String} {block : Block}

theorem unmarked (excerpt : Excerpt bytes keyword body text)
    (constants : keyword.kind = .keyword (.block .con)) :
    ∀ token ∈ tokens text, token.kind.isMark = true → token.kind = .eof := by
  obtain ⟨own, owns, whole, echoes, plain⟩ := excerpt.opens
  have zoned := tokens_zoned text
  rw [whole, ← List.append_nil owns] at zoned
  obtain ⟨here, inside, _⟩ := zoned.block (echoes.kind.symm.trans constants) plain
  have flat : ∀ token ∈ tokens text, token.kind ≠ .indent := by
    intro token member opens
    have methods := (marks_of_mem_tokens member).1 opens
    rw [whole, List.mem_cons] at member
    rcases member with rfl | member
    · cases here.symm.trans methods
    · cases (inside token member).symm.trans methods
  intro token member mark
  cases kind : token.kind with
  | indent => exact absurd kind (flat token member)
  | dedent => exact absurd kind (dedent_not_mem flat token member)
  | eof => rfl
  | _ => rw [kind] at mark; cases mark

theorem split (excerpt : Excerpt bytes keyword body text) {kind : BlockKind}
    (opens : keyword.kind = .keyword (.block kind)) :
    ∃ own rest last, significant (tokens text) = own :: rest ++ [last] ∧ last.kind = .eof ∧
      last.span.isEmpty = true ∧ own.Echoes bytes keyword ∧
      ∀ token ∈ rest, token.kind.endsBlock = false := by
  obtain ⟨own, owns, whole, echoes, plain⟩ := excerpt.opens
  have opened : own.kind = .keyword (.block kind) := echoes.kind.symm.trans opens
  have parts : significant (tokens text) = own :: significant owns := by
    rw [whole]
    simp [significant, opened, Kind.isTrivia]
  obtain ⟨front, last, ends, atEnd, others⟩ := (Stream.of_source text).ends
  have counted : last ∈ significant (tokens text) := by simp [ends]
  have among := (List.mem_filter.mp counted).1
  cases front with
  | nil =>
      obtain ⟨rfl, _⟩ := List.cons.inj (parts.symm.trans ends)
      cases opened.symm.trans atEnd
  | cons first rest =>
      obtain ⟨rfl, inner⟩ := List.cons.inj (parts.symm.trans ends)
      refine ⟨own, rest, last, ends, atEnd, isEmpty_of_eof among atEnd, echoes, ?_⟩
      intro token member
      have inside : token ∈ significant owns := by
        rw [inner]
        exact List.mem_append_left _ member
      exact Kind.endsBlock_eq_false.mpr
        ⟨others token (List.mem_cons_of_mem _ member), plain token (List.mem_filter.mp inside).1⟩

/-- The tokens of the text form the block that it is an excerpt of. -/
theorem forms (excerpt : Excerpt bytes keyword body text)
    (opens : keyword.kind = .keyword (.block block.kind))
    (forms : Forms (significant (keyword :: body)) block) (row : Row (keyword :: body)) :
    ∃ alone front last, significant (tokens text) = front ++ [last] ∧ last.kind = .eof ∧
      Forms front alone ∧ alone.moved bytes = block := by
  obtain ⟨own, rest, last, ends, atEnd, hidden, echoes, inside⟩ := excerpt.split opens
  have counts : significant (keyword :: body) = keyword :: significant body := by
    simp [significant, opens, Kind.isTrivia]
  have row : Row (keyword :: significant body) := counts ▸ row.sublist List.filter_sublist
  have solid : keyword.span.isEmpty = false :=
    row.solid List.mem_cons_self (by rw [opens]; rfl) (by rw [opens]; rfl)
  have echo := excerpt.echo
  rw [contents, contents, ends, counts, List.cons_append,
    List.filter_cons_of_pos (by simp [← echoes.isEmpty, solid]),
    List.filter_cons_of_pos (by simp [solid]), List.filter_append,
    List.filter_cons_of_neg (by simp [hidden]), List.filter_nil, List.append_nil] at echo
  obtain _ | ⟨_, echo⟩ := echo
  rw [counts] at forms
  have unmarked : block.kind = .con → ∀ token ∈ rest, token.span.isEmpty = false := by
    intro constants token member
    have counted : token ∈ significant (tokens text) := by simp [ends, member]
    have among := (List.mem_filter.mp counted).1
    refine (Row.of_source text).solid among ?_ (excerpt.sound token among)
    by_contra mark
    exact (Kind.endsBlock_eq_false.mp (inside token member)).1
      (excerpt.unmarked (by rw [opens, constants]) token among (by simpa using mark))
  obtain ⟨alone, formed, moved⟩ := Echo.forms echoes echo forms row inside unmarked
  exact ⟨alone, own :: rest, last, ends, atEnd, formed, moved⟩

theorem parse (excerpt : Excerpt bytes keyword body text)
    (opens : keyword.kind = .keyword (.block block.kind))
    (forms : Forms (significant (keyword :: body)) block) (row : Row (keyword :: body)) :
    ∃ alone, Object.parse text = .ok ⟨[alone]⟩ ∧ alone.moved bytes = block := by
  obtain ⟨alone, front, last, ends, atEnd, formed, moved⟩ := excerpt.forms opens forms row
  refine ⟨alone, ?_, moved⟩
  have builds : Builds front [alone] := by
    rw [← List.append_nil front]
    exact .cons formed .nil
  have sound : ∀ token ∈ front, token.kind.isFault = false := by
    intro token member
    have among : token ∈ significant (tokens text) := by simp [ends, member]
    exact excerpt.sound token (List.mem_filter.mp among).1
  have numeric : ∀ token ∈ front, token.Numeric := fun token member =>
    (Stream.of_source text).numeric token (by simp [ends, member])
  have coming : (Supply.ofString text).coming = front ++ [last] := ends
  obtain ⟨rest, read⟩ := Supply.blocks_of_builds builds numeric coming atEnd sound
  rw [Object.parse, read]
  rfl

/-- A text that begins with the block keyword and ends behind the last lexeme of
the block is an excerpt. -/
theorem of_reaches {whole reached : Lexer} {front : List Step} {idle : List Token}
    {kind : BlockKind} (opens : whole.step.token.kind = .keyword (.block kind))
    (reaches : whole.step.after.Reaches front reached)
    (ends : ∀ last ∈ front.getLast?, last.covered ≠ []) (sound : Faultless front)
    (inside : ∀ step ∈ front, step.token.kind.endsBlock = false) (rest : contents idle = []) :
    Excerpt whole.position.offset whole.step.token (front.map (·.token) ++ idle)
      (String.ofList (whole.step.covered ++ (front.map (·.covered)).flatten)) := by
  let text := String.ofList (whole.step.covered ++ (front.map (·.covered)).flatten)
  obtain ⟨echoes, next, trails⟩ :=
    @Lexer.trails_keyword (.ofString text) whole kind _ _ opens String.toList_ofList reaches.text
      rfl rfl
  obtain ⟨run, last, more, atEnd, echo, faultless, plain⟩ :=
    trails.run reaches next ends sound inside
  have opened : (Lexer.ofString text).step.token.kind = .keyword (.block kind) :=
    echoes.kind.symm.trans opens
  have unfinished : ∀ step ∈ (Lexer.ofString text).step :: run, step.token.kind ≠ .eof := by
    refine List.forall_mem_cons.mpr ⟨by rw [opened]; exact Kind.noConfusion, ?_⟩
    exact fun step member => (Kind.endsBlock_eq_false.mp (plain step member)).1
  obtain ⟨marks, whole, hidden⟩ := Lexer.tokens_of_reaches (.step more) atEnd unfinished
  rw [List.map_cons, List.cons_append] at whole
  refine ⟨⟨_, _, whole, echoes, ?_⟩, ?_, ?_⟩
  · intro token member
    rcases List.mem_append.mp member with member | member
    · obtain ⟨step, among, rfl⟩ := List.mem_map.mp member
      exact (Kind.endsBlock_eq_false.mp (plain step among)).2
    · exact (Kind.plain_of_isMark (hidden token member).1).2.2
  · have silent : contents marks = [] := contents_eq_nil fun mark member => (hidden mark member).2
    rw [whole, ← List.cons_append, contents_append, silent, List.append_nil, ← List.cons_append,
      contents_append, rest, List.append_nil]
    exact Echo.contents_cons echoes echo
  · rw [whole]
    refine List.forall_mem_cons.mpr ⟨by rw [opened]; rfl, ?_⟩
    intro token member
    rcases List.mem_append.mp member with member | member
    · obtain ⟨step, among, rfl⟩ := List.mem_map.mp member
      exact faultless step among
    · exact (Kind.plain_of_isMark (hidden token member).1).2.1

end Excerpt

/-- Behind the last token that is neither trivia nor empty there is nothing but
trivia and empty tokens. -/
theorem exists_contents_end {keyword last : Token} {body : List Token}
    (ends : (contents (keyword :: body)).getLast? = some last) :
    ∃ inner idle, body = inner ++ idle ∧ contents idle = [] ∧
      (keyword :: inner).getLast? = some last := by
  obtain ⟨others, parts⟩ := List.getLast?_eq_some_iff.mp ends
  rw [contents, significant, List.filter_filter] at parts
  obtain ⟨front, back, whole, _, found⟩ := List.filter_eq_append_iff.mp parts
  obtain ⟨skipped, idle, rfl, _, _, none⟩ := List.filter_eq_cons_iff.mp found
  have idles : contents idle = [] := by
    rw [contents, significant, List.filter_filter, none]
  rw [← List.append_assoc] at whole
  cases shape : front ++ skipped with
  | nil =>
      rw [shape] at whole
      obtain ⟨rfl, rfl⟩ := List.cons.inj whole
      exact ⟨[], body, rfl, idles, rfl⟩
  | cons first inner =>
      rw [shape] at whole
      obtain ⟨rfl, rfl⟩ := List.cons.inj whole
      refine ⟨inner ++ [last], idle, List.append_cons inner last idle, idles, ?_⟩
      rw [← List.cons_append, List.getLast?_concat]

/-- A block can be cut out of its source. -/
theorem exists_excerpt {source : String} {before body behind : List Token}
    {keyword last : Token} {kind : BlockKind}
    (cut : tokens source = before ++ (keyword :: body ++ behind))
    (opens : keyword.kind = .keyword (.block kind))
    (inside : ∀ token ∈ body, token.kind.endsBlock = false)
    (ends : (contents (keyword :: body)).getLast? = some last)
    (sound : ∀ token ∈ tokens source, token.kind.isFault = false) :
    ∃ text, Bytes.slice? source.toList keyword.span.start last.span.stop = some text ∧
      Excerpt keyword.span.start keyword body (String.ofList text) := by
  have solid := (mem_contents.mp (List.mem_of_getLast? ends)).2.2
  obtain ⟨inner, idle, rfl, idles, closes⟩ := exists_contents_end ends
  rw [List.cons_append, List.append_assoc] at cut
  obtain ⟨passed, run, split, rfl, tail⟩ := List.map_eq_append_iff.mp cut
  obtain ⟨step, rest, rfl, rfl, within⟩ := List.map_eq_cons_iff.mp tail
  obtain ⟨front, left, rfl, rfl, _⟩ := List.map_eq_append_iff.mp within
  obtain ⟨whole, comes, next⟩ := Lexer.steps_reaches split
  obtain ⟨rfl, following⟩ := Lexer.steps_cons (next (List.cons_ne_nil _ _))
    (by rw [opens]; exact Kind.noConfusion)
  obtain ⟨reached, reaches, _⟩ := Lexer.steps_reaches following
  have stands := comes.behind (.initial source)
  have beyond := (Lexer.Reaches.step reaches).behind stands
  have start : whole.step.token.span.start = whole.position.offset := by
    rw [whole.step_transition.span]
  rw [← List.map_cons, List.getLast?_map] at closes
  obtain ⟨final, stops, rfl⟩ := Option.map_eq_some_iff.mp closes
  have among : ∀ step ∈ whole.step :: front, step ∈ steps source := by
    intro step member
    rw [split, ← List.cons_append]
    exact List.mem_append_right _ (List.mem_append_left _ member)
  refine ⟨((whole.step :: front).map (·.covered)).flatten, ?_, ?_⟩
  · rw [start, (Lexer.Reaches.step reaches).stop stops, stands.offset, beyond.offset, beyond.text,
      List.append_assoc]
    exact Bytes.slice?_append _ _ _
  · rw [start]
    refine .of_reaches opens reaches ?_ ?_ ?_ idles
    · intro last ends silent
      obtain rfl := Option.some.inj (stops.symm.trans (List.mem_getLast?_cons ends))
      have empty : final.token.span.isEmpty = final.covered.isEmpty :=
        Lexer.isEmpty_span (among final (List.mem_of_mem_getLast? stops))
      rw [solid, silent] at empty
      cases empty
    · intro step member
      exact sound _ (List.mem_map_of_mem (among step (List.mem_cons_of_mem _ member)))
    · intro step member
      exact inside _ (List.mem_append_left _ (List.mem_map_of_mem member))

/-- The text of a block, cut out of its source, is read as that block alone. What
stands before it and behind it only decides where it stands. -/
theorem blocks_read_alone {source : String} {object : Object}
    (parsed : Object.parse source = .ok object) :
    ∀ block ∈ object.blocks, ∃ text,
      Bytes.slice? source.toList block.span.start block.span.stop = some text ∧
        ∃ alone, Object.parse (String.ofList text) = .ok ⟨[alone]⟩ ∧
          alone.moved block.span.start = block := by
  intro block member
  obtain ⟨lead, parts, final, cut, _, _, formed⟩ := Object.parse_parts parsed
  obtain ⟨part, among, forms, occupies⟩ := formed.exists_part member
  obtain ⟨keyword, body, last, rfl, opens, inside, ends, span⟩ := occupies
  obtain ⟨before, behind, split⟩ := List.append_of_mem among
  have whole : tokens source = lead ++ before.flatten ++
      (keyword :: body ++ (behind.flatten ++ [final])) := by
    rw [cut, split]
    simp
  have row : Row (keyword :: body) := by
    have every := Row.of_source source
    rw [whole] at every
    exact every.sublist ((List.sublist_append_left _ _).trans (List.sublist_append_right _ _))
  obtain ⟨text, slice, excerpt⟩ := exists_excerpt whole opens inside ends
    (firstFault?_eq_none.mp (Object.parse_firstFault parsed))
  rw [span]
  exact ⟨text, slice, excerpt.parse opens forms row⟩

/-- A level is still open where the block of constants begins in the middle of a
line, and it is closed by the first line of the method behind that. -/
theorem blocks_read_alone_nested :
    Object.parse "PUB\n a\n  b CON x = 1 PUB\n  y\n   z 'end" =
        .ok ⟨[.raw .pub (by decide) ⟨0, 10⟩,
          .constants [⟨"x", ⟨.decimal, "1", 1⟩, ⟨15, 20⟩⟩] ⟨11, 20⟩,
          .raw .pub (by decide) ⟨21, 33⟩]⟩ ∧
      ∃ text, Bytes.slice? "PUB\n a\n  b CON x = 1 PUB\n  y\n   z 'end".toList 21 33 = some text ∧
        ∃ alone, Object.parse (String.ofList text) = .ok ⟨[alone]⟩ ∧
          alone.moved 21 = .raw .pub (by decide) ⟨21, 33⟩ :=
  have parsed : Object.parse "PUB\n a\n  b CON x = 1 PUB\n  y\n   z 'end" =
      .ok ⟨[.raw .pub (by decide) ⟨0, 10⟩,
        .constants [⟨"x", ⟨.decimal, "1", 1⟩, ⟨15, 20⟩⟩] ⟨11, 20⟩,
        .raw .pub (by decide) ⟨21, 33⟩]⟩ := by
    decide +kernel
  ⟨parsed, blocks_read_alone parsed (.raw .pub (by decide) ⟨21, 33⟩) (by simp)⟩

end SpinBlocks
