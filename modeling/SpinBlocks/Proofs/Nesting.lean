import SpinBlocks.Proofs.Lines
import SpinBlocks.Proofs.Regions
import SpinBlocks.Proofs.Replay
import SpinBlocks.Proofs.Stairs

namespace SpinBlocks

/-! Reindenting keeps the nesting of lines.

The lexer that reads the new text goes along with the one that reads the source.
Its levels are stairs, and a line stands on them as deep as it stood on the
levels of the source. This holds as long as a line is written when its depth is
known, so no comment may open a line of code; and a block keyword that opens a
line keeps its blanks, so it may not have any.
-/

open Lexeme (trimEnd)

namespace Layout

variable {layout other settled : Layout}

theorem Settles.nested {first : Char} {shifts : List Shift}
    (settles : layout.Settles first shifts settled) (nested : layout.Nested) : settled.Nested := by
  induction settles with
  | ready ready =>
      unfold Ready at ready
      split at ready
      · exact (Resolution.of_resolve ready).nested nested
      · rwa [ready]
  | shift waits resolved more ih => exact ih ((Resolution.of_resolve resolved).nested nested)

theorem Settles.pending {first : Char} {shifts : List Shift}
    (settles : layout.Settles first shifts settled)
    (significant : Character.isSignificant first = true) : settled.pending = false := by
  induction settles with
  | ready ready => exact ready_pending ready significant
  | shift waits resolved more ih => exact ih

theorem Tracks.noteMargin (tracks : layout.Tracks other) (margin : List Char) :
    layout.Tracks (other.noteMargin margin) := by
  unfold Layout.noteMargin Layout.noteBlanks
  split
  · exact tracks
  · split
    · exact ⟨⟨tracks.pending, tracks.blockStart, tracks.length⟩, tracks.levels⟩
    · exact tracks

theorem width_noteMargin {margin : List Char} (pending : layout.pending = true)
    (unmeasured : layout.width = 0) : (layout.noteMargin margin).width = margin.length := by
  unfold noteMargin noteBlanks
  cases margin with
  | nil => exact unmeasured
  | cons c rest => simp [pending]

theorem Paired.depth (paired : layout.Paired other) : other.depth = layout.depth := by
  rw [Layout.depth, Layout.depth, paired.length]

/-- Behind a block keyword the levels no longer matter, only their number. -/
theorem Paired.openBlock (paired : layout.Paired other) :
    layout.openBlock.Tracks other.openBlock :=
  ⟨⟨paired.pending, rfl, paired.length⟩, fun goesOn => by cases goesOn⟩

theorem pending_noteBlanks (layout : Layout) (column width : Nat) :
    (layout.noteBlanks column width).pending = layout.pending := by
  unfold noteBlanks
  split <;> rfl

theorem Tracks.noteBlanks (tracks : layout.Tracks other) (column width : Nat) :
    (layout.noteBlanks column width).Tracks other := by
  unfold Layout.noteBlanks
  split
  · exact ⟨⟨tracks.pending, tracks.blockStart, tracks.length⟩, tracks.levels⟩
  · exact tracks

theorem Nested.noteBlanks (nested : layout.Nested) (column width : Nat) :
    (layout.noteBlanks column width).Nested := by
  unfold Layout.noteBlanks
  split <;> exact nested

theorem Tracks.beginLine (tracks : layout.Tracks other) :
    layout.beginLine.Tracks other.beginLine :=
  ⟨⟨rfl, tracks.blockStart, tracks.length⟩, tracks.levels⟩

end Layout

namespace Reindent.Draft

variable {draft copy : Draft} {lexer other : Lexer}

/-- Every line of a method that no block keyword opens begins with its margin. -/
def Aligned (draft : Draft) : List Step → Prop
  | [] => True
  | step :: rest =>
      (draft.atLineStart = true → step.token.kind.isVisible = true → moves step.token = true →
        draft.leading = indentation draft.depth) ∧ (draft.after step).Aligned rest

theorem aligned_append {front rest : List Step}
    (hidden : ∀ step ∈ front, step.token.kind.isVisible = false) :
    draft.Aligned (front ++ rest) ↔ (front.foldl after draft).Aligned rest := by
  induction front generalizing draft with
  | nil => rfl
  | cons step front ih =>
      obtain ⟨here, others⟩ := List.forall_mem_cons.mp hidden
      rw [List.cons_append, Aligned, ih others, here]
      simp

theorem count_newline_blanks {blanks : List Char}
    (blank : ∀ c ∈ blanks, Character.isSpace c = true) : blanks.count '\n' = 0 :=
  List.count_eq_zero.mpr fun member => absurd (blank _ member) (by decide)

/-- The blanks in front of a visible token are read by themselves, and are what
the line begins with. -/
theorem steps_opening {blanks tail : List Char} (next : other.reader.rest = blanks ++ tail)
    (run : Lexeme.Run Character.isSpace blanks tail)
    (column : blanks ≠ [] → other.position.column = 0) :
    ∃ spaces : List Step, ∃ reached : Lexer, other.steps = spaces ++ reached.steps ∧
      (∀ space ∈ spaces, space.token.kind = .space) ∧
      (reached.reader.rest = tail ∧ reached.region = other.region ∧
        reached.layout = other.layout.noteMargin blanks ∧
        reached.position.line = other.position.line) ∧
      ∀ copy : Draft, (blanks ≠ [] → copy.atLineStart = true) →
        (copy.atLineStart = true → copy.leading = []) →
        ∃ leading, spaces.foldl after copy = { copy with leading } ∧
          (copy.atLineStart = true → leading = blanks) := by
  cases blanks with
  | nil =>
      exact ⟨[], other, rfl, by simp, ⟨next, rfl, rfl, rfl⟩, fun copy _ leading =>
        ⟨copy.leading, rfl, leading⟩⟩
  | cons first body =>
      obtain ⟨blank, inside⟩ := List.forall_mem_cons.mp run.inside
      obtain ⟨step, leads, kind, shown, rest⟩ :=
        Lexer.leads_trivia next (.blanks blank ⟨inside, run.stops⟩) rfl
      refine ⟨[step], step.after, leads.steps, by simpa using kind, ⟨rest, ?_, ?_, ?_⟩, ?_⟩
      · rw [leads.takes.region, kind]
        rfl
      · rw [leads.layout, kind, shown]
        simp [Layout.behind, Layout.noteMargin, column (List.cons_ne_nil first body),
          Nat.add_comm]
      · rw [leads.takes.place, Position.line_advanceAll, count_newline_blanks run.inside]
        rfl
      · intro copy start _
        refine ⟨first :: body, ?_, fun _ => rfl⟩
        rw [List.foldl_cons, List.foldl_nil, after_space kind,
          start (List.cons_ne_nil first body), leads.takes.covered]
        rfl

/-- What the lines that are still to come look like. On a line that waits for its
indentation, code comes first or not at all. -/
structure Heeds (draft : Draft) (lexer : Lexer) : Prop where
  lines : ∀ line ∈ methodLines (lexer.steps.map (·.token)), Clear line
  opens : lexer.layout.pending = true → draft.atLineStart = true →
    Clear (restOfLine (lexer.steps.map (·.token)))
  closes : lexer.layout.pending = true → draft.atLineStart = false →
    ∀ token ∈ restOfLine (lexer.steps.map (·.token)), token.isCode = false

/-- The other lexer stands in the rendered text where the first one stands in the
source, on levels that are stairs, and `copy` is its draft. -/
structure Traces (draft : Draft) (lexer : Lexer) (copy : Draft) (other : Lexer) : Prop where
  region : other.region = lexer.region
  text : other.reader.rest = draft.render lexer.steps
  line : other.position.line = lexer.position.line
  column : draft.atLineStart = true ↔ other.position.column = 0
  blank : draft.Blank
  depth : draft.depth = lexer.layout.depth
  layout : lexer.layout.Tracks other.layout
  nested : lexer.layout.Nested
  inside : lexer.layout.pending = true → lexer.region = .methods
  unmeasured : lexer.layout.pending = true → draft.atLineStart = true → other.layout.width = 0
  flat : lexer.layout.pending = true → draft.atLineStart = true → lexer.position.column = 0 →
    lexer.layout.width = 0 ∧ draft.leading = []
  level : copy.depth = draft.depth
  start : copy.atLineStart = draft.atLineStart
  leading : draft.atLineStart = true → copy.leading = []

/-- The two runs give the same tokens, blanks apart, and the lines of the other
one are where they belong. -/
def Agrees (lexer : Lexer) (copy : Draft) (other : Lexer) : Prop :=
  List.Forall₂ Step.Matches (lexer.steps.filter (·.token.kind != .space))
    (other.steps.filter (·.token.kind != .space)) ∧ copy.Aligned other.steps

/-- The other run gets past a step as the first one does, and they agree if they
do behind it. -/
def Proceeds (lexer : Lexer) (step : Step) (copy : Draft) (other : Lexer) : Prop :=
  ∃ draft copy' other', Traces draft step.after copy' other' ∧ Heeds draft step.after ∧
    (Agrees step.after copy' other' → Agrees lexer copy other)

variable {first : Char} {body : List Char} {shifts : List Shift} {settled : Layout}
  {marks : List Step} {step : Step}

theorem Traces.newline (traces : Traces draft lexer copy other) (heeds : Heeds draft lexer)
    (leads : lexer.Leads first body shifts settled marks step)
    (newline : step.token.kind = .newline) : Proceeds lexer step copy other := by
  obtain ⟨rfl, rfl⟩ := leads.trivia (by rw [newline]; rfl)
  obtain ⟨rfl, rfl, written⟩ := leads.takes.reads.newline_body newline
  have steps := leads.steps
  rw [List.nil_append] at steps
  have text := traces.text
  rw [steps, render, piece_newline newline] at text
  obtain ⟨found, again, kind, shown, rest⟩ := Lexer.leads_trivia text .newline rfl
  have region : step.after.region = lexer.region := by rw [leads.takes.region, newline]; rfl
  have region' : found.after.region = other.region := by rw [again.takes.region, kind]; rfl
  have layout : step.after.layout =
      if lexer.region = .methods then lexer.layout.beginLine else lexer.layout := by
    rw [leads.layout, newline]
    rfl
  have layout' : found.after.layout =
      if lexer.region = .methods then other.layout.beginLine else other.layout := by
    rw [again.layout, kind, traces.region]
    rfl
  -- A line waits behind the line feed only if it is one of a method.
  have waits : step.after.layout.pending = true → lexer.region = .methods := by
    rw [layout]
    split
    · rename_i methods
      exact fun _ => methods
    · exact traces.inside
  have ended : draft.after step = draft.endLine := after_newline newline
  have ended' : copy.after found = copy.endLine := after_newline kind
  refine ⟨draft.after step, copy.after found, found.after, ?_, ?_, ?_⟩
  · exact {
      region := by rw [region', region, traces.region]
      text := rest
      line := by
        rw [leads.takes.place, again.takes.place, Position.line_advanceAll,
          Position.line_advanceAll, traces.line]
      column := by
        rw [ended, again.takes.place]
        simp [endLine, Position.advance]
      blank := by
        rw [ended]
        simp [Blank, endLine]
      depth := by
        rw [ended, layout]
        split <;> exact traces.depth
      layout := by
        rw [layout, layout']
        split
        · exact traces.layout.beginLine
        · exact traces.layout
      nested := by
        rw [layout]
        split <;> exact traces.nested
      inside := by
        rw [region]
        exact waits
      unmeasured := by
        intro pends _
        rw [layout', if_pos (waits pends)]
        rfl
      flat := by
        intro pends _ _
        rw [layout, if_pos (waits pends), ended]
        exact ⟨rfl, rfl⟩
      level := by
        rw [ended, ended']
        exact traces.level
      start := by
        rw [ended, ended']
        rfl
      leading := by
        intro _
        rw [ended']
        rfl }
  · have tokens : lexer.steps.map (·.token) = step.token :: step.after.steps.map (·.token) := by
      rw [steps, List.map_cons]
    have lines := heeds.lines
    rw [tokens, methodLines] at lines
    refine ⟨fun line member => ?_, fun pends _ => ?_, fun _ middle => ?_⟩
    · refine lines line ?_
      split
      · exact List.mem_cons_of_mem _ member
      · exact member
    · have inside : step.token.region = .methods := by
        rw [leads.takes.inside, region, waits pends]
      rw [if_pos ⟨newline, inside⟩] at lines
      exact lines _ List.mem_cons_self
    · rw [ended] at middle
      cases middle
  · rintro ⟨tokens, aligned⟩
    have matched : step.Matches found := by
      refine ⟨⟨by rw [kind, newline], ?_, .inl (by rw [shown, written])⟩, ?_⟩
      · rw [again.takes.inside, leads.takes.inside, region, region', traces.region]
      · rw [again.takes.line, leads.takes.line, traces.line]
    refine ⟨?_, ?_⟩
    · rw [steps, again.steps, List.nil_append, List.filter_cons_of_pos (by simp [newline]),
        List.filter_cons_of_pos (by simp [kind])]
      exact .cons matched tokens
    · rw [again.steps, List.nil_append, Aligned]
      refine ⟨fun _ visible => ?_, aligned⟩
      rw [kind] at visible
      cases visible

theorem atLineStart_space (space : step.token.kind = .space) :
    (draft.after step).atLineStart = draft.atLineStart := by
  rw [after_space space]
  split <;> rfl

theorem depth_space (space : step.token.kind = .space) :
    (draft.after step).depth = draft.depth := by
  rw [after_space space]
  split <;> rfl

theorem Heeds.space (heeds : Heeds draft lexer) (space : step.token.kind = .space)
    (steps : lexer.steps = step :: step.after.steps)
    (pending : step.after.layout.pending = lexer.layout.pending) :
    Heeds (draft.after step) step.after := by
  have tokens : lexer.steps.map (·.token) = step.token :: step.after.steps.map (·.token) := by
    rw [steps, List.map_cons]
  have line : restOfLine (lexer.steps.map (·.token)) =
      step.token :: restOfLine (step.after.steps.map (·.token)) := by
    rw [tokens, restOfLine_cons _ (by rw [space]; exact Kind.noConfusion)]
  obtain ⟨lines, opens, closes⟩ := heeds
  rw [tokens] at lines
  rw [line] at opens closes
  refine ⟨fun line member => ?_, ?_, ?_⟩
  · exact lines line (methodLines_append [step.token] _ line member)
  · rw [pending, atLineStart_space space]
    intro pends start
    exact (opens pends start).tail (by simp [Token.isBlank, space])
      (by simp [Token.isCode, space, Kind.isTrivia])
  · rw [pending, atLineStart_space space]
    intro pends start token member
    exact closes pends start token (List.mem_cons_of_mem _ member)

/-- Blanks that are not written leave the other lexer where it is. -/
theorem Traces.skip (traces : Traces draft lexer copy other) (heeds : Heeds draft lexer)
    (leads : lexer.Leads first body shifts settled marks step)
    (space : step.token.kind = .space) (nothing : draft.piece step = []) :
    Proceeds lexer step copy other := by
  obtain ⟨rfl, rfl⟩ := leads.trivia (by rw [space]; rfl)
  have steps := leads.steps
  rw [List.nil_append] at steps
  have run := (leads.takes.reads.space_run space).1
  have region : step.after.region = lexer.region := by rw [leads.takes.region, space]; rfl
  have layout : step.after.layout =
      lexer.layout.noteBlanks lexer.position.column step.token.text.length := by
    rw [leads.layout, space]
    rfl
  have pending : step.after.layout.pending = lexer.layout.pending := by
    rw [layout, Layout.pending_noteBlanks]
  have start : (draft.after step).atLineStart = draft.atLineStart := atLineStart_space space
  refine ⟨draft.after step, copy, other, ?_, heeds.space space steps pending, ?_⟩
  · exact {
      region := by rw [region, traces.region]
      text := by
        rw [traces.text, steps, render, nothing]
        rfl
      line := by
        rw [leads.takes.place, Position.line_advanceAll, count_newline_blanks run.inside,
          traces.line]
        rfl
      column := by
        rw [start]
        exact traces.column
      blank := traces.blank.after (.blanks space leads.takes)
      depth := by
        rw [depth_space space, layout, Layout.depth_noteBlanks]
        exact traces.depth
      layout := by
        rw [layout]
        exact traces.layout.noteBlanks _ _
      nested := by
        rw [layout]
        exact traces.nested.noteBlanks _ _
      inside := by
        rw [pending, region]
        exact traces.inside
      unmeasured := by
        rw [pending, start]
        exact traces.unmeasured
      flat := by
        intro _ _ column
        have ends := leads.takes.reads.unbroken (by rw [space]; exact Kind.noConfusion)
        rw [leads.takes.place] at column
        exact absurd column
          (lexer.position.column_advanceAll (List.cons_ne_nil first body) ends)
      level := by
        rw [depth_space space]
        exact traces.level
      start := by
        rw [start]
        exact traces.start
      leading := by
        rw [start]
        exact traces.leading }
  · rintro ⟨tokens, aligned⟩
    refine ⟨?_, aligned⟩
    rw [steps, List.filter_cons_of_neg (by simp [space])]
    exact tokens

/-- Blanks within a line are read again as they are. -/
theorem Traces.blanks (traces : Traces draft lexer copy other) (heeds : Heeds draft lexer)
    (leads : lexer.Leads first body shifts settled marks step)
    (faultless : Faultless step.after.steps) (space : step.token.kind = .space)
    (middle : draft.atLineStart = false) (goesOn : endsLine step.after.reader.rest = false) :
    Proceeds lexer step copy other := by
  obtain ⟨rfl, rfl⟩ := leads.trivia (by rw [space]; rfl)
  have steps := leads.steps
  rw [List.nil_append] at steps
  have start : (draft.after step).atLineStart = false := (atLineStart_space space).trans middle
  have piece : draft.piece step = first :: body := by
    rw [piece_space space, middle, goesOn, leads.takes.covered]
    rfl
  have text := traces.text
  rw [steps, render, piece] at text
  have run := (leads.takes.reads.space_run space).1
  have stops := (run.replace (render_replaces faultless start) rfl).stops
  obtain ⟨blank, inside⟩ := List.forall_mem_cons.mp run.inside
  obtain ⟨found, again, kind, shown, rest⟩ :=
    Lexer.leads_trivia text (.blanks blank ⟨inside, stops⟩) rfl
  have region : step.after.region = lexer.region := by rw [leads.takes.region, space]; rfl
  have region' : found.after.region = other.region := by rw [again.takes.region, kind]; rfl
  have layout : step.after.layout =
      lexer.layout.noteBlanks lexer.position.column step.token.text.length := by
    rw [leads.layout, space]
    rfl
  have column : other.position.column ≠ 0 := by
    rw [Ne, ← traces.column, middle]
    exact Bool.false_ne_true
  have unchanged : found.after.layout = other.layout := by
    rw [again.layout, kind]
    simp [Layout.behind, Layout.noteBlanks, column]
  have pending : step.after.layout.pending = lexer.layout.pending := by
    rw [layout, Layout.pending_noteBlanks]
  refine ⟨draft.after step, copy.after found, found.after, ?_, heeds.space space steps pending, ?_⟩
  · exact {
      region := by rw [region', region, traces.region]
      text := rest
      line := by
        rw [leads.takes.place, again.takes.place, Position.line_advanceAll,
          Position.line_advanceAll, traces.line]
      column := by
        have ends := again.takes.reads.unbroken (by rw [kind]; exact Kind.noConfusion)
        rw [start, again.takes.place]
        exact iff_of_false Bool.false_ne_true
          (other.position.column_advanceAll (List.cons_ne_nil first body) ends)
      blank := traces.blank.after (.blanks space leads.takes)
      depth := by
        rw [depth_space space, layout, Layout.depth_noteBlanks]
        exact traces.depth
      layout := by
        rw [layout, unchanged]
        exact traces.layout.noteBlanks _ _
      nested := by
        rw [layout]
        exact traces.nested.noteBlanks _ _
      inside := by
        rw [pending, region]
        exact traces.inside
      unmeasured := by
        intro _ begun
        rw [start] at begun
        cases begun
      flat := by
        intro _ begun
        rw [start] at begun
        cases begun
      level := by
        rw [depth_space space, depth_space kind]
        exact traces.level
      start := by
        rw [atLineStart_space space, atLineStart_space kind]
        exact traces.start
      leading := by
        intro begun
        rw [start] at begun
        cases begun }
  · rintro ⟨tokens, aligned⟩
    refine ⟨?_, ?_⟩
    · rw [steps, again.steps, List.nil_append, List.filter_cons_of_neg (by simp [space]),
        List.filter_cons_of_neg (by simp [kind])]
      exact tokens
    · rw [again.steps, List.nil_append, Aligned]
      refine ⟨fun _ visible => ?_, aligned⟩
      rw [kind] at visible
      cases visible

/-- Up to a visible token the line shows marks only. -/
theorem restOfLine_leads (leads : lexer.Leads first body shifts settled marks step)
    (consistent : .inconsistent ∉ shifts) (inline : step.token.kind ≠ .newline) :
    restOfLine (lexer.steps.map (·.token)) =
      marks.map (·.token) ++ step.token :: restOfLine (step.after.steps.map (·.token)) := by
  have silent := isMark_marks leads.kinds consistent
  rw [leads.steps, List.map_append, List.map_cons, restOfLine_append, restOfLine_cons _ inline]
  intro token member newline
  obtain ⟨mark, among, rfl⟩ := List.mem_map.mp member
  have kind := silent mark among
  rw [newline] at kind
  cases kind

theorem isEmpty_span_marks (leads : lexer.Leads first body shifts settled marks step) :
    ∀ token ∈ marks.map (·.token), token.isBlank = true ∧ token.isCode = false := by
  intro token member
  obtain ⟨mark, among, rfl⟩ := List.mem_map.mp member
  have empty : mark.token.span.isEmpty = true := by
    have inside : mark ∈ lexer.steps := by simp [leads.steps, among]
    rw [Lexer.isEmpty_span inside, leads.silent mark among]
    rfl
  simp [Token.isBlank, Token.isCode, empty]

theorem isEmpty_span_step (leads : lexer.Leads first body shifts settled marks step) :
    step.token.span.isEmpty = false := by
  have member : step ∈ lexer.steps := by simp [leads.steps]
  rw [Lexer.isEmpty_span member, leads.takes.covered]
  rfl

/-- A line that waits for its indentation begins with its first code. -/
theorem Heeds.clear (heeds : Heeds draft lexer)
    (leads : lexer.Leads first body shifts settled marks step)
    (consistent : .inconsistent ∉ shifts) (visible : step.token.kind.isVisible = true)
    (pending : lexer.layout.pending = true) (start : draft.atLineStart = true) :
    Clear (step.token :: restOfLine (step.after.steps.map (·.token))) := by
  have line := heeds.opens pending start
  rw [restOfLine_leads leads consistent (Kind.ne_of_isVisible visible).2] at line
  exact line.behind (isEmpty_span_marks leads)

theorem Heeds.start (heeds : Heeds draft lexer)
    (leads : lexer.Leads first body shifts settled marks step)
    (consistent : .inconsistent ∉ shifts) (visible : step.token.kind.isVisible = true)
    (waits : lexer.layout.waits first = true) : draft.atLineStart = true := by
  obtain ⟨pending, significant⟩ := Bool.and_eq_true_iff.mp waits
  by_contra middle
  have none := heeds.closes pending (by simpa using middle)
  rw [restOfLine_leads leads consistent (Kind.ne_of_isVisible visible).2] at none
  have quiet := none step.token (by simp)
  have code : step.token.kind.isTrivia = false := by
    rw [leads.takes.reads.isSignificant] at significant
    simpa using significant
  simp [Token.isCode, code, isEmpty_span_step leads] at quiet

/-- The margin of a token places its line on the stairs as the blanks of the line
place it in the source. -/
theorem Traces.retrace (traces : Traces draft lexer copy other) (heeds : Heeds draft lexer)
    (leads : lexer.Leads first body shifts settled marks step)
    (consistent : .inconsistent ∉ shifts) (visible : step.token.kind.isVisible = true) :
    ∃ placed, (other.layout.noteMargin
        (opening { draft with depth := settled.depth } step.token)).Settles first shifts placed ∧
      settled.Paired placed ∧
      (step.token.kind.isBlockKeyword = false → settled.Tracks placed) := by
  generalize written : opening { draft with depth := settled.depth } step.token = blanks
  have tracks := traces.layout.noteMargin blanks
  cases waits : lexer.layout.waits first with
  | false =>
      obtain ⟨rfl, rfl⟩ := leads.settles.of_not_waits waits
      have quiet : (other.layout.noteMargin blanks).waits first = false := by
        rw [Layout.waits, tracks.pending]
        exact waits
      exact ⟨_, .ready (by simp [Layout.Ready, quiet]), tracks.toPaired, fun _ => tracks⟩
  | true =>
      have pending := (Bool.and_eq_true_iff.mp waits).1
      have start := heeds.start leads consistent visible waits
      have unmeasured := traces.unmeasured pending start
      have measured : (other.layout.noteMargin blanks).width = blanks.length :=
        Layout.width_noteMargin (traces.layout.pending.trans pending) unmeasured
      have opens : blanks = margin { draft with depth := settled.depth } step.token := by
        rw [← written, opening]
        exact if_pos start
      cases keyword : step.token.kind.isBlockKeyword with
      | false =>
          have region : step.token.region = .methods := by
            rw [leads.takes.inside, leads.takes.region, Kind.regionBehind_of_not_opens keyword]
            exact traces.inside pending
          have moving : moves step.token = true := by simp [moves, region, keyword]
          have width : (other.layout.noteMargin blanks).width = 2 * (settled.depth + 1) := by
            rw [measured, opens, moves_margin, if_pos moving, length_indentation, Nat.mul_comm]
          obtain ⟨placed, settles, paired, flight⟩ :=
            leads.settles.retrace waits consistent traces.nested tracks (.inl width)
          exact ⟨placed, settles, paired, fun _ => ⟨paired, fun _ => flight (by omega)⟩⟩
      | true =>
          have shown : step.token.isBlank = false := by
            simp [Token.isBlank, (Kind.ne_of_isVisible visible).1, isEmpty_span_step leads]
          have clear := heeds.clear leads consistent visible pending start
          have column := clear.column shown keyword
          rw [leads.takes.column] at column
          obtain ⟨flat, none⟩ := traces.flat pending start column
          have width : (other.layout.noteMargin blanks).width = 0 := by
            rw [measured, opens, moves_margin]
            simp [moves, keyword, none]
          obtain ⟨placed, settles, paired, _⟩ :=
            leads.settles.retrace waits consistent traces.nested tracks (.inr ⟨width, flat⟩)
          exact ⟨placed, settles, paired, fun plain => by cases plain⟩

/-- The other run has read the blanks up to `reached`, and comes to the token of
`step` by the shifts of the first run. Its draft then begins the line with
`leading`. -/
structure Meets (draft : Draft) (lexer : Lexer) (first : Char) (body : List Char)
    (shifts : List Shift) (settled : Layout) (step : Step) (copy : Draft) (other : Lexer)
    (spaces : List Step) (reached : Lexer) (less : List Char) (placed : Layout)
    (marks : List Step) (found : Step) (leading : List Char) : Prop where
  steps : other.steps = spaces ++ reached.steps
  blanks : ∀ space ∈ spaces, space.token.kind = .space
  begun : spaces.foldl after copy = { copy with leading }
  leading : copy.atLineStart = true → leading = draft.margin step.token
  leads : reached.Leads first less shifts placed marks found
  region : reached.region = lexer.region
  line : reached.position.line = lexer.position.line
  depth : reached.layout.depth = lexer.layout.depth
  paired : settled.Paired placed
  tracks : step.token.kind.isBlockKeyword = false → settled.Tracks placed
  trimmed : trimEnd (first :: body) = first :: less
  kind : found.token.kind = step.token.kind
  text : found.token.text = step.token.text ∨ first = '\'' ∧
    found.token.text = String.ofList (trimEnd step.token.text.toList)
  rest : found.after.reader.rest = (draft.after step).render step.after.steps

theorem Traces.meets (traces : Traces draft lexer copy other) (heeds : Heeds draft lexer)
    (leads : lexer.Leads first body shifts settled marks step)
    (consistent : .inconsistent ∉ shifts) (faultless : Faultless step.after.steps)
    (visible : step.token.kind.isVisible = true) :
    ∃ spaces reached less placed marks' found leading,
      Meets { draft with depth := settled.depth } lexer first body shifts settled step copy other
        spaces reached less placed marks' found leading := by
  obtain ⟨placed, settles, paired, tracks⟩ := traces.retrace heeds leads consistent visible
  have moved : marks.foldl after draft = { draft with depth := settled.depth } :=
    foldl_marks leads.settles consistent leads.kinds traces.depth
  generalize known : { draft with depth := settled.depth } = shown at moved settles
  have start : shown.atLineStart = draft.atLineStart := by rw [← known]
  have blank : shown.Blank := by
    rw [← known]
    exact traces.blank
  have middle : (shown.after step).atLineStart = false := by rw [after_visible visible]
  obtain ⟨less, written, trimmed, reads, same⟩ :=
    leads.takes.reads.trim (Kind.ne_of_isVisible visible).1
  have reads := reads.replace (render_replaces faultless middle)
  have text := traces.text
  rw [leads.steps, render_marks (isMark_marks leads.kinds consistent), moved, render,
    piece_visible visible, leads.takes.covered, trimmed, List.append_assoc,
    List.cons_append] at text
  have run : Lexeme.Run Character.isSpace (shown.opening step.token)
      (first :: (less ++ (shown.after step).render step.after.steps)) :=
    ⟨blank.opening step.token,
      by simpa [Lexeme.Stops] using isSpace_of_visible visible leads.takes⟩
  have opens : shown.opening step.token ≠ [] → draft.atLineStart = true := by
    intro margin
    rw [← start]
    by_contra middle
    exact margin (if_neg middle)
  obtain ⟨spaces, reached, before, blanks, ⟨next, region, measured, line⟩, fold⟩ :=
    steps_opening text run fun margin => traces.column.mp (opens margin)
  obtain ⟨leading, begun, leading_eq⟩ := fold copy (fun margin => traces.start.trans (opens margin))
    fun begun => traces.leading (traces.start.symm.trans begun)
  rw [← measured] at settles
  obtain ⟨marks', found, again, kind, read, rest⟩ := Lexer.leads_of_reads next reads settles
  exact ⟨spaces, reached, less, placed, marks', found, leading, {
    steps := before
    blanks := blanks
    begun := begun
    leading := by
      intro begins
      rw [leading_eq begins, opening]
      exact if_pos (start.trans (traces.start.symm.trans begins))
    leads := again
    region := region.trans traces.region
    line := line.trans traces.line
    depth := by
      rw [measured, Layout.depth_noteMargin]
      exact traces.layout.depth
    paired := paired
    tracks := tracks
    trimmed := trimmed
    kind := kind
    text := by
      rw [read]
      exact same
    rest := rest }⟩

theorem count_newline_trimEnd (characters : List Char) :
    (trimEnd characters).count '\n' = characters.count '\n' := by
  have whole := List.rdropWhile_append_rtakeWhile (p := Character.isSpace) (l := characters)
  have blank : ∀ c ∈ characters.rtakeWhile Character.isSpace, Character.isSpace c = true :=
    fun c member => List.mem_rtakeWhile_imp member
  conv_rhs => rw [← whole]
  rw [List.count_append, count_newline_blanks blank]
  rfl

/-- Only a comment leaves its line waiting. -/
theorem pending_visible (leads : lexer.Leads first body shifts settled marks step)
    (visible : step.token.kind.isVisible = true) (pending : step.after.layout.pending = true) :
    (step.token.kind = .comment ∨ step.token.kind = .docComment) ∧ marks = [] ∧
      lexer.layout.pending = true ∧ step.after.region = lexer.region := by
  have layout := leads.layout
  rw [Layout.behind_visible visible] at layout
  have settled_pending : settled.pending = true := by
    rw [layout] at pending
    split at pending <;> exact pending
  cases trivia : step.token.kind.isTrivia with
  | false =>
      have significant : Character.isSignificant first = true := by
        rw [leads.takes.reads.isSignificant, trivia]
        rfl
      rw [leads.settles.pending significant] at settled_pending
      cases settled_pending
  | true =>
      obtain ⟨rfl, rfl⟩ := leads.trivia trivia
      refine ⟨?_, rfl, settled_pending, ?_⟩
      · cases kind : step.token.kind <;>
          simp_all [Kind.isTrivia, Kind.isVisible, Kind.isMark]
      · rw [leads.takes.region]
        exact Kind.regionBehind_of_not_opens (Kind.isBlockKeyword_of_isTrivia trivia) _

theorem Heeds.visible (heeds : Heeds draft lexer)
    (leads : lexer.Leads first body shifts settled marks step)
    (consistent : .inconsistent ∉ shifts) (visible : step.token.kind.isVisible = true)
    (shown : Draft) : Heeds (shown.after step) step.after := by
  have middle : (shown.after step).atLineStart = false := by rw [after_visible visible]
  refine ⟨fun line member => ?_, fun _ start => ?_, fun pends _ => ?_⟩
  · refine heeds.lines line ?_
    rw [leads.steps, List.map_append, List.map_cons]
    exact methodLines_append _ _ line (methodLines_append [step.token] _ line member)
  · rw [middle] at start
    cases start
  · obtain ⟨comment, rfl, pending, _⟩ := pending_visible leads visible pends
    cases start : draft.atLineStart with
    | true => exact (heeds.clear leads consistent visible pending start).comment comment
    | false =>
        have none := heeds.closes pending start
        rw [restOfLine_leads leads consistent (Kind.ne_of_isVisible visible).2] at none
        exact fun token member => none token (by simp [member])

theorem filter_marks {run : List Step} (silent : ∀ mark ∈ run, mark.token.kind.isMark = true) :
    run.filter (·.token.kind != .space) = run := by
  refine List.filter_eq_self.mpr fun mark member => ?_
  simpa using (Kind.plain_of_isMark (silent mark member)).1

theorem Meets.tokens {spaces marks' : List Step} {reached : Lexer} {less leading : List Char}
    {placed : Layout} {found : Step}
    (meets : Meets draft lexer first body shifts settled step copy other spaces reached less placed
      marks' found leading)
    (leads : lexer.Leads first body shifts settled marks step)
    (consistent : .inconsistent ∉ shifts) (visible : step.token.kind.isVisible = true)
    (more : List.Forall₂ Step.Matches (step.after.steps.filter (·.token.kind != .space))
      (found.after.steps.filter (·.token.kind != .space))) :
    List.Forall₂ Step.Matches (lexer.steps.filter (·.token.kind != .space))
      (other.steps.filter (·.token.kind != .space)) := by
  have spaced := (Kind.ne_of_isVisible visible).1
  have dropped : spaces.filter (·.token.kind != .space) = [] :=
    List.filter_eq_nil_iff.mpr fun space member => by simp [meets.blanks space member]
  have front : List.Forall₂ Step.Matches marks marks' := by
    have follow := Lexer.marks_front meets.leads.steps meets.leads.silent
    rw [meets.region, meets.line] at follow
    exact Step.matches_marks (leads.kinds.trans meets.leads.kinds.symm)
      (Lexer.marks_front leads.steps leads.silent) follow
  have here : step.Matches found := by
    refine ⟨⟨meets.kind, ?_, ?_⟩, ?_⟩
    · rw [meets.leads.takes.inside, leads.takes.inside, meets.leads.takes.region,
        leads.takes.region, meets.region, meets.kind]
    · rcases meets.text with same | ⟨line, same⟩
      · exact .inl same
      · exact .inr ⟨by rw [leads.takes.covered, line]; rfl, same⟩
    · rw [meets.leads.takes.line, leads.takes.line, meets.line]
  rw [leads.steps, meets.steps, meets.leads.steps, List.filter_append, List.filter_append,
    List.filter_append, filter_marks (isMark_marks leads.kinds consistent), dropped,
    filter_marks (isMark_marks meets.leads.kinds consistent), List.nil_append,
    List.filter_cons_of_pos (by simpa using spaced),
    List.filter_cons_of_pos (by simpa [meets.kind] using spaced)]
  exact List.rel_append front (.cons here more)

theorem Traces.visible (traces : Traces draft lexer copy other) (heeds : Heeds draft lexer)
    (leads : lexer.Leads first body shifts settled marks step)
    (consistent : .inconsistent ∉ shifts) (faultless : Faultless step.after.steps)
    (visible : step.token.kind.isVisible = true) : Proceeds lexer step copy other := by
  obtain ⟨spaces, reached, less, placed, marks', found, leading, meets⟩ :=
    traces.meets heeds leads consistent faultless visible
  have visible' : found.token.kind.isVisible = true := by rw [meets.kind]; exact visible
  have depth' : ({ copy with leading } : Draft).depth = reached.layout.depth := by
    rw [meets.depth, ← traces.depth]
    exact traces.level
  have moved : marks'.foldl after { copy with leading } =
      { copy with leading, depth := placed.depth } :=
    foldl_marks meets.leads.settles consistent meets.leads.kinds depth'
  have region : found.after.region = step.after.region := by
    rw [meets.leads.takes.region, leads.takes.region, meets.region, meets.kind]
  have layout := leads.layout
  have layout' := meets.leads.layout
  rw [Layout.behind_visible visible] at layout
  rw [Layout.behind_visible visible', meets.kind] at layout'
  refine ⟨_, { copy with leading, depth := placed.depth }.after found, found.after, ?_,
    heeds.visible leads consistent visible { draft with depth := settled.depth }, ?_⟩
  · exact {
      region := region
      text := meets.rest
      line := by
        rw [leads.takes.place, meets.leads.takes.place, Position.line_advanceAll,
          Position.line_advanceAll, meets.line, ← meets.trimmed, count_newline_trimEnd]
      column := by
        have ends := meets.leads.takes.reads.unbroken (Kind.ne_of_isVisible visible').2
        rw [after_visible visible, meets.leads.takes.place]
        exact iff_of_false Bool.false_ne_true
          (reached.position.column_advanceAll (List.cons_ne_nil first less) ends)
      blank := by
        rw [after_visible visible]
        exact traces.blank
      depth := by
        rw [after_visible visible, layout]
        split <;> rfl
      layout := by
        rw [layout, layout']
        cases keyword : step.token.kind.isBlockKeyword with
        | true => exact meets.paired.openBlock
        | false => exact meets.tracks keyword
      nested := by
        rw [layout]
        split <;> exact leads.settles.nested traces.nested
      inside := by
        intro pends
        obtain ⟨_, _, pending, same⟩ := pending_visible leads visible pends
        rw [same]
        exact traces.inside pending
      unmeasured := by
        intro _ start
        rw [after_visible visible] at start
        cases start
      flat := by
        intro _ start
        rw [after_visible visible] at start
        cases start
      level := by
        rw [after_visible visible, after_visible visible']
        exact meets.paired.depth
      start := by rw [after_visible visible, after_visible visible']
      leading := by
        intro start
        rw [after_visible visible] at start
        cases start }
  · rintro ⟨tokens, aligned⟩
    refine ⟨meets.tokens leads consistent visible tokens, ?_⟩
    have hidden : ∀ space ∈ spaces, space.token.kind.isVisible = false := fun space member => by
      rw [meets.blanks space member]
      rfl
    have silent : ∀ mark ∈ marks', mark.token.kind.isVisible = false := fun mark member => by
      have kind := isMark_marks meets.leads.kinds consistent mark member
      simp [Kind.isVisible, kind]
    rw [meets.steps, aligned_append hidden, meets.begun, meets.leads.steps, aligned_append silent,
      moved, Aligned]
    refine ⟨fun start _ moving => ?_, aligned⟩
    have same : moves step.token = moves found.token := by
      rw [moves, moves, meets.kind, leads.takes.inside, meets.leads.takes.inside, region]
    rw [← same] at moving
    rw [meets.leading start, moves_margin, if_pos moving, meets.paired.depth]

theorem Traces.proceed (traces : Traces draft lexer copy other) (heeds : Heeds draft lexer)
    (leads : lexer.Leads first body shifts settled marks step)
    (consistent : .inconsistent ∉ shifts) (faultless : Faultless step.after.steps) :
    Proceeds lexer step copy other := by
  by_cases newline : step.token.kind = .newline
  · exact traces.newline heeds leads newline
  · by_cases space : step.token.kind = .space
    · cases dropped : draft.atLineStart || endsLine step.after.reader.rest with
      | true => exact traces.skip heeds leads space (by rw [piece_space space, dropped]; rfl)
      | false =>
          obtain ⟨middle, goesOn⟩ := Bool.or_eq_false_iff.mp dropped
          exact traces.blanks heeds leads faultless space middle goesOn
    · have visible : step.token.kind.isVisible = true := by
        simp [Kind.isVisible, leads.takes.reads.isMark, newline, space]
      exact traces.visible heeds leads consistent faultless visible

theorem Traces.finish (traces : Traces draft lexer copy other)
    (atEnd : lexer.reader.rest = []) : Agrees lexer copy other := by
  have silent := isMark_atEnd atEnd
  have nothing := @render_marks draft lexer.steps [] silent
  rw [List.append_nil, render, ← traces.text] at nothing
  have silent' := isMark_atEnd nothing
  have marks {run : Lexer} (ended : run.reader.rest = []) :
      ∀ mark ∈ run.steps, mark.Marks run.region run.position.line := by
    have covered := run.covered_flatten
    rw [ended, List.flatten_eq_nil_iff] at covered
    exact Lexer.marks_front (List.append_nil _).symm fun mark member =>
      covered mark.covered (List.mem_map_of_mem member)
  refine ⟨?_, ?_⟩
  · rw [filter_marks silent, filter_marks silent']
    have follow := marks nothing
    rw [traces.region, traces.line] at follow
    refine Step.matches_marks ?_ (marks atEnd) follow
    rw [Lexer.kinds_atEnd atEnd, Lexer.kinds_atEnd nothing, traces.layout.depth]
  · have hidden : ∀ step ∈ other.steps, step.token.kind.isVisible = false := fun step member => by
      simp [Kind.isVisible, silent' step member]
    have aligned := @aligned_append copy other.steps [] hidden
    rw [List.append_nil] at aligned
    exact aligned.mpr trivial

/-- A reading of the rendered text agrees with the reading of the source to the
end. -/
theorem Traces.agrees (traces : Traces draft lexer copy other) (heeds : Heeds draft lexer)
    (faultless : Faultless lexer.steps) : Agrees lexer copy other := by
  -- Behind each lexeme of the source less of the text is left.
  induction length : lexer.reader.rest.length using Nat.strongRecOn
    generalizing draft lexer copy other with
  | _ count ih =>
      cases next : lexer.reader.rest with
      | nil => exact traces.finish next
      | cons first rest =>
          obtain ⟨body, shifts, settled, marks, step, leads, consistent, behind⟩ :=
            Lexer.exists_leads next faultless
          obtain ⟨draft', copy', other', traces', heeds', agrees⟩ :=
            traces.proceed heeds leads consistent behind
          have shorter : step.after.reader.rest.length < count := by
            rw [← length, leads.takes.next, List.length_cons, List.length_append]
            omega
          exact agrees (ih _ shorter traces' heeds' behind rfl)

end Reindent.Draft

end SpinBlocks
