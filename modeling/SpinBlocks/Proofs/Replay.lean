import SpinBlocks.Proofs.Rereading

namespace SpinBlocks

/-! Reindenting twice.

Reindenting measures the lines of a text and writes them anew, so a second time
it measures what it has written itself. The second measuring can be told from
the first run: every line is placed by the margin that was written for it. What
comes out is the same text if, and only if, each line is placed at the depth at
which it was written.
-/

open Lexeme (trimEnd)

namespace Reindent

/-- Whether the first token of a line moves to the depth of the line. -/
def moves (token : Token) : Bool :=
  token.region = .methods && !token.kind.isBlockKeyword

namespace Draft

/-- A line that begins with `token` is placed elsewhere than it is written. -/
def displaces (draft : Draft) (token : Token) (placed : Layout) : Bool :=
  draft.atLineStart && moves token && placed.depth != draft.depth

/-- The layout of a second reading behind what is written for a step, unless
that reading finds the line inconsistent or at another depth. -/
def reread? (draft : Draft) (layout : Layout) (step : Step) : Option Layout :=
  match step.token.kind with
  | .eof | .indent | .dedent | .space => some layout
  | .newline => some (if step.token.region = .methods then layout.beginLine else layout)
  | kind =>
      ((layout.noteMargin (draft.opening step.token)).admit? kind).bind fun placed =>
        if draft.displaces step.token placed then none
        else some (if kind.isBlockKeyword then placed.openBlock else placed)

/-- Every line is placed again at the depth at which it is written. -/
def replays (draft : Draft) (layout : Layout) : List Step → Bool
  | [] => true
  | step :: rest =>
      match draft.reread? layout step with
      | none => false
      | some behind => (draft.after step).replays behind rest

variable {draft copy : Draft} {lexer other : Lexer}

theorem moves_margin (token : Token) :
    draft.margin token = if moves token then indentation draft.depth else draft.leading := rfl

theorem length_indentation (depth : Nat) : (indentation depth).length = (depth + 1) * 2 := by
  simp [indentation, unit]

theorem indentation_inj {depth other : Nat} :
    indentation depth = indentation other ↔ depth = other := by
  constructor
  · intro same
    have lengths := congrArg List.length same
    rw [length_indentation, length_indentation] at lengths
    omega
  · rintro rfl
    rfl

variable {layout : Layout} {step : Step} {run : List Step}

theorem reread?_silent (silent : step.token.kind.isMark = true ∨ step.token.kind = .space) :
    draft.reread? layout step = some layout := by
  unfold reread?
  cases kind : step.token.kind <;> simp_all [Kind.isMark]

theorem reread?_newline (newline : step.token.kind = .newline) :
    draft.reread? layout step =
      some (if step.token.region = .methods then layout.beginLine else layout) := by
  simp [reread?, newline]

theorem reread?_visible (visible : step.token.kind.isVisible = true) :
    draft.reread? layout step =
      ((layout.noteMargin (draft.opening step.token)).admit? step.token.kind).bind fun placed =>
        if draft.displaces step.token placed then none
        else some (if step.token.kind.isBlockKeyword then placed.openBlock else placed) := by
  unfold reread?
  cases kind : step.token.kind <;> simp_all [Kind.isVisible, Kind.isMark]

/-- A second draft and lexer stand in the rendered text where the first ones
stand in the source. -/
structure Mirrors (draft : Draft) (region : Region) (run : List Step) (copy : Draft)
    (other : Lexer) : Prop where
  region : other.region = region
  text : other.reader.rest = draft.render run
  depth : copy.depth = other.layout.depth
  start : copy.atLineStart = draft.atLineStart
  leading : draft.atLineStart = true → copy.leading = []
  column : draft.atLineStart = true ↔ other.position.column = 0
  blank : draft.Blank

/-- The second run goes through, and changes nothing. -/
def Repeats (draft : Draft) (run : List Step) (copy : Draft) (other : Lexer) : Prop :=
  Faultless other.steps ∧ copy.render other.steps = draft.render run

/-- The second run gets past a step as the first one does, and whether it
repeats the first is decided behind the step. -/
def Advances (draft : Draft) (step : Step) (run : List Step) (copy : Draft) (other : Lexer) :
    Prop :=
  ∃ copy' other', (draft.after step).Mirrors step.after.region run copy' other' ∧
    draft.reread? other.layout step = some other'.layout ∧
    (draft.Repeats (step :: run) copy other ↔ (draft.after step).Repeats run copy' other')

theorem Mirrors.skip (mirrors : draft.Mirrors lexer.region (step :: run) copy other)
    (sound : lexer.Sound step)
    (silent : step.token.kind.isMark = true ∨ step.token.kind = .space)
    (nothing : draft.piece step = []) (region : step.after.region = lexer.region)
    (start : (draft.after step).atLineStart = draft.atLineStart) :
    draft.Advances step run copy other := by
  refine ⟨copy, other, ⟨?_, ?_, mirrors.depth, ?_, ?_, ?_, ?_⟩, reread?_silent silent, ?_⟩
  · exact mirrors.region.trans region.symm
  · rw [mirrors.text, render, nothing]
    rfl
  · exact mirrors.start.trans start.symm
  · rw [start]
    exact mirrors.leading
  · rw [start]
    exact mirrors.column
  · exact mirrors.blank.after sound
  · rw [Repeats, render, nothing]
    rfl

theorem repeats_atEnd (atEnd : other.reader.rest = []) (nothing : draft.piece step = []) :
    draft.Repeats [step] copy other := by
  have marks := isMark_atEnd atEnd
  have rendered := @render_marks copy other.steps [] marks
  rw [List.append_nil] at rendered
  refine ⟨fun step member => ?_, ?_⟩
  · exact (Kind.plain_of_isMark (marks step member)).2.1
  · rw [rendered, render, render, render, nothing]
    rfl

theorem Mirrors.newline (mirrors : draft.Mirrors lexer.region (step :: run) copy other)
    (newline : step.token.kind = .newline) (takes : lexer.Takes step '\n' []) :
    draft.Advances step run copy other := by
  have text := mirrors.text
  rw [render, piece_newline newline] at text
  obtain ⟨found, steps, again, kind, rest, layout⟩ := steps_trivia text .newline rfl
  have inside : step.token.region = other.region := by
    rw [takes.inside, takes.region, newline, mirrors.region]
    rfl
  have behind : found.after.layout =
      if step.token.region = .methods then other.layout.beginLine else other.layout := by
    rw [layout, inside]
    rfl
  refine ⟨copy.endLine, found.after, ⟨?_, rest, ?_, ?_, ?_, ?_, ?_⟩, ?_, ?_⟩
  · rw [again.region, takes.region, mirrors.region, kind, newline]
  · rw [behind]
    split <;> exact mirrors.depth
  · rw [after_newline newline]
    rfl
  · intro _
    rfl
  · rw [after_newline newline, again.place]
    simp [endLine, Position.advance]
  · rw [after_newline newline]
    simp [Blank, endLine]
  · rw [reread?_newline newline, behind]
  · rw [Repeats, Repeats, steps, faultless_cons, render, render, piece_newline newline,
      piece_newline kind, after_newline kind, kind]
    simp [Kind.isFault]

theorem Mirrors.blanks {first : Char} {body : List Char}
    (mirrors : draft.Mirrors lexer.region (step :: step.after.steps) copy other)
    (faultless : Faultless step.after.steps) (space : step.token.kind = .space)
    (takes : lexer.Takes step first body) (middle : draft.atLineStart = false)
    (goesOn : endsLine step.after.reader.rest = false) :
    draft.Advances step step.after.steps copy other := by
  have piece : draft.piece step = first :: body := by
    rw [piece_space space, middle, goesOn, takes.covered]
    rfl
  have text := mirrors.text
  rw [render, piece] at text
  have after : (draft.after step).atLineStart = false := by
    simp [after_space space, middle, append]
  have run := (takes.reads.space_run space).1
  have stops := (run.replace (render_replaces faultless after) rfl).stops
  obtain ⟨blank, inside⟩ := List.forall_mem_cons.mp run.inside
  obtain ⟨found, steps, again, kind, rest, layout⟩ :=
    steps_trivia text (.blanks blank ⟨inside, stops⟩) rfl
  have column : other.position.column ≠ 0 := by
    intro zero
    rw [mirrors.column.mpr zero] at middle
    cases middle
  have unchanged : found.after.layout = other.layout := by
    rw [layout]
    simp [Layout.behind, Layout.noteBlanks, column]
  have shown : endsLine found.after.reader.rest = false := by
    rw [rest]
    exact endsLine_render faultless after run.stops goesOn
  have start : copy.atLineStart = false := mirrors.start.trans middle
  refine ⟨copy.append (first :: body), found.after, ⟨?_, rest, ?_, ?_, ?_, ?_, ?_⟩, ?_, ?_⟩
  · rw [again.region, takes.region, mirrors.region, kind, space]
  · rw [unchanged]
    exact mirrors.depth
  · rw [after]
    exact start
  · rw [after]
    simp
  · have ends := again.reads.unbroken (by rw [kind]; exact Kind.noConfusion)
    rw [after, again.place]
    exact iff_of_false Bool.false_ne_true
      (other.position.column_advanceAll (List.cons_ne_nil first body) ends)
  · exact mirrors.blank.after (.blanks space takes)
  · rw [reread?_silent (.inr space), unchanged]
  · rw [Repeats, Repeats, steps, faultless_cons, render, render, piece, piece_space kind,
      after_space kind, start, shown, again.covered, kind]
    simp [Kind.isFault]

theorem append_margin_inj {margin margin' : List Char} (rest rest' : List Char) {c : Char}
    (solid : Character.isSpace c = false) (blank : ∀ d ∈ margin, Character.isSpace d = true)
    (blank' : ∀ d ∈ margin', Character.isSpace d = true) :
    margin ++ c :: rest = margin' ++ c :: rest' ↔ margin = margin' ∧ rest = rest' := by
  constructor
  · intro same
    have run : Lexeme.Run Character.isSpace margin (c :: rest) :=
      ⟨blank, by simpa [Lexeme.Stops] using solid⟩
    have run' : Lexeme.Run Character.isSpace margin' (c :: rest') :=
      ⟨blank', by simpa [Lexeme.Stops] using solid⟩
    obtain rfl : margin = margin' := by rw [← run.takeWhile, same, run'.takeWhile]
    simpa using same
  · rintro ⟨rfl, rfl⟩
    rfl

theorem opening_eq_iff {second : Draft} {token token' : Token} {placed : Layout}
    (kind : token'.kind = token.kind) (region : token'.region = token.region)
    (depth : second.depth = placed.depth) (start : second.atLineStart = draft.atLineStart)
    (leading : draft.atLineStart = true → second.leading = draft.margin token) :
    second.opening token' = draft.opening token ↔ draft.displaces token placed = false := by
  have same : moves token' = moves token := by rw [moves, moves, kind, region]
  rw [opening, opening, displaces, start]
  by_cases started : draft.atLineStart = true
  · simp only [started, if_true, Bool.true_and, moves_margin, same, leading]
    by_cases moving : moves token = true
    · simp [moving, indentation_inj, depth]
    · simp [moving]
  · simp [started]

/-- The second run has come to the token of `step`, on a line that is `placed`
now, with `second` as its draft, and goes on with the step `found`. -/
structure Sights (draft : Draft) (step : Step) (copy : Draft) (other : Lexer) (placed : Layout)
    (second : Draft) (found : Step) : Prop where
  kind : found.token.kind = step.token.kind
  inside : found.token.region = step.token.region
  region : found.after.region = step.after.region
  covered : found.covered = trimEnd step.covered
  text : found.after.reader.rest = (draft.after step).render step.after.steps
  layout : found.after.layout =
    if step.token.kind.isBlockKeyword then placed.openBlock else placed
  column : found.after.position.column ≠ 0
  depth : second.depth = placed.depth
  start : second.atLineStart = draft.atLineStart
  leading : draft.atLineStart = true → second.leading = draft.margin step.token
  faultless : Faultless other.steps ↔ Faultless found.after.steps
  rendered : copy.render other.steps = second.render (found :: found.after.steps)

/-- The second run comes to the token, or stops before it at a line that fits no
level. -/
theorem Mirrors.sights {first : Char} {body : List Char}
    (mirrors : draft.Mirrors lexer.region (step :: step.after.steps) copy other)
    (faultless : Faultless step.after.steps) (visible : step.token.kind.isVisible = true)
    (takes : lexer.Takes step first body) :
    ((other.layout.noteMargin (draft.opening step.token)).admit? step.token.kind = none ∧
        ¬ Faultless other.steps) ∨
      ∃ placed second found,
        (other.layout.noteMargin (draft.opening step.token)).admit? step.token.kind =
          some placed ∧ draft.Sights step copy other placed second found := by
  obtain ⟨spaced, inline⟩ := Kind.ne_of_isVisible visible
  have after : (draft.after step).atLineStart = false := by rw [after_visible visible]
  obtain ⟨less, shown, trimmed, reads, _⟩ := takes.reads.trim spaced
  have reads := reads.replace (render_replaces faultless after)
  have text := mirrors.text
  rw [render, piece_visible visible, takes.covered, trimmed, List.append_assoc,
    List.cons_append] at text
  have run : Lexeme.Run Character.isSpace (draft.opening step.token)
      (first :: (less ++ (draft.after step).render step.after.steps)) :=
    ⟨mirrors.blank.opening step.token,
      by simpa [Lexeme.Stops] using isSpace_of_visible visible takes⟩
  have opens : draft.opening step.token ≠ [] →
      copy.atLineStart = true ∧ other.position.column = 0 := by
    intro written
    have start : draft.atLineStart = true := by
      by_contra middle
      exact written (if_neg middle)
    exact ⟨mirrors.start.trans start, mirrors.column.mp start⟩
  -- First the margin is read, which changes the layout alone, and then the line is placed.
  obtain ⟨reached, before, ⟨next, region, measured⟩, ⟨level, begun, held⟩, sound, rendered⟩ :=
    reread_opening text run opens fun begun => mirrors.leading (mirrors.start.symm.trans begun)
  obtain ⟨shifts, placed, settles⟩ := reached.layout.exists_settles first
  have depth : before.depth = reached.layout.depth := by
    rw [level, measured, mirrors.depth, Layout.depth_noteMargin]
  obtain ⟨found, ⟨again, kind, rest, layout⟩, consistent, written⟩ :=
    reread_lexeme next reads settles depth
  have admitted := settles.admit?_eq reads.isSignificant
  rw [measured] at admitted
  rw [admitted]
  by_cases bad : .inconsistent ∈ shifts
  · refine .inl ⟨if_pos bad, fun through => ?_⟩
    exact (consistent.mp (sound.mp through)).1 bad
  · have same : found.after.region = step.after.region := by
      rw [again.region, takes.region, region, mirrors.region, kind]
    refine .inr ⟨placed, { before with depth := placed.depth }, found, if_neg bad, ?_⟩
    exact {
      kind := kind
      inside := by rw [again.inside, takes.inside, same]
      region := same
      covered := by rw [again.covered, takes.covered, trimmed]
      text := rest
      layout := by rw [layout, Layout.behind_visible visible]
      column := by
        rw [again.place]
        exact reached.position.column_advanceAll (List.cons_ne_nil first less)
          (again.reads.unbroken (kind ▸ inline))
      depth := rfl
      start := begun.trans mirrors.start
      leading := fun start => (held (mirrors.start.trans start)).trans (if_pos start)
      faultless := by simp [sound, consistent, bad]
      rendered := rendered.trans (written bad) }

variable {placed : Layout} {second : Draft} {found : Step}

theorem Sights.mirrors (sights : draft.Sights step copy other placed second found)
    (visible : step.token.kind.isVisible = true) (blank : (draft.after step).Blank) :
    (draft.after step).Mirrors step.after.region step.after.steps (second.after found)
      found.after := by
  have shown : found.token.kind.isVisible = true := by rw [sights.kind, visible]
  have middle : (draft.after step).atLineStart = false := by rw [after_visible visible]
  refine ⟨sights.region, sights.text, ?_, ?_, ?_, ?_, blank⟩
  · have kept : (second.after found).depth = placed.depth := by
      rw [after_visible shown]
      exact sights.depth
    rw [kept, sights.layout]
    split <;> rfl
  · rw [middle, after_visible shown]
  · rw [middle]
    simp
  · rw [middle]
    exact iff_of_false Bool.false_ne_true sights.column

theorem Sights.isSpace_opening (sights : draft.Sights step copy other placed second found)
    (blank : draft.Blank) : ∀ c ∈ second.opening found.token, Character.isSpace c = true := by
  unfold opening
  split
  · rename_i begun
    have held : second.Blank := by
      rw [Blank, sights.leading (sights.start.symm.trans begun)]
      exact blank.margin step.token
    exact held.margin found.token
  · simp

theorem Sights.repeats_iff {first : Char} {body : List Char}
    (sights : draft.Sights step copy other placed second found)
    (visible : step.token.kind.isVisible = true) (takes : lexer.Takes step first body)
    (blank : draft.Blank) :
    draft.Repeats (step :: step.after.steps) copy other ↔
      draft.displaces step.token placed = false ∧
        (draft.after step).Repeats step.after.steps (second.after found) found.after := by
  have shown : found.token.kind.isVisible = true := by rw [sights.kind, visible]
  obtain ⟨less, trimmed⟩ := trimEnd_covered visible takes
  have short : trimEnd (first :: less) = first :: less := by
    rw [← trimmed]
    exact List.rdropWhile_idempotent _ _
  have blank' := sights.isSpace_opening blank
  rw [← opening_eq_iff sights.kind sights.inside sights.depth sights.start sights.leading, Repeats,
    Repeats, sights.faultless, sights.rendered, render, render, piece_visible shown,
    piece_visible visible, sights.covered, trimmed, short, List.append_assoc, List.append_assoc,
    List.cons_append, List.cons_append,
    append_margin_inj _ _ (isSpace_of_visible visible takes) blank' (blank.opening step.token),
    List.append_cancel_left_eq]
  exact and_left_comm

/-- A visible token is seen again at the depth at which it is written, or the
second run does not repeat the first. -/
theorem Mirrors.visible {first : Char} {body : List Char}
    (mirrors : draft.Mirrors lexer.region (step :: step.after.steps) copy other)
    (faultless : Faultless step.after.steps) (visible : step.token.kind.isVisible = true)
    (takes : lexer.Takes step first body) :
    (draft.reread? other.layout step = none ∧
        ¬ draft.Repeats (step :: step.after.steps) copy other) ∨
      draft.Advances step step.after.steps copy other := by
  rcases mirrors.sights faultless visible takes with
    ⟨admitted, faulty⟩ | ⟨placed, second, found, admitted, sights⟩
  · refine .inl ⟨?_, fun repeats => faulty repeats.1⟩
    rw [reread?_visible visible, admitted]
    rfl
  · have whole := sights.repeats_iff visible takes mirrors.blank
    cases displaced : draft.displaces step.token placed with
    | true =>
        refine .inl ⟨?_, ?_⟩
        · simp [reread?_visible visible, admitted, displaced]
        · rw [whole, displaced]
          simp
    | false =>
        have behind := sights.mirrors visible (mirrors.blank.after (.visible visible takes))
        refine .inr ⟨second.after found, found.after, behind, ?_, ?_⟩
        · simp [reread?_visible visible, admitted, displaced, sights.layout]
        · rw [whole, displaced]
          simp

theorem Mirrors.advance (mirrors : draft.Mirrors lexer.region (step :: step.after.steps) copy other)
    (faultless : Faultless step.after.steps) (sound : lexer.Sound step) :
    (draft.reread? other.layout step = none ∧
        ¬ draft.Repeats (step :: step.after.steps) copy other) ∨
      draft.Advances step step.after.steps copy other := by
  cases sound with
  | mark mark covered reader region =>
      have start : (draft.after step).atLineStart = draft.atLineStart := by rw [after_mark mark]
      exact .inr (mirrors.skip (.mark mark covered reader region) (.inl mark) (piece_mark mark)
        region start)
  | newline newline takes => exact .inr (mirrors.newline newline takes)
  | blanks space takes =>
      by_cases dropped : (draft.atLineStart || endsLine step.after.reader.rest) = true
      · have nothing : draft.piece step = [] := by rw [piece_space space, if_pos dropped]
        have region : step.after.region = lexer.region := by rw [takes.region, space]; rfl
        have start : (draft.after step).atLineStart = draft.atLineStart := by
          rw [after_space space]
          split <;> rfl
        exact .inr (mirrors.skip (.blanks space takes) (.inr space) nothing region start)
      · simp only [Bool.or_eq_true, not_or, Bool.not_eq_true] at dropped
        exact .inr (mirrors.blanks faultless space takes dropped.1 dropped.2)
  | visible visible takes => exact mirrors.visible faultless visible takes

theorem repeats_iff (mirrors : draft.Mirrors lexer.region lexer.steps copy other)
    (faultless : Faultless lexer.steps) :
    draft.Repeats lexer.steps copy other ↔ draft.replays other.layout lexer.steps = true := by
  -- The second run cannot come back to the first once it has left it, so the first line
  -- that is placed elsewhere settles the matter.
  revert draft copy other
  fun_induction Lexer.steps lexer with
  | case1 lexer next atEnd =>
      intro draft copy other mirrors
      have mark : next.token.kind.isMark = true := by rw [atEnd]; rfl
      have text := mirrors.text
      rw [render, piece_mark mark, render] at text
      rw [replays, reread?_silent (.inl mark)]
      exact iff_of_true (repeats_atEnd text (piece_mark mark)) rfl
  | case2 lexer next unfinished ih =>
      intro draft copy other mirrors
      obtain ⟨fault, behind⟩ := faultless_cons.mp faultless
      have sound : lexer.Sound next := lexer.step_transition.sound fault
      rw [replays]
      rcases mirrors.advance behind sound with
        ⟨reread, differs⟩ | ⟨copy', other', mirrors', reread, same⟩
      · rw [reread]
        exact iff_of_false differs (by simp)
      · rw [same, reread]
        exact ih behind mirrors'

end Draft

end Reindent

/-- Reindented once more, a reindented text stays as it is if, and only if, each
of its lines is placed again at the depth at which it was written. -/
theorem reindent_fixed_iff {source out : String} (formatted : reindent source = .ok out) :
    reindent out = .ok out ↔ Reindent.Draft.initial.replays .initial (steps source) = true := by
  obtain ⟨faultless, text⟩ := Reindent.reindent_eq_ok.mp formatted
  have mirrors : Reindent.Draft.initial.Mirrors (Lexer.ofString source).region (steps source)
      Reindent.Draft.initial (Lexer.ofString out) :=
    ⟨rfl, text, rfl, rfl, fun _ => rfl, iff_of_true rfl rfl,
      by simp [Reindent.Draft.Blank, Reindent.Draft.initial]⟩
  have again := Reindent.Draft.repeats_iff mirrors faultless
  rw [Reindent.reindent_eq_ok, text]
  exact (and_congr_right fun _ => eq_comm).trans again

theorem reindent_fixed_iff_nested :
    reindent "PUB\na\n  b\nc" = .ok "PUB\n  a\n    b\n  c" ∧
      (reindent "PUB\n  a\n    b\n  c" = .ok "PUB\n  a\n    b\n  c" ↔
        Reindent.Draft.initial.replays .initial (steps "PUB\na\n  b\nc") = true) :=
  have formatted : reindent "PUB\na\n  b\nc" = .ok "PUB\n  a\n    b\n  c" := by decide +kernel
  ⟨formatted, reindent_fixed_iff formatted⟩

/-- A comment opens the second line of this method, and hides from its margin
that the line is indented. The line behind it comes to stand too far in, and a
further line on the level of the second one fits no level any more. -/
theorem reindent_not_fixed :
    (reindent "PUB\na\n {}b\n  c" = .ok "PUB\n  a\n  {}b\n      c" ∧
        reindent "PUB\n  a\n  {}b\n      c" = .ok "PUB\n  a\n  {}b\n    c") ∧
      reindent "PUB\na\n {}b\n  c\n d" = .ok "PUB\n  a\n  {}b\n      c\n    d" ∧
        (reindent "PUB\n  a\n  {}b\n      c\n    d").mapError (·.cause) =
          .error .inconsistentIndentation := by
  refine ⟨⟨?_, ?_⟩, ?_, ?_⟩ <;> decide +kernel

end SpinBlocks
