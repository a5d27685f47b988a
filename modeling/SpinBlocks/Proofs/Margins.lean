import SpinBlocks.Proofs.Nesting

namespace SpinBlocks

/-! Where the lines of a reindented text begin.

What is known of every step of the new text is told here of its tokens: which
blanks stand between a line feed and the first token behind it that shows.
-/

namespace Lexer

variable {lexer : Lexer} {front : List Step}

/-- Where a line ends and where the next one shows its first token. -/
theorem reaches_line {newline first : Step} {blanks behind : List Step}
    (parts : lexer.steps = front ++ newline :: (blanks ++ first :: behind))
    (ends : newline.token.kind = .newline) :
    ∃ ended, lexer.Reaches front ended ∧ ended.step = newline ∧
      ∃ reached, newline.after.Reaches blanks reached ∧ reached.step = first := by
  obtain ⟨ended, reaches, next⟩ := steps_reaches parts
  obtain ⟨same, rest⟩ := steps_cons (next (by simp)) (by rw [ends]; exact Kind.noConfusion)
  obtain ⟨reached, more, next⟩ := steps_reaches rest
  refine ⟨ended, reaches, same, reached, more, ?_⟩
  have head := reached.head?_steps
  rw [next (by simp)] at head
  simpa using head.symm

/-- Without faults, what covers no more than blanks is a mark if it covers none. -/
theorem isBlank_cases {step : Step} (faultless : Faultless lexer.steps)
    (member : step ∈ lexer.steps) (blank : step.token.isBlank = true) :
    step.token.kind = .space ∨ step.token.kind.isMark = true := by
  rcases Bool.or_eq_true_iff.mp blank with space | empty
  · exact .inl (by simpa using space)
  · rw [isEmpty_span member, List.isEmpty_iff] at empty
    obtain ⟨_, reached, _, rfl⟩ := mem_steps_reaches member
    rcases reached.step_transition.silent empty with mark | ⟨illegal, _⟩
    · simp only [List.mem_cons, List.not_mem_nil, or_false] at mark
      rcases mark with kind | kind | kind <;> exact .inr (by rw [kind]; rfl)
    · have fault := faultless _ member
      rw [illegal] at fault
      cases fault

theorem isVisible_of_shown {step : Step} (faultless : Faultless lexer.steps)
    (member : step ∈ lexer.steps) (shown : step.token.isBlank = false)
    (inline : step.token.kind ≠ .newline) : step.token.kind.isVisible = true := by
  obtain ⟨solid, covers⟩ := Bool.or_eq_false_iff.mp shown
  rw [isEmpty_span member] at covers
  obtain ⟨reached, sound⟩ := sound_of_mem faultless member
  cases sound with
  | mark mark covered reader region => simp [covered] at covers
  | newline newline takes => exact absurd newline inline
  | blanks space takes => simp [space] at solid
  | visible visible takes => exact visible

end Lexer

namespace Reindent

theorem indentation_eq (depth : Nat) :
    indentation depth = List.replicate (2 * (depth + 1)) ' ' := by
  have blanks : unit.toList = [' ', ' '] := by decide +kernel
  refine List.eq_replicate_iff.mpr ⟨?_, fun c member => ?_⟩
  · rw [Draft.length_indentation, Nat.mul_comm]
  · obtain ⟨piece, copied, inside⟩ := List.mem_flatten.mp member
    rw [(List.mem_replicate.mp copied).2, blanks] at inside
    simpa using inside

namespace Draft

variable {draft : Draft} {lexer reached : Lexer} {step : Step} {front blanks rest : List Step}

/-- The depth of a draft is what the marks of the text so far amount to. -/
theorem depth_counts {source : String}
    (reaches : (Lexer.ofString source).Reaches front reached) :
    (front.foldl after initial).depth + dedents (front.map (·.token)) =
      indents (front.map (·.token)) := by
  have counts := reaches.keeps.counts
  have level : (Lexer.ofString source).layout.depth = 0 := rfl
  rw [depth_foldl reaches rfl]
  omega

theorem Aligned.at (aligned : draft.Aligned (front ++ step :: rest))
    (start : (front.foldl after draft).atLineStart = true)
    (visible : step.token.kind.isVisible = true) (moving : moves step.token = true) :
    (front.foldl after draft).leading = indentation (front.foldl after draft).depth := by
  induction front generalizing draft with
  | nil => exact aligned.1 start visible moving
  | cons first front ih => exact ih aligned.2 start

/-- On a line that has shown nothing yet, all blanks are in the draft. Blanks come
together in one token, so none follow others. -/
theorem leading_blanks (reaches : lexer.Reaches blanks reached)
    (silent : ∀ step ∈ blanks, step.token.kind = .space ∨ step.token.kind.isMark = true)
    (start : draft.atLineStart = true)
    (fresh : draft.leading = [] ∨ Lexeme.Stops Character.isSpace lexer.reader.rest) :
    (blanks.foldl after draft).atLineStart = true ∧
      (blanks.foldl after draft).leading = draft.leading ++ (blanks.map (·.covered)).flatten ∧
      (blanks.foldl after draft).written = draft.written := by
  induction reaches generalizing draft with
  | here => exact ⟨start, by simp, rfl⟩
  | @step lexer reached blanks more ih =>
      obtain ⟨here, others⟩ := List.forall_mem_cons.mp silent
      have fault : lexer.step.token.kind.isFault = false := by
        rcases here with space | mark
        · rw [space]; rfl
        · exact (Kind.plain_of_isMark mark).2.1
      rw [List.foldl_cons, List.map_cons, List.flatten_cons]
      cases lexer.step_transition.sound fault with
      | mark mark covered reader region =>
          rw [after_mark mark, covered, List.nil_append]
          exact ih others start (reader ▸ fresh)
      | newline newline takes => simp [newline, Kind.isMark] at here
      | @blanks first body space takes =>
          have run := (takes.reads.space_run space).1
          have none : draft.leading = [] := by
            refine fresh.resolve_right fun stops => ?_
            have solid := stops first (by simp [takes.next])
            rw [run.inside first (by simp)] at solid
            cases solid
          have opened : draft.after lexer.step = { draft with leading := lexer.step.covered } := by
            rw [after_space space, if_pos start]
          rw [opened, none, List.nil_append]
          exact ih others start (.inr run.stops)
      | visible visible takes =>
          rcases here with space | mark
          · exact absurd space (Kind.ne_of_isVisible visible).1
          · simp [Kind.isVisible, mark] at visible

theorem Agrees.faultless {copy : Draft} {other : Lexer} (agrees : Agrees lexer copy other)
    (faultless : Faultless lexer.steps) : Faultless other.steps := by
  have kinds : (lexer.steps.filter (·.token.kind != .space)).map (·.token.kind) =
      (other.steps.filter (·.token.kind != .space)).map (·.token.kind) := by
    rw [← List.forall₂_eq_eq_eq, List.forall₂_map_left_iff, List.forall₂_map_right_iff]
    exact agrees.1.imp fun step other same => same.1.1.symm
  intro step member
  by_cases space : step.token.kind = .space
  · rw [space]
    rfl
  · have kept : step.token.kind ∈ (other.steps.filter (·.token.kind != .space)).map
        (·.token.kind) := List.mem_map_of_mem (by simp [member, space])
    rw [← kinds] at kept
    obtain ⟨found, among, same⟩ := List.mem_map.mp kept
    rw [← same]
    exact faultless found (List.mem_filter.mp among).1

/-- The blanks between a line feed and the first token that shows are the margin
of the depth up to there. -/
theorem Aligned.line {newline first : Step} {behind : List Step}
    (aligned : draft.Aligned lexer.steps)
    (parts : lexer.steps = front ++ newline :: (blanks ++ first :: behind))
    (ends : newline.token.kind = .newline)
    (silent : ∀ step ∈ blanks, step.token.kind = .space ∨ step.token.kind.isMark = true)
    (visible : first.token.kind.isVisible = true) (moving : moves first.token = true) :
    (blanks.map (·.covered)).flatten =
      indentation ((front ++ newline :: blanks).foldl after draft).depth := by
  obtain ⟨ended, _, _, reached, reaches, _⟩ := Lexer.reaches_line parts ends
  have whole : (front ++ newline :: blanks).foldl after draft =
      blanks.foldl after (front.foldl after draft).endLine := by
    rw [List.foldl_append, List.foldl_cons, after_newline ends]
  generalize begun : (front.foldl after draft).endLine = line at whole
  have fresh : line.atLineStart = true ∧ line.leading = [] := by rw [← begun]; exact ⟨rfl, rfl⟩
  obtain ⟨start, leading, _⟩ := leading_blanks reaches silent fresh.1 (.inl fresh.2)
  rw [parts, ← List.cons_append, ← List.append_assoc] at aligned
  have margin := aligned.at (by rw [whole]; exact start) visible moving
  rw [← margin, whole, leading, fresh.2, List.nil_append]

end Draft

end Reindent

/-- In the tokens of a text, `newline` ends a line of a method, and behind it
`first` is what the next line shows first. -/
structure OpensLine (source : String) (front : List Token) (newline : Token)
    (blanks : List Token) (first : Token) : Prop where
  parts : ∃ behind, tokens source = front ++ newline :: (blanks ++ first :: behind)
  ends : newline.kind = .newline
  inside : newline.region = .methods
  blank : ∀ token ∈ blanks, token.isBlank = true
  shown : first.isBlank = false
  inline : first.kind ≠ .newline

theorem OpensLine.region {source : String} {front blanks : List Token} {newline first : Token}
    (opens : OpensLine source front newline blanks first)
    (plain : ∀ token ∈ blanks ++ [first], token.kind.isBlockKeyword = false) :
    first.region = .methods := by
  obtain ⟨behind, parts⟩ := opens.parts
  have zoned := tokens_zoned source
  rw [parts] at zoned
  obtain ⟨region, rest⟩ := zoned.behind
  have line : Zoned region ((newline :: (blanks ++ [first])) ++ behind) := by simpa using rest
  have one := (line.split (List.forall_mem_cons.mpr ⟨by rw [opens.ends]; rfl, plain⟩)).1
  rw [one first (by simp), ← one newline (by simp), opens.inside]

/-- The line begins with the indentation of its depth. -/
theorem OpensLine.margin {source : String} {front blanks : List Token} {newline first : Token}
    (opens : OpensLine source front newline blanks first)
    (aligned : Reindent.Draft.initial.Aligned (steps source)) (faultless : Faultless (steps source))
    (plain : first.kind.isBlockKeyword = false) :
    ∃ depth, depth + dedents (front ++ newline :: blanks) =
        indents (front ++ newline :: blanks) ∧
      Bytes.slice? source.toList newline.span.stop first.span.start =
        some (List.replicate (2 * (depth + 1)) ' ') := by
  obtain ⟨behind, parts⟩ := opens.parts
  obtain ⟨before, _, split, rfl, ending⟩ := List.map_eq_append_iff.mp parts
  obtain ⟨newline, _, rfl, rfl, opening⟩ := List.map_eq_cons_iff.mp ending
  obtain ⟨margin, _, rfl, rfl, showing⟩ := List.map_eq_append_iff.mp opening
  obtain ⟨first, rest, rfl, rfl, rfl⟩ := List.map_eq_cons_iff.mp showing
  have silent : ∀ step ∈ margin, step.token.kind = .space ∨ step.token.kind.isMark = true :=
    fun step member => by
      have among : step ∈ steps source := by simp [split, member]
      exact Lexer.isBlank_cases faultless among
        (opens.blank step.token (List.mem_map_of_mem member))
  have among : first ∈ steps source := by simp [split]
  have visible : first.token.kind.isVisible = true :=
    Lexer.isVisible_of_shown faultless among opens.shown opens.inline
  have region := opens.region fun token member => by
    rcases List.mem_append.mp member with blank | last
    · obtain ⟨step, among, rfl⟩ := List.mem_map.mp blank
      rcases silent step among with space | mark
      · rw [space]
        rfl
      · exact (Kind.plain_of_isMark mark).2.2
    · rw [List.mem_singleton.mp last]
      exact plain
  have leading := aligned.line split opens.ends silent visible
    (by simp [Reindent.moves, region, plain])
  obtain ⟨ended, reaches, rfl, reached, more, rfl⟩ := Lexer.reaches_line split opens.ends
  have whole : (Lexer.ofString source).Reaches (before ++ ended.step :: margin) reached :=
    reaches.append (.step more)
  have line := (reaches.behind (.initial source)).step
  have shown := more.behind line
  have counts := Reindent.Draft.depth_counts whole
  rw [List.map_append, List.map_cons] at counts
  refine ⟨_, counts, ?_⟩
  rw [← Reindent.indentation_eq, ← leading, (reaches.behind (.initial source)).span, shown.span,
    shown.text, List.append_assoc]
  exact Bytes.slice?_append _ _ _

theorem Reindent.Draft.traces_initial {source out : String}
    (text : out.toList = Reindent.Draft.initial.render (steps source)) :
    Traces .initial (Lexer.ofString source) .initial (Lexer.ofString out) where
  region := rfl
  text := text
  line := rfl
  column := iff_of_true rfl rfl
  blank := by simp [Blank, initial]
  depth := rfl
  layout := ⟨⟨rfl, rfl, rfl⟩, fun _ => rfl⟩
  nested := .nil
  inside := fun pending => absurd pending Bool.false_ne_true
  unmeasured := fun pending => absurd pending Bool.false_ne_true
  flat := fun pending => absurd pending Bool.false_ne_true
  level := rfl
  start := rfl
  leading := fun _ => rfl

/-- The tokens of `source`, blanks apart, are those of `out`, and lines of methods
stand in `out` as deep as they are nested. -/
structure KeepsNesting (source out : String) : Prop where
  retains : List.Forall₂ (fun token other => token.Retained source other ∧ other.line = token.line)
    ((tokens source).filter (·.kind != .space)) ((tokens out).filter (·.kind != .space))
  margins : ∀ front newline blanks first, OpensLine out front newline blanks first →
    first.kind.isBlockKeyword = false →
    ∃ depth, depth + dedents (front ++ newline :: blanks) = indents (front ++ newline :: blanks) ∧
      Bytes.slice? out.toList newline.span.stop first.span.start =
        some (List.replicate (2 * (depth + 1)) ' ')

/-- Reindenting moves lines, but none to another nesting, if each line of a method
begins with its code and no blanks stand before the block keywords. -/
theorem reindent_keeps_nesting {source out : String} (formatted : reindent source = .ok out)
    (clear : ∀ line ∈ methodLines (tokens source), Clear line) : KeepsNesting source out := by
  obtain ⟨faultless, text⟩ := Reindent.reindent_eq_ok.mp formatted
  have heeds : Reindent.Draft.initial.Heeds (Lexer.ofString source) :=
    ⟨clear, fun pending => absurd pending Bool.false_ne_true,
      fun pending => absurd pending Bool.false_ne_true⟩
  have agrees := (Reindent.Draft.traces_initial text).agrees heeds faultless
  refine ⟨?_, fun front newline blanks first opens plain =>
    opens.margin agrees.2 (agrees.faultless faultless) plain⟩
  have among : ∀ step ∈ (steps source).filter (·.token.kind != .space), step ∈ steps source :=
    fun step member => (List.mem_filter.mp member).1
  have both := (List.forall₂_and_left _ _).mpr ⟨among, agrees.1⟩
  rw [tokens, tokens, List.filter_map, List.filter_map, List.forall₂_map_left_iff,
    List.forall₂_map_right_iff]
  exact both.imp fun step other found => ⟨found.2.1.token found.1, found.2.2⟩

theorem reindent_keeps_nesting_blocks :
    reindent "PUB\na\n   b ' x \n ' y\n  \nc\nPRI\n d\n  e\nCON\n f = 1\n" =
        .ok "PUB\n  a\n    b ' x\n    ' y\n\n  c\nPRI\n  d\n    e\nCON\n f = 1\n" ∧
      KeepsNesting "PUB\na\n   b ' x \n ' y\n  \nc\nPRI\n d\n  e\nCON\n f = 1\n"
        "PUB\n  a\n    b ' x\n    ' y\n\n  c\nPRI\n  d\n    e\nCON\n f = 1\n" :=
  have formatted : reindent "PUB\na\n   b ' x \n ' y\n  \nc\nPRI\n d\n  e\nCON\n f = 1\n" =
      .ok "PUB\n  a\n    b ' x\n    ' y\n\n  c\nPRI\n  d\n    e\nCON\n f = 1\n" := by
    decide +kernel
  ⟨formatted, reindent_keeps_nesting formatted (by decide +kernel)⟩

end SpinBlocks
