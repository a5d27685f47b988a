import SpinBlocks.Proofs.Locality
import SpinBlocks.Proofs.Locating
import SpinBlocks.Proofs.Regions

namespace SpinBlocks

/-! Lines that hold no code.

A line of blanks and comments gives its own tokens and nothing else. It sets the
width of its line only for itself: the next line feed makes the layout forget
it, so what stands behind such a line is read as if the line were not there.
-/

/-- A comment from its first mark to its last. -/
inductive Remark : List Char → Prop
  | line {body : List Char} (inline : '\n' ∉ body) : Remark ('\'' :: body)
  | block {body : List Char} (plain : body.head? ≠ some '\x7b') (inside : '\x7d' ∉ body) :
      Remark ('\x7b' :: (body ++ ['\x7d']))
  | doc {body : List Char} (inside : '\x7d' ∉ body) :
      Remark ('\x7b' :: '\x7b' :: (body ++ ['\x7d', '\x7d']))

/-- A line, its line feed included, of blanks and at most one comment. -/
inductive IdleLine : List Char → Prop
  | blank {blanks : List Char} (blank : ∀ c ∈ blanks, Character.isSpace c = true) :
      IdleLine (blanks ++ ['\n'])
  | remark {margin comment blanks : List Char} (opens : ∀ c ∈ margin, Character.isSpace c = true)
      (remark : Remark comment) (blank : ∀ c ∈ blanks, Character.isSpace c = true) :
      IdleLine (margin ++ (comment ++ (blanks ++ ['\n'])))

def Piece.token (piece : Piece) (region : Region) : Token :=
  .between piece.kind piece.text region piece.start piece.stop

namespace Layout

/-- The layout behind a line feed. -/
def atLine (layout : Layout) (region : Region) : Layout :=
  if region = .methods then layout.beginLine else layout

theorem atLine_atLine (layout : Layout) (region : Region) :
    (layout.atLine region).atLine region = layout.atLine region := by
  unfold atLine
  split <;> rfl

/-- Whatever trivia change in a layout is forgotten at the next line feed. -/
theorem atLine_behind {layout : Layout} {region : Region} (start : Position) {lexeme : Lexeme}
    (trivia : lexeme.kind.isTrivia = true)
    (calm : layout.pending = true → region = .methods) :
    (layout.behind region start lexeme).atLine region = layout.atLine region := by
  unfold behind
  cases kind : lexeme.kind with
  | newline => exact layout.atLine_atLine region
  | space =>
      simp only [noteBlanks]
      split
      · rename_i noted
        have inside := calm (Bool.and_eq_true_iff.mp noted).1
        simp only [atLine, inside, if_true, beginLine]
      · rfl
  | comment => rfl
  | docComment => rfl
  | _ => simp [kind, Kind.isTrivia] at trivia

end Layout

/-- The text in front of `tail` is a row of trivia, cut into `pieces`. -/
inductive Pauses (tail : List Char) : Position → List Char → List Piece → Prop
  | nil {start : Position} : Pauses tail start [] []
  | cons {start : Position} {first : Char} {body rest : List Char} {kind : Kind} {text : String}
      {pieces : List Piece} (reads : Lexeme.Reads first body (rest ++ tail) kind text)
      (trivia : kind.isTrivia = true)
      (more : Pauses tail (start.advanceAll (first :: body)) rest pieces) :
      Pauses tail start (first :: (body ++ rest))
        (⟨kind, text, start, (start.advanceAll (first :: body)).offset⟩ :: pieces)

namespace Lexer

variable {lexer : Lexer}

theorem step_trivia {first : Char} {body tail : List Char} {kind : Kind} {text : String}
    (next : lexer.reader.rest = first :: (body ++ tail))
    (reads : Lexeme.Reads first body tail kind text) (trivia : kind.isTrivia = true) :
    let behind := lexer.position.advanceAll (first :: body)
    lexer.step = ⟨.between kind text lexer.region lexer.position behind.offset, first :: body,
      ⟨⟨behind, tail⟩, lexer.region,
        lexer.layout.behind lexer.region lexer.position ⟨kind, text, body.length⟩⟩⟩ := by
  have quiet : lexer.layout.waits first = false := by
    simp [Layout.waits, reads.isSignificant, trivia]
  have ready : lexer.layout.Ready first lexer.layout := by simp [Layout.Ready, quiet]
  have same : kind.regionBehind lexer.region = lexer.region :=
    Kind.regionBehind_of_not_opens (Kind.isBlockKeyword_of_isTrivia trivia) _
  have stepped := step_reads next reads ready
  simp only [same] at stepped
  exact stepped

theorem step_feed {tail : List Char} (next : lexer.reader.rest = '\n' :: tail) :
    let behind := lexer.position.advance '\n'
    lexer.step = ⟨.between .newline "\n" lexer.region lexer.position behind.offset, ['\n'],
      ⟨⟨behind, tail⟩, lexer.region, lexer.layout.atLine lexer.region⟩⟩ :=
  step_trivia next .newline rfl

/-- The lexer stands where a line begins, and has noted nothing of it yet. -/
structure BeginsLine (lexer : Lexer) : Prop where
  column : lexer.position.column = 0
  fresh : lexer.layout.atLine lexer.region = lexer.layout
  calm : lexer.layout.pending = true → lexer.region = .methods

theorem Orderly.beginsLine {tail : List Char} (orderly : lexer.Orderly)
    (next : lexer.reader.rest = '\n' :: tail) : lexer.step.after.BeginsLine where
  column := by rw [step_feed next]; rfl
  fresh := by
    rw [step_feed next]
    exact lexer.layout.atLine_atLine lexer.region
  calm := (lexer.step_transition.orderly orderly).pending

/-- A lexer passes over a row of trivia. -/
theorem reaches_pauses {tail text : List Char} {pieces : List Piece} {start : Position}
    (pauses : Pauses tail start text pieces) (place : lexer.position = start)
    (next : lexer.reader.rest = text ++ tail)
    (calm : lexer.layout.pending = true → lexer.region = .methods) :
    ∃ run layout, lexer.Reaches run ⟨⟨start.advanceAll text, tail⟩, lexer.region, layout⟩ ∧
      run.map (·.token) = pieces.map (·.token lexer.region) ∧
      layout.atLine lexer.region = lexer.layout.atLine lexer.region := by
  induction pauses generalizing lexer with
  | nil =>
      obtain ⟨⟨position, rest⟩, region, layout⟩ := lexer
      obtain rfl : position = _ := place
      obtain rfl : rest = _ := next
      exact ⟨[], layout, .here _, rfl, rfl⟩
  | @cons start first body rest kind text pieces reads trivia more ih =>
      subst place
      rw [List.cons_append, List.append_assoc] at next
      have stepped := step_trivia next reads trivia
      have still : lexer.step.after.layout.pending = true →
          lexer.step.after.region = .methods := by
        rw [stepped]
        intro pends
        rcases Layout.pending_behind _ _ _ _ pends with pends | ⟨_, inside⟩
        · exact calm pends
        · exact inside
      obtain ⟨run, layout, reaches, tokens, fresh⟩ :=
        @ih lexer.step.after (by rw [stepped]; rfl) (by rw [stepped]) still
      rw [stepped] at tokens fresh
      have region : lexer.step.after.region = lexer.region := by rw [stepped]
      rw [region, ← Position.advanceAll_append, List.cons_append] at reaches
      refine ⟨lexer.step :: run, layout, .step reaches, ?_, ?_⟩
      · rw [List.map_cons, tokens, stepped]
        rfl
      · rw [fresh]
        exact Layout.atLine_behind _ trivia calm

end Lexer

/-- A row of trivia up to a line feed, wherever it stands and whatever follows. -/
def Idles (content : List Char) : Prop :=
  ∀ start, ∃ pieces, ∀ tail, Pauses ('\n' :: tail) start content pieces

namespace Idles

theorem nil : Idles [] :=
  fun _ => ⟨[], fun _ => .nil⟩

theorem cons {first : Char} {body rest : List Char} {kind : Kind} {text : String}
    (reads : ∀ tail, Lexeme.Reads first body (rest ++ '\n' :: tail) kind text)
    (trivia : kind.isTrivia = true) (more : Idles rest) : Idles (first :: (body ++ rest)) := by
  intro start
  obtain ⟨pieces, pauses⟩ := more (start.advanceAll (first :: body))
  exact ⟨_, fun tail => .cons (reads tail) trivia (pauses tail)⟩

theorem blanks {blanks rest : List Char} (blank : ∀ c ∈ blanks, Character.isSpace c = true)
    (stops : Lexeme.Stops Character.isSpace rest) (more : Idles rest) : Idles (blanks ++ rest) := by
  cases blanks with
  | nil => exact more
  | cons first body =>
      obtain ⟨opens, inside⟩ := List.forall_mem_cons.mp blank
      refine more.cons (fun tail => .blanks opens ⟨inside, stops.append_of ?_⟩) rfl
      simp [Lexeme.Stops, Character.isSpace]

theorem lineComment {body : List Char} (inline : '\n' ∉ body) : Idles ('\'' :: body) := by
  have run {part : List Char} (inside : ∀ c ∈ part, c ∈ body) (tail : List Char) :
      Lexeme.Run Lexeme.isOnLine part ('\n' :: tail) := by
    refine ⟨fun c member => ?_, by simp [Lexeme.Stops, Lexeme.isOnLine, Character.isNewline]⟩
    have other : c ≠ '\n' := fun same => inline (same ▸ inside c member)
    simpa [Lexeme.isOnLine, Character.isNewline] using other
  rw [← List.append_nil body]
  by_cases doc : body.head? = some '\''
  · obtain ⟨more, rfl⟩ : ∃ more, body = '\'' :: more := List.head?_eq_some_iff.mp doc
    exact nil.cons (fun tail => .lineDoc (run (fun c => List.mem_cons_of_mem _) tail)) rfl
  · refine nil.cons (fun tail => .lineComment ?_ (run (fun c => id) tail)) rfl
    intro c front
    have other : c ≠ '\'' := fun same => doc (same ▸ front)
    simpa [Character.isLineCommentStart] using other

theorem remark {comment blanks : List Char} (remark : Remark comment)
    (blank : ∀ c ∈ blanks, Character.isSpace c = true) : Idles (comment ++ blanks) := by
  have closed {body : List Char} (inside : '\x7d' ∉ body) :
      ∀ c ∈ body, Character.isBlockCommentEnd c = false := by
    intro c member
    have other : c ≠ '\x7d' := fun same => inside (same ▸ member)
    simpa [Character.isBlockCommentEnd] using other
  have trailing : Idles blanks := by
    have row := Idles.blanks blank (by simp [Lexeme.Stops]) nil
    rwa [List.append_nil] at row
  cases remark with
  | @line body inline =>
      refine lineComment fun member => ?_
      rcases List.mem_append.mp member with member | member
      · exact inline member
      · exact absurd (blank '\n' member) (by decide)
  | @block body plain inside =>
      refine trailing.cons (fun tail => .blockComment ?_ (closed inside)) rfl
      intro c front
      have other : c ≠ '\x7b' := fun same => plain (same ▸ front)
      simpa [Character.isBlockCommentStart] using other
  | doc inside => exact trailing.cons (fun tail => .blockDoc (closed inside)) rfl

end Idles

theorem IdleLine.idles {line : List Char} (idle : IdleLine line) :
    ∃ content, line = content ++ ['\n'] ∧ Idles content := by
  cases idle with
  | @blank blanks blank =>
      have row := Idles.blanks blank (by simp [Lexeme.Stops]) .nil
      rw [List.append_nil] at row
      exact ⟨blanks, rfl, row⟩
  | @remark margin comment blanks opens remark blank =>
      refine ⟨margin ++ (comment ++ blanks), by simp, .blanks opens ?_ (.remark remark blank)⟩
      cases remark <;> simp [Lexeme.Stops, Character.isSpace]

theorem Pauses.solid {tail text : List Char} {start : Position} {pieces : List Piece}
    (pauses : Pauses tail start text pieces) :
    ∀ piece ∈ pieces, piece.kind.isTrivia = true ∧ piece.start.offset < piece.stop := by
  induction pauses with
  | nil => simp
  | @cons start first body rest kind text pieces reads trivia more ih =>
      refine List.forall_mem_cons.mpr ⟨⟨trivia, ?_⟩, ih⟩
      rw [Position.advanceAll_offset]
      exact Nat.lt_add_of_pos_right (Bytes.size_pos (List.cons_ne_nil first body))

/-- Every lexer that begins with `line` cuts it into `pieces`, and is behind it as
it would be behind a line feed. -/
structure Cut (line : List Char) (pieces : List Piece) : Prop where
  solid : ∀ piece ∈ pieces, piece.kind.isTrivia = true ∧ piece.start.offset < piece.stop
  passes : ∀ (lexer : Lexer) (tail : List Char), lexer.position = .start →
    lexer.reader.rest = line ++ tail →
    (lexer.layout.pending = true → lexer.region = .methods) →
    ∃ run, lexer.Reaches run ⟨⟨Position.start.advanceAll line, tail⟩, lexer.region,
        lexer.layout.atLine lexer.region⟩ ∧
      run.map (·.token) = pieces.map (·.token lexer.region)

theorem IdleLine.exists_cut {line : List Char} (idle : IdleLine line) :
    ∃ pieces, Cut line pieces := by
  obtain ⟨content, rfl, idles⟩ := idle.idles
  obtain ⟨pieces, pauses⟩ := idles .start
  let feed := Position.start.advanceAll content
  have last : Pauses [] feed ['\n'] [⟨.newline, "\n", feed, (feed.advanceAll ['\n']).offset⟩] :=
    .cons .newline rfl .nil
  refine ⟨pieces ++ [⟨.newline, "\n", feed, (feed.advanceAll ['\n']).offset⟩],
    List.forall_mem_append.mpr ⟨(pauses []).solid, last.solid⟩, ?_⟩
  intro lexer tail place next calm
  rw [List.append_assoc] at next
  obtain ⟨run, layout, reaches, tokens, fresh⟩ := lexer.reaches_pauses (pauses tail) place next calm
  let reached : Lexer := ⟨⟨feed, '\n' :: tail⟩, lexer.region, layout⟩
  have stepped : reached.step = _ := Lexer.step_feed rfl
  have after : reached.step.after = ⟨⟨Position.start.advanceAll (content ++ ['\n']), tail⟩,
      lexer.region, lexer.layout.atLine lexer.region⟩ := by
    rw [stepped, ← fresh, Position.advanceAll_append]
    rfl
  refine ⟨run ++ [reached.step], reaches.append (.step ?_), ?_⟩
  · rw [after]
    exact .here _
  · rw [List.map_append, List.map_append, tokens, List.map_singleton, stepped]
    rfl

theorem IdleLine.advanceAll {line : List Char} (idle : IdleLine line) {position : Position}
    (opens : position.column = 0) :
    position.advanceAll line = position.moved (Bytes.size line) (line.count '\n') := by
  obtain ⟨content, rfl, _⟩ := idle.idles
  have offset := position.advanceAll_offset (content ++ ['\n'])
  have lines := position.line_advanceAll (content ++ ['\n'])
  have column : (position.advanceAll (content ++ ['\n'])).column = position.column := by
    rw [Position.advanceAll_append, opens]
    rfl
  exact congr (congrArg₂ Position.mk offset lines) column

namespace Cut

variable {line : List Char} {pieces : List Piece}

theorem unfinished (cut : Cut line pieces) {run : List Step} {region : Region}
    (tokens : run.map (·.token) = pieces.map (·.token region)) :
    ∀ step ∈ run, step.token.kind ≠ .eof := by
  intro step member atEnd
  have among := List.mem_map_of_mem (f := Step.token) member
  rw [tokens] at among
  obtain ⟨piece, found, same⟩ := List.mem_map.mp among
  have trivia := (cut.solid piece found).1
  have kind : piece.kind = .eof := by rw [← atEnd, ← same]; rfl
  rw [kind] at trivia
  cases trivia

/-- The line as a text of its own: its pieces, and the end. -/
theorem tokens_eq {line : String} (cut : Cut line.toList pieces) :
    (tokens line).dropLast = pieces.map (·.token .outside) := by
  let final : Lexer := ⟨⟨Position.start.advanceAll line.toList, []⟩, .outside, .initial⟩
  obtain ⟨run, (reaches : (Lexer.ofString line).Reaches run final), same⟩ :=
    cut.passes (.ofString line) [] rfl (List.append_nil _).symm nofun
  have atEnd : final.step.token.kind = .eof := rfl
  have last : final.steps = [final.step] := by rw [Lexer.steps_eq, if_pos atEnd]
  rw [tokens, steps, reaches.steps_eq (cut.unfinished same), last, List.map_append,
    List.map_singleton, List.dropLast_concat]
  exact same

/-- Put before a text that begins a line, an idle line adds its own tokens to it,
and only moves the others. -/
theorem steps_facing (cut : Cut line pieces) (idle : IdleLine line) {lexer : Lexer}
    (begins : lexer.BeginsLine) :
    (lexer.facing (line ++ lexer.reader.rest)).steps.map (·.token) =
      (pieces.map fun piece => (piece.token lexer.region).moved lexer.position.offset
        lexer.position.line) ++
      lexer.steps.map fun step => step.token.moved (Bytes.size line) (line.count '\n') := by
  let first : Lexer := ⟨⟨.start, line ++ lexer.reader.rest⟩, lexer.region, lexer.layout⟩
  obtain ⟨run, (reaches : first.Reaches run ⟨⟨Position.start.advanceAll line, lexer.reader.rest⟩,
      lexer.region, lexer.layout.atLine lexer.region⟩), same⟩ :=
    cut.passes first lexer.reader.rest rfl rfl begins.calm
  have starts : first.moved lexer.position.offset lexer.position.line =
      lexer.facing (line ++ lexer.reader.rest) :=
    congrArg (fun place => (⟨⟨place, _⟩, _, _⟩ : Lexer)) (Position.moved_start begins.column)
  have arrives : (Position.start.advanceAll line).moved lexer.position.offset lexer.position.line =
      lexer.position.moved (Bytes.size line) (line.count '\n') := by
    rw [← Position.advanceAll_moved, Position.moved_start begins.column,
      idle.advanceAll begins.column]
  have ends : (⟨⟨Position.start.advanceAll line, lexer.reader.rest⟩, lexer.region,
        lexer.layout⟩ : Lexer).moved lexer.position.offset lexer.position.line =
      lexer.moved (Bytes.size line) (line.count '\n') :=
    congrArg (fun place => (⟨⟨place, _⟩, _, _⟩ : Lexer)) arrives
  have whole := reaches.moved lexer.position.offset lexer.position.line
  rw [begins.fresh, starts, ends] at whole
  rw [whole.steps_eq (List.forall_mem_map.mpr (cut.unfinished same)), Lexer.steps_moved,
    List.map_append, List.map_map, List.map_map]
  have tokens := congrArg (List.map (·.moved lexer.position.offset lexer.position.line)) same
  rw [List.map_map, List.map_map] at tokens
  exact congrArg (· ++ _) tokens

end Cut

/-- The lexer that comes to a given line feed. -/
theorem reaches_feed {before behind : String} {front rest : List Token} {feed : Token}
    (parts : tokens (before ++ "\n" ++ behind) = front ++ feed :: rest)
    (newline : feed.kind = .newline) (place : feed.span.start = before.utf8ByteSize) :
    ∃ run lexer, (Lexer.ofString (before ++ "\n" ++ behind)).Reaches run lexer ∧
      run.map (·.token) = front ∧ (run.map (·.covered)).flatten = before.toList ∧
      lexer.reader.rest = '\n' :: behind.toList ∧ lexer.step.token = feed ∧
      lexer.step.after.steps.map (·.token) = rest := by
  obtain ⟨run, more, split, rfl, tail⟩ := List.map_eq_append_iff.mp parts
  obtain ⟨step, others, rfl, rfl, rfl⟩ := List.map_eq_cons_iff.mp tail
  obtain ⟨lexer, reaches, next⟩ := Lexer.steps_reaches split
  obtain ⟨rfl, following⟩ := Lexer.steps_cons (next (List.cons_ne_nil _ _))
    (by rw [newline]; exact Kind.noConfusion)
  have stands := reaches.behind (.initial _)
  rw [List.nil_append] at stands
  have text : before.toList ++ '\n' :: behind.toList =
      (run.map (·.covered)).flatten ++ lexer.reader.rest := by
    rw [← stands.text]
    simp
  have size : Bytes.size before.toList = Bytes.size (run.map (·.covered)).flatten := by
    rw [stands.span] at place
    rw [← Bytes.utf8ByteSize_ofList, String.ofList_toList]
    exact place.symm
  obtain ⟨passed, remaining⟩ := Bytes.append_inj text size
  exact ⟨run, lexer, reaches, rfl, passed.symm, remaining.symm, rfl, by rw [following]⟩

/-- An idle line put behind a line feed adds its own tokens, which are trivia and
cover it. All tokens before it stay, and all behind it only move down. -/
theorem idle_line_neutral {before line behind : String} {front rest : List Token} {feed : Token}
    (parts : tokens (before ++ "\n" ++ behind) = front ++ feed :: rest)
    (newline : feed.kind = .newline) (place : feed.span.start = before.utf8ByteSize)
    (idle : IdleLine line.toList) :
    tokens (before ++ "\n" ++ line ++ behind) =
        front ++ feed ::
          (((tokens line).dropLast.map fun token =>
              { token.moved feed.span.stop (feed.line + 1) with region := feed.region }) ++
            rest.map (·.moved line.utf8ByteSize (line.toList.count '\n'))) ∧
      ∀ token ∈ (tokens line).dropLast,
        token.kind.isTrivia = true ∧ token.span.isEmpty = false := by
  obtain ⟨pieces, cut⟩ := idle.exists_cut
  obtain ⟨run, lexer, reaches, rfl, passed, next, rfl, rfl⟩ := reaches_feed parts newline place
  refine ⟨?_, ?_⟩
  · -- The run up to the line feed is the same in front of the longer text.
    have alike : Lexeme.Alike lexer.reader.rest ('\n' :: (line.toList ++ behind.toList)) :=
      ⟨'\n', _, _, next, rfl⟩
    obtain ⟨again, longer, same⟩ := reaches.facing alike
    rw [passed] at longer
    have text : (Lexer.ofString (before ++ "\n" ++ behind)).facing
        (before.toList ++ '\n' :: (line.toList ++ behind.toList)) =
        Lexer.ofString (before ++ "\n" ++ line ++ behind) := by
      simp [Lexer.facing, Lexer.ofString, Reader.ofString, Lexer.position]
    have size : line.utf8ByteSize = Bytes.size line.toList := by
      rw [← Bytes.utf8ByteSize_ofList, String.ofList_toList]
    have added := cut.steps_facing idle ((reaches.orderly (.initial _)).beginsLine next)
    have fed := Lexer.step_feed next
    rw [fed] at added
    rw [tokens, steps, ← text, longer.steps_eq (longer.unfinished (List.cons_ne_nil _ _)),
      Lexer.steps_eq, Lexer.step_feed rfl, if_neg Kind.noConfusion, List.map_append, List.map_cons,
      same, cut.tokens_eq, List.map_map, List.map_map, size, fed]
    exact congrArg (_ ++ _ :: ·) added
  · rw [cut.tokens_eq, List.forall_mem_map]
    intro piece member
    obtain ⟨trivia, nonempty⟩ := cut.solid piece member
    exact ⟨trivia, beq_eq_false_iff_ne.mpr (Nat.ne_of_lt nonempty)⟩

/-- A comment of two lines, further in than the code around it, leaves the level
that is opened behind it as it is. -/
theorem idle_line_neutral_comment :
    IdleLine "    \x7b x\n\x7d\t\n".toList ∧
      tokens ("PUB\n a" ++ "\n" ++ "    \x7b x\n\x7d\t\n" ++ "  b\n c") =
        (tokens ("PUB\n a" ++ "\n" ++ "  b\n c")).take 4 ++
          ⟨.newline, "\n", .methods, 1, 2, ⟨6, 7⟩⟩ ::
            (((tokens "    \x7b x\n\x7d\t\n").dropLast.map fun token =>
                { token.moved 7 2 with region := .methods }) ++
              ((tokens ("PUB\n a" ++ "\n" ++ "  b\n c")).drop 5).map (·.moved 11 2)) :=
  have parts : tokens ("PUB\n a" ++ "\n" ++ "  b\n c") =
      (tokens ("PUB\n a" ++ "\n" ++ "  b\n c")).take 4 ++
        ⟨.newline, "\n", .methods, 1, 2, ⟨6, 7⟩⟩ ::
          (tokens ("PUB\n a" ++ "\n" ++ "  b\n c")).drop 5 := by
    decide +kernel
  have idle : IdleLine "    \x7b x\n\x7d\t\n".toList :=
    @IdleLine.remark "    ".toList "\x7b x\n\x7d".toList "\t".toList
      (List.all_eq_true.mp (by decide)) (@Remark.block " x\n".toList (by decide) (by decide))
      (List.all_eq_true.mp (by decide))
  ⟨idle, (idle_line_neutral parts rfl rfl idle).1⟩

end SpinBlocks
