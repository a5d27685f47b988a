import SpinBlocks.Proofs.Margins

namespace SpinBlocks

/-! Reindenting line by line.

Within a line a draft does no more than to add what the tokens cover, so what it
has written of the line is the margin and the text behind it. The blanks that are
dropped when the line ends are its own: in front of it stands a line feed, or
nothing at all.
-/

open Lexeme (Solid trimEnd trimEnd_append_blanks trimEnd_append_cons)

/-- The tokens of the row cover `text`, one after the other. -/
def Covers (source : String) (row : List Token) (text : List Char) : Prop :=
  (row.mapM fun token => Bytes.slice? source.toList token.span.start token.span.stop).map
    List.flatten = some text

/-- What a line begins with that has `blanks` in front of the first token that
shows: its own blanks, or the indentation of its depth. -/
inductive Margin (source : String) (before blanks : List Token) (first : Token) :
    List Char → Prop
  | own {leading : List Char}
      (stays : first.kind.isBlockKeyword = true ∨ first.region ≠ .methods)
      (covers : Covers source blanks leading) : Margin source before blanks first leading
  | moved {depth : Nat} (plain : first.kind.isBlockKeyword = false)
      (inside : first.region = .methods)
      (counts : depth + dedents (before ++ blanks) = indents (before ++ blanks)) :
      Margin source before blanks first (List.replicate (2 * (depth + 1)) ' ')

/-- What becomes of a line behind the tokens `before`. Nothing is dropped but
blanks at its end, and the text loses some only if it ends with a comment that
runs up to the end of the line. -/
inductive Rewrites (source : String) (before : List Token) : List Token → List Char → Prop
  | blank {line : List Token} (blank : ∀ token ∈ line, token.isBlank = true) :
      Rewrites source before line []
  | shown {blanks row trailing : List Token} {first last : Token} {margin text : List Char}
      (blank : ∀ token ∈ blanks ++ trailing, token.isBlank = true)
      (opens : row.head? = some first) (ends : row.getLast? = some last)
      (shows : first.isBlank = false ∧ last.isBlank = false)
      (begins : Margin source before blanks first margin)
      (covers : Bytes.slice? source.toList first.span.start last.span.stop = some text)
      (comment : trimEnd text ≠ text → (last.kind = .comment ∨ last.kind = .docComment) ∧
        ∃ body, Bytes.slice? source.toList last.span.start last.span.stop = some ('\'' :: body)) :
      Rewrites source before (blanks ++ (row ++ trailing)) (margin ++ trimEnd text)

/-- A line becomes `piece` behind the tokens `before`. Of the text that it covers
all line feeds are kept, and if the line may not move, all but blanks at its end. -/
structure Redrawn (source : String) (before line : List Token) (text piece : List Char) :
    Prop where
  inline : ∀ token ∈ line, token.kind ≠ .newline
  rewrites : Rewrites source before line piece
  covers : Covers source line text
  feeds : piece.count '\n' = text.count '\n'
  stays : (∀ first ∈ line.find? (!·.isBlank),
      first.kind.isBlockKeyword = true ∨ first.region ≠ .methods) → piece = trimEnd text

/-- The tokens behind `before`, cut at the line feeds, with what becomes of each
line. -/
inductive Lined (source : String) : List Token → List Token → List (List Char) → Prop
  | last {before line : List Token} {text piece : List Char}
      (redrawn : Redrawn source before line text piece) : Lined source before line [piece]
  | more {before line rest : List Token} {newline : Token} {text piece : List Char}
      {pieces : List (List Char)} (redrawn : Redrawn source before line text piece)
      (ends : newline.kind = .newline)
      (others : Lined source (before ++ (line ++ [newline])) rest pieces) :
      Lined source before (line ++ newline :: rest) (piece :: pieces)

theorem Lined.ne_nil {source : String} {before rest : List Token} {pieces : List (List Char)}
    (lined : Lined source before rest pieces) : pieces ≠ [] := by
  cases lined <;> exact List.cons_ne_nil _ _

theorem covers_steps {source : String} {row : List Step}
    (among : ∀ step ∈ row, step ∈ steps source) :
    Covers source (row.map (·.token)) (row.map (·.covered)).flatten := by
  rw [Covers, List.mapM_map]
  simp only [Function.comp_def]
  rw [mapM_eq_some fun step member => slice_of_mem_steps (among step member), Option.map_some]

namespace Lexer

variable {lexer : Lexer} {row : List Step}

theorem isSpace_of_blank {step : Step} (faultless : Faultless lexer.steps)
    (member : step ∈ lexer.steps) (blank : step.token.isBlank = true) :
    ∀ c ∈ step.covered, Character.isSpace c = true := by
  have silent := isBlank_cases faultless member blank
  obtain ⟨reached, sound⟩ := sound_of_mem faultless member
  cases sound with
  | mark mark covered => simp [covered]
  | newline newline => simp [newline, Kind.isMark] at silent
  | blanks space takes =>
      rw [takes.covered]
      exact (takes.reads.space_run space).1.inside
  | visible visible =>
      rcases silent with space | mark
      · exact absurd space (Kind.ne_of_isVisible visible).1
      · simp [Kind.isVisible, mark] at visible

theorem isSpace_of_blanks (faultless : Faultless lexer.steps)
    (among : ∀ step ∈ row, step ∈ lexer.steps) (blank : ∀ step ∈ row, step.token.isBlank = true) :
    ∀ c ∈ (row.map (·.covered)).flatten, Character.isSpace c = true := by
  intro c member
  obtain ⟨covered, found, inside⟩ := List.mem_flatten.mp member
  obtain ⟨step, here, rfl⟩ := List.mem_map.mp found
  exact isSpace_of_blank faultless (among step here) (blank step here) c inside

/-- What shows begins with a character that is no blank, and ends with one unless
it is a comment up to the end of its line. -/
theorem covered_of_shown {step : Step} (faultless : Faultless lexer.steps)
    (member : step ∈ lexer.steps) (shown : step.token.isBlank = false)
    (inline : step.token.kind ≠ .newline) :
    ∃ c body, step.covered = c :: body ∧ Character.isSpace c = false ∧
      (Solid step.covered ∨ c = '\'' ∧
        (step.token.kind = .comment ∨ step.token.kind = .docComment)) := by
  have visible := isVisible_of_shown faultless member shown inline
  obtain ⟨reached, sound⟩ := sound_of_mem faultless member
  cases sound with
  | mark mark => simp [Kind.isVisible, mark] at visible
  | newline newline => exact absurd newline inline
  | blanks space => exact absurd space (Kind.ne_of_isVisible visible).1
  | @visible first body _ takes =>
      refine ⟨first, body, takes.covered, Reindent.Draft.isSpace_of_visible visible takes, ?_⟩
      by_cases line : first = '\''
      · rcases takes.reads.line_cases line with ⟨_, _, kind, _⟩ | ⟨_, _, _, kind, _⟩
        · exact .inr ⟨line, .inl kind⟩
        · exact .inr ⟨line, .inr kind⟩
      · rw [takes.covered]
        exact .inl (takes.reads.solid (Kind.ne_of_isVisible visible).1 line)

end Lexer

namespace Reindent.Draft

variable {draft : Draft} {lexer : Lexer} {step : Step} {row : List Step}

/-- Within a line what is covered is written. -/
theorem after_inline (sound : lexer.Sound step) (inline : step.token.kind ≠ .newline)
    (middle : draft.atLineStart = false) :
    (draft.after step).atLineStart = false ∧
      (draft.after step).written.reverse = draft.written.reverse ++ step.covered := by
  cases sound with
  | mark mark covered =>
      rw [after_mark mark, covered, List.append_nil]
      exact ⟨middle, rfl⟩
  | newline newline => exact absurd newline inline
  | blanks space =>
      rw [after_space space, if_neg (by simp [middle])]
      exact ⟨middle, by simp [append]⟩
  | visible visible =>
      rw [after_visible visible, opening, if_neg (by simp [middle])]
      exact ⟨rfl, by simp [append]⟩

theorem foldl_inline (faultless : Faultless lexer.steps) (among : ∀ step ∈ row, step ∈ lexer.steps)
    (inline : ∀ step ∈ row, step.token.kind ≠ .newline) (middle : draft.atLineStart = false) :
    (row.foldl after draft).written.reverse =
      draft.written.reverse ++ (row.map (·.covered)).flatten := by
  induction row generalizing draft with
  | nil => simp
  | cons step row ih =>
      obtain ⟨here, others⟩ := List.forall_mem_cons.mp among
      obtain ⟨plain, rest⟩ := List.forall_mem_cons.mp inline
      obtain ⟨reached, sound⟩ := Lexer.sound_of_mem faultless here
      obtain ⟨still, written⟩ := after_inline sound plain middle
      rw [List.foldl_cons, ih others rest still, written, List.map_cons, List.flatten_cons,
        List.append_assoc]

/-- A line is about to begin, and no blanks stand before it. -/
structure Fresh (draft : Draft) : Prop where
  start : draft.atLineStart = true
  leading : draft.leading = []
  solid : Solid draft.written.reverse

theorem fresh_initial : initial.Fresh :=
  ⟨rfl, rfl, .of_forall (by simp [initial])⟩

theorem written_endLine (draft : Draft) :
    draft.endLine.written.reverse = trimEnd draft.written.reverse ++ ['\n'] := by
  simp [endLine, trim, append, trimEnd, List.rdropWhile_reverse]

theorem fresh_endLine (draft : Draft) : draft.endLine.Fresh :=
  ⟨rfl, rfl, by rw [written_endLine]; exact .append_singleton _ (by decide)⟩

theorem after_opening (start : draft.atLineStart = true)
    (visible : step.token.kind.isVisible = true) :
    (draft.after step).atLineStart = false ∧ (draft.after step).written.reverse =
      draft.written.reverse ++ (draft.margin step.token ++ step.covered) := by
  rw [after_visible visible, opening, if_pos start]
  exact ⟨rfl, by simp [append]⟩

theorem margin_stays {token : Token}
    (stays : token.kind.isBlockKeyword = true ∨ token.region ≠ .methods) :
    draft.margin token = draft.leading := by
  rw [moves_margin, if_neg]
  rcases stays with opens | outside
  · simp [moves, opens]
  · simp [moves, outside]

theorem margin_begins {source : String} {reached : Lexer} {before blanks : List Step}
    (first : Token) (reaches : (Lexer.ofString source).Reaches (before ++ blanks) reached)
    (among : ∀ step ∈ blanks, step ∈ steps source)
    (leading : ((before ++ blanks).foldl after initial).leading =
      (blanks.map (·.covered)).flatten) :
    Margin source (before.map (·.token)) (blanks.map (·.token)) first
      (((before ++ blanks).foldl after initial).margin first) := by
  by_cases stays : first.kind.isBlockKeyword = true ∨ first.region ≠ .methods
  · rw [margin_stays stays, leading]
    exact .own stays (covers_steps among)
  · simp only [not_or, Bool.not_eq_true, not_not] at stays
    obtain ⟨plain, inside⟩ := stays
    have counts := depth_counts reaches
    rw [List.map_append] at counts
    rw [moves_margin, if_pos (by simp [moves, plain, inside]), indentation_eq]
    exact .moved plain inside counts

end Reindent.Draft

/-- The text that shows on a line begins with no blank, so trimming does not reach
in front of it. -/
theorem trimEnd_line (front : List Char) {c : Char} {rest trailing : List Char}
    (solid : Character.isSpace c = false) (blank : ∀ c ∈ trailing, Character.isSpace c = true) :
    trimEnd (front ++ (c :: rest ++ trailing)) = front ++ trimEnd (c :: rest) := by
  rw [← List.append_assoc, trimEnd_append_blanks _ blank, trimEnd_append_cons _ solid]

/-- A row without its blanks at either end, unless they are all of it. -/
theorem exists_shown {α : Type} (blank : α → Bool) (line : List α) :
    (∀ item ∈ line, blank item = true) ∨
      ∃ blanks row trailing first last, line = blanks ++ (row ++ trailing) ∧
        (∀ item ∈ blanks ++ trailing, blank item = true) ∧ row.head? = some first ∧
        row.getLast? = some last ∧ blank first = false ∧ blank last = false := by
  cases behind : line.dropWhile blank with
  | nil => exact .inl (List.dropWhile_eq_nil_iff.mp behind)
  | cons first rest =>
      have parts := List.takeWhile_append_dropWhile (p := blank) (l := line)
      have shown : blank first = false := by
        have head := List.head?_dropWhile_not blank line
        rw [behind] at head
        simpa using head
      have nonempty : (first :: rest).rdropWhile blank ≠ [] := by
        intro dropped
        have all := List.rdropWhile_eq_nil_iff.mp dropped first (by simp)
        rw [shown] at all
        cases all
      have last := List.rdropWhile_last_not blank (first :: rest) nonempty
      have front := List.rdropWhile_prefix blank (first :: rest)
      have whole := List.rdropWhile_append_rtakeWhile (p := blank) (l := first :: rest)
      refine .inr ⟨line.takeWhile blank, (first :: rest).rdropWhile blank,
        (first :: rest).rtakeWhile blank, first, _, ?_, ?_, ?_,
        List.getLast?_eq_some_getLast nonempty, shown, by simpa using last⟩
      · rw [whole, ← behind, parts]
      · intro item member
        rcases List.mem_append.mp member with here | there
        · exact List.mem_takeWhile_imp here
        · exact List.mem_rtakeWhile_imp there
      · cases row : (first :: rest).rdropWhile blank with
        | nil => exact absurd row nonempty
        | cons other more =>
            rw [row] at front
            rw [(List.cons_prefix_cons.mp front).1]
            rfl

namespace Reindent.Draft

variable {source : String} {before line blanks rest : List Step}

/-- The steps of a line behind the steps `before`, where the draft begins a line. -/
structure IsLine (source : String) (before line : List Step) : Prop where
  faultless : Faultless (steps source)
  among : ∀ step ∈ line, step ∈ steps source
  reaches : ∃ closed, (Lexer.ofString source).Reaches (before ++ line) closed
  fresh : (before.foldl after initial).Fresh
  inline : ∀ step ∈ line, step.token.kind ≠ .newline

/-- What the draft adds for a line, once the blanks at its end are dropped, is what
the line becomes. -/
def Adds (source : String) (before line : List Step) : Prop :=
  ∃ text piece, Redrawn source (before.map (·.token)) (line.map (·.token)) text piece ∧
    trimEnd (line.foldl after (before.foldl after initial)).written.reverse =
      (before.foldl after initial).written.reverse ++ piece

/-- The blanks of a line are not written yet, and the draft holds all of them. -/
theorem IsLine.margin (isLine : IsLine source before (blanks ++ rest))
    (blank : ∀ step ∈ blanks, step.token.isBlank = true) :
    (blanks.foldl after (before.foldl after initial)).atLineStart = true ∧
      (blanks.foldl after (before.foldl after initial)).leading =
        (blanks.map (·.covered)).flatten ∧
      (blanks.foldl after (before.foldl after initial)).written =
        (before.foldl after initial).written := by
  obtain ⟨faultless, among, ⟨closed, reaches⟩, fresh, _⟩ := isLine
  obtain ⟨opened, _, more⟩ := reaches.cut
  obtain ⟨_, margins, _⟩ := more.cut
  have silent : ∀ step ∈ blanks, step.token.kind = .space ∨ step.token.kind.isMark = true :=
    fun step member => Lexer.isBlank_cases faultless (among step (by simp [member]))
      (blank step member)
  have held := leading_blanks margins silent fresh.start (.inl fresh.leading)
  rwa [fresh.leading, List.nil_append] at held

theorem IsLine.blank (isLine : IsLine source before line)
    (blank : ∀ step ∈ line, step.token.isBlank = true) : Adds source before line := by
  rw [← List.append_nil line] at isLine
  obtain ⟨_, _, written⟩ := isLine.margin blank
  rw [List.append_nil] at isLine
  obtain ⟨faultless, among, _, fresh, inline⟩ := isLine
  have spaces := Lexer.isSpace_of_blanks faultless among blank
  refine ⟨_, [], ⟨List.forall_mem_map.mpr inline, .blank (List.forall_mem_map.mpr blank),
    covers_steps among, ?_, fun _ => ?_⟩, ?_⟩
  · rw [count_newline_blanks spaces]
    rfl
  · exact (trimEnd_append_blanks [] spaces).symm
  · rw [written, fresh.solid.trimEnd, List.append_nil]

theorem trimmed_comment {row : List Step} {last : Step} (faultless : Faultless (steps source))
    (among : ∀ step ∈ row, step ∈ steps source) (ends : row.getLast? = some last)
    (inline : last.token.kind ≠ .newline) (shown : last.token.isBlank = false)
    (trimmed : trimEnd (row.map (·.covered)).flatten ≠ (row.map (·.covered)).flatten) :
    (last.token.kind = .comment ∨ last.token.kind = .docComment) ∧ ∃ body,
      Bytes.slice? source.toList last.token.span.start last.token.span.stop =
        some ('\'' :: body) := by
  have here := among last (List.mem_of_getLast? ends)
  obtain ⟨c, body, covered, _, solid | ⟨rfl, comment⟩⟩ :=
    Lexer.covered_of_shown faultless here shown inline
  · refine absurd (Solid.trimEnd ?_) trimmed
    obtain ⟨front, rfl⟩ := List.getLast?_eq_some_iff.mp ends
    rw [covered] at solid
    intro final same
    refine solid final ?_
    simpa [covered, List.getLast?_append] using same
  · exact ⟨comment, body, by rw [slice_of_mem_steps here, covered]⟩

/-- Behind the blanks of a line its margin is written, and all that the line covers
from there on. -/
theorem IsLine.opening {first : Step}
    (isLine : IsLine source before (blanks ++ first :: rest))
    (blank : ∀ step ∈ blanks, step.token.isBlank = true) (shows : first.token.isBlank = false) :
    ((before ++ blanks).foldl after initial).leading = (blanks.map (·.covered)).flatten ∧
      ((blanks ++ first :: rest).foldl after (before.foldl after initial)).written.reverse =
        (before.foldl after initial).written.reverse ++
          (((before ++ blanks).foldl after initial).margin first.token ++
            ((first :: rest).map (·.covered)).flatten) := by
  obtain ⟨start, leading, kept⟩ := isLine.margin blank
  obtain ⟨faultless, among, _, _, inline⟩ := isLine
  simp only [List.forall_mem_append, List.forall_mem_cons] at among inline
  obtain ⟨_, amongFirst, amongRest⟩ := among
  obtain ⟨_, inlineFirst, inlineRest⟩ := inline
  have visible := Lexer.isVisible_of_shown faultless amongFirst shows inlineFirst
  rw [List.foldl_append, List.foldl_append, List.foldl_cons]
  generalize blanks.foldl after (before.foldl after initial) = draft at start leading kept
  obtain ⟨middle, written⟩ := after_opening start visible
  refine ⟨leading, ?_⟩
  rw [foldl_inline faultless amongRest inlineRest middle, written, kept, List.map_cons,
    List.flatten_cons, List.append_assoc, List.append_assoc]

theorem find?_shown {first : Step}
    (blank : ∀ step ∈ blanks, step.token.isBlank = true) (shows : first.token.isBlank = false) :
    ((blanks ++ first :: rest).map (·.token)).find? (!·.isBlank) = some first.token := by
  have hidden : (blanks.map (·.token)).find? (!·.isBlank) = none := by
    simpa using blank
  rw [List.map_append, List.find?_append, hidden, List.map_cons, List.find?_cons, shows]
  rfl

theorem IsLine.rewrites {inner trailing : List Step} {first last : Step}
    (isLine : IsLine source before (blanks ++ (first :: inner ++ trailing)))
    (blank : ∀ step ∈ blanks ++ trailing, step.token.isBlank = true)
    (ends : (first :: inner).getLast? = some last) (shows : first.token.isBlank = false)
    (shown : last.token.isBlank = false) :
    Rewrites source (before.map (·.token))
      ((blanks ++ (first :: inner ++ trailing)).map (·.token))
      (((before ++ blanks).foldl after initial).margin first.token ++
        trimEnd ((first :: inner).map (·.covered)).flatten) := by
  obtain ⟨leading, _⟩ := isLine.opening (List.forall_mem_append.mp blank).1 shows
  obtain ⟨faultless, among, ⟨closed, reaches⟩, _, inline⟩ := isLine
  rw [List.forall_mem_append, List.forall_mem_append] at among inline
  obtain ⟨opened, enters, more⟩ := reaches.cut
  obtain ⟨here, margins, rest⟩ := more.cut
  obtain ⟨there, showing, _⟩ := rest.cut
  have begins := margin_begins first.token (enters.append margins) among.1 leading
  have covers := ((enters.append margins).behind (.initial source)).slice_row showing rfl ends
  have plain := inline.2.1 last (List.mem_of_getLast? ends)
  have comment := trimmed_comment faultless among.2.1 ends plain shown
  rw [List.map_append, List.map_append]
  refine .shown ?_ rfl ?_ ⟨shows, shown⟩ begins covers comment
  · rw [← List.map_append]
    exact List.forall_mem_map.mpr blank
  · rw [List.getLast?_map, ends]
    rfl

theorem IsLine.shown {inner trailing : List Step} {first last : Step}
    (isLine : IsLine source before (blanks ++ (first :: inner ++ trailing)))
    (blank : ∀ step ∈ blanks ++ trailing, step.token.isBlank = true)
    (ends : (first :: inner).getLast? = some last) (shows : first.token.isBlank = false)
    (shown : last.token.isBlank = false) :
    Adds source before (blanks ++ (first :: inner ++ trailing)) := by
  have rewrites := isLine.rewrites blank ends shows shown
  obtain ⟨blankFront, blankEnd⟩ := List.forall_mem_append.mp blank
  obtain ⟨leading, written⟩ := @IsLine.opening _ _ _ (inner ++ trailing) _ isLine blankFront shows
  rw [← List.cons_append] at written
  obtain ⟨faultless, among, _, _, inline⟩ := isLine
  have covers := covers_steps among
  have plain : ∀ token ∈ (blanks ++ (first :: inner ++ trailing)).map (·.token),
      token.kind ≠ .newline := List.forall_mem_map.mpr inline
  rw [List.forall_mem_append, List.forall_mem_append] at among inline
  have spacesFront := Lexer.isSpace_of_blanks faultless among.1 blankFront
  have spacesEnd := Lexer.isSpace_of_blanks faultless among.2.2 blankEnd
  have spaces : ∀ c ∈ ((before ++ blanks).foldl after initial).margin first.token,
      Character.isSpace c = true := Blank.margin (by rwa [Blank, leading]) first.token
  obtain ⟨c, body, covered, solid, _⟩ := Lexer.covered_of_shown faultless
    (among.2.1 first List.mem_cons_self) shows (inline.2.1 first List.mem_cons_self)
  have text : ((first :: inner).map (·.covered)).flatten =
      c :: (body ++ (inner.map (·.covered)).flatten) := by
    rw [List.map_cons, List.flatten_cons, covered, List.cons_append]
  refine ⟨_, _, ⟨plain, rewrites, covers, ?_, fun stays => ?_⟩, ?_⟩
  · rw [List.count_append, count_newline_blanks spaces, count_newline_trimEnd, List.map_append,
      List.map_append, List.flatten_append, List.flatten_append, List.count_append,
      List.count_append, count_newline_blanks spacesFront, count_newline_blanks spacesEnd]
    rfl
  · rw [margin_stays (stays first.token (find?_shown blankFront shows)), leading, List.map_append,
      List.map_append, List.flatten_append, List.flatten_append, text,
      trimEnd_line _ solid spacesEnd]
  · rw [written, ← List.append_assoc, List.map_append, List.flatten_append, text,
      trimEnd_line _ solid spacesEnd, List.append_assoc]

theorem IsLine.adds (isLine : IsLine source before line) : Adds source before line := by
  rcases exists_shown (·.token.isBlank) line with
    blank | ⟨blanks, row, trailing, first, last, rfl, blank, opens, ends, shows, shown⟩
  · exact isLine.blank blank
  · obtain ⟨inner, rfl⟩ := List.head?_eq_some_iff.mp opens
    exact isLine.shown blank ends shows shown

/-- Line by line the draft adds the piece of each line, and a line feed between any
two of them. -/
theorem exists_lined (parts : steps source = before ++ rest)
    (faultless : Faultless (steps source)) (fresh : (before.foldl after initial).Fresh) :
    ∃ pieces, Lined source (before.map (·.token)) (rest.map (·.token)) pieces ∧
      trimEnd (rest.foldl after (before.foldl after initial)).written.reverse =
        (before.foldl after initial).written.reverse ++ ['\n'].intercalate pieces := by
  induction size : rest.length using Nat.strong_induction_on generalizing before rest with
  | _ size ih =>
    subst size
    have isLine {line behind : List Step} (cut : rest = line ++ behind)
        (inline : ∀ step ∈ line, step.token.kind ≠ .newline) : IsLine source before line := by
      rw [cut, ← List.append_assoc] at parts
      obtain ⟨closed, reaches, _⟩ := Lexer.steps_reaches parts
      exact ⟨faultless, fun step member => by rw [parts]; simp [member], ⟨closed, reaches⟩, fresh,
        inline⟩
    cases found : rest.find? (·.token.kind == .newline) with
    | none =>
        have inline : ∀ step ∈ rest, step.token.kind ≠ .newline := by simpa using found
        obtain ⟨text, piece, redrawn, written⟩ := (isLine (List.append_nil rest).symm inline).adds
        exact ⟨[piece], .last redrawn, by simpa using written⟩
    | some newline =>
        obtain ⟨ends, line, behind, rfl, inline⟩ := List.find?_eq_some_iff_append.mp found
        obtain ⟨text, piece, redrawn, written⟩ :=
          (isLine rfl fun step member => by simpa using inline step member).adds
        have ended : (before ++ (line ++ [newline])).foldl after initial =
            (line.foldl after (before.foldl after initial)).endLine := by
          rw [List.foldl_append, List.foldl_append, List.foldl_cons, List.foldl_nil,
            after_newline (beq_iff_eq.mp ends)]
        have cut : steps source = (before ++ (line ++ [newline])) ++ behind := by simp [parts]
        have shorter : behind.length < (line ++ newline :: behind).length := by simp; omega
        have begins : ((before ++ (line ++ [newline])).foldl after initial).Fresh := by
          rw [ended]
          exact fresh_endLine _
        obtain ⟨pieces, lined, others⟩ := ih _ shorter cut begins rfl
        refine ⟨piece :: pieces, ?_, ?_⟩
        · rw [List.map_append, List.map_append] at lined
          rw [List.map_append]
          exact .more redrawn (beq_iff_eq.mp ends) lined
        · rw [ended, written_endLine, written] at others
          rw [List.foldl_append, List.foldl_cons, after_newline (beq_iff_eq.mp ends), others,
            List.intercalate_cons_of_ne_nil lined.ne_nil]
          simp

end Reindent.Draft

/-- Reindenting rewrites each line by itself, and joins the pieces by line feeds. -/
theorem reindent_line_by_line {source out : String} (formatted : reindent source = .ok out) :
    ∃ pieces, Lined source [] (tokens source) pieces ∧
      out.toList = ['\n'].intercalate pieces := by
  obtain ⟨faultless, _⟩ := Reindent.reindent_eq_ok.mp formatted
  have parts : steps source = [] ++ steps source := rfl
  obtain ⟨pieces, lined, written⟩ :=
    Reindent.Draft.exists_lined parts faultless Reindent.Draft.fresh_initial
  rw [reindent, Reindent.Draft.addAll_eq_ok.mpr ⟨faultless, rfl⟩] at formatted
  obtain rfl := Except.ok.inj formatted
  refine ⟨pieces, lined, ?_⟩
  rw [List.foldl_nil] at written
  simpa [Reindent.Draft.text, Reindent.Draft.trim, trimEnd, List.rdropWhile_reverse,
    Reindent.Draft.initial] using written

theorem reindent_line_by_line_comment :
    reindent "CON \n\tx = 1 ' one \n \t\nPUB\n a \x7bb \n  c\x7d \n   d\t\n" =
        .ok "CON\n\tx = 1 ' one\n\nPUB\n  a \x7bb \n  c\x7d\n    d\n" ∧
      ∃ pieces, Lined "CON \n\tx = 1 ' one \n \t\nPUB\n a \x7bb \n  c\x7d \n   d\t\n" []
          (tokens "CON \n\tx = 1 ' one \n \t\nPUB\n a \x7bb \n  c\x7d \n   d\t\n") pieces ∧
        "CON\n\tx = 1 ' one\n\nPUB\n  a \x7bb \n  c\x7d\n    d\n".toList =
          ['\n'].intercalate pieces :=
  have formatted : reindent "CON \n\tx = 1 ' one \n \t\nPUB\n a \x7bb \n  c\x7d \n   d\t\n" =
      .ok "CON\n\tx = 1 ' one\n\nPUB\n  a \x7bb \n  c\x7d\n    d\n" := by
    decide +kernel
  ⟨formatted, reindent_line_by_line formatted⟩

end SpinBlocks
