import Mathlib.Data.List.Forall2
import SpinBlocks.Proofs.Rendering

namespace SpinBlocks

/-! Reindenting changes blanks only.

A lexeme depends on what stands behind it by no more than one character, and
that character is the same in the new text, or it is a line feed. So a reading
of the new text finds the tokens of the old one again, whatever it makes of the
indentation in between.
-/

open Lexeme (Stops Replaces isOnLine trimEnd)

namespace Reindent.Draft

variable {draft : Draft} {lexer : Lexer}

theorem render_endsLine (faultless : Faultless lexer.steps)
    (ends : Stops isOnLine lexer.reader.rest) : Stops isOnLine (draft.render lexer.steps) := by
  revert draft
  fun_induction Lexer.steps lexer with
  | case1 lexer next atEnd =>
      intro draft
      have mark : next.token.kind.isMark = true := by rw [atEnd]; rfl
      simp [render, piece_mark mark, Stops]
  | case2 lexer next unfinished ih =>
      intro draft
      obtain ⟨fault, behind⟩ := faultless_cons.mp faultless
      have sound := lexer.step_transition.sound fault
      rw [render]
      cases sound with
      | mark mark covered reader region =>
          rw [piece_mark mark]
          exact ih behind (reader ▸ ends)
      | newline newline takes =>
          rw [piece_newline newline]
          simp [Stops, isOnLine, Character.isNewline]
      | @blanks first body space takes =>
          have newline : first = '\n' := by
            simpa [takes.next, Stops, isOnLine, Character.isNewline] using ends
          have kind := takes.reads.newline_first.mpr newline
          rw [space] at kind
          cases kind
      | @visible first body visible takes =>
          have newline : first = '\n' := by
            simpa [takes.next, Stops, isOnLine, Character.isNewline] using ends
          exact absurd (takes.reads.newline_first.mpr newline) (Kind.ne_of_isVisible visible).2

theorem trimEnd_covered {step : Step} {first : Char} {body : List Char}
    (visible : step.token.kind.isVisible = true) (takes : lexer.Takes step first body) :
    ∃ less, trimEnd step.covered = first :: less := by
  rw [takes.covered, Lexeme.trimEnd_cons (isSpace_of_visible visible takes)]
  exact ⟨_, rfl⟩

/-- Within a line the rendered text goes on as the old one does, or ends the line. -/
theorem render_replaces (faultless : Faultless lexer.steps)
    (middle : draft.atLineStart = false) :
    Replaces (draft.render lexer.steps) lexer.reader.rest := by
  revert draft
  fun_induction Lexer.steps lexer with
  | case1 lexer next atEnd =>
      intro draft middle
      have mark : next.token.kind.isMark = true := by rw [atEnd]; rfl
      simp [render, piece_mark mark, Replaces]
  | case2 lexer next unfinished ih =>
      intro draft middle
      obtain ⟨fault, behind⟩ := faultless_cons.mp faultless
      have sound := lexer.step_transition.sound fault
      rw [render]
      cases sound with
      | mark mark covered reader region =>
          rw [piece_mark mark, List.nil_append, ← reader]
          refine ih behind ?_
          rw [after_mark mark]
          exact middle
      | newline newline takes =>
          rw [piece_newline newline]
          simp [Replaces]
      | @blanks first body space takes =>
          rw [piece_space space, middle, Bool.false_or]
          split
          · rename_i ends
            intro c front
            have newline := render_endsLine behind (endsLine_iff.mp ends) c front
            exact .inr (by simpa [isOnLine, Character.isNewline] using newline)
          · rw [takes.covered, takes.next]
            simp [Replaces]
      | @visible first body visible takes =>
          obtain ⟨less, trimmed⟩ := trimEnd_covered visible takes
          rw [piece_visible visible, opening, middle, trimmed, takes.next]
          simp [Replaces]

def Blank (draft : Draft) : Prop :=
  ∀ c ∈ draft.leading, Character.isSpace c = true

theorem Blank.after {step : Step} (blank : draft.Blank) (sound : lexer.Sound step) :
    (draft.after step).Blank := by
  cases sound with
  | mark mark =>
      rw [after_mark mark]
      exact blank
  | newline newline =>
      rw [after_newline newline]
      simp [Blank, endLine]
  | blanks space takes =>
      rw [after_space space]
      split
      · rw [takes.covered]
        exact (takes.reads.space_run space).1.inside
      · exact blank
  | visible visible =>
      rw [after_visible visible]
      exact blank

theorem isSpace_indentation (depth : Nat) : ∀ c ∈ indentation depth, Character.isSpace c = true := by
  intro c member
  obtain ⟨piece, copied, inside⟩ := List.mem_flatten.mp member
  rw [(List.mem_replicate.mp copied).2] at inside
  have every : unit.toList.all Character.isSpace = true := by decide
  exact List.all_eq_true.mp every c inside

theorem Blank.margin (blank : draft.Blank) (token : Token) :
    ∀ c ∈ draft.margin token, Character.isSpace c = true := by
  unfold Draft.margin
  split
  · exact isSpace_indentation draft.depth
  · exact blank

theorem Blank.opening (blank : draft.Blank) (token : Token) :
    ∀ c ∈ draft.opening token, Character.isSpace c = true := by
  unfold Draft.opening
  split
  · exact blank.margin token
  · simp

end Reindent.Draft

namespace Step

/-- The step covers something, and not only blanks. -/
def isSolid (step : Step) : Bool :=
  step.token.kind != .space && !step.covered.isEmpty

/-- The tokens are the same, up to blanks at the end of a comment that ends with
its line. -/
def Retained (step other : Step) : Prop :=
  other.token.kind = step.token.kind ∧ other.token.region = step.token.region ∧
    (other.token.text = step.token.text ∨ step.covered.head? = some '\'' ∧
      other.token.text = String.ofList (trimEnd step.token.text.toList))

end Step

namespace Lexer

variable {lexer other : Lexer}

theorem filter_solid_silent {steps : List Step} (silent : ∀ step ∈ steps, step.covered = []) :
    steps.filter (·.isSolid) = [] := by
  refine List.filter_eq_nil_iff.mpr fun step member => ?_
  simp [Step.isSolid, silent step member]

theorem solid_end (atEnd : lexer.reader.rest = []) : lexer.steps.filter (·.isSolid) = [] := by
  refine filter_solid_silent fun step member => ?_
  have parts := lexer.covered_flatten
  rw [atEnd, List.flatten_eq_nil_iff] at parts
  exact parts step.covered (List.mem_map.mpr ⟨step, member, rfl⟩)

theorem solid_reads {first : Char} {body tail : List Char} {kind : Kind} {text : String}
    (next : lexer.reader.rest = first :: (body ++ tail))
    (reads : Lexeme.Reads first body tail kind text) :
    ∃ step, lexer.steps.filter (·.isSolid) =
        (if kind = .space then [] else [step]) ++ step.after.steps.filter (·.isSolid) ∧
      lexer.Takes step first body ∧ step.token.kind = kind ∧ step.token.text = text ∧
      step.after.reader.rest = tail := by
  obtain ⟨shifts, settled, settles⟩ := lexer.layout.exists_settles first
  obtain ⟨marks, step, steps, ⟨_, silent⟩, takes, same, shown, rest, _⟩ :=
    steps_reads next reads settles
  refine ⟨step, ?_, takes, same, shown, rest⟩
  rw [steps, List.filter_append, filter_solid_silent silent, List.nil_append, List.filter_cons]
  by_cases space : kind = .space
  · simp [Step.isSolid, same, space]
  · simp [Step.isSolid, same, space, takes.covered]

theorem solid_blanks {blanks tail : List Char} (next : lexer.reader.rest = blanks ++ tail)
    (run : Lexeme.Run Character.isSpace blanks tail) :
    ∃ behind : Lexer, behind.reader.rest = tail ∧ behind.region = lexer.region ∧
      lexer.steps.filter (·.isSolid) = behind.steps.filter (·.isSolid) := by
  cases blanks with
  | nil => exact ⟨lexer, next, rfl, rfl⟩
  | cons first body =>
      obtain ⟨blank, inside⟩ := List.forall_mem_cons.mp run.inside
      obtain ⟨step, solid, takes, same, _, rest⟩ :=
        solid_reads next (.blanks blank ⟨inside, run.stops⟩)
      refine ⟨step.after, rest, ?_, by simpa using solid⟩
      rw [takes.region, same]
      rfl

/-- A reading of the rendered text finds every solid token again. -/
theorem retained_render {draft : Reindent.Draft} (blank : draft.Blank)
    (faultless : Faultless lexer.steps)
    (region : other.region = lexer.region)
    (text : other.reader.rest = draft.render lexer.steps) :
    List.Forall₂ Step.Retained (lexer.steps.filter (·.isSolid))
      (other.steps.filter (·.isSolid)) := by
  -- The induction is on the reading of the source. The other lexer goes along, and stands
  -- before all that is still to be rendered.
  revert draft other
  fun_induction Lexer.steps lexer with
  | case1 lexer next atEnd =>
      intro other draft blank region text
      have mark : next.token.kind.isMark = true := by rw [atEnd]; rfl
      have ended := lexer.step_transition.atEnd atEnd
      have parts := lexer.step_transition.text
      rw [ended] at parts
      have silent : next.covered = [] := (List.append_eq_nil_iff.mp parts.symm).1
      rw [Reindent.Draft.render, Reindent.Draft.piece_mark mark] at text
      rw [solid_end text, filter_solid_silent (by simpa using silent)]
      exact .nil
  | case2 lexer next unfinished ih =>
      intro other draft blank region text
      obtain ⟨fault, behind⟩ := faultless_cons.mp faultless
      have sound : lexer.Sound next := lexer.step_transition.sound fault
      have blank' := blank.after sound
      rw [Reindent.Draft.render] at text
      cases sound with
      | mark mark covered reader same =>
          rw [Reindent.Draft.piece_mark mark] at text
          have skipped : next.isSolid = false := by simp [Step.isSolid, covered]
          rw [List.filter_cons, skipped]
          exact ih behind blank' (region.trans same.symm) text
      | newline newline takes =>
          rw [Reindent.Draft.piece_newline newline] at text
          obtain ⟨step, solid, found, kind, shown, rest⟩ := solid_reads text .newline
          have covers : next.isSolid = true := by simp [Step.isSolid, newline, takes.covered]
          have same : step.after.region = next.after.region := by
            rw [found.region, takes.region, region, kind, newline]
          have written := (takes.reads.newline_body newline).2.2
          rw [List.filter_cons, if_pos covers, solid]
          refine .cons ⟨?_, ?_, ?_⟩ (ih behind blank' same rest)
          · rw [kind, newline]
          · rw [found.inside, takes.inside, same]
          · exact .inl (by rw [shown, written])
      | @blanks first body space takes =>
          have skipped : next.isSolid = false := by simp [Step.isSolid, space]
          have same : next.after.region = lexer.region := by rw [takes.region, space]; rfl
          rw [List.filter_cons, skipped]
          rw [Reindent.Draft.piece_space space] at text
          split at text
          · exact ih behind blank' (region.trans same.symm) text
          · rename_i goesOn
            have start : draft.atLineStart = false := by
              simp only [Bool.or_eq_true, not_or] at goesOn
              simpa using goesOn.1
            have middle : (draft.after next).atLineStart = false := by
              simp [Reindent.Draft.after_space space, start, Reindent.Draft.append]
            -- The blanks stay, and no other ones follow them: what is rendered behind them begins
            -- as the source does there.
            have run := (takes.reads.space_run space).1.replace
              (Reindent.Draft.render_replaces behind middle) rfl
            rw [takes.covered] at text
            obtain ⟨reached, rest, kept, solid⟩ := solid_blanks text run
            rw [solid]
            exact ih behind blank' (kept.trans (region.trans same.symm)) rest
      | @visible first body visible takes =>
          have spaced := (Kind.ne_of_isVisible visible).1
          have middle : (draft.after next).atLineStart = false := by
            rw [Reindent.Draft.after_visible visible]
          obtain ⟨less, shown, trimmed, reads, same⟩ := takes.reads.trim spaced
          have reads := reads.replace (Reindent.Draft.render_replaces behind middle)
          rw [Reindent.Draft.piece_visible visible, takes.covered, trimmed, List.append_assoc] at text
          have margin : Lexeme.Run Character.isSpace (draft.opening next.token)
              (first :: (less ++ (draft.after next).render next.after.steps)) := by
            refine ⟨blank.opening next.token, ?_⟩
            simpa [Stops] using Reindent.Draft.isSpace_of_visible visible takes
          obtain ⟨reached, text, kept, solid⟩ := solid_blanks text margin
          obtain ⟨step, more, found, kind, written, rest⟩ := solid_reads text reads
          have covers : next.isSolid = true := by simp [Step.isSolid, spaced, takes.covered]
          have inside : step.after.region = next.after.region := by
            rw [found.region, takes.region, kept, region, kind]
          rw [List.filter_cons, if_pos covers, solid, more, if_neg spaced]
          refine .cons ⟨kind, ?_, ?_⟩ (ih behind blank' inside rest)
          · rw [found.inside, takes.inside, inside]
          · rcases same with same | ⟨line, same⟩
            · exact .inl (written.trans same)
            · exact .inr ⟨by rw [takes.covered, line]; rfl, written.trans same⟩

end Lexer

def Token.isSolid (token : Token) : Bool :=
  token.kind != .space && !token.span.isEmpty

/-- Of a token of `source`, the other one keeps kind, region and text. Only a
comment that a single quote opens may lack the blanks at its end. -/
def Token.Retained (source : String) (token other : Token) : Prop :=
  other.kind = token.kind ∧ other.region = token.region ∧
    (other.text = token.text ∨
      (∃ body, Bytes.slice? source.toList token.span.start token.span.stop =
        some ('\'' :: body)) ∧ other.text = String.ofList (trimEnd token.text.toList))

theorem isSolid_token {source : String} {step : Step} (member : step ∈ steps source) :
    step.token.isSolid = step.isSolid := by
  obtain ⟨passed, reached, behind, rfl⟩ := steps_behind member
  unfold Token.isSolid Step.isSolid
  congr 2
  rw [behind.span, Span.isEmpty, Bytes.size_append]
  cases covered : reached.step.covered with
  | nil => simp
  | cons first body =>
      have positive := Bytes.size_pos (List.cons_ne_nil first body)
      simp only [List.isEmpty_cons, beq_eq_false_iff_ne]
      omega

theorem filter_solid_tokens (source : String) :
    (tokens source).filter (·.isSolid) = ((steps source).filter (·.isSolid)).map (·.token) := by
  rw [tokens, List.filter_map]
  exact congrArg _ (List.filter_congr fun step member => isSolid_token member)

theorem Step.Retained.token {source : String} {step other : Step} (member : step ∈ steps source)
    (retained : step.Retained other) : step.token.Retained source other.token := by
  obtain ⟨kind, region, text⟩ := retained
  refine ⟨kind, region, ?_⟩
  rcases text with same | ⟨line, same⟩
  · exact .inl same
  · obtain ⟨passed, reached, behind, rfl⟩ := steps_behind member
    obtain ⟨body, covered⟩ := List.head?_eq_some_iff.mp line
    exact .inr ⟨⟨body, by rw [behind.slice, covered]⟩, same⟩

theorem reindent_retains {source out : String} (formatted : reindent source = .ok out) :
    List.Forall₂ (Token.Retained source) ((tokens source).filter (·.isSolid))
      ((tokens out).filter (·.isSolid)) := by
  obtain ⟨faultless, text⟩ := Reindent.reindent_eq_ok.mp formatted
  have blank : Reindent.Draft.initial.Blank := by simp [Reindent.Draft.Blank, Reindent.Draft.initial]
  have solid : List.Forall₂ Step.Retained ((steps source).filter (·.isSolid))
      ((steps out).filter (·.isSolid)) :=
    Lexer.retained_render blank faultless rfl text
  have among : ∀ step ∈ (steps source).filter (·.isSolid), step ∈ steps source :=
    fun step member => (List.mem_filter.mp member).1
  rw [filter_solid_tokens, filter_solid_tokens, List.forall₂_map_left_iff,
    List.forall₂_map_right_iff]
  have both := (List.forall₂_and_left _ _).mpr ⟨among, solid⟩
  exact both.imp fun step other found => found.2.token found.1

theorem reindent_retains_comment :
    reindent "PUB\na ' x \n" = .ok "PUB\n  a ' x\n" ∧
      List.Forall₂ (Token.Retained "PUB\na ' x \n")
        ((tokens "PUB\na ' x \n").filter (·.isSolid))
        ((tokens "PUB\n  a ' x\n").filter (·.isSolid)) :=
  have formatted : reindent "PUB\na ' x \n" = .ok "PUB\n  a ' x\n" := by decide +kernel
  ⟨formatted, reindent_retains formatted⟩

end SpinBlocks
