import SpinBlocks.Proofs.Tiling
import SpinBlocks.Reindent

namespace SpinBlocks.Reindent

/-! What reindenting writes, told from the front.

A draft trims what it has written whenever a line ends. Looking ahead instead, a
step can be told at once what will be left of it: its piece of the text. The
finished text is all the pieces, one after the other.
-/

open Lexeme (Stops Solid trimEnd isOnLine trimEnd_append_blanks trimEnd_append_cons)

def endsLine (rest : List Char) : Bool :=
  rest.head?.all Character.isNewline

theorem endsLine_iff {rest : List Char} : endsLine rest = true ↔ Stops isOnLine rest := by
  cases rest <;> simp [endsLine, Stops, isOnLine]

namespace Draft

/-- The blanks that are written before a visible token. -/
def opening (draft : Draft) (token : Token) : List Char :=
  if draft.atLineStart then draft.margin token else []

/-- What is left of a step in the finished text. -/
def piece (draft : Draft) (step : Step) : List Char :=
  match step.token.kind with
  | .eof | .indent | .dedent => []
  | .newline => ['\n']
  | .space =>
      if draft.atLineStart || endsLine step.after.reader.rest then [] else step.covered
  | _ => draft.opening step.token ++ trimEnd step.covered

def after (draft : Draft) (step : Step) : Draft :=
  draft.add step.token step.covered

def render (draft : Draft) : List Step → List Char
  | [] => []
  | step :: rest => draft.piece step ++ (draft.after step).render rest

theorem addAll_eq_ok {draft final : Draft} {steps : List Step} :
    draft.addAll steps = .ok final ↔
      Faultless steps ∧ steps.foldl after draft = final := by
  induction steps generalizing draft with
  | nil => simp [addAll, Faultless]
  | cons step rest ih =>
      unfold addAll
      cases fault : step.token.fault? with
      | none =>
          have sound := Token.fault?_eq_none.mp fault
          simp only [ih, List.foldl_cons, faultless_cons, sound, true_and]
          rfl
      | some error =>
          have faulty : ¬ step.token.kind.isFault = false := by
            intro sound
            rw [Token.fault?_eq_none.mpr sound] at fault
            cases fault
          simp [faultless_cons, faulty]

variable {draft : Draft} {step : Step}

theorem piece_mark (mark : step.token.kind.isMark = true) : draft.piece step = [] := by
  unfold piece
  cases kind : step.token.kind <;> simp_all [Kind.isMark]

theorem piece_newline (newline : step.token.kind = .newline) : draft.piece step = ['\n'] := by
  simp [piece, newline]

theorem piece_space (space : step.token.kind = .space) :
    draft.piece step =
      if draft.atLineStart || endsLine step.after.reader.rest then [] else step.covered := by
  simp [piece, space]

theorem piece_visible (visible : step.token.kind.isVisible = true) :
    draft.piece step = draft.opening step.token ++ trimEnd step.covered := by
  unfold piece
  cases kind : step.token.kind <;> simp_all [Kind.isVisible, Kind.isMark]

theorem after_mark (mark : step.token.kind.isMark = true) :
    draft.after step = { draft with depth := (draft.after step).depth } := by
  unfold after add
  cases kind : step.token.kind <;> simp_all [Kind.isMark]

theorem after_newline (newline : step.token.kind = .newline) :
    draft.after step = draft.endLine := by
  simp [after, add, newline]

theorem after_space (space : step.token.kind = .space) :
    draft.after step =
      if draft.atLineStart then { draft with leading := step.covered }
      else draft.append step.covered := by
  by_cases start : draft.atLineStart = true
  · simp [after, add, space, start]
  · simp [after, add, space, write, start]

theorem after_visible (visible : step.token.kind.isVisible = true) :
    draft.after step =
      { draft.append (draft.opening step.token ++ step.covered) with atLineStart := false } := by
  have written : draft.after step = draft.write step.token step.covered := by
    unfold after add
    cases kind : step.token.kind <;> simp_all [Kind.isVisible, Kind.isMark]
  rw [written, write]
  by_cases start : draft.atLineStart = true
  · simp [opening, start, append]
  · have middle : draft.atLineStart = false := by simpa using start
    simp [opening, append, middle]

/-- What is left of the text so far, given what comes behind it. -/
def kept (draft : Draft) (rest : List Char) : List Char :=
  if endsLine rest then trimEnd draft.written.reverse else draft.written.reverse

/-- Where blanks may be dropped, none have been written yet. -/
def Follows (draft : Draft) (rest : List Char) : Prop :=
  draft.atLineStart = true ∨ (∃ c ∈ rest.head?, Character.isSpace c = true) →
    Solid draft.written.reverse

theorem kept_middle {rest : List Char} (goesOn : endsLine rest = false) :
    draft.kept rest = draft.written.reverse := by
  rw [kept, goesOn]
  rfl

theorem kept_solid {rest : List Char} (solid : Solid draft.written.reverse) :
    draft.kept rest = draft.written.reverse := by
  rw [kept, solid.trimEnd]
  split <;> rfl

/-- Blanks at the end of a visible lexeme are at the end of its line too. -/
theorem solid_or_endsLine {lexer : Lexer} {first : Char} {body : List Char}
    (visible : step.token.kind.isVisible = true) (takes : lexer.Takes step first body) :
    Solid step.covered ∨ endsLine step.after.reader.rest = true := by
  by_cases line : first = '\''
  · exact .inr (endsLine_iff.mpr (takes.reads.line_tail line))
  · rw [takes.covered]
    exact .inl (takes.reads.solid (Kind.ne_of_isVisible visible).1 line)

theorem isSpace_of_visible {lexer : Lexer} {first : Char} {body : List Char}
    (visible : step.token.kind.isVisible = true) (takes : lexer.Takes step first body) :
    Character.isSpace first = false := by
  simpa using mt takes.reads.isSpace_first.mp (Kind.ne_of_isVisible visible).1

theorem kept_after {lexer : Lexer} (sound : lexer.Sound step)
    (follows : draft.Follows lexer.reader.rest) :
    (draft.after step).kept step.after.reader.rest =
        draft.kept lexer.reader.rest ++ draft.piece step ∧
      (draft.after step).Follows step.after.reader.rest := by
  cases sound with
  | mark mark covered reader region =>
      rw [piece_mark mark, reader, after_mark mark, List.append_nil]
      exact ⟨rfl, follows⟩
  | newline newline takes =>
      have ended : (draft.after step).written.reverse = draft.kept lexer.reader.rest ++ ['\n'] := by
        rw [after_newline newline, takes.next]
        simp [kept, endsLine, Character.isNewline, endLine, trim, append, trimEnd,
          List.rdropWhile_reverse]
      have solid : Solid (draft.after step).written.reverse := by
        rw [ended]
        exact .append_singleton _ (by decide)
      rw [piece_newline newline, kept_solid solid]
      exact ⟨ended, fun _ => solid⟩
  | @blanks first body space takes =>
      -- Blanks within a line are written at once, and dropped again where the line ends.
      obtain ⟨run, _⟩ := takes.reads.space_run space
      have blank := run.inside first (by simp)
      have solid : Solid draft.written.reverse := follows (.inr ⟨first, by simp [takes.next], blank⟩)
      rw [piece_space space, after_space space, kept_solid solid]
      by_cases start : draft.atLineStart = true
      · simp only [start, if_true, Bool.true_or, List.append_nil]
        exact ⟨kept_solid solid, fun _ => solid⟩
      · have middle : draft.atLineStart = false := by simpa using start
        simp only [middle, Bool.false_eq_true, if_false, Bool.false_or]
        constructor
        · rw [kept, append, List.reverse_append, List.reverse_reverse]
          split
          · rw [takes.covered, trimEnd_append_blanks _ run.inside, solid.trimEnd, List.append_nil]
          · rfl
        · rintro (started | ⟨c, front, again⟩)
          · simp [append, middle] at started
          · rw [run.stops c front] at again
            cases again
  | @visible first body visible takes =>
      have solid := isSpace_of_visible visible takes
      have middle : endsLine lexer.reader.rest = false := by
        have inline : first ≠ '\n' :=
          mt takes.reads.newline_first.mpr (Kind.ne_of_isVisible visible).2
        simpa [takes.next, endsLine, Character.isNewline] using inline
      rw [piece_visible visible, kept_middle middle, after_visible visible]
      generalize draft.opening step.token = margin
      have written : ((draft.append (margin ++ step.covered)).written).reverse =
          draft.written.reverse ++ (margin ++ step.covered) := by
        simp [append]
      rw [takes.covered] at written ⊢
      constructor
      · rw [kept]
        simp only [written]
        split
        · rw [← List.append_assoc, trimEnd_append_cons _ solid, List.append_assoc]
        · rename_i goesOn
          -- The line goes on, so the lexeme has no blanks at its end that could be dropped.
          rcases solid_or_endsLine visible takes with ending | ending
          · rw [takes.covered] at ending
            rw [ending.trimEnd]
          · contradiction
      · rintro (started | ⟨c, front, blank⟩)
        · cases started
        · rcases solid_or_endsLine visible takes with ending | ending
          · simp only [written]
            intro last same
            refine ending last ?_
            rw [takes.covered]
            simpa [List.getLast?_append] using same
          · have newline : c = '\n' := by
              simpa [isOnLine, Character.isNewline] using endsLine_iff.mp ending c front
            subst newline
            cases blank

theorem kept_foldl {lexer : Lexer} (follows : draft.Follows lexer.reader.rest)
    (faultless : Faultless lexer.steps) :
    trimEnd (lexer.steps.foldl after draft).written.reverse =
      draft.kept lexer.reader.rest ++ draft.render lexer.steps := by
  revert draft
  fun_induction Lexer.steps lexer with
  | case1 lexer next atEnd =>
      intro draft follows
      have sound := lexer.step_transition.sound (faultless next (by simp))
      have ended := lexer.step_transition.atEnd atEnd
      have text := lexer.step_transition.text
      rw [ended] at text
      obtain ⟨same, _⟩ := kept_after sound follows
      rw [(List.append_eq_nil_iff.mp text.symm).2] at same
      rw [render, render, List.append_nil, ← same]
      rfl
  | case2 lexer next unfinished ih =>
      intro draft follows
      obtain ⟨fault, behind⟩ := faultless_cons.mp faultless
      obtain ⟨same, follows⟩ := kept_after (lexer.step_transition.sound fault) follows
      have rest := ih behind follows
      rw [List.foldl_cons, rest, same, List.append_assoc]
      rfl

end Draft

/-- Reindenting fails on a fault only, and otherwise gives all the pieces. -/
theorem reindent_eq_ok {source out : String} :
    reindent source = .ok out ↔
      Faultless (steps source) ∧
        out.toList = Draft.initial.render (steps source) := by
  have pieces (faultless : Faultless (steps source)) :
      ((steps source).foldl Draft.after Draft.initial).text.toList =
        Draft.initial.render (steps source) := by
    have follows : Draft.initial.Follows (Lexer.ofString source).reader.rest := by
      intro _
      exact .of_forall (by simp [Draft.initial])
    have whole := Draft.kept_foldl follows faultless
    have nothing : Draft.initial.kept (Lexer.ofString source).reader.rest = [] := by
      simp [Draft.kept, Draft.initial, trimEnd]
    rw [nothing, List.nil_append] at whole
    simpa [steps, Draft.text, Draft.trim, trimEnd, List.rdropWhile_reverse] using whole
  constructor
  · intro formatted
    cases added : Draft.initial.addAll (steps source) with
    | error error => simp [reindent, added, Except.map] at formatted
    | ok final =>
        obtain ⟨faultless, rfl⟩ := Draft.addAll_eq_ok.mp added
        simp only [reindent, added, Except.map, Except.ok.injEq] at formatted
        subst formatted
        exact ⟨faultless, pieces faultless⟩
  · rintro ⟨faultless, same⟩
    rw [reindent, Draft.addAll_eq_ok.mpr ⟨faultless, rfl⟩]
    refine congrArg Except.ok (String.toList_inj.mp ?_)
    rw [pieces faultless, same]

end SpinBlocks.Reindent
