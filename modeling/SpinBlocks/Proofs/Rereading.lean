import SpinBlocks.Proofs.Placing
import SpinBlocks.Proofs.Relexing

namespace SpinBlocks

/-! How a rendered text is read again, with the layout in view.

A second draft keeps its depth in step with the layout of the lexer that reads
for it. So what it writes before a lexeme is known once the line of the lexeme
is placed.
-/

theorem Position.column_advanceAll (position : Position) {characters : List Char}
    (nonempty : characters ≠ [])
    (ends : Lexeme.EndsOutside Character.isNewline characters) :
    (position.advanceAll characters).column ≠ 0 := by
  obtain ⟨front, last, rfl⟩ := List.eq_nil_or_concat characters |>.resolve_left nonempty
  have inline : last ≠ '\n' := by
    have outside := ends last (by simp)
    simpa [Character.isNewline] using outside
  simp [Position.advance, inline]

namespace Reindent.Draft

variable {draft copy : Draft} {lexer other : Lexer}

theorem foldl_marks {first : Char} {layout settled : Layout} {shifts : List Shift}
    (settles : layout.Settles first shifts settled) (consistent : .inconsistent ∉ shifts)
    {marks : List Step} (kinds : marks.map (·.token.kind) = shifts.map Shift.kind)
    (depth : draft.depth = layout.depth) :
    marks.foldl after draft = { draft with depth := settled.depth } := by
  induction settles generalizing marks draft with
  | @ready layout settled ready =>
      have same : settled.depth = layout.depth := by
        unfold Layout.Ready at ready
        split at ready
        · exact Layout.resolve_silent ready
        · rw [ready]
      obtain rfl : marks = [] := by simpa using kinds
      rw [same, ← depth]
      rfl
  | @shift layout after settled shift shifts waits resolved more ih =>
      obtain ⟨mark, rest, rfl, kind, behind⟩ := List.map_eq_cons_iff.mp kinds
      have consistent' : Shift.inconsistent ∉ shifts := fun member => consistent (by simp [member])
      rw [List.foldl_cons]
      cases shift with
      | indent =>
          obtain ⟨nonempty, rfl⟩ := Layout.resolve_deeper resolved
          have moved : draft.after mark = { draft with depth := draft.depth + 1 } := by
            simp [Draft.after, add, kind, Shift.kind]
          rw [moved, ih consistent' behind]
          -- A line can be deeper only than a level that is open, so the depth counts the new one.
          have positive := List.length_pos_iff.mpr nonempty
          simp only [depth, Layout.depth, Layout.settle, List.length_cons]
          omega
      | dedent =>
          obtain ⟨top, level, outer, levels, rfl⟩ := Layout.resolve_shallower resolved
          have moved : draft.after mark = { draft with depth := draft.depth - 1 } := by
            simp [Draft.after, add, kind, Shift.kind]
          rw [moved, ih consistent' behind]
          simp only [depth, Layout.depth, levels, List.length_cons]
          omega
      | inconsistent => exact absurd List.mem_cons_self consistent

theorem render_marks {marks rest : List Step}
    (silent : ∀ mark ∈ marks, mark.token.kind.isMark = true) :
    draft.render (marks ++ rest) = (marks.foldl after draft).render rest := by
  induction marks generalizing draft with
  | nil => rfl
  | cons mark marks ih =>
      rw [List.cons_append, render, piece_mark (silent mark (by simp)), List.nil_append,
        ih fun other member => silent other (by simp [member])]
      rfl

theorem isFault_shift (shift : Shift) : shift.kind.isFault = false ↔ shift ≠ .inconsistent := by
  cases shift <;> decide

theorem isMark_shift {shift : Shift} (consistent : shift ≠ .inconsistent) :
    shift.kind.isMark = true := by
  cases shift with
  | indent => rfl
  | dedent => rfl
  | inconsistent => contradiction

theorem faultless_marks {marks : List Step} {shifts : List Shift}
    (kinds : marks.map (·.token.kind) = shifts.map Shift.kind) :
    Faultless marks ↔ .inconsistent ∉ shifts := by
  have each : Faultless marks ↔ ∀ kind ∈ marks.map (·.token.kind), kind.isFault = false := by
    rw [List.forall_mem_map]
    rfl
  rw [each, kinds, List.forall_mem_map]
  constructor
  · intro sound member
    exact (isFault_shift _).mp (sound .inconsistent member) rfl
  · intro consistent shift member
    exact (isFault_shift shift).mpr fun same => consistent (same ▸ member)

theorem isMark_marks {marks : List Step} {shifts : List Shift}
    (kinds : marks.map (·.token.kind) = shifts.map Shift.kind)
    (consistent : .inconsistent ∉ shifts) : ∀ mark ∈ marks, mark.token.kind.isMark = true := by
  have every : ∀ kind ∈ marks.map (·.token.kind), kind.isMark = true := by
    rw [kinds, List.forall_mem_map]
    intro shift member
    exact isMark_shift fun same => consistent (same ▸ member)
  exact List.forall_mem_map.mp every

/-- A second reading that comes to a lexeme tells of a fault before it, or it
writes the lexeme at the depth at which it found the line. -/
theorem reread_lexeme {first : Char} {body tail : List Char} {kind : Kind} {text : String}
    {shifts : List Shift} {settled : Layout}
    (next : other.reader.rest = first :: (body ++ tail))
    (reads : Lexeme.Reads first body tail kind text)
    (settles : other.layout.Settles first shifts settled) (depth : copy.depth = other.layout.depth) :
    ∃ step, (other.Takes step first body ∧ step.token.kind = kind ∧
        step.after.reader.rest = tail ∧ step.after.layout =
          settled.behind other.region other.position ⟨kind, text, body.length⟩) ∧
      (Faultless other.steps ↔ .inconsistent ∉ shifts ∧ Faultless step.after.steps) ∧
      (.inconsistent ∉ shifts → copy.render other.steps =
        { copy with depth := settled.depth }.render (step :: step.after.steps)) := by
  obtain ⟨marks, step, steps, ⟨kinds, _⟩, takes, same, _, rest, layout⟩ :=
    Lexer.steps_reads next reads settles
  refine ⟨step, ⟨takes, same, rest, layout⟩, ?_, ?_⟩
  · rw [steps, faultless_append, faultless_cons, faultless_marks kinds, same, reads.isFault]
    simp
  · intro consistent
    rw [steps, render_marks (isMark_marks kinds consistent),
      foldl_marks settles consistent kinds depth]

theorem steps_trivia {first : Char} {body tail : List Char} {kind : Kind} {text : String}
    (next : other.reader.rest = first :: (body ++ tail))
    (reads : Lexeme.Reads first body tail kind text) (trivia : kind.isTrivia = true) :
    ∃ step, other.steps = step :: step.after.steps ∧ other.Takes step first body ∧
      step.token.kind = kind ∧ step.after.reader.rest = tail ∧ step.after.layout =
        other.layout.behind other.region other.position ⟨kind, text, body.length⟩ := by
  obtain ⟨shifts, settled, settles⟩ := other.layout.exists_settles first
  have quiet : other.layout.waits first = false := by
    simp [Layout.waits, reads.isSignificant, trivia]
  obtain ⟨rfl, rfl⟩ := settles.of_not_waits quiet
  obtain ⟨marks, step, steps, ⟨kinds, _⟩, takes, same, _, rest, layout⟩ :=
    Lexer.steps_reads next reads settles
  obtain rfl : marks = [] := by simpa using kinds
  exact ⟨step, steps, takes, same, rest, layout⟩

/-- A second reading takes the blanks before a visible token as the blanks that
the line begins with. -/
theorem reread_opening {blanks tail : List Char} (next : other.reader.rest = blanks ++ tail)
    (run : Lexeme.Run Character.isSpace blanks tail)
    (opens : blanks ≠ [] → copy.atLineStart = true ∧ other.position.column = 0)
    (leading : copy.atLineStart = true → copy.leading = []) :
    ∃ reached : Lexer, ∃ second : Draft, (reached.reader.rest = tail ∧
        reached.region = other.region ∧ reached.layout = other.layout.noteMargin blanks) ∧
      (second.depth = copy.depth ∧ second.atLineStart = copy.atLineStart ∧
        (copy.atLineStart = true → second.leading = blanks)) ∧
      (Faultless other.steps ↔ Faultless reached.steps) ∧
      copy.render other.steps = second.render reached.steps := by
  cases blanks with
  | nil => exact ⟨other, copy, ⟨next, rfl, rfl⟩, ⟨rfl, rfl, leading⟩, Iff.rfl, rfl⟩
  | cons first body =>
      obtain ⟨start, column⟩ := opens (List.cons_ne_nil first body)
      obtain ⟨blank, inside⟩ := List.forall_mem_cons.mp run.inside
      obtain ⟨step, steps, takes, kind, rest, layout⟩ :=
        steps_trivia next (.blanks blank ⟨inside, run.stops⟩) rfl
      refine ⟨step.after, { copy with leading := first :: body }, ⟨rest, ?_, ?_⟩,
        ⟨rfl, rfl, fun _ => rfl⟩, ?_, ?_⟩
      · rw [takes.region, kind]
        rfl
      · rw [layout]
        simp [Layout.behind, Layout.noteMargin, column, Nat.add_comm]
      · rw [steps, faultless_cons, kind]
        simp [Kind.isFault]
      · rw [steps, render, piece_space kind, after_space kind, start, takes.covered]
        rfl

theorem render_front {c : Char} (faultless : Faultless lexer.steps)
    (middle : draft.atLineStart = false) (front : c ∈ lexer.reader.rest.head?)
    (solid : Character.isSpace c = false) : c ∈ (draft.render lexer.steps).head? := by
  revert draft
  fun_induction Lexer.steps lexer with
  | case1 lexer next atEnd =>
      intro draft middle
      have ended := lexer.step_transition.atEnd atEnd
      simp [ended] at front
  | case2 lexer next unfinished ih =>
      intro draft middle
      obtain ⟨fault, behind⟩ := faultless_cons.mp faultless
      have sound : lexer.Sound next := lexer.step_transition.sound fault
      rw [render]
      cases sound with
      | mark mark covered reader region =>
          rw [piece_mark mark]
          refine ih behind (reader ▸ front) ?_
          rw [after_mark mark]
          exact middle
      | newline newline takes =>
          rw [piece_newline newline]
          simpa [takes.next] using front
      | @blanks first body space takes =>
          have same : first = c := by simpa [takes.next] using front
          have blank := takes.reads.isSpace_first.mpr space
          rw [same, solid] at blank
          cases blank
      | @visible first body visible takes =>
          obtain ⟨less, trimmed⟩ := trimEnd_covered visible takes
          rw [piece_visible visible, opening, middle, trimmed]
          simpa [takes.next] using front

theorem endsLine_render (faultless : Faultless lexer.steps) (middle : draft.atLineStart = false)
    (solid : Lexeme.Stops Character.isSpace lexer.reader.rest)
    (goesOn : endsLine lexer.reader.rest = false) : endsLine (draft.render lexer.steps) = false := by
  cases front : lexer.reader.rest with
  | nil => simp [front, endsLine] at goesOn
  | cons c rest =>
      have kept := render_front faultless middle (c := c) (by simp [front]) (solid c (by simp [front]))
      rw [endsLine, Option.mem_def.mp kept]
      simpa [front, endsLine] using goesOn

theorem isMark_atEnd (atEnd : lexer.reader.rest = []) :
    ∀ step ∈ lexer.steps, step.token.kind.isMark = true := by
  fun_induction Lexer.steps lexer with
  | case1 lexer next eof =>
      intro step member
      rw [List.mem_singleton.mp member, eof]
      rfl
  | case2 lexer next unfinished ih =>
      have closes : next.token.kind.isMark = true := by
        have stepped : next = _ := Lexer.step_nil atEnd
        rw [stepped]
        cases finished : lexer.layout.finish with
        | mk closed layout =>
            cases closed <;>
              simp [Lexer.endOfInput, finished, Lexer.marker, Lexer.tokenFrom, Token.between,
                Kind.isMark]
      have text := lexer.step_transition.text
      rw [atEnd] at text
      exact List.forall_mem_cons.mpr ⟨closes, ih (List.append_eq_nil_iff.mp text.symm).2⟩

end Reindent.Draft

end SpinBlocks
