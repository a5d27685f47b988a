import SpinBlocks.Proofs.Placing
import SpinBlocks.Proofs.Tiling

namespace SpinBlocks

/-! Every run comes to its end, and within an allowance.

A character is worth one step. A line feed is worth two more, because the line
behind it may open a level, and that level has to be closed some day. Each step
short of the end spends some of what is left.
-/

namespace Layout

/-- The marks that can still be given without another line feed. -/
def marksDue (layout : Layout) : Nat :=
  (if layout.pending then 2 else 0) + layout.depth

variable {layout after : Layout}

theorem resolve_marksDue {shift : Shift} (pending : layout.pending = true)
    (resolved : layout.resolve = (some shift, after)) : after.marksDue < layout.marksDue := by
  cases Resolution.of_resolve resolved with
  | drain starts levels =>
      simp only [marksDue, depth, levels, List.length_cons]
      omega
  | deepen goesOn levels wider =>
      simp only [marksDue, depth, settle, pending, levels, List.length_cons, if_true,
        Bool.false_eq_true, if_false]
      omega
  | leave goesOn levels narrower fits =>
      simp only [marksDue, depth, levels, List.length_cons]
      omega
  | misfit goesOn levels narrower above between =>
      simp only [marksDue, depth, settle, pending, if_true, Bool.false_eq_true, if_false]
      omega

theorem ready_marksDue {first : Char} (ready : layout.Ready first after) :
    after.marksDue ≤ layout.marksDue := by
  unfold Ready at ready
  split at ready
  · have depth := resolve_silent ready
    have settled := (resolve_settled ready).1
    simp only [marksDue, depth, settled, Bool.false_eq_true, if_false]
    omega
  · rw [ready]

theorem behind_marksDue (layout : Layout) (region : Region) (start : Position) (lexeme : Lexeme) :
    (layout.behind region start lexeme).marksDue ≤
      layout.marksDue + if lexeme.kind = .newline then 2 else 0 := by
  have depth : (layout.behind region start lexeme).depth = layout.depth := by
    rw [Layout.depth, Layout.depth, levels_behind]
  unfold behind at depth ⊢
  cases kind : lexeme.kind with
  | newline =>
      have worth (pending : Bool) : (if pending then 2 else 0) ≤ 2 := by cases pending <;> decide
      simp only [kind] at depth
      simp only [marksDue, depth, if_true]
      have := worth (if region = .methods then layout.beginLine else layout).pending
      omega
  | space =>
      simp only [noteBlanks]
      split <;> exact Nat.le_refl _
  | keyword word => cases word <;> exact Nat.le_refl _
  | _ => exact Nat.le_refl _

theorem finish_marksDue (finished : layout.finish = (true, after)) :
    after.marksDue < layout.marksDue := by
  rcases layout.finish_cases with ⟨top, level, outer, levels, found⟩ | ⟨_, found⟩
  · rw [found] at finished
    obtain ⟨_, rfl⟩ := Prod.mk.inj finished
    simp only [marksDue, depth, settle, levels, List.length_cons, Bool.false_eq_true, if_false]
    omega
  · rw [found] at finished
    cases finished

end Layout

theorem Lexeme.scan_newline {first : Char} {rest : List Char}
    (newline : (scan first rest).kind = .newline) : first = '\n' := by
  have sound : (scan first rest).kind.isFault = false := by rw [newline]; rfl
  obtain ⟨_, _, _, _, reads⟩ := scan_found sound
  exact (reads.newline_body newline).1

namespace Lexer

/-- The most steps that a run may take before its last one. -/
def allowance (lexer : Lexer) : Nat :=
  lexer.reader.rest.length + 2 * lexer.reader.rest.count '\n' + lexer.layout.marksDue

variable {lexer : Lexer} {step : Step}

theorem stepAt_allowance {first : Char} {rest : List Char}
    (next : lexer.reader.rest = first :: rest) :
    (lexer.stepAt first rest).after.allowance < lexer.allowance := by
  rw [stepAt_eq]
  generalize found : Lexeme.scan first rest = lexeme
  have due := lexer.layout.behind_marksDue lexer.region lexer.position lexeme
  have parts := List.take_append_drop lexeme.length rest
  have length := congrArg List.length parts
  have count := congrArg (List.count '\n') parts
  rw [List.length_append] at length
  rw [List.count_append] at count
  simp only [allowance, next, Reader.skip, List.drop_succ_cons, List.length_cons]
  -- What the line behind a line feed may cost was set aside for that line feed.
  by_cases newline : lexeme.kind = .newline
  · have feed : first = '\n' := Lexeme.scan_newline (found ▸ newline)
    rw [if_pos newline] at due
    rw [feed, List.count_cons_self]
    omega
  · have less : rest.count '\n' ≤ (first :: rest).count '\n' := List.count_le_count_cons
    rw [if_neg newline] at due
    omega

theorem Transition.allowance (transition : lexer.Transition step)
    (unfinished : step.token.kind ≠ .eof) : step.after.allowance < lexer.allowance := by
  cases transition with
  | close atEnd =>
      cases finished : lexer.layout.finish with
      | mk closed layout =>
          cases closed with
          | false => simp [endOfInput, finished, marker, tokenFrom, Token.between] at unfinished
          | true =>
              have due := Layout.finish_marksDue finished
              simp only [Lexer.allowance, endOfInput, finished]
              omega
  | shift next waits resolved =>
      have due := Layout.resolve_marksDue (Bool.and_eq_true_iff.mp waits).1 resolved
      simp only [Lexer.allowance]
      omega
  | @read first rest layout next ready =>
      have due := Layout.ready_marksDue ready
      have spent := @stepAt_allowance { lexer with layout } first rest next
      simp only [Lexer.allowance] at spent ⊢
      omega

theorem length_steps_le (lexer : Lexer) : lexer.steps.length ≤ lexer.allowance + 1 := by
  fun_induction steps lexer with
  | case1 lexer next atEnd =>
      rw [List.length_singleton]
      omega
  | case2 lexer next unfinished ih =>
      have spent : next.after.allowance < lexer.allowance :=
        lexer.step_transition.allowance unfinished
      rw [List.length_cons]
      omega

theorem exists_end (lexer : Lexer) :
    ∃ front last, lexer.Reaches front last ∧ last.step.token.kind = .eof := by
  obtain ⟨front, final, parts, atEnd, _⟩ := lexer.steps_end
  obtain ⟨last, reaches, next⟩ := steps_reaches parts
  have first := last.head?_steps
  rw [next (List.cons_ne_nil final []), List.head?_cons] at first
  exact ⟨front, last, reaches, Option.some.inj first ▸ atEnd⟩

theorem Transition.consumes (transition : lexer.Transition step)
    (covers : step.token.span.isEmpty = false) :
    step.after.reader.rest.length < lexer.reader.rest.length := by
  have nonempty : step.covered ≠ [] := by
    intro silent
    rw [transition.span, transition.position, silent] at covers
    simp [Span.isEmpty] at covers
  have positive := List.length_pos_iff.mpr nonempty
  rw [transition.text, List.length_append]
  omega

theorem step_eof (atEnd : lexer.step.token.kind = .eof) :
    lexer.step = ⟨lexer.marker .eof, [], { lexer with layout := lexer.layout.settle [] }⟩ := by
  have stepped := step_nil (lexer.step_transition.atEnd atEnd)
  rw [stepped] at atEnd ⊢
  rcases lexer.layout.finish_cases with ⟨_, _, _, _, finished⟩ | ⟨_, finished⟩
  · simp [endOfInput, finished, marker, tokenFrom, Token.between] at atEnd
  · simp only [endOfInput, finished, Bool.false_eq_true, if_false]
    rfl

/-- Behind its end a lexer stays as it is. -/
theorem step_behind_eof (atEnd : lexer.step.token.kind = .eof) :
    lexer.step.after.step = ⟨lexer.step.token, [], lexer.step.after⟩ := by
  have ended := lexer.step_transition.atEnd atEnd
  rw [step_eof atEnd]
  exact step_nil ended

theorem Reaches.eq_of_fixed {front : List Step} {reached : Lexer}
    (reaches : lexer.Reaches front reached) (fixed : lexer.step.after = lexer) :
    reached = lexer ∧ ∀ step ∈ front, step = lexer.step := by
  induction reaches with
  | here lexer => exact ⟨rfl, by simp⟩
  | @step lexer reached front more ih =>
      rw [fixed] at ih
      obtain ⟨same, others⟩ := ih fixed
      exact ⟨same, List.forall_mem_cons.mpr ⟨rfl, others⟩⟩

/-- The lexer is through with its text, and nothing but the end is to come. -/
structure Ended (lexer : Lexer) (last : Token) (after : Lexer) : Prop where
  position : after.position = lexer.position
  region : after.region = lexer.region
  levels : after.layout.levels = []
  again : ∀ front later, after.Reaches front later →
    later = after ∧ ∀ step ∈ front, step.token = last

theorem ended_of_eof (atEnd : lexer.step.token.kind = .eof) :
    lexer.Ended lexer.step.token lexer.step.after where
  position := by rw [step_eof atEnd]; rfl
  region := by rw [step_eof atEnd]
  levels := by rw [step_eof atEnd]; rfl
  again := by
    intro front later reaches
    have behind := step_behind_eof atEnd
    obtain ⟨same, others⟩ := reaches.eq_of_fixed (by rw [behind])
    refine ⟨same, fun step member => ?_⟩
    rw [others step member, behind]

end Lexer

/-- From wherever a run has come, it comes to its end, and is at its end for good.
On the way a token that covers anything takes a character at least. A whole text
has a token for each character at most, and two for each line feed besides. -/
theorem tokens_come_to_end (source : String) :
    (∀ front lexer, (Lexer.ofString source).Reaches front lexer →
      (∃ more last, lexer.Reaches more last ∧ last.step.token.kind = .eof) ∧
      (lexer.step.token.kind ≠ .eof → lexer.step.token.span.isEmpty = false →
        lexer.step.after.reader.rest.length < lexer.reader.rest.length) ∧
      (lexer.step.token.kind = .eof → lexer.Ended lexer.step.token lexer.step.after)) ∧
    (tokens source).length ≤ source.length + 2 * source.toList.count '\n' + 1 := by
  refine ⟨fun front lexer _ => ⟨lexer.exists_end, fun _ => lexer.step_transition.consumes,
    Lexer.ended_of_eof⟩, ?_⟩
  have bound := (Lexer.ofString source).length_steps_le
  rw [tokens, List.length_map, ← String.length_toList]
  exact bound

end SpinBlocks
