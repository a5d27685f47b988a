import SpinBlocks.Lexer

namespace SpinBlocks

/-! All tokens of a text.

Every step short of the end either reads a character or uses up some of the
layout's weight, so the steps come to an end.
-/

namespace Lexer

/-- What is left to do before the end is reached. -/
def weight (lexer : Lexer) : Nat :=
  3 * lexer.reader.rest.length + lexer.layout.weight

theorem apply_reader (lexer : Lexer) (start : Position) (lexeme : Lexeme) :
    (lexer.apply start lexeme).reader = lexer.reader := by
  unfold apply
  split
  · unfold beginLine
    split <;> rfl
  · rfl
  · rfl
  · rfl

theorem apply_weight (lexer : Lexer) (start : Position) (lexeme : Lexeme) :
    (lexer.apply start lexeme).layout.weight ≤ lexer.layout.weight + 2 := by
  unfold apply
  split
  · unfold beginLine
    split
    · simp only [Layout.weight, Layout.beginLine, if_true]
      omega
    · omega
  · simp only [noteBlanks, Layout.noteBlanks_weight]
    omega
  · exact Nat.le_add_right _ 2
  · omega

theorem stepAt_weight (lexer : Lexer) (first : Char) (rest : List Char)
    (next : lexer.reader.rest = first :: rest) :
    (lexer.stepAt first rest).after.weight + 1 ≤ lexer.weight := by
  simp only [stepAt, take, weight, apply_reader, Reader.skip, next]
  have grown := apply_weight
    { lexer with reader := (lexer.reader.skip 1).skip (Lexeme.scan first rest).length }
    lexer.position (Lexeme.scan first rest)
  simp only [Reader.skip, next] at grown
  simp only [List.length_drop, List.length_cons, List.drop_succ_cons, List.drop_zero] at grown ⊢
  omega

theorem resolveLine_weight {lexer after : Lexer} {token : Token}
    (pending : lexer.layout.pending = true)
    (resolved : lexer.resolveLine = (some token, after)) : after.weight < lexer.weight := by
  unfold resolveLine at resolved
  cases layout : lexer.layout.resolve with
  | mk shift? next =>
      cases shift? with
      | none => simp [layout] at resolved
      | some shift =>
          have lighter := Layout.resolve_weight pending layout
          have kept : after = { lexer with layout := next } := by
            cases shift <;> simp [layout] at resolved <;> exact resolved.2.symm
          subst kept
          simp only [weight]
          omega

/-- Settling a line costs the two units that its pending state was worth, and
gives back one at most. -/
theorem resolveLine_settled {lexer after : Lexer}
    (pending : lexer.layout.pending = true)
    (resolved : lexer.resolveLine = (none, after)) :
    after.weight < lexer.weight ∧ after.reader = lexer.reader := by
  unfold resolveLine at resolved
  cases layout : lexer.layout.resolve with
  | mk shift? next =>
      cases shift? with
      | some shift => cases shift <;> simp [layout] at resolved
      | none =>
          obtain ⟨settled, length⟩ := Layout.resolve_settled layout
          simp only [layout, Prod.mk.injEq, true_and] at resolved
          subst resolved
          refine ⟨?_, rfl⟩
          simp only [weight, Layout.weight, settled, pending, if_true, Bool.false_eq_true, if_false]
          omega

theorem endOfInput_weight {lexer : Lexer} (unfinished : lexer.endOfInput.1.kind ≠ .eof) :
    lexer.endOfInput.2.weight < lexer.weight := by
  cases finished : lexer.layout.finish with
  | mk closed next =>
      cases closed with
      | false => simp [endOfInput, finished, marker, tokenFrom, Token.between] at unfinished
      | true =>
          have lighter := Layout.finish_weight finished
          simp only [endOfInput, finished, weight]
          omega

theorem step_weight {lexer : Lexer} (unfinished : lexer.step.token.kind ≠ .eof) :
    lexer.step.after.weight < lexer.weight := by
  unfold step at unfinished ⊢
  cases remaining : lexer.reader.rest with
  | nil =>
      simp only [remaining] at unfinished ⊢
      exact endOfInput_weight unfinished
  | cons first rest =>
      simp only
      cases waits : (lexer.layout.pending && Character.isSignificant first) with
      | false =>
          have := lexer.stepAt_weight first rest remaining
          simp only [Bool.false_eq_true, if_false]
          omega
      | true =>
          have pending := (Bool.and_eq_true_iff.mp waits).1
          simp only [if_true]
          cases resolved : lexer.resolveLine with
          | mk token? after =>
              cases token? with
              | some token => exact resolveLine_weight pending resolved
              | none =>
                  obtain ⟨lighter, reader⟩ := resolveLine_settled pending resolved
                  have := after.stepAt_weight first rest (reader ▸ remaining)
                  simp only
                  omega

/-- The steps from here to the end of the text, the end included. -/
def steps (lexer : Lexer) : List Step :=
  let next := lexer.step
  if _ : next.token.kind = .eof then [next] else next :: next.after.steps
termination_by lexer.weight
decreasing_by exact step_weight ‹_›

theorem steps_ne_nil (lexer : Lexer) : lexer.steps ≠ [] := by
  fun_cases steps <;> simp

/-- The last step reaches the end of the text. -/
theorem getLast_steps (lexer : Lexer) (nonempty : lexer.steps ≠ []) :
    (lexer.steps.getLast nonempty).token.kind = .eof := by
  fun_induction steps lexer with
  | case1 lexer next atEnd => exact atEnd
  | case2 lexer next unfinished ih =>
      rw [List.getLast_cons next.after.steps_ne_nil]
      exact ih _

end Lexer

def steps (source : String) : List Step :=
  (Lexer.ofString source).steps

/-- The tokens of a text. The last one, and only that, is its end. -/
def tokens (source : String) : List Token :=
  (steps source).map (·.token)

end SpinBlocks
