import SpinBlocks.ParseError
import SpinBlocks.TokenStream

namespace SpinBlocks

/-! The tokens that are still to come, with room for one that is put back.

The end of the text comes again and again once all other tokens are used up.
What is put back replaces anything put back before it.
-/

structure Supply where
  returned : Option Token
  upcoming : List Token
  final : Token
  final_eof : final.kind = .eof
deriving Repr, DecidableEq

namespace Supply

def ofString (source : String) : Supply :=
  let lexer := Lexer.ofString source
  { returned := none
    upcoming := lexer.steps.map (·.token)
    final := (lexer.steps.getLast lexer.steps_ne_nil).token
    final_eof := lexer.getLast_steps _ }

def next (supply : Supply) : Token × Supply :=
  match supply.returned, supply.upcoming with
  | some token, _ => (token, { supply with returned := none })
  | none, token :: rest => (token, { supply with upcoming := rest })
  | none, [] => (supply.final, supply)

def putBack (supply : Supply) (token : Token) : Supply :=
  { supply with returned := some token }

/-- How many tokens are left, not counting an end that was put back. -/
def available (supply : Supply) : Nat :=
  supply.upcoming.length +
    match supply.returned with
    | some token => if token.kind = .eof then 0 else 1
    | none => 0

theorem next_available_le (supply : Supply) : supply.next.2.available ≤ supply.available := by
  unfold next
  split <;> simp_all [available]

theorem next_available_lt {supply : Supply} (unfinished : supply.next.1.kind ≠ .eof) :
    supply.next.2.available < supply.available := by
  unfold next at unfinished ⊢
  split
  · simp_all [available]
  · simp_all [available]
  · simp_all [supply.final_eof]

/-- Putting a token back undoes the effect of taking it. -/
theorem putBack_available_le (supply : Supply) :
    (supply.next.2.putBack supply.next.1).available ≤ supply.available := by
  unfold next
  split
  · simp_all [available, putBack]
  · simp_all [available, putBack]
    split <;> omega
  · simp_all [available, putBack, supply.final_eof]

def nextSignificant (supply : Supply) : Token × Supply :=
  if _ : supply.next.1.kind.isTrivia then supply.next.2.nextSignificant else supply.next
termination_by supply.available
decreasing_by
  refine next_available_lt ?_
  intro atEnd
  simp_all [Kind.isTrivia]

theorem nextSignificant_available_le (supply : Supply) :
    supply.nextSignificant.2.available ≤ supply.available := by
  fun_induction nextSignificant supply with
  | case1 supply trivia ih => exact Nat.le_trans ih supply.next_available_le
  | case2 supply significant => exact supply.next_available_le

theorem nextSignificant_available_lt {supply : Supply}
    (unfinished : supply.nextSignificant.1.kind ≠ .eof) :
    supply.nextSignificant.2.available < supply.available := by
  fun_induction nextSignificant supply with
  | case1 supply trivia ih => exact Nat.lt_of_lt_of_le (ih unfinished) supply.next_available_le
  | case2 supply significant => exact next_available_lt unfinished

theorem putBack_significant_le (supply : Supply) :
    (supply.nextSignificant.2.putBack supply.nextSignificant.1).available ≤ supply.available := by
  fun_induction nextSignificant supply with
  | case1 supply trivia ih => exact Nat.le_trans ih supply.next_available_le
  | case2 supply significant => exact supply.putBack_available_le

/-- The next token that is not trivia, unless it is a fault. -/
def nextChecked (supply : Supply) : Except ParseError Token × Supply :=
  (supply.nextSignificant.1.checked, supply.nextSignificant.2)

/-- The next token that is not trivia, which has to be of one kind. -/
def expect (supply : Supply) (kind : Kind) (code : Code) (demand : String) :
    Except ParseError Token × Supply :=
  match supply.nextChecked with
  | (.error error, after) => (.error error, after)
  | (.ok token, after) =>
      if token.kind = kind then (.ok token, after) else (.error ⟨.expected code demand, token⟩, after)

end Supply

end SpinBlocks
