import SpinBlocks.Proofs.Rereading

namespace SpinBlocks

/-! Lines as a reader sees them.

A line is what stands between two line feeds. The marks of indentation that a
lexer gives on it come right before the first lexeme that is more than blanks or
a comment, and all of them are alike but for their kind.
-/

namespace Token

/-- The token covers no more than blanks. -/
def isBlank (token : Token) : Bool :=
  token.kind == .space || token.span.isEmpty

/-- The token covers something that is neither blank nor comment. -/
def isCode (token : Token) : Bool :=
  !token.kind.isTrivia && !token.span.isEmpty

end Token

def restOfLine (tokens : List Token) : List Token :=
  tokens.takeWhile (·.kind != .newline)

/-- The lines behind the line feeds of methods. -/
def methodLines : List Token → List (List Token)
  | [] => []
  | token :: rest =>
      if token.kind = .newline ∧ token.region = .methods then restOfLine rest :: methodLines rest
      else methodLines rest

/-- No comment stands before the code of the line, and a block keyword that opens
the line stands at its very beginning. -/
structure Clear (line : List Token) : Prop where
  comments : (∃ token ∈ line, token.isCode = true) →
    ∀ token ∈ line.takeWhile (!·.isCode), token.kind ≠ .comment ∧ token.kind ≠ .docComment
  keyword : ∀ token ∈ line.find? (!·.isBlank), token.kind.isBlockKeyword = true → token.column = 0

instance (line : List Token) : Decidable (Clear line) :=
  decidable_of_iff (_ ∧ _) ⟨fun both => ⟨both.1, both.2⟩, fun clear => ⟨clear.1, clear.2⟩⟩

namespace Clear

variable {token : Token} {line marks : List Token}

theorem tail (clear : Clear (token :: line)) (blank : token.isBlank = true)
    (code : token.isCode = false) : Clear line where
  comments := by
    rintro ⟨found, member, counts⟩ other among
    refine clear.comments ⟨found, by simp [member], counts⟩ other ?_
    rw [List.takeWhile_cons, code]
    exact List.mem_cons_of_mem token among
  keyword := by
    intro found front
    refine clear.keyword found ?_
    rw [List.find?_cons, blank]
    exact front

theorem behind (clear : Clear (marks ++ line))
    (silent : ∀ token ∈ marks, token.isBlank = true ∧ token.isCode = false) : Clear line := by
  induction marks with
  | nil => exact clear
  | cons token marks ih =>
      obtain ⟨⟨blank, code⟩, others⟩ := List.forall_mem_cons.mp silent
      exact ih (clear.tail blank code) others

/-- Behind a comment that opens the line there is no code. -/
theorem comment (clear : Clear (token :: line))
    (comment : token.kind = .comment ∨ token.kind = .docComment) :
    ∀ other ∈ line, other.isCode = false := by
  intro other member
  by_contra code
  have here : token.isCode = false := by
    rcases comment with kind | kind <;> simp [Token.isCode, kind, Kind.isTrivia]
  have first : token ∈ (token :: line).takeWhile (!·.isCode) := by
    rw [List.takeWhile_cons, here]
    simp
  have none := clear.comments ⟨other, by simp [member], by simpa using code⟩ token first
  rcases comment with kind | kind
  · exact none.1 kind
  · exact none.2 kind

theorem column (clear : Clear (token :: line)) (shown : token.isBlank = false)
    (opens : token.kind.isBlockKeyword = true) : token.column = 0 :=
  clear.keyword token (by rw [List.find?_cons, shown]; rfl) opens

end Clear

theorem restOfLine_append {marks rest : List Token}
    (inline : ∀ token ∈ marks, token.kind ≠ .newline) :
    restOfLine (marks ++ rest) = marks ++ restOfLine rest :=
  List.takeWhile_append_of_pos fun token member => by simpa using inline token member

theorem restOfLine_cons {token : Token} (rest : List Token) (inline : token.kind ≠ .newline) :
    restOfLine (token :: rest) = token :: restOfLine rest :=
  List.takeWhile_cons_of_pos (by simpa using inline)

theorem methodLines_append (front back : List Token) :
    ∀ line ∈ methodLines back, line ∈ methodLines (front ++ back) := by
  induction front with
  | nil => exact fun line member => member
  | cons token front ih =>
      intro line member
      rw [List.cons_append, methodLines]
      split
      · exact List.mem_cons_of_mem _ (ih line member)
      · exact ih line member

theorem Position.line_advanceAll (position : Position) (characters : List Char) :
    (position.advanceAll characters).line = position.line + characters.count '\n' := by
  induction characters generalizing position with
  | nil => rfl
  | cons c rest ih =>
      rw [advanceAll_cons, ih, List.count_cons]
      by_cases newline : c = '\n'
      · simp only [advance, newline, if_true, BEq.rfl]
        omega
      · simp [advance, newline]

namespace Step

/-- The step tells of the layout only, on a line of a region. -/
structure Marks (step : Step) (region : Region) (line : Nat) : Prop where
  region : step.token.region = region
  line : step.token.line = line
  text : step.token.text = ""

/-- The tokens are the same, and stand on lines of one number. -/
def Matches (step other : Step) : Prop :=
  step.Retained other ∧ other.token.line = step.token.line

theorem matches_marks {region : Region} {line : Nat} {marks others : List Step}
    (kinds : marks.map (·.token.kind) = others.map (·.token.kind))
    (stand : ∀ mark ∈ marks, mark.Marks region line)
    (follow : ∀ mark ∈ others, mark.Marks region line) : List.Forall₂ Matches marks others := by
  induction marks generalizing others with
  | nil =>
      obtain rfl : others = [] := by simpa using kinds.symm
      exact .nil
  | cons mark marks ih =>
      obtain ⟨other, rest, rfl, kind, same⟩ := List.map_eq_cons_iff.mp kinds.symm
      obtain ⟨here, others⟩ := List.forall_mem_cons.mp stand
      obtain ⟨there, more⟩ := List.forall_mem_cons.mp follow
      refine .cons ⟨⟨kind, ?_, .inl ?_⟩, ?_⟩ (ih same.symm others more)
      · rw [here.region, there.region]
      · rw [here.text, there.text]
      · rw [here.line, there.line]

end Step

namespace Lexer

variable {lexer : Lexer}

theorem Transition.marks_here {step : Step} (transition : lexer.Transition step)
    (silent : step.covered = []) :
    step.Marks lexer.region lexer.position.line ∧ step.after.region = lexer.region ∧
      step.after.position = lexer.position := by
  cases transition with
  | close atEnd => exact ⟨⟨rfl, rfl, rfl⟩, rfl, rfl⟩
  | shift next waits resolved => exact ⟨⟨rfl, rfl, rfl⟩, rfl, rfl⟩
  | read next ready => simp [stepAt_eq] at silent

theorem marks_front {marks rest : List Step} (parts : lexer.steps = marks ++ rest)
    (silent : ∀ mark ∈ marks, mark.covered = []) :
    ∀ mark ∈ marks, mark.Marks lexer.region lexer.position.line := by
  induction marks generalizing lexer with
  | nil => simp
  | cons mark marks ih =>
      obtain ⟨quiet, others⟩ := List.forall_mem_cons.mp silent
      rw [steps_eq, List.cons_append] at parts
      obtain ⟨rfl, rest⟩ := List.cons.inj parts
      obtain ⟨stands, region, place⟩ := lexer.step_transition.marks_here quiet
      refine List.forall_mem_cons.mpr ⟨stands, ?_⟩
      split at rest
      · obtain ⟨rfl, _⟩ := List.append_eq_nil_iff.mp rest.symm
        simp
      · rw [← region, ← place]
        exact ih rest others

/-- At the end of the text the open levels are closed one by one. -/
theorem kinds_atEnd (atEnd : lexer.reader.rest = []) :
    lexer.steps.map (·.token.kind) = List.replicate lexer.layout.depth .dedent ++ [.eof] := by
  induction depth : lexer.layout.depth generalizing lexer with
  | zero =>
      rcases lexer.layout.finish_cases with ⟨_, _, _, levels, _⟩ | ⟨_, finished⟩
      · simp [Layout.depth, levels] at depth
      · have stepped := step_nil atEnd
        have kind : lexer.step.token.kind = .eof := by
          simp [stepped, endOfInput, finished, marker, tokenFrom, Token.between]
        rw [steps_eq, if_pos kind]
        simp [kind]
  | succ count ih =>
      rcases lexer.layout.finish_cases with ⟨top, level, outer, levels, finished⟩ | ⟨shallow, _⟩
      · have stepped := step_nil atEnd
        simp only [endOfInput, finished] at stepped
        have kind : lexer.step.token.kind = .dedent := by
          simp [stepped, marker, tokenFrom, Token.between]
        have behind : lexer.step.after.reader.rest = [] := by rw [stepped]; exact atEnd
        have fewer : lexer.step.after.layout.depth = count := by
          simp only [Layout.depth, levels, List.length_cons] at depth
          simp only [stepped, Layout.depth, Layout.settle, List.length_cons]
          omega
        rw [steps_eq, kind, if_neg Kind.noConfusion, List.map_cons, ih behind fewer, kind]
        rfl
      · simp only [Layout.depth] at depth
        omega

/-- A run tells of shifts, and then takes the lexeme `first :: body`. -/
structure Leads (lexer : Lexer) (first : Char) (body : List Char) (shifts : List Shift)
    (settled : Layout) (marks : List Step) (step : Step) : Prop where
  settles : lexer.layout.Settles first shifts settled
  steps : lexer.steps = marks ++ step :: step.after.steps
  kinds : marks.map (·.token.kind) = shifts.map Shift.kind
  silent : ∀ mark ∈ marks, mark.covered = []
  takes : lexer.Takes step first body
  layout : step.after.layout =
    settled.behind lexer.region lexer.position ⟨step.token.kind, step.token.text, body.length⟩

theorem leads_of_reads {first : Char} {body tail : List Char} {kind : Kind} {text : String}
    {shifts : List Shift} {settled : Layout} (next : lexer.reader.rest = first :: (body ++ tail))
    (reads : Lexeme.Reads first body tail kind text)
    (settles : lexer.layout.Settles first shifts settled) :
    ∃ marks step, lexer.Leads first body shifts settled marks step ∧ step.token.kind = kind ∧
      step.token.text = text ∧ step.after.reader.rest = tail := by
  obtain ⟨marks, step, steps, ⟨kinds, silent⟩, takes, same, shown, rest, layout⟩ :=
    steps_reads next reads settles
  refine ⟨marks, step, ⟨settles, steps, kinds, silent, takes, ?_⟩, same, shown, rest⟩
  rw [layout, same, shown]

/-- A run without faults takes a lexeme from any text that is left. -/
theorem exists_leads {first : Char} {rest : List Char} (next : lexer.reader.rest = first :: rest)
    (faultless : Faultless lexer.steps) :
    ∃ body shifts settled marks step, lexer.Leads first body shifts settled marks step ∧
      .inconsistent ∉ shifts ∧ Faultless step.after.steps := by
  obtain ⟨shifts, settled, settles⟩ := lexer.layout.exists_settles first
  obtain ⟨marks, steps, kinds, _⟩ := steps_settles next settles
  have sound := faultless
  rw [steps, faultless_append, faultless_cons, Reindent.Draft.faultless_marks kinds,
    stepAt_eq] at sound
  obtain ⟨body, tail, rfl, length, reads⟩ := Lexeme.scan_found sound.2.1
  obtain ⟨marks, step, leads, _⟩ := leads_of_reads next reads settles
  refine ⟨body, shifts, settled, marks, step, leads, sound.1, ?_⟩
  rw [leads.steps, faultless_append, faultless_cons] at faultless
  exact faultless.2.2

variable {first : Char} {body : List Char} {shifts : List Shift} {settled : Layout}
  {marks : List Step} {step : Step}

theorem Leads.trivia (leads : lexer.Leads first body shifts settled marks step)
    (trivia : step.token.kind.isTrivia = true) : marks = [] ∧ settled = lexer.layout := by
  have quiet : lexer.layout.waits first = false := by
    simp [Layout.waits, leads.takes.reads.isSignificant, trivia]
  obtain ⟨rfl, rfl⟩ := leads.settles.of_not_waits quiet
  exact ⟨by simpa using leads.kinds, rfl⟩

theorem leads_trivia {tail : List Char} {kind : Kind} {text : String}
    (next : lexer.reader.rest = first :: (body ++ tail))
    (reads : Lexeme.Reads first body tail kind text) (trivia : kind.isTrivia = true) :
    ∃ step, lexer.Leads first body [] lexer.layout [] step ∧ step.token.kind = kind ∧
      step.token.text = text ∧ step.after.reader.rest = tail := by
  have quiet : lexer.layout.waits first = false := by
    simp [Layout.waits, reads.isSignificant, trivia]
  have settles : lexer.layout.Settles first [] lexer.layout :=
    .ready (by simp [Layout.Ready, quiet])
  obtain ⟨marks, step, leads, kind, shown, rest⟩ := leads_of_reads next reads settles
  obtain ⟨rfl, _⟩ := leads.trivia (by rwa [kind])
  exact ⟨step, leads, kind, shown, rest⟩

end Lexer

end SpinBlocks
