import SpinBlocks.Proofs.Lexical.Shape
import SpinBlocks.TokenStream

namespace SpinBlocks

/-! What one step of the lexer can do.

A step closes an open level at the end of the text, or moves the indentation of
a pending line by one level, or reads a lexeme. `Transition` says so once, and
whatever holds of every step is proved by its three cases.
-/

def Shift.kind : Shift → Kind
  | .indent => .indent
  | .dedent => .dedent
  | .inconsistent => .illegal

def Kind.regionBehind (kind : Kind) (region : Region) : Region :=
  match kind.block? with
  | some block => block.region
  | none => region

def Faultless (run : List Step) : Prop :=
  ∀ step ∈ run, step.token.kind.isFault = false

theorem faultless_cons {step : Step} {run : List Step} :
    Faultless (step :: run) ↔ step.token.kind.isFault = false ∧ Faultless run :=
  List.forall_mem_cons

theorem faultless_append {front back : List Step} :
    Faultless (front ++ back) ↔ Faultless front ∧ Faultless back :=
  List.forall_mem_append

namespace Layout

/-- What reading a lexeme at `start` changes in the layout. -/
def behind (layout : Layout) (region : Region) (start : Position) (lexeme : Lexeme) : Layout :=
  match lexeme.kind with
  | .newline => if region = .methods then layout.beginLine else layout
  | .space => layout.noteBlanks start.column lexeme.text.length
  | .keyword (.block _) => layout.openBlock
  | _ => layout

/-- Whether a lexeme that `first` opens has to wait for the line's indentation. -/
def waits (layout : Layout) (first : Char) : Bool :=
  layout.pending && Character.isSignificant first

/-- The layout with which a lexeme that `first` opens is read. -/
def Ready (layout : Layout) (first : Char) (settled : Layout) : Prop :=
  if layout.waits first then layout.resolve = (none, settled) else settled = layout

/-- Before a lexeme that `first` opens is read, the layout tells of `shifts`, and
is `settled` then. -/
inductive Settles (first : Char) : Layout → List Shift → Layout → Prop
  | ready {layout settled : Layout} (ready : layout.Ready first settled) :
      Settles first layout [] settled
  | shift {layout after settled : Layout} {shift : Shift} {shifts : List Shift}
      (waits : layout.waits first = true) (resolved : layout.resolve = (some shift, after))
      (more : Settles first after shifts settled) : Settles first layout (shift :: shifts) settled

theorem exists_settles (first : Char) (layout : Layout) :
    ∃ shifts settled, Settles first layout shifts settled := by
  induction weight : layout.weight using Nat.strongRecOn generalizing layout with
  | _ weight ih =>
      cases waits : layout.waits first with
      | false => exact ⟨[], layout, .ready (by simp [Ready, waits])⟩
      | true =>
          cases resolved : layout.resolve with
          | mk shift? after =>
              cases shift? with
              | none => exact ⟨[], after, .ready (by simp [Ready, waits, resolved])⟩
              | some shift =>
                  have pending := (Bool.and_eq_true_iff.mp waits).1
                  have lighter := resolve_weight pending resolved
                  obtain ⟨shifts, settled, more⟩ := ih after.weight (weight ▸ lighter) after rfl
                  exact ⟨shift :: shifts, settled, .shift waits resolved more⟩

end Layout

namespace Lexer

theorem apply_eq (lexer : Lexer) (start : Position) (lexeme : Lexeme) :
    lexer.apply start lexeme =
      ⟨lexer.reader, lexeme.kind.regionBehind lexer.region,
        lexer.layout.behind lexer.region start lexeme⟩ := by
  unfold apply Layout.behind Kind.regionBehind
  cases kind : lexeme.kind with
  | newline =>
      simp only [beginLine, Kind.block?]
      split <;> rfl
  | keyword word => cases word <;> rfl
  | _ => rfl

theorem stepAt_eq (lexer : Lexer) (first : Char) (rest : List Char) :
    lexer.stepAt first rest =
      let lexeme := Lexeme.scan first rest
      let after : Lexer :=
        ⟨lexer.reader.skip (lexeme.length + 1), lexeme.kind.regionBehind lexer.region,
          lexer.layout.behind lexer.region lexer.position lexeme⟩
      ⟨after.tokenFrom lexer.position lexeme.kind lexeme.text, first :: rest.take lexeme.length,
        after⟩ := by
  simp only [stepAt, take, apply_eq, Reader.skip_skip, Nat.add_comm 1]

inductive Transition (lexer : Lexer) : Step → Prop
  | close (atEnd : lexer.reader.rest = []) :
      Transition lexer ⟨lexer.endOfInput.1, [], lexer.endOfInput.2⟩
  | shift {first : Char} {rest : List Char} {shift : Shift} {layout : Layout}
      (next : lexer.reader.rest = first :: rest) (waits : lexer.layout.waits first = true)
      (resolved : lexer.layout.resolve = (some shift, layout)) :
      Transition lexer ⟨{ lexer with layout }.marker shift.kind, [], { lexer with layout }⟩
  | read {first : Char} {rest : List Char} {layout : Layout}
      (next : lexer.reader.rest = first :: rest) (ready : lexer.layout.Ready first layout) :
      Transition lexer ({ lexer with layout }.stepAt first rest)

theorem step_nil {lexer : Lexer} (atEnd : lexer.reader.rest = []) :
    lexer.step = ⟨lexer.endOfInput.1, [], lexer.endOfInput.2⟩ := by
  simp only [step, atEnd]

theorem step_shift {lexer : Lexer} {first : Char} {rest : List Char} {shift : Shift}
    {layout : Layout} (next : lexer.reader.rest = first :: rest)
    (waits : lexer.layout.waits first = true)
    (resolved : lexer.layout.resolve = (some shift, layout)) :
    lexer.step = ⟨{ lexer with layout }.marker shift.kind, [], { lexer with layout }⟩ := by
  simp only [Layout.waits] at waits
  simp only [step, next, waits, if_true, resolveLine, resolved]
  cases shift <;> rfl

theorem step_read {lexer : Lexer} {first : Char} {rest : List Char} {layout : Layout}
    (next : lexer.reader.rest = first :: rest) (ready : lexer.layout.Ready first layout) :
    lexer.step = { lexer with layout }.stepAt first rest := by
  unfold Layout.Ready at ready
  split at ready
  · rename_i waits
    simp only [Layout.waits] at waits
    simp only [step, next, waits, if_true, resolveLine, ready]
  · rename_i waits
    simp only [Layout.waits] at waits
    simp only [step, next, if_neg waits, ready]

theorem step_transition (lexer : Lexer) : lexer.Transition lexer.step := by
  cases next : lexer.reader.rest with
  | nil =>
      rw [step_nil next]
      exact .close next
  | cons first rest =>
      cases waits : lexer.layout.waits first with
      | false =>
          have ready : lexer.layout.Ready first lexer.layout := by simp [Layout.Ready, waits]
          rw [step_read next ready]
          exact .read next ready
      | true =>
          cases resolved : lexer.layout.resolve with
          | mk shift? layout =>
              cases shift? with
              | none =>
                  have ready : lexer.layout.Ready first layout := by
                    simp [Layout.Ready, waits, resolved]
                  rw [step_read next ready]
                  exact .read next ready
              | some shift =>
                  rw [step_shift next waits resolved]
                  exact .shift next waits resolved

/-- The step takes the lexeme `first :: body` from the front of the text. -/
structure Takes (lexer : Lexer) (step : Step) (first : Char) (body : List Char) : Prop where
  covered : step.covered = first :: body
  next : lexer.reader.rest = first :: (body ++ step.after.reader.rest)
  reads : Lexeme.Reads first body step.after.reader.rest step.token.kind step.token.text
  region : step.after.region = step.token.kind.regionBehind lexer.region
  inside : step.token.region = step.after.region
  place : step.after.position = lexer.position.advanceAll (first :: body)
  line : step.token.line = lexer.position.line
  column : step.token.column = lexer.position.column

/-- What a step without a fault does to the text. -/
inductive Sound (lexer : Lexer) (step : Step) : Prop
  | mark (mark : step.token.kind.isMark = true) (covered : step.covered = [])
      (reader : step.after.reader = lexer.reader) (region : step.after.region = lexer.region)
  | newline (newline : step.token.kind = .newline) (takes : lexer.Takes step '\n' [])
  | blanks {first : Char} {body : List Char} (space : step.token.kind = .space)
      (takes : lexer.Takes step first body)
  | visible {first : Char} {body : List Char} (visible : step.token.kind.isVisible = true)
      (takes : lexer.Takes step first body)

theorem Takes.sound {lexer : Lexer} {step : Step} {first : Char} {body : List Char}
    (takes : lexer.Takes step first body) : lexer.Sound step := by
  by_cases newline : step.token.kind = .newline
  · obtain ⟨rfl, rfl, _⟩ := takes.reads.newline_body newline
    exact .newline newline takes
  · by_cases space : step.token.kind = .space
    · exact .blanks space takes
    · exact .visible (by simp [Kind.isVisible, takes.reads.isMark, newline, space]) takes

theorem Transition.sound {lexer : Lexer} {step : Step} (transition : lexer.Transition step)
    (faultless : step.token.kind.isFault = false) : lexer.Sound step := by
  cases transition with
  | close atEnd =>
      refine .mark ?_ rfl rfl rfl
      cases finished : lexer.layout.finish with
      | mk closed layout =>
          cases closed <;>
            simp [endOfInput, finished, marker, tokenFrom, Token.between, Kind.isMark]
  | @shift first rest shift layout next waits resolved =>
      cases shift with
      | indent => exact .mark rfl rfl rfl rfl
      | dedent => exact .mark rfl rfl rfl rfl
      | inconsistent => cases faultless
  | @read first rest layout next ready =>
      rw [stepAt_eq] at faultless ⊢
      obtain ⟨body, tail, rfl, length, reads⟩ := Lexeme.scan_found faultless
      have behind : (lexer.reader.skip ((Lexeme.scan first (body ++ tail)).length + 1)).rest = tail := by
        simp [Reader.skip, next, length]
      have taken : (body ++ tail).take (Lexeme.scan first (body ++ tail)).length = body := by
        rw [length, List.take_left]
      refine Takes.sound ⟨congrArg _ taken, ?_, ?_, rfl, rfl, ?_, rfl, rfl⟩
      · rw [next]
        exact congrArg (fun rest => first :: (body ++ rest)) behind.symm
      · simp only [behind]
        exact reads
      · simp [Lexer.position, Reader.skip, next, length]

theorem steps_eq (lexer : Lexer) :
    lexer.steps =
      lexer.step :: if lexer.step.token.kind = .eof then [] else lexer.step.after.steps := by
  rw [steps]
  split <;> simp_all

theorem stepAt_reads {lexer : Lexer} {first : Char} {body tail : List Char} {kind : Kind}
    {text : String} (next : lexer.reader.rest = first :: (body ++ tail))
    (reads : Lexeme.Reads first body tail kind text) :
    let step := lexer.stepAt first (body ++ tail)
    lexer.Takes step first body ∧ step.token.kind = kind ∧ step.token.text = text ∧
      step.after.reader.rest = tail ∧
      step.after.layout =
        lexer.layout.behind lexer.region lexer.position ⟨kind, text, body.length⟩ := by
  have behind : (lexer.reader.skip (body.length + 1)).rest = tail := by
    simp [Reader.skip, next]
  intro step
  have same : step = _ := stepAt_eq lexer first (body ++ tail)
  simp only [reads.scan_eq, List.take_left] at same
  rw [same]
  refine ⟨⟨rfl, ?_, ?_, rfl, rfl, ?_, rfl, rfl⟩, rfl, rfl, behind, rfl⟩
  · rw [next]
    exact congrArg (fun rest => first :: (body ++ rest)) behind.symm
  · simp only [behind]
    exact reads
  · simp [Lexer.position, Reader.skip, next]

/-- The step that reads the lexeme at the front of the text. -/
theorem step_reads {lexer : Lexer} {first : Char} {body tail : List Char} {kind : Kind}
    {text : String} {layout : Layout} (next : lexer.reader.rest = first :: (body ++ tail))
    (reads : Lexeme.Reads first body tail kind text) (ready : lexer.layout.Ready first layout) :
    let behind := lexer.position.advanceAll (first :: body)
    let region := kind.regionBehind lexer.region
    lexer.step = ⟨.between kind text region lexer.position behind.offset, first :: body,
      ⟨⟨behind, tail⟩, region,
        layout.behind lexer.region lexer.position ⟨kind, text, body.length⟩⟩⟩ := by
  have reader : lexer.reader.skip (body.length + 1) =
      ⟨lexer.position.advanceAll (first :: body), tail⟩ := by
    simp [Reader.skip, next, Lexer.position]
  rw [step_read next ready, stepAt_eq]
  simp only [reads.scan_eq, List.take_left, reader]
  rfl

/-- Up to its next lexeme a run gives a mark for each shift of its layout, and all of
them in front of that lexeme. -/
theorem steps_marks {lexer : Lexer} {first : Char} {rest : List Char} {shifts : List Shift}
    {settled : Layout} (next : lexer.reader.rest = first :: rest)
    (settles : lexer.layout.Settles first shifts settled) :
    ∃ marks, lexer.steps = marks ++ ({ lexer with layout := settled }.stepAt first rest) ::
        ({ lexer with layout := settled }.stepAt first rest).after.steps ∧
      marks.map (·.token) = shifts.map (fun shift => lexer.marker shift.kind) ∧
      ∀ mark ∈ marks, mark.covered = [] := by
  generalize start : lexer.layout = layout at settles
  induction settles generalizing lexer with
  | @ready layout settled ready =>
      subst start
      refine ⟨[], ?_, rfl, by simp⟩
      have unmarked : ({ lexer with layout := settled }.stepAt first rest).token.kind ≠ .eof := by
        have mark := Lexeme.scan_isMark first rest
        rw [stepAt_eq]
        intro atEnd
        change (Lexeme.scan first rest).kind = .eof at atEnd
        rw [atEnd] at mark
        cases mark
      rw [steps_eq, step_read next ready, if_neg unmarked]
      rfl
  | @shift layout after settled shift shifts waits resolved more ih =>
      subst start
      obtain ⟨marks, steps, tokens, silent⟩ := @ih { lexer with layout := after } next rfl
      have unfinished : lexer.step.token.kind ≠ .eof := by
        rw [step_shift next waits resolved]
        cases shift <;> exact Kind.noConfusion
      refine ⟨lexer.step :: marks, ?_, ?_, ?_⟩
      · rw [steps_eq, if_neg unfinished, step_shift next waits resolved]
        exact congrArg _ steps
      · rw [List.map_cons, List.map_cons, tokens, step_shift next waits resolved]
        rfl
      · rw [step_shift next waits resolved]
        exact List.forall_mem_cons.mpr ⟨rfl, silent⟩

/-- Up to its next lexeme a run tells of the shifts of its layout. -/
theorem steps_settles {lexer : Lexer} {first : Char} {rest : List Char} {shifts : List Shift}
    {settled : Layout} (next : lexer.reader.rest = first :: rest)
    (settles : lexer.layout.Settles first shifts settled) :
    ∃ marks, lexer.steps = marks ++ ({ lexer with layout := settled }.stepAt first rest) ::
        ({ lexer with layout := settled }.stepAt first rest).after.steps ∧
      marks.map (·.token.kind) = shifts.map Shift.kind ∧ ∀ mark ∈ marks, mark.covered = [] := by
  obtain ⟨marks, steps, tokens, silent⟩ := steps_marks next settles
  have kinds := congrArg (List.map Token.kind) tokens
  rw [List.map_map, List.map_map] at kinds
  exact ⟨marks, steps, kinds, silent⟩

/-- A run reaches the lexeme at the front of its text right behind the shifts. -/
theorem steps_reads {lexer : Lexer} {first : Char} {body tail : List Char} {kind : Kind}
    {text : String} {shifts : List Shift} {settled : Layout}
    (next : lexer.reader.rest = first :: (body ++ tail))
    (reads : Lexeme.Reads first body tail kind text)
    (settles : lexer.layout.Settles first shifts settled) :
    ∃ marks step, lexer.steps = marks ++ step :: step.after.steps ∧
      (marks.map (·.token.kind) = shifts.map Shift.kind ∧ ∀ mark ∈ marks, mark.covered = []) ∧
      lexer.Takes step first body ∧ step.token.kind = kind ∧ step.token.text = text ∧
      step.after.reader.rest = tail ∧ step.after.layout =
        settled.behind lexer.region lexer.position ⟨kind, text, body.length⟩ := by
  obtain ⟨marks, steps, marked⟩ := steps_settles next settles
  obtain ⟨⟨covered, parts, found, region, inside, place, line, column⟩, same, shown, rest,
      layout⟩ :=
    @stepAt_reads { lexer with layout := settled } first body tail kind text next reads
  exact ⟨marks, _, steps, marked, ⟨covered, parts, found, region, inside, place, line, column⟩,
    same, shown, rest, layout⟩

theorem steps_cons {lexer : Lexer} {step : Step} {rest : List Step}
    (parts : lexer.steps = step :: rest) (unfinished : step.token.kind ≠ .eof) :
    lexer.step = step ∧ step.after.steps = rest := by
  rw [steps_eq] at parts
  obtain ⟨same, more⟩ := List.cons.inj parts
  rw [same, if_neg unfinished] at more
  exact ⟨same, more⟩

/-- The lexer `reached` stands behind the steps that `front` tells. -/
inductive Reaches : Lexer → List Step → Lexer → Prop
  | here (lexer : Lexer) : Reaches lexer [] lexer
  | step {lexer reached : Lexer} {front : List Step}
      (more : Reaches lexer.step.after front reached) :
      Reaches lexer (lexer.step :: front) reached

theorem steps_reaches {lexer : Lexer} {front behind : List Step}
    (parts : lexer.steps = front ++ behind) :
    ∃ reached, lexer.Reaches front reached ∧ (behind ≠ [] → reached.steps = behind) := by
  induction front generalizing lexer with
  | nil => exact ⟨lexer, .here lexer, fun _ => parts⟩
  | cons first front ih =>
      rw [steps_eq, List.cons_append] at parts
      obtain ⟨rfl, rest⟩ := List.cons.inj parts
      by_cases atEnd : lexer.step.token.kind = .eof
      · rw [if_pos atEnd] at rest
        obtain ⟨rfl, rfl⟩ := List.append_eq_nil_iff.mp rest.symm
        exact ⟨lexer.step.after, .step (.here _), by simp⟩
      · rw [if_neg atEnd] at rest
        obtain ⟨reached, reaches, same⟩ := ih rest
        exact ⟨reached, .step reaches, same⟩

theorem Reaches.append {lexer reached last : Lexer} {front behind : List Step}
    (reaches : lexer.Reaches front reached) (more : reached.Reaches behind last) :
    lexer.Reaches (front ++ behind) last := by
  induction reaches with
  | here => exact more
  | step _ ih => exact .step (ih more)

theorem Reaches.cut {lexer last : Lexer} {front behind : List Step}
    (reaches : lexer.Reaches (front ++ behind) last) :
    ∃ reached, lexer.Reaches front reached ∧ reached.Reaches behind last := by
  induction front generalizing lexer with
  | nil => exact ⟨lexer, .here lexer, reaches⟩
  | cons step front ih =>
      cases reaches with
      | step more =>
          obtain ⟨reached, reaches, rest⟩ := ih more
          exact ⟨reached, .step reaches, rest⟩

/-- What holds of a lexer and behind every step holds wherever the steps lead. -/
theorem Reaches.invariant {invariant : Lexer → Prop} {lexer reached : Lexer} {front : List Step}
    (kept : ∀ {lexer : Lexer}, invariant lexer → invariant lexer.step.after)
    (reaches : lexer.Reaches front reached) (start : invariant lexer) : invariant reached := by
  induction reaches with
  | here => exact start
  | step more ih => exact ih (kept start)

theorem mem_steps_reaches {lexer : Lexer} {step : Step} (member : step ∈ lexer.steps) :
    ∃ front reached, lexer.Reaches front reached ∧ step = reached.step := by
  obtain ⟨front, behind, parts⟩ := List.append_of_mem member
  obtain ⟨reached, reaches, next⟩ := steps_reaches parts
  refine ⟨front, reached, reaches, ?_⟩
  have steps := next (List.cons_ne_nil step behind)
  rw [steps_eq] at steps
  exact (List.cons.inj steps).1.symm

theorem sound_of_mem {lexer : Lexer} {step : Step} (faultless : Faultless lexer.steps)
    (member : step ∈ lexer.steps) : ∃ reached : Lexer, reached.Sound step := by
  have fault := faultless step member
  obtain ⟨_, reached, _, rfl⟩ := mem_steps_reaches member
  exact ⟨reached, reached.step_transition.sound fault⟩

end Lexer

end SpinBlocks
