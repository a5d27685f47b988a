import SpinBlocks.Proofs.Ending
import SpinBlocks.Proofs.Locality
import SpinBlocks.Proofs.Regions
import SpinBlocks.Proofs.Stairs

namespace SpinBlocks

/-! A line finds its place at once.

The layout moves level by level, and asks at each level again whether the line
fits. `placement` looks at all levels together. That both agree is an induction
over the shifts; what the layout knows of the line, on the other hand, is read
off the steps taken so far.
-/

namespace Layout

/-- Finds the place of a line all at once. Of the `levels` the baseline comes first
here, as it does in the levels that are given back; `begun` tells that a block has
begun. -/
def placement (begun : Bool) (levels : List Nat) (width : Nat) : List Shift × List Nat :=
  if begun then (List.replicate (max levels.length 1 - 1) .dedent, [width])
  else if levels.isEmpty then ([], [width])
  else if levels.getLastD 0 < width then ([.indent], levels ++ [width])
  else if width ∈ levels then
    (List.replicate (levels.countP (width < ·)) .dedent, levels.takeWhile (· ≠ width) ++ [width])
  else if width < levels.headD 0 then (List.replicate (levels.length - 1) .dedent, [width])
  else ([.inconsistent], levels)

section placement

variable {levels front back : List Nat} {top width : Nat}

theorem placement_begun (levels : List Nat) (width : Nat) :
    placement true levels width = (List.replicate (levels.length - 1) .dedent, [width]) := by
  have count : max levels.length 1 - 1 = levels.length - 1 := by omega
  rw [placement, if_pos rfl, count]

theorem placement_deeper (wider : top < width) :
    placement false (levels ++ [top]) width = ([.indent], levels ++ [top] ++ [width]) := by
  simp [placement, wider]

/-- A line that stands on a level leaves the levels inside it. -/
theorem placement_member (ascending : (front ++ width :: back).Pairwise (· < ·)) :
    placement false (front ++ width :: back) width =
      (List.replicate back.length .dedent, front ++ [width]) := by
  obtain ⟨_, inner, outer⟩ := List.pairwise_append.mp ascending
  have inside := (List.pairwise_cons.mp inner).1
  have outside (level : Nat) (member : level ∈ front) : level < width :=
    outer level member width List.mem_cons_self
  have last : ¬ (front ++ width :: back).getLastD 0 < width := by
    rw [List.getLastD_eq_getLast?, List.getLast?_append, List.getLast?_cons,
      ← List.getLastD_eq_getLast?]
    have among : back.getLastD width ∈ width :: back := List.getLastD_mem_cons
    rcases List.mem_cons.mp among with same | member
    · exact Nat.not_lt.mpr (Nat.le_of_eq same.symm)
    · exact Nat.lt_asymm (inside _ member)
  have count : (front ++ width :: back).countP (width < ·) = back.length := by
    rw [List.countP_append, List.countP_cons, List.countP_eq_zero.mpr, List.countP_eq_length.mpr]
    · simp
    · simpa using inside
    · intro level member
      simpa using Nat.le_of_lt (outside level member)
  have cut : (front ++ width :: back).takeWhile (· ≠ width) = front := by
    rw [List.takeWhile_append_of_pos, List.takeWhile_cons_of_neg (by simp), List.append_nil]
    intro level member
    simpa using Nat.ne_of_lt (outside level member)
  rw [placement, if_neg Bool.false_ne_true, if_neg (by simp), if_neg last, if_pos (by simp), count,
    cut]

/-- A line left of all levels leaves all but one, and moves that one. -/
theorem placement_below (below : ∀ level ∈ top :: levels, width < level) :
    placement false (top :: levels) width = (List.replicate levels.length .dedent, [width]) := by
  have last : ¬ (top :: levels).getLastD 0 < width := by
    rw [List.getLastD_cons]
    exact Nat.lt_asymm (below _ List.getLastD_mem_cons)
  have apart : width ∉ top :: levels := fun member => Nat.lt_irrefl _ (below width member)
  rw [placement, if_neg Bool.false_ne_true, if_neg (by simp), if_neg last, if_neg apart,
    List.headD_cons, if_pos (below top List.mem_cons_self), List.length_cons, Nat.add_sub_cancel]

theorem placement_between (narrower : ¬ levels.getLastD 0 < width) (above : levels.headD 0 < width)
    (apart : width ∉ levels) : placement false levels width = ([.inconsistent], levels) := by
  have nonempty : levels ≠ [] := by
    rintro rfl
    exact narrower above
  rw [placement, if_neg Bool.false_ne_true, if_neg (by simpa using nonempty), if_neg narrower,
    if_neg apart, if_neg (Nat.lt_asymm above)]

/-- A level that is left costs one dedent, and the line is placed among the others. -/
theorem placement_concat {baseline : Nat}
    (ascending : (baseline :: levels ++ [top]).Pairwise (· < ·))
    (fits : width ≤ baseline ∨ width ∈ baseline :: levels) :
    placement false (baseline :: levels ++ [top]) width =
      (.dedent :: (placement false (baseline :: levels) width).1,
        (placement false (baseline :: levels) width).2) := by
  by_cases member : width ∈ baseline :: levels
  · obtain ⟨front, back, parts⟩ := List.append_of_mem member
    rw [parts] at ascending ⊢
    have fewer := (List.pairwise_append.mp ascending).1
    rw [List.append_assoc, List.cons_append] at ascending ⊢
    rw [placement_member ascending, placement_member fewer, List.length_append]
    rfl
  · have left : width < baseline :=
      Nat.lt_of_le_of_ne (fits.resolve_right member) fun same => member (by simp [same])
    have lowest := (List.pairwise_cons.mp ascending).1
    have below : ∀ level ∈ baseline :: (levels ++ [top]), width < level :=
      List.forall_mem_cons.mpr ⟨left, fun level among => Nat.lt_trans left (lowest level among)⟩
    have fewer : ∀ level ∈ baseline :: levels, width < level := fun level among =>
      below level (List.mem_append_left [top] among)
    rw [List.cons_append, placement_below below, placement_below fewer, List.length_append]
    rfl

theorem placement_inconsistent {begun : Bool}
    (found : .inconsistent ∈ (placement begun levels width).1) :
    begun = false ∧ levels ≠ [] ∧ width ∉ levels ∧ levels.headD 0 ≤ width := by
  unfold placement at found
  split_ifs at found <;> simp_all

end placement

variable {layout settled : Layout} {first : Char} {shifts : List Shift}

theorem Nested.ascending (nested : layout.Nested) : layout.levels.reverse.Pairwise (· < ·) :=
  List.pairwise_reverse.mpr nested

theorem headD_reverse_levels (layout : Layout) :
    layout.levels.reverse.headD 0 = layout.baseline := by
  rw [List.headD_eq_head?_getD, List.head?_reverse, baseline, List.getLastD_eq_getLast?]

theorem Resolution.placement_rest (resolution : layout.Resolution none settled)
    (nested : layout.Nested) :
    placement layout.blockStart layout.levels.reverse layout.width =
      ([], settled.levels.reverse) := by
  have ascending := nested.ascending
  cases resolution with
  | seat starts shallow =>
      rw [starts, placement_begun, List.length_reverse, Nat.sub_eq_zero_of_le shallow]
      rfl
  | first goesOn levels =>
      rw [goesOn, levels]
      rfl
  | @reseat baseline goesOn levels narrower =>
      rw [goesOn, levels]
      rcases Nat.eq_or_lt_of_le narrower with same | left
      · rw [← same]
        exact @placement_member [] [] _ (List.pairwise_singleton _ _)
      · exact placement_below (by simpa using left)
  | @stay top level outer goesOn levels same =>
      rw [goesOn]
      simp only [settle]
      rw [levels, ← same, List.reverse_cons] at ascending ⊢
      exact placement_member ascending

theorem Fits.placement_leave {top level : Nat} {outer : List Nat}
    (fits : Fits { layout with levels := level :: outer }) (nested : layout.Nested)
    (levels : layout.levels = top :: level :: outer) :
    placement false layout.levels.reverse layout.width =
      (.dedent :: (placement false (level :: outer).reverse layout.width).1,
        (placement false (level :: outer).reverse layout.width).2) := by
  have outermost := headD_reverse_levels { layout with levels := level :: outer }
  obtain ⟨baseline, inner, split⟩ : ∃ baseline inner,
      (level :: outer).reverse = baseline :: inner :=
    List.exists_cons_of_ne_nil (by simp)
  have whole : layout.levels.reverse = baseline :: inner ++ [top] := by
    rw [levels, List.reverse_cons, split]
  have left : layout.width ≤ baseline ∨ layout.width ∈ baseline :: inner := by
    simp only [split, List.headD_cons] at outermost
    rw [← split, List.mem_reverse, outermost]
    exact fits
  have ascending := nested.ascending
  rw [whole] at ascending
  rw [whole, split, placement_concat ascending left]

/-- The shifts that a line tells of, and the levels behind it, are those of its
placement. -/
theorem Settles.placement_eq (settles : layout.Settles first shifts settled)
    (waits : layout.waits first = true) (nested : layout.Nested) :
    placement layout.blockStart layout.levels.reverse layout.width =
      (shifts, settled.levels.reverse) := by
  induction settles with
  | @ready layout settled ready =>
      have resolved : layout.resolve = (none, settled) := by simpa [Ready, waits] using ready
      exact (Resolution.of_resolve resolved).placement_rest nested
  | @shift layout after settled shift shifts _ resolved more ih =>
      have resolution := Resolution.of_resolve resolved
      have kept := resolution.nested nested
      cases resolution with
      | @drain top level outer starts levels =>
          have placed := ih waits kept
          simp only [starts, levels, placement_begun, List.length_reverse, Prod.mk.injEq]
            at placed ⊢
          exact ⟨congrArg (Shift.dedent :: ·) placed.1, placed.2⟩
      | @deepen top outer goesOn levels wider =>
          obtain ⟨rfl, rfl⟩ := more.of_not_waits (by simp [Layout.waits, settle])
          simp only [settle, goesOn, levels, List.reverse_cons]
          exact placement_deeper wider
      | @leave top level outer goesOn levels narrower fits =>
          have placed := ih waits kept
          simp only [goesOn] at placed
          have left := Fits.leave fits levels narrower
          rw [goesOn, left.placement_leave nested levels, placed]
      | @misfit top level outer goesOn levels narrower above between =>
          obtain ⟨rfl, rfl⟩ := more.of_not_waits (by simp [Layout.waits, settle])
          rw [goesOn]
          refine placement_between ?_ ?_ (by simpa using between)
          · rw [levels, List.reverse_cons, List.getLastD_concat]
            exact Nat.lt_asymm narrower
          · rw [headD_reverse_levels]
            exact above

/-- The line that a block begins with is the first one to be resolved. -/
theorem ready_blockStart {layout settled : Layout} {first : Char}
    (ready : layout.Ready first settled) (significant : Character.isSignificant first = true) :
    settled.blockStart = (layout.blockStart && !layout.pending) := by
  unfold Ready at ready
  split at ready
  case isTrue waits =>
    have pends := (Bool.and_eq_true_iff.mp waits).1
    cases Resolution.of_resolve ready with
    | seat => simp [pends]
    | first ongoing => simp [settle, ongoing]
    | reseat ongoing => simp [settle, ongoing]
    | stay ongoing => simp [settle, ongoing]
  case isFalse calm =>
    have idle : layout.pending = false := by simpa [waits, significant] using calm
    simp [ready, idle]

end Layout

namespace Step

/-- A line feed within methods. -/
def beginsLine (step : Step) : Bool :=
  step.token.kind == .newline && step.token.region == .methods

/-- Blanks, comments and dedents leave the line in front of them open. -/
def keepsLine (step : Step) : Bool :=
  match step.covered with
  | [] => step.token.kind == .dedent
  | first :: _ => !Character.isSignificant first

/-- Blanks in front of everything else on their line. -/
def isMargin (step : Step) : Bool :=
  step.token.kind == .space && step.token.column == 0

end Step

namespace History

/-! What the steps so far tell. The last of them comes first. -/

def sinceFeed (past : List Step) : List Step :=
  past.takeWhile (!·.beginsLine)

def pendingLine (past : List Step) : Bool :=
  past.any (·.beginsLine) && (sinceFeed past).all (·.keepsLine)

def margin (past : List Step) : Nat :=
  match (sinceFeed past).find? (·.isMargin) with
  | some blanks => blanks.token.text.length
  | none => 0

/-- A block keyword has been read since a line has last been resolved. -/
def newBlock : List Step → Bool
  | [] => false
  | step :: past =>
      step.token.kind.isBlockKeyword || (newBlock past && !(pendingLine past && !step.keepsLine))

variable (step : Step) (past : List Step)

theorem sinceFeed_cons :
    sinceFeed (step :: past) = if step.beginsLine then [] else step :: sinceFeed past := by
  unfold sinceFeed
  rw [List.takeWhile_cons]
  cases step.beginsLine <;> rfl

theorem pendingLine_cons :
    pendingLine (step :: past) = (step.beginsLine || (step.keepsLine && pendingLine past)) := by
  rw [pendingLine, sinceFeed_cons, List.any_cons, pendingLine]
  cases step.beginsLine
  · simp [Bool.and_left_comm]
  · rfl

theorem margin_cons :
    margin (step :: past) =
      if step.beginsLine then 0
      else if step.isMargin then step.token.text.length else margin past := by
  rw [margin, sinceFeed_cons, margin]
  cases step.beginsLine
  · simp only [Bool.false_eq_true, if_false, List.find?_cons]
    cases step.isMargin <;> rfl
  · rfl

variable {step : Step} {past : List Step}

theorem newBlock_of_keepsLine (plain : step.token.kind.isBlockKeyword = false)
    (keeps : step.keepsLine = true) : newBlock (step :: past) = newBlock past := by
  simp [newBlock, plain, keeps]

theorem newBlock_of_none (plain : step.token.kind.isBlockKeyword = false)
    (none : newBlock past = false) : newBlock (step :: past) = false := by
  simp [newBlock, plain, none]

end History

namespace Lexer

theorem pending_stepAt (lexer : Lexer) (first : Char) (rest : List Char) :
    let step := lexer.stepAt first rest
    step.after.layout.pending = (step.beginsLine || lexer.layout.pending) := by
  rw [stepAt_eq]
  simp only [Step.beginsLine, tokenFrom, Token.between, Layout.behind]
  cases kind : (Lexeme.scan first rest).kind with
  | newline =>
      by_cases inside : lexer.region = .methods <;>
        simp [Kind.regionBehind, Kind.block?, inside, Layout.beginLine]
  | space => simp only [Layout.noteBlanks]; split <;> rfl
  | keyword word => cases word <;> rfl
  | _ => rfl

theorem blockStart_stepAt (lexer : Lexer) (first : Char) (rest : List Char) :
    let step := lexer.stepAt first rest
    step.after.layout.blockStart =
      (step.token.kind.isBlockKeyword || lexer.layout.blockStart) := by
  rw [stepAt_eq]
  simp only [tokenFrom, Token.between, Layout.behind]
  cases kind : (Lexeme.scan first rest).kind with
  | newline => simp only; split <;> rfl
  | space => simp only [Layout.noteBlanks]; split <;> rfl
  | keyword word => cases word <;> rfl
  | _ => rfl

theorem width_stepAt (lexer : Lexer) (first : Char) (rest : List Char) :
    let step := lexer.stepAt first rest
    step.after.layout.pending = true →
    step.after.layout.width =
      if step.beginsLine then 0
      else if step.isMargin then step.token.text.length else lexer.layout.width := by
  rw [stepAt_eq]
  simp only [Step.beginsLine, Step.isMargin, tokenFrom, Token.between, Layout.behind]
  intro pends
  generalize Lexeme.scan first rest = lexeme at pends
  obtain ⟨kind, text, length⟩ := lexeme
  cases kind with
  | newline =>
      by_cases inside : lexer.region = .methods <;>
        simp [Kind.regionBehind, Kind.block?, inside, Layout.beginLine]
  | space =>
      simp only [Layout.noteBlanks] at pends ⊢
      have waiting : lexer.layout.pending = true := by split at pends <;> exact pends
      by_cases opens : lexer.position.column = 0 <;> simp [waiting, opens]
  | keyword word => cases word <;> rfl
  | _ => rfl

open History

/-- What the layout of a lexer keeps of the steps that lead to it. -/
structure Recorded (past : List Step) (lexer : Lexer) : Prop where
  pending : lexer.layout.pending = pendingLine past
  width : lexer.layout.pending = true → lexer.layout.width = margin past
  blockStart : lexer.layout.blockStart = newBlock past
  dedented : lexer.layout.pending = true →
    ∀ step ∈ sinceFeed past, step.token.kind = .dedent →
      (lexer.layout.blockStart = true ∨ lexer.layout.Fits) ∧
        ∀ first ∈ lexer.reader.rest.head?, Character.isSignificant first = true

variable {lexer : Lexer} {past : List Step} {first : Char} {rest : List Char}

theorem Recorded.initial (source : String) : Recorded [] (ofString source) :=
  ⟨rfl, nofun, rfl, nofun⟩

/-- A step that leaves no line open has nothing to record but new blocks. -/
theorem Recorded.settled {step : Step} (calm : lexer.layout.pending = false)
    (blockStart : lexer.layout.blockStart = newBlock (step :: past))
    (opens : step.beginsLine = false) (resolves : step.keepsLine = false) :
    Recorded (step :: past) lexer where
  pending := by rw [pendingLine_cons, opens, resolves, calm]; rfl
  width pends := by rw [calm] at pends; cases pends
  blockStart := blockStart
  dedented pends := by rw [calm] at pends; cases pends

theorem Recorded.dedent {levels : List Nat} (recorded : Recorded past lexer)
    (next : lexer.reader.rest = first :: rest)
    (significant : Character.isSignificant first = true)
    (stands : lexer.layout.blockStart = true ∨ Layout.Fits { lexer.layout with levels }) :
    let after : Lexer := { lexer with layout := { lexer.layout with levels } }
    Recorded (⟨after.marker .dedent, [], after⟩ :: past) after where
  pending := by rw [pendingLine_cons]; exact recorded.pending
  width pends := by rw [margin_cons]; exact recorded.width pends
  blockStart := by rw [newBlock_of_keepsLine rfl rfl]; exact recorded.blockStart
  dedented _ _ _ _ := ⟨stands, by simpa [next] using significant⟩

theorem Recorded.shift {shift : Shift} {layout : Layout} (recorded : Recorded past lexer)
    (next : lexer.reader.rest = first :: rest) (waits : lexer.layout.waits first = true)
    (resolution : lexer.layout.Resolution (some shift) layout) :
    let after := { lexer with layout }
    Recorded (⟨after.marker shift.kind, [], after⟩ :: past) after := by
  obtain ⟨pends, significant⟩ := Bool.and_eq_true_iff.mp waits
  have none (ongoing : lexer.layout.blockStart = false) : newBlock past = false :=
    recorded.blockStart.symm.trans ongoing
  cases resolution with
  | drain starts levels => exact recorded.dedent next significant (.inl starts)
  | deepen ongoing levels wider =>
      refine .settled rfl ?_ rfl rfl
      rw [newBlock_of_none rfl (none ongoing)]
      exact ongoing
  | leave ongoing levels narrower fits =>
      exact recorded.dedent next significant (.inr (Layout.Fits.leave fits levels narrower))
  | misfit ongoing =>
      refine .settled rfl ?_ rfl rfl
      rw [newBlock_of_none rfl (none ongoing)]
      exact ongoing

/-- A lexeme that leaves the line as it is. -/
theorem Recorded.pause (recorded : Recorded past lexer) (next : lexer.reader.rest = first :: rest)
    (blank : Character.isSignificant first = false) :
    Recorded (lexer.stepAt first rest :: past) (lexer.stepAt first rest).after := by
  have keeps : (lexer.stepAt first rest).keepsLine = true := by
    simp [stepAt_eq, Step.keepsLine, blank]
  have waiting (pends : (lexer.stepAt first rest).after.layout.pending = true)
      (inline : (lexer.stepAt first rest).beginsLine = false) : lexer.layout.pending = true := by
    rwa [pending_stepAt, inline, Bool.false_or] at pends
  refine ⟨?_, fun pends => ?_, ?_, fun pends step member dedent => ?_⟩
  · rw [pendingLine_cons, keeps, Bool.true_and, ← recorded.pending, pending_stepAt]
  · rw [margin_cons, width_stepAt _ _ _ pends]
    cases opens : (lexer.stepAt first rest).beginsLine with
    | true => rfl
    | false => rw [recorded.width (waiting pends opens)]
  · rw [blockStart_stepAt, newBlock, keeps, recorded.blockStart]
    simp
  · rw [sinceFeed_cons] at member
    cases opens : (lexer.stepAt first rest).beginsLine with
    | true => simp [opens] at member
    | false =>
        simp only [opens, Bool.false_eq_true, if_false] at member
        rcases List.mem_cons.mp member with rfl | member
        · have unmarked := Lexeme.scan_isMark first rest
          rw [stepAt_eq] at dedent
          change (Lexeme.scan first rest).kind = .dedent at dedent
          rw [dedent] at unmarked
          cases unmarked
        · have shown := (recorded.dedented (waiting pends opens) step member dedent).2
          rw [next] at shown
          rw [shown first rfl] at blank
          cases blank

theorem Recorded.read {layout : Layout} (recorded : Recorded past lexer)
    (next : lexer.reader.rest = first :: rest) (ready : lexer.layout.Ready first layout) :
    let step := { lexer with layout }.stepAt first rest
    Recorded (step :: past) step.after := by
  cases significant : Character.isSignificant first with
  | false =>
      obtain rfl : layout = lexer.layout := by
        simpa [Layout.Ready, Layout.waits, significant] using ready
      exact recorded.pause next significant
  | true =>
      have inline : ({ lexer with layout }.stepAt first rest).beginsLine = false := by
        rw [stepAt_eq]
        refine Bool.and_eq_false_iff.mpr (.inl (beq_eq_false_iff_ne.mpr fun newline => ?_))
        rw [Lexeme.scan_newline newline] at significant
        cases significant
      have resolves : ({ lexer with layout }.stepAt first rest).keepsLine = false := by
        simp [stepAt_eq, Step.keepsLine, significant]
      refine .settled ?_ ?_ inline resolves
      · rw [pending_stepAt, inline]
        exact Layout.ready_pending ready significant
      · rw [blockStart_stepAt, newBlock, resolves, ← recorded.pending, ← recorded.blockStart,
          Layout.ready_blockStart ready significant]
        simp

theorem Recorded.step (recorded : Recorded past lexer) (unread : lexer.reader.rest ≠ []) :
    Recorded (lexer.step :: past) lexer.step.after := by
  have transition := lexer.step_transition
  generalize lexer.step = step at transition
  cases transition with
  | close atEnd => exact absurd atEnd unread
  | shift next waits resolved => exact recorded.shift next waits (.of_resolve resolved)
  | read next ready => exact recorded.read next ready

theorem Reaches.recorded {reached : Lexer} {run : List Step} (reaches : lexer.Reaches run reached)
    (unread : reached.reader.rest ≠ []) (recorded : Recorded past lexer) :
    Recorded (run.reverse ++ past) reached := by
  induction reaches generalizing past with
  | here => exact recorded
  | @step lexer reached run more ih =>
      have text := (Reaches.step more).text
      have fuller : lexer.reader.rest ≠ [] := fun none => by
        rw [none] at text
        exact unread (List.append_eq_nil_iff.mp text.symm).2
      rw [List.reverse_cons, List.append_assoc]
      exact ih unread (recorded.step fuller)

/-- A line that fits no level has closed none. -/
theorem Recorded.undented (recorded : Recorded past lexer) (pends : lexer.layout.pending = true)
    (misfit : .inconsistent ∈ (Layout.placement lexer.layout.blockStart
      lexer.layout.levels.reverse lexer.layout.width).1) :
    ∀ step ∈ sinceFeed past, step.token.kind ≠ .dedent := by
  intro step member dedent
  obtain ⟨ongoing, nonempty, apart, above⟩ := Layout.placement_inconsistent misfit
  have fits := ((recorded.dedented pends step member dedent).1).resolve_left (by simp [ongoing])
  rw [Layout.headD_reverse_levels] at above
  rw [List.mem_reverse] at apart
  have same : lexer.layout.baseline = lexer.layout.width :=
    Nat.le_antisymm above (fits.resolve_right apart)
  obtain ⟨top, outer, levels⟩ : ∃ top outer, lexer.layout.levels = top :: outer :=
    List.exists_cons_of_ne_nil (by simpa using nonempty)
  have among : lexer.layout.baseline ∈ lexer.layout.levels := by
    rw [Layout.baseline, levels, List.getLastD_cons]
    exact List.getLastD_mem_cons
  exact apart (same ▸ among)

/-- The zero-width tokens in front of a line's first character, and the levels behind
it, are found at once from the levels in front, the line's margin and whether a block
has begun. A line that fits nowhere closes no level. -/
theorem line_placed_at_once {source : String} {run : List Step}
    (reaches : (ofString source).Reaches run lexer) (next : lexer.reader.rest = first :: rest)
    (significant : Character.isSignificant first = true) :
    let past := run.reverse
    let placed := Layout.placement (newBlock past) lexer.layout.levels.reverse (margin past)
    lexer.layout.pending = pendingLine past ∧
      (pendingLine past = true →
        (∃ marks step, lexer.steps = marks ++ step :: step.after.steps ∧
          marks.map (·.token) = placed.1.map (fun shift => lexer.marker shift.kind) ∧
          (∀ mark ∈ marks, mark.covered = []) ∧ step.covered.head? = some first ∧
          step.after.layout.levels.reverse = placed.2) ∧
        (.inconsistent ∈ placed.1 → ∀ step ∈ sinceFeed past, step.token.kind ≠ .dedent)) := by
  intro past placed
  have recorded : Recorded past lexer := by
    have found := reaches.recorded (by simp [next]) (.initial source)
    rwa [List.append_nil] at found
  refine ⟨recorded.pending, fun line => ?_⟩
  have pends : lexer.layout.pending = true := recorded.pending.trans line
  have waits : lexer.layout.waits first = true := by rw [Layout.waits, pends, significant]; rfl
  obtain ⟨shifts, settled, settles⟩ := Layout.exists_settles first lexer.layout
  have nested : lexer.layout.Nested := reaches.keeps.nested .nil
  have found : placed = (shifts, settled.levels.reverse) := by
    have once := settles.placement_eq waits nested
    rwa [recorded.blockStart, recorded.width pends] at once
  obtain ⟨marks, steps, tokens, silent⟩ := steps_marks next settles
  refine ⟨⟨marks, _, steps, ?_, silent, ?_, ?_⟩, fun misfit => ?_⟩
  · rw [found]
    exact tokens
  · rw [stepAt_eq]
    rfl
  · rw [found, stepAt_eq]
    exact congrArg _ (Layout.levels_behind _ _ _ _)
  · refine recorded.undented pends ?_
    rw [recorded.blockStart, recorded.width pends]
    exact misfit

theorem line_placed_at_once_shallower :
    ∃ run lexer, (ofString "PUB\na\n b\n  c\nd").Reaches run lexer ∧
      lexer.layout.levels = [2, 1, 0] ∧ pendingLine run.reverse = true ∧
      ∃ marks step, lexer.steps = marks ++ step :: step.after.steps ∧
        marks.map (·.token) = [lexer.marker .dedent, lexer.marker .dedent] ∧
        step.covered.head? = some 'd' ∧ step.after.layout.levels.reverse = [0] := by
  let start := ofString "PUB\na\n b\n  c\nd"
  let twice (lexer : Lexer) : Lexer := lexer.step.after.step.after
  let lexer := twice (twice (twice (twice (twice (twice start)))))
  obtain ⟨run, reaches, ongoing, flat⟩ : ∃ run, start.Reaches run lexer ∧
      newBlock run.reverse = false ∧ margin run.reverse = 0 :=
    ⟨_, .step (.step (.step (.step (.step (.step (.step (.step (.step (.step (.step (.step
      (.here _)))))))))))), by decide +kernel, by decide +kernel⟩
  have next : lexer.reader.rest = ['d'] := by decide +kernel
  have pends : lexer.layout.pending = true := by decide +kernel
  have placed : Layout.placement false lexer.layout.levels.reverse 0 =
      ([.dedent, .dedent], [0]) := by decide +kernel
  obtain ⟨pending, resolved⟩ := line_placed_at_once reaches next rfl
  have line := pending.symm.trans pends
  obtain ⟨⟨marks, step, steps, tokens, _, covered, levels⟩, _⟩ := resolved line
  rw [ongoing, flat, placed] at tokens levels
  exact ⟨run, lexer, reaches, by decide +kernel, line, marks, step, steps, tokens, covered, levels⟩

end Lexer

end SpinBlocks
