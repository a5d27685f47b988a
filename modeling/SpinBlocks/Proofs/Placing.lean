import SpinBlocks.Proofs.Transition

namespace SpinBlocks

/-! Where a pending line ends up.

The layout moves by one level at a time, and tells of each move. `place?` makes
all of them at once.
-/

namespace Layout

/-- The number of levels open inside the baseline. -/
def depth (layout : Layout) : Nat :=
  layout.levels.length - 1

theorem depth_noteBlanks (layout : Layout) (column width : Nat) :
    (layout.noteBlanks column width).depth = layout.depth := by
  unfold noteBlanks
  split <;> rfl

/-- What resolving a pending line by one step can come to. -/
inductive Resolution (layout : Layout) : Option Shift → Layout → Prop
  | drain {top level : Nat} {outer : List Nat} (starts : layout.blockStart = true)
      (levels : layout.levels = top :: level :: outer) :
      Resolution layout (some .dedent) { layout with levels := level :: outer }
  | seat (starts : layout.blockStart = true) (shallow : layout.levels.length ≤ 1) :
      Resolution layout none { layout.settle [layout.width] with blockStart := false }
  | first (goesOn : layout.blockStart = false) (levels : layout.levels = []) :
      Resolution layout none (layout.settle [layout.width])
  | reseat {baseline : Nat} (goesOn : layout.blockStart = false)
      (levels : layout.levels = [baseline]) (narrower : layout.width ≤ baseline) :
      Resolution layout none (layout.settle [layout.width])
  | stay {top level : Nat} {outer : List Nat} (goesOn : layout.blockStart = false)
      (levels : layout.levels = top :: level :: outer) (same : layout.width = top) :
      Resolution layout none (layout.settle layout.levels)
  | deepen {top : Nat} {outer : List Nat} (goesOn : layout.blockStart = false)
      (levels : layout.levels = top :: outer) (wider : top < layout.width) :
      Resolution layout (some .indent) (layout.settle (layout.width :: layout.levels))
  | leave {top level : Nat} {outer : List Nat} (goesOn : layout.blockStart = false)
      (levels : layout.levels = top :: level :: outer) (narrower : layout.width < top)
      (fits : layout.width ≤ layout.baseline ∨ layout.width ∈ layout.levels) :
      Resolution layout (some .dedent) { layout with levels := level :: outer }
  | misfit {top level : Nat} {outer : List Nat} (goesOn : layout.blockStart = false)
      (levels : layout.levels = top :: level :: outer) (narrower : layout.width < top)
      (above : layout.baseline < layout.width) (between : layout.width ∉ layout.levels) :
      Resolution layout (some .inconsistent) (layout.settle layout.levels)

theorem resolve_resolution (layout : Layout) :
    layout.Resolution layout.resolve.1 layout.resolve.2 := by
  unfold resolve
  split
  case isTrue starts =>
    split
    case h_1 top level outer levels => exact .drain starts levels
    case h_2 shallow =>
      refine .seat starts ?_
      match levels : layout.levels with
      | [] => simp
      | [_] => simp
      | top :: level :: outer => exact absurd levels (shallow top level outer)
  case isFalse goesOn =>
    have goesOn : layout.blockStart = false := by simpa using goesOn
    split
    case h_1 levels => exact .first goesOn levels
    case h_2 baseline levels =>
      split
      case isTrue wider => rw [← levels]; exact .deepen goesOn levels wider
      case isFalse narrower => exact .reseat goesOn levels (by omega)
    case h_3 top level outer levels =>
      split
      case isTrue wider => rw [← levels]; exact .deepen goesOn levels wider
      case isFalse wider =>
        split
        case isTrue same => exact .stay goesOn levels same
        case isFalse other =>
          have narrower : layout.width < top := by omega
          split
          case isTrue between =>
            simp only [Bool.and_eq_true, decide_eq_true_eq, Bool.not_eq_true',
              List.contains_eq_mem, decide_eq_false_iff_not] at between
            exact .misfit goesOn levels narrower between.1 between.2
          case isFalse fits =>
            refine .leave goesOn levels narrower ?_
            simp only [Bool.and_eq_true, decide_eq_true_eq, Bool.not_eq_true',
              List.contains_eq_mem, decide_eq_false_iff_not, not_and, not_not] at fits
            by_cases above : layout.baseline < layout.width
            · exact .inr (fits above)
            · exact .inl (by omega)

theorem Resolution.of_resolve {layout after : Layout} {shift? : Option Shift}
    (resolved : layout.resolve = (shift?, after)) : layout.Resolution shift? after := by
  have resolution := layout.resolve_resolution
  rwa [resolved] at resolution

theorem resolve_shallower {layout after : Layout}
    (resolved : layout.resolve = (some .dedent, after)) :
    ∃ top level outer, layout.levels = top :: level :: outer ∧
      after = { layout with levels := level :: outer } := by
  cases Resolution.of_resolve resolved with
  | drain starts levels => exact ⟨_, _, _, levels, rfl⟩
  | leave goesOn levels => exact ⟨_, _, _, levels, rfl⟩

/-- The layout once the pending line has found its place, if it fits any. -/
def place? (layout : Layout) : Option Layout :=
  match _ : layout.resolve with
  | (none, settled) => some settled
  | (some .indent, settled) => some settled
  | (some .inconsistent, _) => none
  | (some .dedent, after) => after.place?
termination_by layout.levels.length
decreasing_by
  obtain ⟨top, level, outer, levels, rfl⟩ := resolve_shallower ‹_›
  simp [levels]

/-- The layout with which a token of some kind is read. -/
def admit? (layout : Layout) (kind : Kind) : Option Layout :=
  if layout.pending && !kind.isTrivia then layout.place? else some layout

/-- The layout behind the blanks that a line begins with. -/
def noteMargin (layout : Layout) (margin : List Char) : Layout :=
  if margin.isEmpty then layout else layout.noteBlanks 0 margin.length

theorem depth_noteMargin (layout : Layout) (margin : List Char) :
    (layout.noteMargin margin).depth = layout.depth := by
  unfold noteMargin
  split
  · rfl
  · exact layout.depth_noteBlanks 0 margin.length

theorem levels_behind (layout : Layout) (region : Region) (start : Position) (lexeme : Lexeme) :
    (layout.behind region start lexeme).levels = layout.levels := by
  unfold behind
  cases kind : lexeme.kind with
  | newline => dsimp only; split <;> rfl
  | space => dsimp only [noteBlanks]; split <;> rfl
  | keyword word => cases word <;> rfl
  | _ => rfl

theorem behind_visible {layout : Layout} {region : Region} {start : Position} {lexeme : Lexeme}
    (visible : lexeme.kind.isVisible = true) :
    layout.behind region start lexeme =
      if lexeme.kind.isBlockKeyword then layout.openBlock else layout := by
  unfold behind
  cases kind : lexeme.kind with
  | keyword word => cases word <;> rfl
  | newline => simp [kind, Kind.isVisible] at visible
  | space => simp [kind, Kind.isVisible] at visible
  | _ => rfl

theorem resolve_deeper {layout after : Layout}
    (resolved : layout.resolve = (some .indent, after)) :
    layout.levels ≠ [] ∧ after = layout.settle (layout.width :: layout.levels) := by
  cases Resolution.of_resolve resolved with
  | deepen goesOn levels => exact ⟨by simp [levels], rfl⟩

theorem resolve_silent {layout after : Layout} (resolved : layout.resolve = (none, after)) :
    after.depth = layout.depth := by
  cases Resolution.of_resolve resolved with
  | seat starts shallow =>
      simp only [depth, settle, List.length_singleton]
      omega
  | first goesOn levels => simp [depth, settle, levels]
  | reseat goesOn levels => simp [depth, settle, levels]
  | stay goesOn levels => rfl

theorem finish_cases (layout : Layout) :
    (∃ top level outer, layout.levels = top :: level :: outer ∧
        layout.finish = (true, layout.settle (level :: outer))) ∨
      layout.levels.length ≤ 1 ∧ layout.finish = (false, layout.settle []) := by
  unfold finish
  match levels : layout.levels with
  | [] => exact .inr ⟨by simp, rfl⟩
  | [_] => exact .inr ⟨by simp, rfl⟩
  | top :: level :: outer => exact .inl ⟨top, level, outer, rfl, rfl⟩

namespace Settles

variable {first : Char} {layout settled : Layout} {shifts : List Shift}

theorem of_not_waits (settles : layout.Settles first shifts settled)
    (waits : layout.waits first = false) : shifts = [] ∧ settled = layout := by
  cases settles with
  | ready ready => exact ⟨rfl, by simpa [Ready, waits] using ready⟩
  | shift waiting => rw [waits] at waiting; cases waiting

theorem place?_eq (settles : layout.Settles first shifts settled)
    (waits : layout.waits first = true) :
    layout.place? = if .inconsistent ∈ shifts then none else some settled := by
  have significant := (Bool.and_eq_true_iff.mp waits).2
  induction settles with
  | @ready layout settled ready =>
      have resolved : layout.resolve = (none, settled) := by simpa [Ready, waits] using ready
      fun_cases place? layout <;> simp_all
  | @shift layout after settled shift shifts waiting resolved more ih =>
      cases shift with
      | indent =>
          obtain ⟨_, rfl⟩ := resolve_deeper resolved
          obtain ⟨rfl, rfl⟩ := more.of_not_waits (by simp [Layout.waits, settle])
          fun_cases place? layout <;> simp_all
      | inconsistent => fun_cases place? layout <;> simp_all
      | dedent =>
          obtain ⟨top, level, outer, levels, rfl⟩ := resolve_shallower resolved
          have placed := ih waiting
          fun_cases place? layout <;> simp_all

theorem admit?_eq (settles : layout.Settles first shifts settled) {kind : Kind}
    (significant : Character.isSignificant first = !kind.isTrivia) :
    layout.admit? kind = if .inconsistent ∈ shifts then none else some settled := by
  unfold admit?
  rw [← significant]
  cases waits : layout.waits first with
  | false =>
      obtain ⟨rfl, rfl⟩ := settles.of_not_waits waits
      simp only [Layout.waits] at waits
      simp [waits]
  | true =>
      rw [← settles.place?_eq waits]
      simp only [Layout.waits] at waits
      simp [waits]

end Settles

end Layout

end SpinBlocks
