import SpinBlocks.Proofs.Balance

namespace SpinBlocks.Layout

/-! Lines that stand where their depth puts them.

A text whose lines are all indented by their depth has levels of equal height,
like stairs. Such a line finds its place by the same shifts as any line of that
depth does among levels of its own.
-/

/-- The levels of a text whose every level is two blanks further in. -/
def stairs : Nat → List Nat
  | 0 => []
  | count + 1 => 2 * (count + 1) :: stairs count

theorem length_stairs (count : Nat) : (stairs count).length = count := by
  induction count with
  | zero => rfl
  | succ count ih => rw [stairs, List.length_cons, ih]

theorem mem_stairs {width count : Nat} :
    2 * width ∈ stairs count ↔ 0 < width ∧ width ≤ count := by
  induction count with
  | zero =>
      simp only [stairs, List.not_mem_nil, false_iff]
      omega
  | succ count ih =>
      rw [stairs, List.mem_cons, ih]
      omega

/-- Two layouts wait for the same, with as many levels open. -/
structure Paired (layout other : Layout) : Prop where
  pending : other.pending = layout.pending
  blockStart : other.blockStart = layout.blockStart
  length : other.levels.length = layout.levels.length

/-- The other layout stands on stairs, unless a new block is about to begin. -/
structure Tracks (layout other : Layout) : Prop extends Paired layout other where
  levels : layout.blockStart = false → other.levels = stairs layout.levels.length

variable {layout other after settled : Layout} {shift? : Option Shift}

theorem Resolution.resolve_eq (resolution : layout.Resolution shift? after) :
    layout.resolve = (shift?, after) := by
  cases resolution with
  | drain starts levels => simp only [resolve, starts, levels, if_true]
  | seat starts shallow =>
      match levels : layout.levels with
      | [] => simp only [resolve, starts, levels, if_true]
      | [_] => simp only [resolve, starts, levels, if_true]
      | _ :: _ :: _ => simp [levels] at shallow
  | first goesOn levels => simp [resolve, goesOn, levels]
  | reseat goesOn levels narrower => simp [resolve, goesOn, levels, Nat.not_lt.mpr narrower]
  | stay goesOn levels same => simp [resolve, goesOn, levels, same]
  | @deepen top outer goesOn levels wider =>
      cases outer <;> simp [resolve, goesOn, levels, wider]
  | @leave top level outer goesOn levels narrower fits =>
      have below : ¬ top < layout.width := by omega
      have apart : layout.width ≠ top := by omega
      simp only [resolve, goesOn, Bool.false_eq_true, if_false, levels, below, apart]
      refine if_neg ?_
      simp only [Bool.and_eq_true, decide_eq_true_eq, Bool.not_eq_true', not_and,
        Bool.not_eq_false]
      intro above
      rcases fits with under | member
      · omega
      · rw [levels] at member
        simpa using member
  | @misfit top level outer goesOn levels narrower above between =>
      have below : ¬ top < layout.width := by omega
      have apart : layout.width ≠ top := by omega
      simp only [resolve, goesOn, Bool.false_eq_true, if_false, levels, below, apart]
      refine if_pos ?_
      rw [levels] at between
      simpa [above] using between

/-- Where a line fits without a new level: on one that is open, or left of all. -/
def Fits (layout : Layout) : Prop :=
  layout.width ≤ layout.baseline ∨ layout.width ∈ layout.levels

theorem Fits.width_le {top : Nat} {outer : List Nat} (fits : layout.Fits)
    (nested : layout.Nested) (levels : layout.levels = top :: outer) : layout.width ≤ top := by
  have widest : ∀ level ∈ layout.levels, level ≤ top := by
    rw [Nested, levels] at nested
    rw [levels]
    refine List.forall_mem_cons.mpr ⟨Nat.le_refl top, fun level member => ?_⟩
    exact Nat.le_of_lt ((List.pairwise_cons.mp nested).1 level member)
  rcases fits with under | member
  · have among : layout.baseline ∈ 0 :: layout.levels := List.getLastD_mem_cons
    rcases List.mem_cons.mp among with zero | member
    · omega
    · exact Nat.le_trans under (widest _ member)
  · exact widest _ member

theorem Fits.leave {top level : Nat} {outer : List Nat} (fits : layout.Fits)
    (levels : layout.levels = top :: level :: outer) (narrower : layout.width < top) :
    Fits { layout with levels := level :: outer } := by
  rcases fits with under | member
  · rw [baseline, levels] at under
    exact .inl under
  · rw [levels] at member
    exact .inr ((List.mem_cons.mp member).resolve_left (Nat.ne_of_lt narrower))

/-- A line that fits opens no level, and leaves at most all but one. -/
theorem Settles.length_le {first : Char} {shifts : List Shift}
    (settles : layout.Settles first shifts settled) (goesOn : layout.blockStart = false)
    (nested : layout.Nested) (nonempty : layout.levels ≠ []) (fits : layout.Fits) :
    settled.levels.length ≤ layout.levels.length := by
  induction settles with
  | @ready layout settled ready =>
      unfold Ready at ready
      split at ready
      · cases Resolution.of_resolve ready with
        | seat starts => rw [starts] at goesOn; cases goesOn
        | first goesOn levels => exact absurd levels nonempty
        | reseat goesOn levels => simp [settle, levels]
        | stay => exact Nat.le_refl _
      · rw [ready]
  | @shift layout after settled shift shifts waits resolved more ih =>
      have resolution := Resolution.of_resolve resolved
      have kept := resolution.nested nested
      cases resolution with
      | drain starts => rw [starts] at goesOn; cases goesOn
      | @deepen top outer _ levels wider =>
          have := fits.width_le nested levels
          omega
      | @leave top level outer _ levels narrower =>
          have fewer := ih goesOn kept (by simp) (fits.leave levels narrower)
          rw [levels]
          simp only [List.length_cons] at fewer ⊢
          omega
      | misfit =>
          obtain ⟨_, rfl⟩ := more.of_not_waits (by simp [Layout.waits, settle])
          exact Nat.le_refl _

/-- The other line is indented for the depth that `settled` has, or neither line is
indented at all. -/
def Aims (layout other settled : Layout) : Prop :=
  other.width = 2 * (settled.depth + 1) ∨ other.width = 0 ∧ layout.width = 0

theorem Aims.baseline (aims : layout.Aims other settled) (zero : settled.depth = 0) :
    other.width = 2 ∨ other.width = 0 := by
  unfold Aims at aims
  omega

/-- Where the top levels of a layout are known, those of the stairs are. -/
theorem Tracks.flight {top level : Nat} {outer : List Nat} (tracks : layout.Tracks other)
    (goesOn : layout.blockStart = false) (levels : layout.levels = top :: level :: outer) :
    other.levels = 2 * (outer.length + 2) :: 2 * (outer.length + 1) :: stairs outer.length := by
  rw [tracks.levels goesOn, levels]
  rfl

theorem Tracks.rest (tracks : layout.Tracks other) (nested : layout.Nested)
    (resolution : layout.Resolution none settled) (aims : layout.Aims other settled) :
    ∃ after, other.Resolution none after ∧ settled.Paired after ∧
      (other.width ≠ 0 → after.levels = stairs settled.levels.length) := by
  cases resolution with
  | seat starts shallow =>
      refine ⟨_, .seat (tracks.blockStart.trans starts) (tracks.length ▸ shallow),
        ⟨rfl, rfl, rfl⟩, fun nonzero => ?_⟩
      rw [settle, (aims.baseline rfl).resolve_right nonzero]
      rfl
  | first goesOn levels =>
      have none : other.levels = [] := by rw [tracks.levels goesOn, levels]; rfl
      refine ⟨_, .first (tracks.blockStart.trans goesOn) none,
        ⟨rfl, tracks.blockStart, rfl⟩, fun nonzero => ?_⟩
      rw [settle, (aims.baseline rfl).resolve_right nonzero]
      rfl
  | reseat goesOn levels narrower =>
      have one : other.levels = [2] := by rw [tracks.levels goesOn, levels]; rfl
      refine ⟨_, .reseat (tracks.blockStart.trans goesOn) one ?_,
        ⟨rfl, tracks.blockStart, rfl⟩, fun nonzero => ?_⟩
      · have := aims.baseline rfl
        omega
      · rw [settle, (aims.baseline rfl).resolve_right nonzero]
        rfl
  | @stay top level outer goesOn levels same =>
      have above : level < top := by
        rw [Nested, levels] at nested
        exact (List.pairwise_cons.mp nested).1 level (by simp)
      have depth : (layout.settle layout.levels).depth = outer.length + 1 := by
        simp [depth, settle, levels]
      have stands : other.width = 2 * (outer.length + 2) := by
        unfold Aims at aims
        omega
      exact ⟨_, .stay (tracks.blockStart.trans goesOn) (tracks.flight goesOn levels) stands,
        ⟨rfl, tracks.blockStart, tracks.length⟩, fun _ => tracks.levels goesOn⟩

theorem Tracks.drain {top level : Nat} {outer : List Nat} (tracks : layout.Tracks other)
    (starts : layout.blockStart = true) (levels : layout.levels = top :: level :: outer) :
    ∃ level' outer',
      other.Resolution (some .dedent) { other with levels := level' :: outer' } ∧
      Tracks { layout with levels := level :: outer }
        { other with levels := level' :: outer' } := by
  have long := tracks.length
  rw [levels, List.length_cons, List.length_cons] at long
  obtain ⟨top', inner', levels', rest⟩ := List.length_eq_succ_iff.mp long
  obtain ⟨level', outer', rfl, _⟩ := List.length_eq_succ_iff.mp rest
  refine ⟨level', outer', .drain (tracks.blockStart.trans starts) levels'.symm,
    ⟨tracks.pending, tracks.blockStart, rest⟩, fun goesOn => ?_⟩
  rw [starts] at goesOn
  cases goesOn

theorem Tracks.deepen {top : Nat} {outer : List Nat} (tracks : layout.Tracks other)
    (goesOn : layout.blockStart = false) (levels : layout.levels = top :: outer)
    (wider : top < layout.width)
    (aims : layout.Aims other (layout.settle (layout.width :: layout.levels))) :
    other.Resolution (some .indent) (other.settle (other.width :: other.levels)) ∧
      other.width :: other.levels = stairs (layout.levels.length + 1) := by
  have flight : other.levels = 2 * (outer.length + 1) :: stairs outer.length := by
    rw [tracks.levels goesOn, levels]
    rfl
  have depth : (layout.settle (layout.width :: layout.levels)).depth = outer.length + 1 := by
    simp [depth, settle, levels]
  have stands : other.width = 2 * (outer.length + 1 + 1) := by
    unfold Aims at aims
    omega
  refine ⟨.deepen (tracks.blockStart.trans goesOn) flight (by omega), ?_⟩
  rw [flight, stands, levels]
  rfl

theorem Tracks.leave {top level : Nat} {outer : List Nat} (tracks : layout.Tracks other)
    (goesOn : layout.blockStart = false) (levels : layout.levels = top :: level :: outer)
    (depth : settled.depth ≤ outer.length) (aims : layout.Aims other settled) :
    other.Resolution (some .dedent)
        { other with levels := 2 * (outer.length + 1) :: stairs outer.length } ∧
      Tracks { layout with levels := level :: outer }
        { other with levels := 2 * (outer.length + 1) :: stairs outer.length } := by
  have fits : other.Fits := by
    rcases aims with stands | ⟨flat, _⟩
    · refine .inr ?_
      rw [tracks.levels goesOn, stands, mem_stairs, levels]
      simp only [List.length_cons]
      omega
    · exact .inl (by omega)
  have narrower : other.width < 2 * (outer.length + 2) := by
    unfold Aims at aims
    omega
  exact ⟨.leave (tracks.blockStart.trans goesOn) (tracks.flight goesOn levels) narrower fits,
    ⟨tracks.pending, tracks.blockStart, by simp [length_stairs]⟩, fun _ => rfl⟩

/-- On stairs a line comes to its depth by the shifts that took it there, if it is
indented by that depth. A line without any blanks leaves all levels alike. -/
theorem Settles.retrace {first : Char} {shifts : List Shift}
    (settles : layout.Settles first shifts settled) (waits : layout.waits first = true)
    (consistent : .inconsistent ∉ shifts) (nested : layout.Nested) (tracks : layout.Tracks other)
    (aims : layout.Aims other settled) :
    ∃ after, other.Settles first shifts after ∧ settled.Paired after ∧
      (other.width ≠ 0 → after.levels = stairs settled.levels.length) := by
  have waiting : other.waits first = true := by
    rw [Layout.waits, tracks.pending]
    exact waits
  induction settles generalizing other with
  | @ready layout settled ready =>
      have resolved : layout.resolve = (none, settled) := by simpa [Ready, waits] using ready
      obtain ⟨after, resolution, paired, flight⟩ :=
        tracks.rest nested (Resolution.of_resolve resolved) aims
      exact ⟨after, .ready (by simp [Ready, waiting, resolution.resolve_eq]), paired, flight⟩
  | @shift layout after settled shift shifts _ resolved more ih =>
      have resolution := Resolution.of_resolve resolved
      have kept := resolution.nested nested
      have consistent' : Shift.inconsistent ∉ shifts := fun member => consistent (by simp [member])
      cases resolution with
      | drain starts levels =>
          obtain ⟨level', outer', drains, fewer⟩ := tracks.drain starts levels
          obtain ⟨after, settles, paired, flight⟩ := ih waits consistent' kept fewer aims waiting
          exact ⟨after, .shift waiting drains.resolve_eq settles, paired, flight⟩
      | deepen goesOn levels wider =>
          obtain ⟨rfl, rfl⟩ := more.of_not_waits (by simp [Layout.waits, settle])
          obtain ⟨deepens, flight⟩ := tracks.deepen goesOn levels wider aims
          let deeper := other.settle (other.width :: other.levels)
          have quiet : deeper.Settles first [] deeper :=
            .ready (by simp [Ready, Layout.waits, deeper, settle])
          exact ⟨deeper, .shift waiting deepens.resolve_eq quiet,
            ⟨rfl, tracks.blockStart, congrArg (· + 1) tracks.length⟩, fun _ => flight⟩
      | @leave top level outer goesOn levels narrower fits =>
          have fewer := more.length_le goesOn kept (by simp) (Fits.leave fits levels narrower)
          simp only [List.length_cons] at fewer
          have depth : settled.depth ≤ outer.length := by
            rw [depth]
            omega
          obtain ⟨leaves, lower⟩ := tracks.leave goesOn levels depth aims
          obtain ⟨after, settles, paired, flight⟩ := ih waits consistent' kept lower aims waiting
          exact ⟨after, .shift waiting leaves.resolve_eq settles, paired, flight⟩
      | misfit => exact absurd List.mem_cons_self consistent

end SpinBlocks.Layout
