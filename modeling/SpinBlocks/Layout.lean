namespace SpinBlocks

/-! Indentation.

Inside methods the width of a line's leading blanks is compared with the widths
of the lines around it. The open levels grow inwards from a baseline, which is
the width of a method's first line. A line is `pending` from its line feed until
its first significant character; then `resolve` moves one level at a time, so a
line that closes several levels stays pending until the last of them is closed.
-/

/-- What the indentation of a line amounts to. -/
inductive Shift where
  | indent
  | dedent
  | inconsistent
deriving Repr, DecidableEq

/-- `levels` holds the widths of the open levels, the innermost first and the
baseline last. After a block keyword, `blockStart` asks for a new baseline.
`width` is the width of the last pending line's leading blanks. -/
structure Layout where
  levels : List Nat
  blockStart : Bool
  pending : Bool
  width : Nat
deriving Repr, DecidableEq

namespace Layout

def initial : Layout := ⟨[], false, false, 0⟩

/-- A block begins, and its first line will set the baseline. -/
def openBlock (layout : Layout) : Layout :=
  { layout with blockStart := true }

def beginLine (layout : Layout) : Layout :=
  { layout with pending := true, width := 0 }

/-- Blanks were read. They are the indentation of a pending line if they open
it. -/
def noteBlanks (layout : Layout) (column width : Nat) : Layout :=
  if layout.pending && column == 0 then { layout with width } else layout

def baseline (layout : Layout) : Nat :=
  layout.levels.getLastD 0

/-- The pending line has found its place among `levels`. -/
def settle (layout : Layout) (levels : List Nat) : Layout :=
  { layout with levels, pending := false }

/-- Compares the pending line with the open levels, and changes them by one at
most. A new block first closes what is open; its line then sets the baseline. A
line left of the baseline moves the baseline. A line between two levels fits
neither, and is inconsistent. -/
def resolve (layout : Layout) : Option Shift × Layout :=
  if layout.blockStart then
    match layout.levels with
    | _ :: level :: outer => (some .dedent, { layout with levels := level :: outer })
    | _ => (none, { layout.settle [layout.width] with blockStart := false })
  else
    match layout.levels with
    | [] => (none, layout.settle [layout.width])
    | [baseline] =>
        if baseline < layout.width then (some .indent, layout.settle [layout.width, baseline])
        else (none, layout.settle [layout.width])
    | top :: level :: outer =>
        if top < layout.width then
          (some .indent, layout.settle (layout.width :: top :: level :: outer))
        else if layout.width = top then
          (none, layout.settle layout.levels)
        else if layout.baseline < layout.width && !layout.levels.contains layout.width then
          (some .inconsistent, layout.settle layout.levels)
        else
          (some .dedent, { layout with levels := level :: outer })

/-- The text has ended: closes one level and tells so, or clears the baseline
once it stands alone. -/
def finish (layout : Layout) : Bool × Layout :=
  match layout.levels with
  | _ :: level :: outer => (true, layout.settle (level :: outer))
  | _ => (false, layout.settle [])

/-- An upper bound on how often the layout can still speak up before the next
character is read. -/
def weight (layout : Layout) : Nat :=
  (if layout.pending then 2 else 0) + layout.levels.length

theorem resolve_weight {layout after : Layout} {shift : Shift}
    (pending : layout.pending = true) (resolved : layout.resolve = (some shift, after)) :
    after.weight < layout.weight := by
  unfold resolve at resolved
  split at resolved
  · split at resolved
    case h_1 levels =>
      simp only [Prod.mk.injEq, Option.some.injEq] at resolved
      obtain ⟨_, rfl⟩ := resolved
      simp [weight, pending, levels]
    case h_2 => simp at resolved
  · split at resolved
    case h_1 => simp at resolved
    case h_2 levels =>
      split at resolved
      · simp only [Prod.mk.injEq, Option.some.injEq] at resolved
        obtain ⟨_, rfl⟩ := resolved
        simp [weight, settle, pending, levels]
      · simp at resolved
    case h_3 levels =>
      split at resolved
      · simp only [Prod.mk.injEq, Option.some.injEq] at resolved
        obtain ⟨_, rfl⟩ := resolved
        simp [weight, settle, pending, levels]
        omega
      · split at resolved
        · simp at resolved
        · split at resolved
          · simp only [Prod.mk.injEq, Option.some.injEq] at resolved
            obtain ⟨_, rfl⟩ := resolved
            simp [weight, settle, pending]
          · simp only [Prod.mk.injEq, Option.some.injEq] at resolved
            obtain ⟨_, rfl⟩ := resolved
            simp [weight, pending, levels]

theorem resolve_settled {layout after : Layout}
    (resolved : layout.resolve = (none, after)) :
    after.pending = false ∧ after.levels.length ≤ layout.levels.length + 1 := by
  unfold resolve at resolved
  split at resolved
  · split at resolved
    case h_1 => simp at resolved
    case h_2 =>
      simp only [Prod.mk.injEq, true_and] at resolved
      subst resolved
      simp [settle]
  · split at resolved
    case h_1 =>
      simp only [Prod.mk.injEq, true_and] at resolved
      subst resolved
      simp [settle]
    case h_2 =>
      split at resolved
      · simp at resolved
      · simp only [Prod.mk.injEq, true_and] at resolved
        subst resolved
        simp [settle]
    case h_3 =>
      split at resolved
      · simp at resolved
      · split at resolved
        · simp only [Prod.mk.injEq, true_and] at resolved
          subst resolved
          simp [settle]
        · split at resolved <;> simp at resolved

theorem finish_weight {layout after : Layout} (finished : layout.finish = (true, after)) :
    after.weight < layout.weight := by
  unfold finish at finished
  split at finished
  case h_1 levels =>
    simp only [Prod.mk.injEq, true_and] at finished
    subst finished
    simp [weight, settle, levels]
    omega
  case h_2 => simp at finished

theorem noteBlanks_weight (layout : Layout) (column width : Nat) :
    (layout.noteBlanks column width).weight = layout.weight := by
  unfold noteBlanks
  split <;> rfl

end Layout

end SpinBlocks
