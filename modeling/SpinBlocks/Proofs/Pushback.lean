import SpinBlocks.Proofs.Locating
import SpinBlocks.Cursor

namespace SpinBlocks

/-! One character of pushback, by counts alone.

A tally remembers no reader to go back to. It goes back by taking away what the
last character added, so the counts have to be those of the text in front of it, and
the column that it keeps has to be the one in front of the line feed just read. Both
hold as long as it stands where a cursor does that remembers its readers.
-/

theorem less?_add (total count : Nat) : less? (total + count) count = some total := by
  rw [less?, if_neg (by omega), Nat.add_sub_cancel]

theorem Position.retreat?_advance (position : Position) {c : Char} {lastColumn : Nat}
    (column : c = '\n' → lastColumn = position.column) :
    (position.advance c).retreat? c lastColumn = some position := by
  by_cases newline : c = '\n'
  · obtain rfl := column newline
    simp [advance, retreat?, newline, less?_add]
  · simp [advance, retreat?, newline, less?_add]

theorem Cursor.before_unread (cursor : Cursor) : cursor.unread.before = none := by
  unfold unread
  cases remembered : cursor.before with
  | none => exact remembered
  | some earlier => rfl

theorem Cursor.before_moveAll {cursor : Cursor} {moves : List Cursor.Move}
    (fresh : cursor.before = none) (last : moves.getLast? ≠ some .read) :
    (cursor.moveAll moves).before = none := by
  induction moves using List.reverseRecOn with
  | nil => exact fresh
  | append_singleton front move =>
      cases move with
      | read => simp at last
      | unread =>
          rw [moveAll, List.foldl_append]
          exact before_unread _

namespace Tally

def move? (tally : Tally) : Cursor.Move → Option Tally
  | .read => tally.read?.map (·.2)
  | .unread => tally.unread?

def moveAll? (tally : Tally) (moves : List Cursor.Move) : Option Tally :=
  moves.foldlM move? tally

/-- The tally stands where the cursor does. What it keeps of the last read leads back
to the reader that the cursor remembers, and it keeps nothing where the cursor
remembers none. -/
structure Follows (source : List Char) (cursor : Cursor) (tally : Tally) : Prop where
  text : tally.source = source ∧ cursor.source = source
  position : tally.position = cursor.position
  undone : ∀ earlier ∈ cursor.before, ∃ c, tally.last = some c ∧
    tally.position = earlier.position.advance c ∧
    (c = '\n' → tally.lastColumn = earlier.position.column)
  settled : cursor.before = none → tally.last = none

/-- What reading does between `front` and `back`. The first character of `back` is
given and passed, and an `unread` takes just that back, once; at the end nothing
moves. -/
def Reads (tally : Tally) (front : List Char) : List Char → Prop
  | [] => ∃ after, tally.read? = some (none, after) ∧ after.position = tally.position ∧
      after.unread? = some after
  | c :: _ => ∃ after undone, tally.read? = some (some c, after) ∧
      after.position.Counts (front ++ [c]) ∧ after.unread? = some undone ∧
      undone.position = tally.position ∧ undone.unread? = some undone

/-- The tally answers as the cursor does. -/
structure Agrees (tally : Tally) (cursor : Cursor) : Prop where
  position : tally.position = cursor.position
  atEnd : tally.isAtEnd = cursor.isAtEnd
  slice : ∀ start, tally.sliceFrom? start = cursor.sliceFrom? start
  read : ∃ after, tally.read? = some (cursor.read.1, after)

variable {source front back : List Char} {cursor : Cursor} {tally : Tally}

theorem follows_ofString (source : String) :
    Follows source.toList (.ofString source) (ofString source) where
  text := ⟨rfl, rfl⟩
  position := rfl
  undone := by simp [Cursor.ofString]
  settled := fun _ => rfl

theorem unread?_behind (tally : Tally) (c : Char) :
    (tally.behind c).unread? =
      some { tally.behind c with position := tally.position, last := none } := by
  have back : (tally.behind c).position.retreat? c (tally.behind c).lastColumn =
      some tally.position :=
    Position.retreat?_advance _ fun newline => if_pos newline
  change ((tally.behind c).position.retreat? c (tally.behind c).lastColumn).map _ = _
  rw [back]
  rfl

theorem isAtEnd_iff (counts : tally.position.Counts front) (parts : tally.source = front ++ back) :
    tally.isAtEnd = true ↔ back = [] := by
  rw [isAtEnd, decide_eq_true_iff, counts.offset, parts, Bytes.size_append]
  constructor
  · intro ended
    by_contra nonempty
    have positive := Bytes.size_pos nonempty
    omega
  · rintro rfl
    exact Nat.le_refl _

namespace Follows

variable (follows : Follows source cursor tally) (placed : cursor.Placed source)
include follows

include placed in
theorem place : ∃ front, source = front ++ cursor.reader.rest ∧ tally.position.Counts front := by
  obtain ⟨front, parts, counts⟩ := placed.here
  exact ⟨front, parts, follows.position ▸ counts⟩

include placed in
theorem drop? : Bytes.drop? tally.source tally.position.offset = some cursor.reader.rest := by
  obtain ⟨front, parts, counts⟩ := follows.place placed
  rw [follows.text.1, counts.offset, parts, Bytes.drop?_append]

include placed in
theorem read : ∃ after, tally.read? = some (cursor.read.1, after) ∧
    Follows source cursor.read.2 after := by
  rw [read?, follows.drop? placed, Cursor.read]
  cases next : cursor.reader.rest with
  | nil => exact ⟨_, rfl, follows.text, follows.position, by simp, fun _ => rfl⟩
  | cons c rest =>
      refine ⟨tally.behind c, rfl, follows.text, ?_, ?_, by simp⟩
      · simp only [behind, follows.position, Cursor.position, Reader.skip, next]
        rfl
      · intro earlier same
        obtain rfl : cursor.reader = earlier := by simpa using same
        exact ⟨c, rfl, congrArg (·.advance c) follows.position,
          fun newline => (if_pos newline).trans (congrArg (·.column) follows.position)⟩

theorem unread : ∃ after, tally.unread? = some after ∧ after.last = none ∧
    Follows source cursor.unread after := by
  unfold Cursor.unread
  cases remembered : cursor.before with
  | none =>
      have nothing := follows.settled remembered
      exact ⟨tally, by rw [unread?, nothing], nothing, follows⟩
  | some earlier =>
      obtain ⟨c, last, position, column⟩ := follows.undone earlier remembered
      refine ⟨{ tally with position := earlier.position, last := none }, ?_, rfl,
        follows.text, rfl, by simp, fun _ => rfl⟩
      simp only [unread?, last]
      rw [position, Position.retreat?_advance _ column]
      rfl

include placed in
theorem agrees : tally.Agrees cursor where
  position := follows.position
  atEnd := by
    obtain ⟨front, parts, counts⟩ := follows.place placed
    rw [Bool.eq_iff_iff, isAtEnd_iff counts (follows.text.1.trans parts), Cursor.isAtEnd,
      List.isEmpty_iff]
  slice start := by
    rw [sliceFrom?, Cursor.sliceFrom?, follows.text.1, follows.text.2, follows.position]
  read := by
    obtain ⟨after, read, _⟩ := follows.read placed
    exact ⟨after, read⟩

include placed in
theorem moveAll (moves : List Cursor.Move) :
    ∃ after, tally.moveAll? moves = some after ∧ Follows source (cursor.moveAll moves) after := by
  induction moves generalizing cursor tally with
  | nil => exact ⟨tally, rfl, follows⟩
  | cons move rest ih =>
      cases move with
      | read =>
          obtain ⟨next, read, follows⟩ := follows.read placed
          obtain ⟨after, moved, follows⟩ := ih follows placed.read
          refine ⟨after, ?_, follows⟩
          rw [moveAll?, List.foldlM_cons, move?, read]
          exact moved
      | unread =>
          obtain ⟨next, unread, _, follows⟩ := follows.unread
          obtain ⟨after, moved, follows⟩ := ih follows placed.unread
          refine ⟨after, ?_, follows⟩
          rw [moveAll?, List.foldlM_cons, move?, unread]
          exact moved

end Follows

theorem reads_of_drop? (counts : tally.position.Counts front)
    (cut : Bytes.drop? tally.source tally.position.offset = some back) :
    tally.Reads front back := by
  cases back with
  | nil => exact ⟨{ tally with last := none }, by rw [read?, cut]; rfl, rfl, rfl⟩
  | cons c rest =>
      exact ⟨tally.behind c, _, by rw [read?, cut]; rfl, counts.advance c, tally.unread?_behind c,
        rfl, rfl⟩

end Tally

/-- Wherever reading and unreading lead a tally, it stands on a boundary of the text
and counts what is in front of it. The next read gives the next character, or none
just at the end, and an `unread` takes back that character and nothing else. No cut
and no subtraction on the way is refused, and a cursor that remembers its readers is
led to the same places. -/
theorem pushback_exact (source : String) (moves : List Cursor.Move) :
    ∃ tally front back,
      (Tally.ofString source).moveAll? moves = some tally ∧
      source.toList = front ++ back ∧ tally.position.Counts front ∧
      (⟨tally.position.offset⟩ : String.Pos.Raw).IsValid source ∧
      tally.Reads front back ∧ (tally.isAtEnd = true ↔ back = []) ∧
      (∃ undone, tally.unread? = some undone ∧ undone.unread? = some undone ∧
        (moves.getLast? ≠ some .read → undone = tally)) ∧
      tally.Agrees ((Cursor.ofString source).moveAll moves) := by
  have initial := Cursor.placed_ofString source
  have placed := initial.moveAll moves
  obtain ⟨tally, moved, follows⟩ := (Tally.follows_ofString source).moveAll initial moves
  obtain ⟨front, parts, counts⟩ := follows.place placed
  have ends := Tally.isAtEnd_iff counts (follows.text.1.trans parts)
  have reads := Tally.reads_of_drop? counts (follows.drop? placed)
  refine ⟨tally, front, _, moved, parts, counts, ?_, reads, ends, ?_, follows.agrees placed⟩
  · rw [counts.offset]
    exact Bytes.isValid_size parts
  · obtain ⟨undone, unread, nothing, _⟩ := follows.unread
    refine ⟨undone, unread, by rw [Tally.unread?, nothing], ?_⟩
    -- behind no move, and behind an `unread`, there is nothing to take back
    intro last
    have settled := follows.settled (Cursor.before_moveAll rfl last)
    rw [Tally.unread?, settled] at unread
    exact (Option.some.inj unread).symm

/-- Only the line feed comes back, and the column is that in front of it. -/
example : ((Tally.ofString "aé\nb").moveAll? [.read, .read, .read, .unread, .unread]).map
    (·.position) = some ⟨3, 0, 2⟩ := by decide +kernel

end SpinBlocks
