import SpinBlocks.Proofs.Lines
import SpinBlocks.Cursor
import SpinBlocks.Source

namespace SpinBlocks

/-! Two ways to say where something stands.

A position is carried along from character to character; a location is worked
out afresh from a byte offset. `Counts` says what both of them mean, and it is
kept by every move of a position.
-/

namespace Position

/-- The position is right behind `front`: it counts the bytes of `front`, its line
feeds, and the characters behind the last of these. -/
structure Counts (position : Position) (front : List Char) : Prop where
  offset : position.offset = Bytes.size front
  line : position.line = front.count '\n'
  column : ∃ lines opening, front = lines ++ opening ∧ (∀ c ∈ lines.getLast?, c = '\n') ∧
    '\n' ∉ opening ∧ position.column = opening.length

variable {position : Position} {front : List Char}

theorem Counts.start : start.Counts [] :=
  ⟨rfl, rfl, [], [], rfl, by simp, by simp, rfl⟩

theorem Counts.advance (counts : position.Counts front) (c : Char) :
    (position.advance c).Counts (front ++ [c]) where
  offset := by
    rw [advance_offset, counts.offset, Bytes.size_append, Bytes.size_cons, Bytes.size_nil,
      Nat.add_zero]
  line := by
    have moved := position.line_advanceAll [c]
    rw [advanceAll_cons, advanceAll_nil, counts.line] at moved
    rw [moved, List.count_append]
  column := by
    obtain ⟨lines, opening, rfl, ended, inline, column⟩ := counts.column
    by_cases newline : c = '\n'
    · subst newline
      exact ⟨lines ++ opening ++ ['\n'], [], by simp, by simp, by simp, by simp [Position.advance]⟩
    · refine ⟨lines, opening ++ [c], by simp, ended, ?_, ?_⟩
      · simp only [List.mem_append, List.mem_singleton, not_or]
        exact ⟨inline, Ne.symm newline⟩
      · simp [Position.advance, newline, column]

theorem Counts.advanceAll (counts : position.Counts front) (characters : List Char) :
    (position.advanceAll characters).Counts (front ++ characters) := by
  induction characters generalizing position front with
  | nil => simpa using counts
  | cons c rest ih =>
      rw [advanceAll_cons, List.append_cons]
      exact ih (counts.advance c)

end Position

theorem Bytes.upTo_append (front back : List Char) : upTo (front ++ back) (size front) = front := by
  induction front with
  | nil =>
      cases back with
      | nil => rfl
      | cons c rest =>
          have positive := c.utf8Size_pos
          rw [List.nil_append, size_nil, upTo, if_neg (by omega)]
  | cons c rest ih =>
      rw [List.cons_append, size_cons, upTo, if_pos (Nat.le_add_right _ _), Nat.add_sub_cancel_left,
        ih]

/-- Two texts that share their front up to some byte have the same front. -/
theorem Bytes.append_inj {front back other rest : List Char}
    (same : front ++ back = other ++ rest) (size : Bytes.size front = Bytes.size other) :
    front = other ∧ back = rest := by
  have fronts : front = other := by
    rw [← upTo_append front back, same, size, upTo_append]
  subst fronts
  exact ⟨rfl, List.append_cancel_left same⟩

namespace Location

theorem bne_of_inline {characters : List Char} (inline : '\n' ∉ characters) :
    ∀ c ∈ characters, (c != '\n') = true := by
  intro c member
  have other : c ≠ '\n' := by
    rintro rfl
    exact inline member
  simpa using other

theorem lastLine_append {lines opening : List Char} (ended : ∀ c ∈ lines.getLast?, c = '\n')
    (inline : '\n' ∉ opening) : lastLine (lines ++ opening) = opening := by
  have inside : ∀ c ∈ opening.reverse, (c != '\n') = true :=
    bne_of_inline fun member => inline (List.mem_reverse.mp member)
  have stops : lines.reverse.takeWhile (· != '\n') = [] := by
    cases parts : lines.reverse with
    | nil => rfl
    | cons last rest =>
        have newline := ended last (by simp [← List.head?_reverse, parts])
        simp [newline]
  rw [lastLine, List.reverse_append, List.takeWhile_append_of_pos inside, stops, List.append_nil,
    List.reverse_reverse]

/-- The location of an offset behind whole lines and the opening of one more. -/
theorem ofOffset_eq {source lines opening back : List Char} {offset : Nat}
    (parts : source = lines ++ opening ++ back)
    (cut : Bytes.upTo source offset = lines ++ opening)
    (ended : ∀ c ∈ lines.getLast?, c = '\n') (inline : '\n' ∉ opening) :
    ofOffset source offset =
      ⟨lines.count '\n' + 1, opening.length + 1, opening ++ back.takeWhile (· != '\n')⟩ := by
  have behind : source.drop (lines ++ opening).length = back := by
    rw [parts, List.drop_left]
  simp only [ofOffset, cut, behind, lastLine_append ended inline, List.count_append,
    List.count_eq_zero_of_not_mem inline, Nat.add_zero]

/-- A location worked out from an offset is what a position there has counted. -/
theorem ofOffset_of_counts {position : Position} {front : List Char}
    (counts : position.Counts front) (back : List Char) :
    (ofOffset (front ++ back) position.offset).line = position.line + 1 ∧
      (ofOffset (front ++ back) position.offset).column = position.column + 1 := by
  have before : Bytes.upTo (front ++ back) position.offset = front := by
    rw [counts.offset, Bytes.upTo_append]
  obtain ⟨lines, opening, parts, ended, inline, column⟩ := counts.column
  simp only [ofOffset, before]
  refine ⟨by rw [counts.line], ?_⟩
  rw [parts, lastLine_append ended inline, column]

end Location

namespace Reader

/-- The reader stands in `source`, at the place that its position tells. -/
def Within (source : List Char) (reader : Reader) : Prop :=
  ∃ front, source = front ++ reader.rest ∧ reader.position.Counts front

variable {source : List Char} {reader : Reader}

theorem within_ofString (source : String) : (ofString source).Within source.toList :=
  ⟨[], rfl, Position.Counts.start⟩

theorem Within.skip (within : reader.Within source) (count : Nat) :
    (reader.skip count).Within source := by
  obtain ⟨front, parts, counts⟩ := within
  refine ⟨front ++ reader.rest.take count, ?_, counts.advanceAll _⟩
  rw [parts, List.append_assoc, Reader.skip, List.take_append_drop]

theorem Within.location (within : reader.Within source) :
    (Location.ofOffset source reader.position.offset).line = reader.position.line + 1 ∧
      (Location.ofOffset source reader.position.offset).column = reader.position.column + 1 := by
  obtain ⟨front, rfl, counts⟩ := within
  exact Location.ofOffset_of_counts counts reader.rest

end Reader

namespace Cursor

inductive Move where
  | read
  | unread
deriving Repr, DecidableEq

def move (cursor : Cursor) : Move → Cursor
  | .read => cursor.read.2
  | .unread => cursor.unread

def moveAll (cursor : Cursor) (moves : List Move) : Cursor :=
  moves.foldl move cursor

/-- The cursor stands in `source`, and stood in it before the read that can still
be undone. -/
structure Placed (source : List Char) (cursor : Cursor) : Prop where
  here : cursor.reader.Within source
  before : ∀ reader ∈ cursor.before, reader.Within source

variable {source : List Char} {cursor : Cursor}

theorem Placed.read (placed : cursor.Placed source) : cursor.read.2.Placed source := by
  unfold Cursor.read
  split
  · exact ⟨placed.here, by simp⟩
  · refine ⟨placed.here.skip 1, ?_⟩
    intro reader same
    obtain rfl : cursor.reader = reader := by simpa using same
    exact placed.here

theorem Placed.unread (placed : cursor.Placed source) : cursor.unread.Placed source := by
  unfold Cursor.unread
  split
  · exact placed
  · rename_i reader undone
    exact ⟨placed.before reader undone, by simp⟩

theorem Placed.moveAll (placed : cursor.Placed source) (moves : List Move) :
    (cursor.moveAll moves).Placed source := by
  induction moves generalizing cursor with
  | nil => exact placed
  | cons move rest ih =>
      cases move with
      | read => exact ih placed.read
      | unread => exact ih placed.unread

theorem placed_ofString (source : String) : (ofString source).Placed source.toList :=
  ⟨Reader.within_ofString source, by simp [ofString]⟩

end Cursor

namespace Lexer

theorem Behind.within {source passed : List Char} {lexer : Lexer}
    (behind : Behind source passed lexer) : lexer.reader.Within source := by
  have counts := Position.Counts.start.advanceAll passed
  rw [← behind.place] at counts
  exact ⟨passed, behind.text, counts⟩

theorem Transition.start {lexer : Lexer} {step : Step} (transition : lexer.Transition step) :
    step.token.line = lexer.position.line ∧ step.token.column = lexer.position.column := by
  cases transition with
  | close atEnd => exact ⟨rfl, rfl⟩
  | shift next waits resolved => exact ⟨rfl, rfl⟩
  | read next ready =>
      rw [stepAt_eq]
      exact ⟨rfl, rfl⟩

end Lexer

/-- The place of a token counts what stands before it. -/
theorem counts_of_mem_tokens {source : String} {token : Token} (member : token ∈ tokens source) :
    ∃ front back, source.toList = front ++ back ∧
      Position.Counts ⟨token.span.start, token.line, token.column⟩ front := by
  obtain ⟨step, among, rfl⟩ := List.mem_map.mp member
  obtain ⟨passed, reached, behind, rfl⟩ := steps_behind among
  obtain ⟨line, column⟩ := reached.step_transition.start
  have start : reached.step.token.span.start = reached.position.offset := by
    rw [reached.step_transition.span]
  obtain ⟨front, parts, counts⟩ := behind.within
  rw [start, line, column]
  exact ⟨front, _, parts, counts⟩

theorem location_of_mem_tokens {source : String} {token : Token} (member : token ∈ tokens source) :
    (Location.ofOffset source.toList token.span.start).line = token.line + 1 ∧
      (Location.ofOffset source.toList token.span.start).column = token.column + 1 := by
  obtain ⟨front, back, parts, counts⟩ := counts_of_mem_tokens member
  rw [parts]
  exact Location.ofOffset_of_counts counts back

/-- Every token tells the line and the column at which its offset is located, and
so does a cursor wherever reading and unreading lead it. Both are counts of what
stands before the place. -/
theorem positions_located (source : String) :
    (∀ token ∈ tokens source,
      (Location.ofOffset source.toList token.span.start).line = token.line + 1 ∧
        (Location.ofOffset source.toList token.span.start).column = token.column + 1 ∧
        ∃ front back, source.toList = front ++ back ∧
          Position.Counts ⟨token.span.start, token.line, token.column⟩ front) ∧
      ∀ moves,
        let position := ((Cursor.ofString source).moveAll moves).position
        (Location.ofOffset source.toList position.offset).line = position.line + 1 ∧
          (Location.ofOffset source.toList position.offset).column = position.column + 1 ∧
          ∃ front back, source.toList = front ++ back ∧ position.Counts front := by
  refine ⟨fun token member => ?_, fun moves => ?_⟩
  · obtain ⟨line, column⟩ := location_of_mem_tokens member
    exact ⟨line, column, counts_of_mem_tokens member⟩
  · have placed := (Cursor.placed_ofString source).moveAll moves
    obtain ⟨front, parts, counts⟩ := placed.here
    exact ⟨placed.here.location.1, placed.here.location.2, front, _, parts, counts⟩

end SpinBlocks
