namespace SpinBlocks

namespace Bytes

/-! Cutting a list of characters at byte offsets.

Offsets count bytes of the UTF-8 form, so an offset can fall inside a
character. A strict cut refuses such an offset; `upTo` moves back to the last
boundary before it.
-/

def size : List Char → Nat
  | [] => 0
  | character :: rest => character.utf8Size + size rest

@[simp] theorem size_nil : size [] = 0 := rfl

@[simp] theorem size_cons (character : Char) (rest : List Char) :
    size (character :: rest) = character.utf8Size + size rest := rfl

@[simp] theorem size_append (first second : List Char) :
    size (first ++ second) = size first + size second := by
  induction first with
  | nil => simp
  | cons character rest ih => simp [ih, Nat.add_assoc]

/-- What is left behind the first `count` bytes, if a character ends there. -/
def drop? : List Char → Nat → Option (List Char)
  | characters, 0 => some characters
  | [], _ + 1 => none
  | character :: rest, count + 1 =>
      if character.utf8Size ≤ count + 1 then drop? rest (count + 1 - character.utf8Size) else none

/-- The first `count` bytes, if a character ends there. -/
def take? : List Char → Nat → Option (List Char)
  | _, 0 => some []
  | [], _ + 1 => none
  | character :: rest, count + 1 =>
      if character.utf8Size ≤ count + 1 then
        (take? rest (count + 1 - character.utf8Size)).map (character :: ·)
      else
        none

/-- The characters between two offsets. There are none to give where the second
offset lies before the first, or either one inside a character or past the end. -/
def slice? (characters : List Char) (start stop : Nat) : Option (List Char) :=
  if stop < start then none
  else (drop? characters start).bind (take? · (stop - start))

/-- The characters that end at `offset` or before it. -/
def upTo : List Char → Nat → List Char
  | [], _ => []
  | character :: rest, offset =>
      if character.utf8Size ≤ offset then character :: upTo rest (offset - character.utf8Size)
      else []

/-- Whether a character begins at `offset`, or the text ends there. -/
def isBoundary (characters : List Char) (offset : Nat) : Bool :=
  (drop? characters offset).isSome

/-- The boundary at `offset` or else the last one before it, looked for byte by
byte. The start of a text is always one. -/
def floor (characters : List Char) : Nat → Nat
  | 0 => 0
  | offset + 1 =>
      if isBoundary characters (offset + 1) then offset + 1 else floor characters offset

/-- The offset at which `wanted` stands first. -/
def find? (wanted : Char) : List Char → Option Nat
  | [] => none
  | character :: rest =>
      if character = wanted then some 0 else (find? wanted rest).map (character.utf8Size + ·)

/-- The offset at which `wanted` stands last. -/
def findLast? (wanted : Char) : List Char → Option Nat
  | [] => none
  | character :: rest =>
      match findLast? wanted rest with
      | some offset => some (character.utf8Size + offset)
      | none => if character = wanted then some 0 else none

end Bytes

/-! Stretches of a source text, as a pair of byte offsets.

A span that comes from a text never ends before it starts, but nothing in the
type says so: spans are also handed in from outside. Its length is therefore
`none` where the end lies before the start.
-/

structure Span where
  start : Nat
  stop : Nat
deriving Repr, DecidableEq

namespace Span

def length? (span : Span) : Option Nat :=
  if span.stop < span.start then none else some (span.stop - span.start)

theorem length?_of_le {span : Span} (ordered : span.start ≤ span.stop) :
    span.length? = some (span.stop - span.start) :=
  if_neg (Nat.not_lt_of_le ordered)

theorem length?_of_lt {span : Span} (reversed : span.stop < span.start) : span.length? = none :=
  if_pos reversed

def isEmpty (span : Span) : Bool :=
  span.start == span.stop

/-- The least span that covers both. -/
def merge (first second : Span) : Span :=
  ⟨min first.start second.start, max first.stop second.stop⟩

end Span

/-! A place in a source text, told in three ways at once.

The offset counts bytes of the text's UTF-8 form; the line and the column count
from zero, and the column counts characters. `advance` is the only rule that
moves a position, so the three never drift apart.
-/

structure Position where
  offset : Nat
  line : Nat
  column : Nat
deriving Repr, DecidableEq

namespace Position

def start : Position := ⟨0, 0, 0⟩

/-- The place right behind `character`, which stands at `position`. -/
def advance (position : Position) (character : Char) : Position :=
  if character = '\n' then
    ⟨position.offset + character.utf8Size, position.line + 1, 0⟩
  else
    ⟨position.offset + character.utf8Size, position.line, position.column + 1⟩

def advanceAll (position : Position) (characters : List Char) : Position :=
  characters.foldl advance position

@[simp] theorem advanceAll_nil (position : Position) : position.advanceAll [] = position := rfl

@[simp] theorem advanceAll_cons (position : Position) (character : Char) (rest : List Char) :
    position.advanceAll (character :: rest) = (position.advance character).advanceAll rest := rfl

@[simp] theorem advanceAll_append (position : Position) (first second : List Char) :
    position.advanceAll (first ++ second) = (position.advanceAll first).advanceAll second :=
  List.foldl_append

theorem advance_offset (position : Position) (character : Char) :
    (position.advance character).offset = position.offset + character.utf8Size := by
  unfold advance
  split <;> rfl

theorem advanceAll_offset (position : Position) (characters : List Char) :
    (position.advanceAll characters).offset = position.offset + Bytes.size characters := by
  induction characters generalizing position with
  | nil => rfl
  | cons character rest ih =>
      rw [advanceAll_cons, ih, advance_offset, Bytes.size_cons, Nat.add_assoc]

end Position

/-! What is left of a source text, and where that rest begins. -/

structure Reader where
  position : Position
  rest : List Char
deriving Repr, DecidableEq

namespace Reader

def ofString (source : String) : Reader :=
  ⟨.start, source.toList⟩

/-- Moves past the next `count` characters, or to the end if there are fewer. -/
def skip (reader : Reader) (count : Nat) : Reader :=
  ⟨reader.position.advanceAll (reader.rest.take count), reader.rest.drop count⟩

@[simp] theorem skip_zero (reader : Reader) : reader.skip 0 = reader := by
  simp [skip]

theorem skip_skip (reader : Reader) (first second : Nat) :
    (reader.skip first).skip second = reader.skip (first + second) := by
  simp [skip, List.take_add, List.drop_drop]

end Reader

/-! Where a byte offset lies, in the terms an editor shows: line and column,
both from one, and the text of that line. -/

structure Location where
  line : Nat
  column : Nat
  content : List Char
deriving Repr, DecidableEq

namespace Location

def lastLine (characters : List Char) : List Char :=
  (characters.reverse.takeWhile (· != '\n')).reverse

/-- The location of `offset`. An offset past the end is taken as the end, and
one inside a character as that character's start. -/
def ofOffset (source : List Char) (offset : Nat) : Location :=
  let before := Bytes.upTo source offset
  let opening := lastLine before
  { line := before.count '\n' + 1
    column := opening.length + 1
    content := opening ++ (source.drop before.length).takeWhile (· != '\n') }

/-- The same location, worked out by offsets alone: the text is cut at the last
boundary, and its line at the nearest line feeds on both sides. Every cut is
strict, so it is refused where it does not fall on a boundary. -/
def ofOffset? (source : List Char) (offset : Nat) : Option Location := do
  let place := Bytes.floor source (min offset (Bytes.size source))
  let before ← Bytes.take? source place
  let start := (Bytes.findLast? '\n' before).elim 0 (· + 1)
  let opening ← Bytes.drop? before start
  let behind ← Bytes.drop? source place
  let stop := (Bytes.find? '\n' behind).elim (Bytes.size source) (place + ·)
  let content ← Bytes.slice? source start stop
  return { line := before.count '\n' + 1, column := opening.length + 1, content }

end Location

end SpinBlocks
