import SpinBlocks.Source

namespace SpinBlocks

/-! Reading one character at a time, with one character of pushback.

`before` is the reader as it stood before the last character was read, and is
there only while that character may still be pushed back: one `unread` uses it
up, and reading at the end of the text leaves nothing to push back.
-/

structure Cursor where
  source : List Char
  reader : Reader
  before : Option Reader
deriving Repr, DecidableEq

namespace Cursor

def ofString (source : String) : Cursor :=
  ⟨source.toList, .ofString source, none⟩

def position (cursor : Cursor) : Position :=
  cursor.reader.position

def isAtEnd (cursor : Cursor) : Bool :=
  cursor.reader.rest.isEmpty

/-- The next character, if there is one, and the cursor behind it. -/
def read (cursor : Cursor) : Option Char × Cursor :=
  match cursor.reader.rest with
  | [] => (none, { cursor with before := none })
  | character :: _ =>
      (some character, { cursor with reader := cursor.reader.skip 1, before := some cursor.reader })

/-- Undoes the last `read`, if it gave a character and was not undone yet. -/
def unread (cursor : Cursor) : Cursor :=
  match cursor.before with
  | none => cursor
  | some reader => { cursor with reader, before := none }

/-- The source from byte offset `start` up to the cursor, unless `start` lies
behind the cursor or inside a character. -/
def sliceFrom? (cursor : Cursor) (start : Nat) : Option (List Char) :=
  Bytes.slice? cursor.source start cursor.position.offset

end Cursor

/-! Reading with pushback, where only counts are kept.

The next character is found by a cut of the text at the offset, and pushing a
character back takes away again what it added to the counts. The one count that
cannot be had in this way is the column in front of a line feed, so that is kept
when the line feed is read. A cut that falls on no boundary is refused, and so is
a count below zero.
-/

/-- What is left of `total` without `count`, which must not be more. -/
def less? (total count : Nat) : Option Nat :=
  if total < count then none else some (total - count)

namespace Position

/-- The place in front of `character`, which ends at `position`. In front of a line
feed the column is `lastColumn`. -/
def retreat? (position : Position) (character : Char) (lastColumn : Nat) : Option Position := do
  let offset ← less? position.offset character.utf8Size
  if character = '\n' then
    return ⟨offset, ← less? position.line 1, lastColumn⟩
  else
    return ⟨offset, position.line, ← less? position.column 1⟩

end Position

/-- `last` is the character of the last `read`, while it may be pushed back, and
`lastColumn` the column in front of the last line feed that was read. -/
structure Tally where
  source : List Char
  position : Position
  last : Option Char
  lastColumn : Nat
deriving Repr, DecidableEq

namespace Tally

def ofString (source : String) : Tally :=
  ⟨source.toList, .start, none, 0⟩

def isAtEnd (tally : Tally) : Bool :=
  Bytes.size tally.source ≤ tally.position.offset

/-- The tally behind `character`, which it reads. -/
def behind (tally : Tally) (character : Char) : Tally :=
  { tally with
    position := tally.position.advance character
    last := some character
    lastColumn := if character = '\n' then tally.position.column else tally.lastColumn }

/-- The next character, if there is one, and the tally behind it. -/
def read? (tally : Tally) : Option (Option Char × Tally) :=
  (Bytes.drop? tally.source tally.position.offset).map fun
    | [] => (none, { tally with last := none })
    | character :: _ => (some character, tally.behind character)

/-- Undoes the last `read`, if it gave a character and was not undone yet. -/
def unread? (tally : Tally) : Option Tally :=
  match tally.last with
  | none => some tally
  | some character =>
      (tally.position.retreat? character tally.lastColumn).map fun position =>
        { tally with position, last := none }

/-- The source from byte offset `start` up to the tally, unless `start` lies behind
the tally or inside a character. -/
def sliceFrom? (tally : Tally) (start : Nat) : Option (List Char) :=
  Bytes.slice? tally.source start tally.position.offset

end Tally

end SpinBlocks
