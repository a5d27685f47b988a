import SpinBlocks.Source
import SpinBlocks.Text

namespace SpinBlocks

/-! Error reports: a code, a message, the place in the source it is about, and
sometimes a hint. -/

inductive Code where
  | illegalToken
  | unexpectedEnd
  | noDigits
  | invalidDigit
  | tooLarge
  | unexpectedToken
  | expectedBlock
  | expectedName
  | expectedAssignment
  | expectedValue
deriving Repr, DecidableEq

namespace Code

def all : List Code :=
  [ .illegalToken, .unexpectedEnd, .noDigits, .invalidDigit, .tooLarge, .unexpectedToken,
    .expectedBlock, .expectedName, .expectedAssignment, .expectedValue ]

def text : Code → String
  | .illegalToken => "E001"
  | .unexpectedEnd => "E010"
  | .noDigits => "E020"
  | .invalidDigit => "E021"
  | .tooLarge => "E022"
  | .unexpectedToken => "E100"
  | .expectedBlock => "E101"
  | .expectedName => "E104"
  | .expectedAssignment => "E105"
  | .expectedValue => "E106"

end Code

structure Diagnostic where
  code : Code
  message : String
  span : Span
  hint : Option String
deriving Repr, DecidableEq

namespace Diagnostic

def summary (diagnostic : Diagnostic) : String :=
  "[" ++ diagnostic.code.text ++ "] " ++ diagnostic.message

/-- How many carets stand under the line at `location`, for a span of `length`
bytes: one for each byte, but no more than the line has characters left, and
never none. -/
def caretCount (location : Location) (length : Nat) : Nat :=
  min (max length 1) (max (location.content.length - (location.column - 1)) 1)

/-- The line of carets, which begins under the column of the location. -/
def carets? (location : Location) (length : Nat) : Option String :=
  (Text.margin? (location.column - 1)).map
    (· ++ String.ofList (List.replicate (caretCount location length) '^'))

theorem carets?_of_le {location : Location} (length : Nat)
    (fits : location.column - 1 ≤ Text.widest) :
    carets? location length = some (Text.blanks (location.column - 1) ++
      String.ofList (List.replicate (caretCount location length) '^')) := by
  rw [carets?, Text.margin?_of_le fits, Option.map_some]

theorem carets?_of_lt {location : Location} (length : Nat)
    (beyond : Text.widest < location.column - 1) : carets? location length = none := by
  rw [carets?, Text.margin?_of_lt beyond, Option.map_none]

/-- Blanks as wide as the number of the line, which is never near the widest margin. -/
def gutter (location : Location) : String :=
  Text.blanks location.line.repr.length

def heading (diagnostic : Diagnostic) (filename : Option String) (location : Location) : String :=
  "error[" ++ diagnostic.code.text ++ "]: " ++ diagnostic.message ++ "\n" ++
  "  --> " ++ filename.getD "<input>" ++ ":" ++ location.line.repr ++ ":" ++
  location.column.repr ++ "\n" ++
  gutter location ++ " |\n"

def advice (diagnostic : Diagnostic) (location : Location) : String :=
  match diagnostic.hint with
  | some hint => gutter location ++ " = hint: " ++ hint ++ "\n"
  | none => ""

/-- A report around the line at `location` and the carets under it. -/
def layOut (diagnostic : Diagnostic) (filename : Option String) (location : Location)
    (carets : String) : String :=
  diagnostic.heading filename location ++
  (location.line.repr ++ " | " ++ String.ofList location.content ++ "\n") ++
  (gutter location ++ " | " ++ carets ++ "\n") ++
  diagnostic.advice location

/-- The full report, with the source line it is about. There is none for a span that
ends before it starts, nor for one that starts too far to the right. -/
def render? (diagnostic : Diagnostic) (source : String) (filename : Option String) :
    Option String := do
  let location := Location.ofOffset source.toList diagnostic.span.start
  let length ← diagnostic.span.length?
  let carets ← carets? location length
  return diagnostic.layOut filename location carets

theorem render?_eq_some {diagnostic : Diagnostic} {source carets : String} {length : Nat}
    (measured : diagnostic.span.length? = some length)
    (underlined : carets? (Location.ofOffset source.toList diagnostic.span.start) length =
      some carets) (filename : Option String) :
    diagnostic.render? source filename = some (diagnostic.layOut filename
      (Location.ofOffset source.toList diagnostic.span.start) carets) := by
  simp [render?, measured, underlined]

theorem exists_render_iff {diagnostic : Diagnostic} {source : String} {filename : Option String} :
    (∃ text, diagnostic.render? source filename = some text) ↔
      diagnostic.span.start ≤ diagnostic.span.stop ∧
        (Location.ofOffset source.toList diagnostic.span.start).column - 1 ≤ Text.widest := by
  rcases Nat.lt_or_ge diagnostic.span.stop diagnostic.span.start with reversed | ordered
  · simp [render?, Span.length?_of_lt reversed, Nat.not_le_of_lt reversed]
  · rcases Nat.lt_or_ge Text.widest
        ((Location.ofOffset source.toList diagnostic.span.start).column - 1) with beyond | fits
    · simp [render?, Span.length?_of_le ordered, carets?_of_lt _ beyond, Nat.not_le_of_lt beyond]
    · exact iff_of_true
        ⟨_, render?_eq_some (Span.length?_of_le ordered) (carets?_of_le _ fits) filename⟩
        ⟨ordered, fits⟩

end Diagnostic

end SpinBlocks
