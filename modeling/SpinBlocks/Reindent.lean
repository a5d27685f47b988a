import SpinBlocks.ParseError
import SpinBlocks.TokenStream

namespace SpinBlocks

/-! Putting the lines of methods at their proper indentation.

A line of a method, at depth `d` of its indentation, begins with `d + 1` units
of blanks, and every other line with the blanks it has. Blanks at the end of a
line go; all other text stays as it is.
-/

namespace Reindent

def unit : String := "  "

def indentation (depth : Nat) : List Char :=
  (List.replicate (depth + 1) unit.toList).flatten

/-- The text so far, its last character first. While no token of the line has
been written, `leading` holds the blanks that the line begins with. -/
structure Draft where
  written : List Char
  depth : Nat
  atLineStart : Bool
  leading : List Char
deriving Repr, DecidableEq

namespace Draft

def initial : Draft := ⟨[], 0, true, []⟩

def trim (draft : Draft) : Draft :=
  { draft with written := draft.written.dropWhile Character.isSpace }

def append (draft : Draft) (text : List Char) : Draft :=
  { draft with written := text.reverse ++ draft.written }

def endLine (draft : Draft) : Draft :=
  { draft.trim.append ['\n'] with atLineStart := true, leading := [] }

/-- The blanks before the first token of a line. -/
def margin (draft : Draft) (token : Token) : List Char :=
  if token.region = .methods && !token.kind.isBlockKeyword then indentation draft.depth
  else draft.leading

/-- Writes what `token` covers, with the margin if the line begins here. -/
def write (draft : Draft) (token : Token) (covered : List Char) : Draft :=
  if draft.atLineStart then
    { (draft.append (draft.margin token)).append covered with atLineStart := false }
  else
    draft.append covered

/-- The draft with one more token, which covers the characters `covered`. -/
def add (draft : Draft) (token : Token) (covered : List Char) : Draft :=
  match token.kind with
  | .eof => draft
  | .indent => { draft with depth := draft.depth + 1 }
  | .dedent => { draft with depth := draft.depth - 1 }
  | .newline => draft.endLine
  | .space =>
      if draft.atLineStart then { draft with leading := covered } else draft.write token covered
  | _ => draft.write token covered

/-- The draft with more steps, up to the first fault among them. -/
def addAll (draft : Draft) : List Step → Except ParseError Draft
  | [] => .ok draft
  | step :: rest =>
      match step.token.fault? with
      | some error => .error error
      | none => (draft.add step.token step.covered).addAll rest

def text (draft : Draft) : String :=
  String.ofList draft.trim.written.reverse

end Draft

end Reindent

/-- The source text with its methods indented anew, or its first fault. -/
def reindent (source : String) : Except ParseError String :=
  (Reindent.Draft.initial.addAll (steps source)).map (·.text)

end SpinBlocks
