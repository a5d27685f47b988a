import SpinBlocks.Layout
import SpinBlocks.Lexeme
import SpinBlocks.Source

namespace SpinBlocks

/-! From text to tokens, one token at a time.

The lexer adds to the lexemes what they do not know themselves: where they
stand, which region they belong to, and the tokens that mark a change of
indentation. A fault never stops it; it becomes a token like any other.
-/

structure Lexer where
  reader : Reader
  region : Region
  layout : Layout
deriving Repr, DecidableEq

/-- One token, the characters it covers, and the lexer behind it. -/
structure Step where
  token : Token
  covered : List Char
  after : Lexer
deriving Repr, DecidableEq

namespace Lexer

def ofString (source : String) : Lexer :=
  ⟨.ofString source, .outside, .initial⟩

def position (lexer : Lexer) : Position :=
  lexer.reader.position

def tokenFrom (lexer : Lexer) (start : Position) (kind : Kind) (text : String) : Token :=
  .between kind text lexer.region start lexer.position.offset

def marker (lexer : Lexer) (kind : Kind) : Token :=
  lexer.tokenFrom lexer.position kind ""

def accept (lexer : Lexer) (expected : Char) : Bool × Lexer :=
  if lexer.reader.rest.head? = some expected then
    (true, { lexer with reader := lexer.reader.skip 1 })
  else
    (false, lexer)

def enterRegion (lexer : Lexer) (region : Region) : Lexer :=
  { lexer with region, layout := lexer.layout.openBlock }

def beginLine (lexer : Lexer) : Lexer :=
  if lexer.region = .methods then { lexer with layout := lexer.layout.beginLine } else lexer

def noteBlanks (lexer : Lexer) (column width : Nat) : Lexer :=
  { lexer with layout := lexer.layout.noteBlanks column width }

/-- What a lexeme that begins at `start` changes besides the place. -/
def apply (lexer : Lexer) (start : Position) (lexeme : Lexeme) : Lexer :=
  match lexeme.kind with
  | .newline => lexer.beginLine
  | .space => lexer.noteBlanks start.column lexeme.text.length
  | .keyword (.block kind) => lexer.enterRegion kind.region
  | _ => lexer

/-- Takes a lexeme whose token begins at `start`. A block keyword belongs to the
region that it opens. -/
def take (lexer : Lexer) (start : Position) (lexeme : Lexeme) : Token × Lexer :=
  let after := { lexer with reader := lexer.reader.skip lexeme.length }.apply start lexeme
  (after.tokenFrom start lexeme.kind lexeme.text, after)

def takeHere (lexer : Lexer) (lexeme : Lexeme) : Token × Lexer :=
  lexer.take lexer.position lexeme

/-- Takes the rest of an operator that `first` begins, where `first` itself is
not part of the text. -/
def takeSymbol (lexer : Lexer) (first : Char) : Token × Lexer :=
  let lexeme := Lexeme.symbol first lexer.reader.rest
  let written := lexer.reader.rest.take lexeme.length
  lexer.takeHere { lexeme with text := String.ofList written }

def takeDigits (lexer : Lexer) (radix : Radix) : List Char × Lexer :=
  let digits := Lexeme.digits radix lexer.reader.rest
  (digits, { lexer with reader := lexer.reader.skip digits.length })

/-- Takes the rest of a character code that begins with `first`: the character,
or the digits if they are no code. -/
def takeCode (lexer : Lexer) (first : Char) : Except (List Char) Char × Lexer :=
  let more := lexer.reader.rest.takeWhile Character.isDecimalDigit
  let result := match Lexeme.Quotation.decode? (first :: more) with
    | some decoded => .ok decoded
    | none => .error (first :: more)
  (result, { lexer with reader := lexer.reader.skip more.length })

/-- Resolves the indentation of the line by one step. Nothing is left to say
once there is no token. -/
def resolveLine (lexer : Lexer) : Option Token × Lexer :=
  let (shift?, layout) := lexer.layout.resolve
  let after := { lexer with layout }
  match shift? with
  | some .indent => (some (after.marker .indent), after)
  | some .dedent => (some (after.marker .dedent), after)
  | some .inconsistent => (some (after.marker .illegal), after)
  | none => (none, after)

/-- At the end of the text, closes the open levels one by one; then the end
itself is the token, as often as it is asked for. -/
def endOfInput (lexer : Lexer) : Token × Lexer :=
  let (closed, layout) := lexer.layout.finish
  let after := { lexer with layout }
  (after.marker (if closed then .dedent else .eof), after)

def stepAt (lexer : Lexer) (first : Char) (rest : List Char) : Step :=
  let lexeme := Lexeme.scan first rest
  let (token, after) := { lexer with reader := lexer.reader.skip 1 }.take lexer.position lexeme
  ⟨token, first :: rest.take lexeme.length, after⟩

/-- The next token. The first significant character of a line waits until the
line's indentation is resolved. -/
def step (lexer : Lexer) : Step :=
  match lexer.reader.rest with
  | [] =>
      let (token, after) := lexer.endOfInput
      ⟨token, [], after⟩
  | first :: rest =>
      if lexer.layout.pending && Character.isSignificant first then
        match lexer.resolveLine with
        | (some token, after) => ⟨token, [], after⟩
        | (none, after) => after.stepAt first rest
      else
        lexer.stepAt first rest

end Lexer

end SpinBlocks
