import SpinBlocks.Character
import SpinBlocks.Keyword
import SpinBlocks.Operator
import SpinBlocks.Source

namespace SpinBlocks

/-! Tokens.

Blanks, line ends and comments are tokens as well, and so are the faults of a
text: an `illegal` token stands where nothing valid could be read, and an
`unexpectedEof` token where the text ended inside a string or a comment.
-/

inductive Kind where
  | eof
  | illegal
  | unexpectedEof
  | space
  | newline
  | indent
  | dedent
  | identifier
  | number (radix : Radix)
  | string
  | comment
  | docComment
  | keyword (word : Keyword)
  | operator (symbol : Operator)
deriving Repr, DecidableEq

namespace Kind

def numberName : Radix → String
  | .binary => "BINARY_NUMBER"
  | .quaternary => "QUATERNARY_NUMBER"
  | .decimal => "DECIMAL_NUMBER"
  | .hexadecimal => "HEXADECIMAL_NUMBER"

/-- The name shown in a token listing. A keyword goes by its spelling. -/
def name : Kind → String
  | .eof => "EOF"
  | .illegal => "ILLEGAL"
  | .unexpectedEof => "UNEXPECTED_EOF"
  | .space => "SPACE"
  | .newline => "NEWLINE"
  | .indent => "INDENT"
  | .dedent => "DEDENT"
  | .identifier => "IDENTIFIER"
  | .number radix => numberName radix
  | .string => "STRING"
  | .comment => "COMMENT"
  | .docComment => "DOC_COMMENT"
  | .keyword word => word.spelling
  | .operator symbol => symbol.name

def radix? : Kind → Option Radix
  | .number radix => some radix
  | _ => none

def isNumber (kind : Kind) : Bool := kind.radix?.isSome

def block? : Kind → Option BlockKind
  | .keyword (.block kind) => some kind
  | _ => none

def isBlockKeyword (kind : Kind) : Bool := kind.block?.isSome

/-- Trivia may stand between any two tokens of a block. -/
def isTrivia : Kind → Bool
  | .space | .newline | .comment | .docComment => true
  | _ => false

def isFault : Kind → Bool
  | .illegal | .unexpectedEof => true
  | _ => false

/-- A block runs up to the next block keyword or the end of the text. -/
def endsBlock (kind : Kind) : Bool := kind == .eof || kind.isBlockKeyword

end Kind

/-- A token.

The text of a number lacks its sigil, that of a string its quotes and escapes,
that of a comment its delimiters; any other text is as written. The line and
column are those of the first character. Tokens that only mark layout, and the
end of the text, cover nothing. -/
structure Token where
  kind : Kind
  text : String
  region : Region
  line : Nat
  column : Nat
  span : Span
deriving Repr, DecidableEq

namespace Token

def between (kind : Kind) (text : String) (region : Region) (start : Position) (stop : Nat) :
    Token :=
  ⟨kind, text, region, start.line, start.column, ⟨start.offset, stop⟩⟩

def describe (token : Token) : String :=
  match token.kind with
  | .eof => "end of input"
  | .indent | .dedent => token.kind.name
  | .newline => "newline"
  | .string => "\"" ++ token.text ++ "\""
  | _ => "'" ++ token.text ++ "'"

end Token

end SpinBlocks
