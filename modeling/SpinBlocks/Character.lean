namespace SpinBlocks

namespace Character

/-! The character classes of the language. All of them are sets of ASCII
characters, except the significant ones, which are all the rest. -/

def isSpace (c : Char) : Bool := c == ' ' || c == '\t'

def isNewline (c : Char) : Bool := c == '\n'

def isIdentifierStart (c : Char) : Bool := c.isAlpha || c == '_'

def isBinaryDigit (c : Char) : Bool := c == '0' || c == '1'

def isQuaternaryDigit (c : Char) : Bool := '0' ≤ c && c ≤ '3'

def isDecimalDigit (c : Char) : Bool := c.isDigit

def isHexadecimalDigit (c : Char) : Bool :=
  c.isDigit || ('a' ≤ c && c ≤ 'f') || ('A' ≤ c && c ≤ 'F')

def isIdentifierContinue (c : Char) : Bool := isIdentifierStart c || isDecimalDigit c

/-- An underscore may stand anywhere among the digits of a number. -/
def isGroupSeparator (c : Char) : Bool := c == '_'

def isLineCommentStart (c : Char) : Bool := c == '\''

def isBlockCommentStart (c : Char) : Bool := c == '\x7b'

def isBlockCommentEnd (c : Char) : Bool := c == '\x7d'

/-- A significant character settles the indentation of its line. Blanks, line
ends and comments leave it open. -/
def isSignificant (c : Char) : Bool :=
  !isSpace c && !isNewline c && !isLineCommentStart c && !isBlockCommentStart c

end Character

/-! The four ways to write a number: `%1010`, `%%0123`, `123` and `$FF`. -/

inductive Radix where
  | binary
  | quaternary
  | decimal
  | hexadecimal
deriving Repr, DecidableEq

namespace Radix

def all : List Radix := [.binary, .quaternary, .decimal, .hexadecimal]

def base : Radix → Nat
  | .binary => 2
  | .quaternary => 4
  | .decimal => 10
  | .hexadecimal => 16

/-- What stands before the digits. -/
def sigil : Radix → String
  | .binary => "%"
  | .quaternary => "%%"
  | .decimal => ""
  | .hexadecimal => "$"

def isDigit : Radix → Char → Bool
  | .binary => Character.isBinaryDigit
  | .quaternary => Character.isQuaternaryDigit
  | .decimal => Character.isDecimalDigit
  | .hexadecimal => Character.isHexadecimalDigit

end Radix

namespace Numeral

/-! The value of a row of digits, as a number of 32 bits.

Digits are read from the left, and the first fault met decides: a character
that is no digit of the base, or a value that no longer fits. One `+` may stand
before the digits.
-/

/-- The least number that no longer fits. -/
def limit : Nat := 4294967296

inductive Fault where
  | invalidDigit
  | tooLarge
deriving Repr, DecidableEq

def digit? (base : Nat) (c : Char) : Option Nat :=
  let value :=
    if c.isDigit then c.toNat - '0'.toNat
    else if c.isLower then c.toNat - 'a'.toNat + 10
    else if c.isUpper then c.toNat - 'A'.toNat + 10
    else base
  if value < base then some value else none

def extend (base value : Nat) : List Char → Except Fault Nat
  | [] => .ok value
  | c :: rest =>
      match digit? base c with
      | none => .error .invalidDigit
      | some digit =>
          if value * base + digit < limit then extend base (value * base + digit) rest
          else .error .tooLarge

/-- The value of a text that is meant as a number. No digits at all, with a sign
or without, are no number. -/
def parse (base : Nat) : List Char → Except Fault Nat
  | [] => .error .invalidDigit
  | ['+'] => .error .invalidDigit
  | '+' :: digits => extend base 0 digits
  | digits => extend base 0 digits

end Numeral

end SpinBlocks
