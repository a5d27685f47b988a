namespace SpinBlocks

/-! Operators and punctuation, and how they are spelled.

An operator is one character or two, and `singles` and `pairs` list them. The
characters `%` and `$` also open numbers, so the operators they spell are found
along with those. An opening brace always opens a comment; its operator is
reserved and has no spelling.
-/

inductive Operator where
  | add
  | addAssign
  | subtract
  | subtractAssign
  | multiply
  | multiplyAssign
  | divide
  | divideAssign
  | modulo
  | moduloAssign
  | assign
  | equalTo
  | lessThan
  | lessThanEqualTo
  | greaterThan
  | greaterThanEqualTo
  | bitwiseAnd
  | bitwiseAndAssign
  | bitwiseOr
  | bitwiseOrAssign
  | bitwiseXor
  | bitwiseXorAssign
  | bitwiseNot
  | shiftLeft
  | shiftRight
  | rotateLeft
  | rotateRight
  | reverse
  | signedShiftRight
  | signExtend7
  | signExtend15
  | atSign
  | pound
  | dollar
  | dot
  | range
  | comma
  | colon
  | parenOpen
  | parenClose
  | bracketOpen
  | bracketClose
  | braceOpen
  | braceClose
deriving Repr, DecidableEq

namespace Operator

def all : List Operator :=
  [ .add, .addAssign, .subtract, .subtractAssign, .multiply, .multiplyAssign, .divide,
    .divideAssign, .modulo, .moduloAssign, .assign, .equalTo, .lessThan, .lessThanEqualTo,
    .greaterThan, .greaterThanEqualTo, .bitwiseAnd, .bitwiseAndAssign, .bitwiseOr,
    .bitwiseOrAssign, .bitwiseXor, .bitwiseXorAssign, .bitwiseNot, .shiftLeft, .shiftRight,
    .rotateLeft, .rotateRight, .reverse, .signedShiftRight, .signExtend7, .signExtend15, .atSign,
    .pound, .dollar, .dot, .range, .comma, .colon, .parenOpen, .parenClose, .bracketOpen,
    .bracketClose, .braceOpen, .braceClose ]

def name : Operator → String
  | .add => "ADD"
  | .addAssign => "ADD_ASSIGN"
  | .subtract => "SUBTRACT"
  | .subtractAssign => "SUBTRACT_ASSIGN"
  | .multiply => "MULTIPLY"
  | .multiplyAssign => "MULTIPLY_ASSIGN"
  | .divide => "DIVIDE"
  | .divideAssign => "DIVIDE_ASSIGN"
  | .modulo => "MODULO"
  | .moduloAssign => "MODULO_ASSIGN"
  | .assign => "ASSIGN"
  | .equalTo => "EQUAL_TO"
  | .lessThan => "LESS_THAN"
  | .lessThanEqualTo => "LESS_THAN_EQUAL_TO"
  | .greaterThan => "GREATER_THAN"
  | .greaterThanEqualTo => "GREATER_THAN_EQUAL_TO"
  | .bitwiseAnd => "BITWISE_AND"
  | .bitwiseAndAssign => "BITWISE_AND_ASSIGN"
  | .bitwiseOr => "BITWISE_OR"
  | .bitwiseOrAssign => "BITWISE_OR_ASSIGN"
  | .bitwiseXor => "BITWISE_XOR"
  | .bitwiseXorAssign => "BITWISE_XOR_ASSIGN"
  | .bitwiseNot => "BITWISE_NOT"
  | .shiftLeft => "BITWISE_SHIFT_LEFT"
  | .shiftRight => "BITWISE_SHIFT_RIGHT"
  | .rotateLeft => "BITWISE_ROTATE_LEFT"
  | .rotateRight => "BITWISE_ROTATE_RIGHT"
  | .reverse => "BITWISE_REVERSE"
  | .signedShiftRight => "BITWISE_SIGNED_SHIFT_RIGHT"
  | .signExtend7 => "BITWISE_SIGN_EXTEND_7"
  | .signExtend15 => "BITWISE_SIGN_EXTEND_15"
  | .atSign => "AT"
  | .pound => "POUND"
  | .dollar => "DOLLAR"
  | .dot => "DOT"
  | .range => "RANGE"
  | .comma => "COMMA"
  | .colon => "COLON"
  | .parenOpen => "PAREN_OPEN"
  | .parenClose => "PAREN_CLOSE"
  | .bracketOpen => "BRACKET_OPEN"
  | .bracketClose => "BRACKET_CLOSE"
  | .braceOpen => "BRACE_OPEN"
  | .braceClose => "BRACE_CLOSE"

def singles : List (Char × Operator) :=
  [ ('+', .add), ('-', .subtract), ('*', .multiply), ('/', .divide), ('=', .assign),
    ('<', .lessThan), ('>', .greaterThan), ('&', .bitwiseAnd), ('|', .bitwiseOr),
    ('^', .bitwiseXor), ('~', .signExtend7), ('.', .dot), ('!', .bitwiseNot), ('@', .atSign),
    ('#', .pound), (',', .comma), (':', .colon), ('(', .parenOpen), (')', .parenClose),
    ('[', .bracketOpen), (']', .bracketClose), ('\x7d', .braceClose) ]

def pairs : List ((Char × Char) × Operator) :=
  [ (('+', '='), .addAssign), (('-', '='), .subtractAssign), (('-', '>'), .rotateRight),
    (('*', '='), .multiplyAssign), (('/', '='), .divideAssign), (('=', '='), .equalTo),
    (('<', '='), .lessThanEqualTo), (('<', '<'), .shiftLeft), (('<', '-'), .rotateLeft),
    (('>', '='), .greaterThanEqualTo), (('>', '>'), .shiftRight), (('>', '<'), .reverse),
    (('&', '='), .bitwiseAndAssign), (('|', '='), .bitwiseOrAssign),
    (('^', '='), .bitwiseXorAssign), (('~', '>'), .signedShiftRight),
    (('~', '~'), .signExtend15), (('.', '.'), .range) ]

def single? (character : Char) : Option Operator :=
  singles.lookup character

def pair? (first second : Char) : Option Operator :=
  pairs.lookup (first, second)

end Operator

end SpinBlocks
