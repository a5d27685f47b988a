import SpinBlocks.Token

namespace SpinBlocks

/-! What stands at the front of the remaining text.

Finding it needs no more than the text itself: neither what came before nor
where in the file it stands. Scanning starts behind the first character, so
`length` counts only the characters taken after that one.
-/

structure Lexeme where
  kind : Kind
  text : String
  length : Nat
deriving Repr, DecidableEq

namespace Lexeme

/-- The same lexeme, found `count` characters further on. -/
def behind (lexeme : Lexeme) (count : Nat) : Lexeme :=
  { lexeme with length := lexeme.length + count }

/-! Blanks and words. A word is reserved or an identifier, and the case of its
letters plays no part in which. -/

def blanks (first : Char) (rest : List Char) : Lexeme :=
  let more := rest.takeWhile Character.isSpace
  ⟨.space, String.ofList (first :: more), more.length⟩

/-- The keyword that `letters` spell, in any mix of cases. -/
def keyword? (letters : List Char) : Option Keyword :=
  Keyword.ofSpelling? (String.ofList (letters.map Char.toUpper))

def word (first : Char) (rest : List Char) : Lexeme :=
  let more := rest.takeWhile Character.isIdentifierContinue
  let kind := match keyword? (first :: more) with
    | some keyword => .keyword keyword
    | none => .identifier
  ⟨kind, String.ofList (first :: more), more.length⟩

/-! Numbers, and the operators that begin like one.

A number takes all digits of its radix and all separators that follow, and ends
at the first other character. Its value is not looked at here.
-/

def digits (radix : Radix) (rest : List Char) : List Char :=
  rest.takeWhile fun c => radix.isDigit c || Character.isGroupSeparator c

def number (radix : Radix) (first : Char) (rest : List Char) : Lexeme :=
  let more := digits radix rest
  ⟨.number radix, String.ofList (first :: more), more.length⟩

/-- What follows a `$`: a hexadecimal number, if a digit comes next. -/
def dollar : List Char → Lexeme
  | c :: rest =>
      if Character.isHexadecimalDigit c then (number .hexadecimal c rest).behind 1
      else ⟨.operator .dollar, "$", 0⟩
  | [] => ⟨.operator .dollar, "$", 0⟩

/-- What follows a `%`. A second one opens a quaternary number, which needs no
digits at this point; a binary number needs one at once. -/
def percent : List Char → Lexeme
  | '%' :: rest =>
      let more := digits .quaternary rest
      ⟨.number .quaternary, String.ofList more, more.length + 1⟩
  | '=' :: _ => ⟨.operator .moduloAssign, "%=", 1⟩
  | c :: rest =>
      if Character.isBinaryDigit c then (number .binary c rest).behind 1
      else ⟨.operator .modulo, "%", 0⟩
  | [] => ⟨.operator .modulo, "%", 0⟩

/-! Comments.

A quote opens a comment that runs to the end of the line, a brace one that runs
to the first closing brace; doubling the mark makes it documentation. Block
comments do not nest.
-/

def lineComment (kind : Kind) (rest : List Char) : Lexeme :=
  let body := rest.takeWhile fun c => !Character.isNewline c
  ⟨kind, String.ofList body, body.length⟩

def quoteComment : List Char → Lexeme
  | [] => lineComment .comment []
  | c :: rest =>
      if Character.isLineCommentStart c then (lineComment .docComment rest).behind 1
      else lineComment .comment (c :: rest)

def commentBody (rest : List Char) : List Char :=
  rest.takeWhile fun c => !Character.isBlockCommentEnd c

/-- A block comment, which needs its closing brace. -/
def blockComment (rest : List Char) : Lexeme :=
  let body := commentBody rest
  match rest.drop body.length with
  | [] => ⟨.unexpectedEof, "", rest.length⟩
  | _ :: _ => ⟨.comment, String.ofList body, body.length + 1⟩

/-- A block of documentation, which needs two closing braces. Where the second
is missing, the character in its place is the offending text. -/
def blockDocComment (rest : List Char) : Lexeme :=
  let body := commentBody rest
  match rest.drop body.length with
  | _ :: c :: _ =>
      if Character.isBlockCommentEnd c then ⟨.docComment, String.ofList body, body.length + 2⟩
      else ⟨.illegal, String.ofList [c], body.length + 2⟩
  | _ => ⟨.illegal, "", rest.length⟩

def braceComment : List Char → Lexeme
  | [] => blockComment []
  | c :: rest =>
      if Character.isBlockCommentStart c then (blockDocComment rest).behind 1
      else blockComment (c :: rest)

/-! Strings.

Behind the opening quote stands a row of items, each of which gives one
character of the value: a plain character, a short escape, or a backslash with
the character's code in decimal digits. `Quotation.Item.read` looks at the first
item, and `Quotation.read` goes on until one ends the string.
-/

namespace Quotation

inductive Ending where
  | closed
  | unfinished
  | illegal (text : List Char)
deriving Repr, DecidableEq

/-- What stands at the front of a string's remaining text, and its length. -/
inductive Item where
  | character (decoded : Char) (length : Nat)
  | ending (ending : Ending) (length : Nat)
deriving Repr, DecidableEq

/-- The character with a code written in decimal, if there is one. -/
def decode? (digits : List Char) : Option Char :=
  match Numeral.parse 10 digits with
  | .ok code => if code.isValidChar then some (Char.ofNat code) else none
  | .error _ => none

def Item.ofCode (digits : List Char) : Item :=
  match decode? digits with
  | some decoded => .character decoded (digits.length + 1)
  | none => .ending (.illegal digits) (digits.length + 1)

/-- The item whose backslash has been passed. A code takes every digit that
follows. -/
def Item.escape : List Char → Item
  | [] => .ending .unfinished 1
  | 'n' :: _ => .character '\n' 2
  | 't' :: _ => .character '\t' 2
  | '"' :: _ => .character '"' 2
  | c :: rest =>
      if Character.isDecimalDigit c then .ofCode (c :: rest.takeWhile Character.isDecimalDigit)
      else .ending (.illegal [c]) 2

def Item.read : List Char → Item
  | [] => .ending .unfinished 0
  | '"' :: _ => .ending .closed 1
  | '\\' :: rest => .escape rest
  | c :: _ => .character c 1

theorem Item.ofCode_length {digits : List Char} {decoded : Char} {length : Nat}
    (found : Item.ofCode digits = .character decoded length) : length = digits.length + 1 := by
  unfold Item.ofCode at found
  split at found
  · simp only [Item.character.injEq] at found
    exact found.2.symm
  · simp at found

theorem Item.escape_length {rest : List Char} {decoded : Char} {length : Nat}
    (found : Item.escape rest = .character decoded length) : 2 ≤ length := by
  unfold Item.escape at found
  split at found
  · simp at found
  · simp only [Item.character.injEq] at found
    omega
  · simp only [Item.character.injEq] at found
    omega
  · simp only [Item.character.injEq] at found
    omega
  · split at found
    · have taken := Item.ofCode_length found
      simp only [List.length_cons] at taken
      omega
    · simp at found

theorem Item.read_length {input : List Char} {decoded : Char} {length : Nat}
    (found : Item.read input = .character decoded length) : 0 < length ∧ input ≠ [] := by
  unfold Item.read at found
  split at found
  · simp at found
  · simp at found
  · have := Item.escape_length found
    exact ⟨by omega, by simp⟩
  · simp only [Item.character.injEq] at found
    exact ⟨by omega, by simp⟩

theorem Item.drop_length_lt {input : List Char} {decoded : Char} {length : Nat}
    (found : Item.read input = .character decoded length) :
    (input.drop length).length < input.length := by
  obtain ⟨positive, nonempty⟩ := Item.read_length found
  have := List.length_pos_iff.mpr nonempty
  simp only [List.length_drop]
  omega

/-- A string's characters up to where it ends, how it ends, and how much of the
text that takes. -/
structure Body where
  decoded : List Char
  ending : Ending
  length : Nat
deriving Repr, DecidableEq

def read (input : List Char) : Body :=
  match _ : Item.read input with
  | .character decoded length =>
      let rest := read (input.drop length)
      ⟨decoded :: rest.decoded, rest.ending, length + rest.length⟩
  | .ending ending length => ⟨[], ending, length⟩
termination_by input.length
decreasing_by exact Item.drop_length_lt ‹_›

end Quotation

/-- What follows an opening quote. Only a closed string has a value. -/
def quotation (rest : List Char) : Lexeme :=
  let body := Quotation.read rest
  match body.ending with
  | .closed => ⟨.string, String.ofList body.decoded, body.length⟩
  | .unfinished => ⟨.unexpectedEof, "", body.length⟩
  | .illegal text => ⟨.illegal, String.ofList text, body.length⟩

/-! The lexeme that a character opens. The classes of first characters do not
overlap, so the order of the tests does not matter. -/

/-- An operator of one character. A character that opens nothing is illegal. -/
def loneSymbol (first : Char) : Lexeme :=
  match Operator.single? first with
  | some operator => ⟨.operator operator, String.ofList [first], 0⟩
  | none => ⟨.illegal, String.ofList [first], 0⟩

/-- An operator, where two characters that spell one go before one. -/
def symbol (first : Char) : List Char → Lexeme
  | [] => loneSymbol first
  | second :: _ =>
      match Operator.pair? first second with
      | some operator => ⟨.operator operator, String.ofList [first, second], 1⟩
      | none => loneSymbol first

def scan (first : Char) (rest : List Char) : Lexeme :=
  if Character.isNewline first then ⟨.newline, "\n", 0⟩
  else if Character.isSpace first then blanks first rest
  else if Character.isIdentifierStart first then word first rest
  else if Character.isDecimalDigit first then number .decimal first rest
  else if first = '$' then dollar rest
  else if first = '%' then percent rest
  else if first = '"' then quotation rest
  else if Character.isLineCommentStart first then quoteComment rest
  else if Character.isBlockCommentStart first then braceComment rest
  else symbol first rest

end Lexeme

end SpinBlocks
