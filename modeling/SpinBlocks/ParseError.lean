import SpinBlocks.Diagnostic
import SpinBlocks.Token

namespace SpinBlocks

/-! What can be wrong with a file, and how that is worded.

Every fault is found at a token, and the report is about that token's span.
-/

inductive Cause where
  | inconsistentIndentation
  | illegal
  | unfinished
  | outsideBlock
  | notABlock
  | expectedName
  | expected (code : Code) (demand : String)
  | expectedValue (name : String)
  | notANumber
  | noDigits (radix : Radix)
  | invalidDigit (radix : Radix)
  | tooLarge
deriving Repr, DecidableEq

namespace Cause

def code : Cause → Code
  | .inconsistentIndentation => .illegalToken
  | .illegal => .illegalToken
  | .unfinished => .unexpectedEnd
  | .outsideBlock => .expectedBlock
  | .notABlock => .expectedBlock
  | .expectedName => .expectedName
  | .expected code _ => code
  | .expectedValue _ => .expectedValue
  | .notANumber => .unexpectedToken
  | .noDigits _ => .noDigits
  | .invalidDigit _ => .invalidDigit
  | .tooLarge => .tooLarge

def message (token : Token) : Cause → String
  | .inconsistentIndentation => "Inconsistent indentation"
  | .illegal => "Illegal token " ++ token.describe
  | .unfinished => "Unexpected end of input"
  | .outsideBlock => "Expected a block keyword, found " ++ token.describe
  | .notABlock => "Expected a block keyword, found " ++ token.describe
  | .expectedName => "Expected constant name, found " ++ token.describe
  | .expected _ demand => demand ++ ", found " ++ token.describe
  | .expectedValue name =>
      "Expected number literal for constant '" ++ name ++ "', found " ++ token.describe
  | .notANumber => "Expected number literal, found " ++ token.describe
  | .noDigits _ => "Number literal has no digits"
  | .invalidDigit radix =>
      "Invalid digit in base-" ++ radix.base.repr ++ " literal " ++ token.describe
  | .tooLarge => "Number literal " ++ token.describe ++ " does not fit in 32 bits"

def hint : Cause → Option String
  | .inconsistentIndentation => some "Dedent to a column used by an enclosing line"
  | .unfinished => some "A string or block comment is not terminated"
  | .outsideBlock => some "Code must be inside a CON, DAT, OBJ, PRI, PUB or VAR block"
  | .expectedName => some "Constants are declared as NAME = VALUE"
  | .noDigits radix => some ("Write at least one digit after '" ++ radix.sigil ++ "'")
  | .tooLarge => some "The largest value is 4294967295 ($FFFF_FFFF)"
  | _ => none

end Cause

structure ParseError where
  cause : Cause
  token : Token
deriving Repr, DecidableEq

namespace ParseError

def diagnostic (error : ParseError) : Diagnostic :=
  ⟨error.cause.code, error.cause.message error.token, error.token.span, error.cause.hint⟩

end ParseError

namespace Token

/-- The fault that the token itself is. An illegal token that covers nothing and
says nothing marks a line that fits no level of indentation. -/
def fault? (token : Token) : Option ParseError :=
  match token.kind with
  | .illegal =>
      if token.span.isEmpty && token.text.isEmpty then some ⟨.inconsistentIndentation, token⟩
      else some ⟨.illegal, token⟩
  | .unexpectedEof => some ⟨.unfinished, token⟩
  | _ => none

def checked (token : Token) : Except ParseError Token :=
  match token.fault? with
  | some error => .error error
  | none => .ok token

theorem fault?_eq_none {token : Token} : token.fault? = none ↔ token.kind.isFault = false := by
  unfold fault? Kind.isFault
  cases kind : token.kind with
  | illegal =>
      simp only
      split <;> simp
  | _ => simp

theorem checked_eq_ok {token other : Token} :
    token.checked = .ok other ↔ token.kind.isFault = false ∧ token = other := by
  unfold checked
  cases fault : token.fault? with
  | none => simp [fault?_eq_none.mp fault]
  | some error =>
      have faulty : token.kind.isFault ≠ false := by
        intro sound
        rw [fault?_eq_none.mpr sound] at fault
        cases fault
      simp [faulty]

end Token

end SpinBlocks
