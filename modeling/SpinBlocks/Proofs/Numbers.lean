import Mathlib.Data.Nat.Digits.Defs
import SpinBlocks.Object.Parse
import SpinBlocks.Proofs.Tiling

namespace SpinBlocks

/-! The value of a number, told without reading it digit by digit, and the
numbers that a token can stand for. -/

namespace Numeral

open Character (isDigit_iff isLower_iff isUpper_iff)

def digitValue (c : Char) : Nat :=
  if c.isDigit then c.toNat - '0'.toNat
  else if c.isLower then c.toNat - 'a'.toNat + 10
  else c.toNat - 'A'.toNat + 10

def value (base : Nat) (digits : List Char) : Nat :=
  Nat.ofDigits base (digits.reverse.map digitValue)

theorem value_append (base : Nat) (front back : List Char) :
    value base (front ++ back) = value base back + base ^ back.length * value base front := by
  simp [value, Nat.ofDigits_append]

theorem value_concat (base : Nat) (front : List Char) (c : Char) :
    value base (front ++ [c]) = value base front * base + digitValue c := by
  rw [value_append]
  simp [value, Nat.mul_comm, Nat.add_comm]

theorem value_le_append {base : Nat} (positive : 0 < base) (front back : List Char) :
    value base front ≤ value base (front ++ back) := by
  have power : 0 < base ^ back.length := Nat.pow_pos positive
  rw [value_append]
  exact Nat.le_add_left_of_le (Nat.le_mul_of_pos_left _ power)

/-- Reading digits on gives the value of all of them, unless that is too large. -/
theorem extend_eq {base : Nat} (positive : 0 < base) (front : List Char) {rest : List Char}
    (valid : ∀ c ∈ rest, digit? base c = some (digitValue c)) (fits : value base front < limit) :
    extend base (value base front) rest =
      if value base (front ++ rest) < limit then .ok (value base (front ++ rest))
      else .error .tooLarge := by
  induction rest generalizing front with
  | nil => simp [extend, fits]
  | cons c rest ih =>
      have whole : front ++ c :: rest = front ++ [c] ++ rest := by simp
      rw [extend, valid c (by simp)]
      simp only [← value_concat]
      split
      · rename_i shorter
        rw [ih (front ++ [c]) (fun d member => valid d (by simp [member])) shorter, whole]
      · rename_i exceeds
        have grows := value_le_append positive (front ++ [c]) rest
        rw [whole, if_neg (by omega)]

theorem parse_eq {base : Nat} (positive : 0 < base) {digits : List Char} (nonempty : digits ≠ [])
    (valid : ∀ c ∈ digits, digit? base c = some (digitValue c)) (unsigned : '+' ∉ digits) :
    parse base digits =
      if value base digits < limit then .ok (value base digits) else .error .tooLarge := by
  have zero : value base [] < limit := by
    change 0 < limit
    decide
  have whole := extend_eq positive [] valid zero
  unfold parse
  split
  · contradiction
  · simp at unsigned
  · simp at unsigned
  · exact whole

theorem le_iff_toNat_le {c d : Char} : c ≤ d ↔ c.toNat ≤ d.toNat := by
  simp [Char.le_def, UInt32.le_iff_toNat_le, ← Char.toNat_val]

theorem isDigit_range {radix : Radix} {c : Char} (digit : radix.isDigit c = true) :
    (48 ≤ c.toNat ∧ c.toNat < 48 + min radix.base 10) ∨
      radix.base = 16 ∧ (97 ≤ c.toNat ∧ c.toNat ≤ 102 ∨ 65 ≤ c.toNat ∧ c.toNat ≤ 70) := by
  cases radix with
  | binary =>
      simp only [Radix.isDigit, Character.isBinaryDigit, Bool.or_eq_true, beq_iff_eq] at digit
      rcases digit with rfl | rfl <;> decide
  | quaternary =>
      simp only [Radix.isDigit, Character.isQuaternaryDigit, Bool.and_eq_true, decide_eq_true_eq,
        le_iff_toNat_le] at digit
      exact .inl ⟨digit.1, Nat.lt_succ_of_le digit.2⟩
  | decimal =>
      have range := isDigit_iff.mp digit
      exact .inl ⟨range.1, Nat.lt_succ_of_le range.2⟩
  | hexadecimal =>
      simp only [Radix.isDigit, Character.isHexadecimalDigit, Bool.or_eq_true, Bool.and_eq_true,
        decide_eq_true_eq, isDigit_iff, le_iff_toNat_le] at digit
      rcases digit with (range | range) | range
      · exact .inl ⟨range.1, Nat.lt_succ_of_le range.2⟩
      · exact .inr ⟨rfl, .inl range⟩
      · exact .inr ⟨rfl, .inr range⟩

theorem digit?_eq {radix : Radix} {c : Char} (digit : radix.isDigit c = true) :
    digit? radix.base c = some (digitValue c) := by
  have zero : '0'.toNat = 48 := rfl
  have lower : 'a'.toNat = 97 := rfl
  have upper : 'A'.toNat = 65 := rfl
  unfold digit? digitValue
  simp only [isDigit_iff, isLower_iff, isUpper_iff, zero, lower, upper]
  rcases isDigit_range digit with range | ⟨base, range | range⟩
  · have decimal : 48 ≤ c.toNat ∧ c.toNat ≤ 57 := by omega
    simp only [decimal, and_self, if_true]
    rw [if_pos (by omega)]
  · have decimal : ¬ (48 ≤ c.toNat ∧ c.toNat ≤ 57) := by omega
    have small : 97 ≤ c.toNat ∧ c.toNat ≤ 122 := by omega
    simp only [if_neg decimal, if_pos small]
    rw [if_pos (by omega)]
  · have decimal : ¬ (48 ≤ c.toNat ∧ c.toNat ≤ 57) := by omega
    have small : ¬ (97 ≤ c.toNat ∧ c.toNat ≤ 122) := by omega
    have large : 65 ≤ c.toNat ∧ c.toNat ≤ 90 := by omega
    simp only [if_neg decimal, if_neg small, if_pos large]
    rw [if_pos (by omega)]

theorem base_pos (radix : Radix) : 0 < radix.base := by
  cases radix <;> decide

end Numeral

def Token.digits (token : Token) : List Char :=
  token.text.toList.filter fun c => !Character.isGroupSeparator c

/-- The token is a number with digits and a value that fits. -/
def Token.Counts (token : Token) (radix : Radix) : Prop :=
  token.kind = .number radix ∧ token.digits ≠ [] ∧
    Numeral.value radix.base token.digits < 2 ^ 32

/-- If the token is a number, its text is made of the digits of its radix. -/
def Token.Numeric (token : Token) : Prop :=
  ∀ radix, token.kind = .number radix →
    ∀ c ∈ token.text.toList, Lexeme.isNumeral radix c = true

theorem Token.Numeric.digits {token : Token} (numeric : token.Numeric) {radix : Radix}
    (number : token.kind = .number radix) : ∀ c ∈ token.digits, radix.isDigit c = true := by
  intro c member
  obtain ⟨among, kept⟩ := List.mem_filter.mp member
  have numeral := numeric radix number c among
  simp only [Bool.not_eq_true'] at kept
  simpa [Lexeme.isNumeral, kept] using numeral

theorem Literal.ofToken_eq {token : Token} (numeric : token.Numeric) {radix : Radix}
    (number : token.kind = .number radix) (nonempty : token.digits ≠ []) :
    Literal.ofToken token =
      if Numeral.value radix.base token.digits < Numeral.limit then
        .ok ⟨radix, token.text, Numeral.value radix.base token.digits⟩
      else .error ⟨.tooLarge, token⟩ := by
  have valid := numeric.digits number
  have unsigned : '+' ∉ token.digits := by
    intro member
    have digit := valid '+' member
    revert digit
    cases radix <;> decide
  have kept : token.digits.isEmpty = false := by simpa using nonempty
  have parsed := Numeral.parse_eq (Numeral.base_pos radix) nonempty
    (fun c member => Numeral.digit?_eq (valid c member)) unsigned
  unfold Token.digits at kept parsed ⊢
  simp only [Literal.ofToken, number, Kind.radix?, kept, parsed]
  by_cases fits : Numeral.value radix.base token.digits < Numeral.limit
  · unfold Token.digits at fits
    simp only [if_pos fits]
    rfl
  · unfold Token.digits at fits
    simp only [if_neg fits]
    rfl

/-- A number token is read as a literal just where it counts. -/
theorem Literal.ofToken_ok_iff {token : Token} (numeric : token.Numeric) {literal : Literal} :
    Literal.ofToken token = .ok literal ↔
      ∃ radix, token.Counts radix ∧
        literal = ⟨radix, token.text, Numeral.value radix.base token.digits⟩ := by
  cases number : token.kind.radix? with
  | none =>
      constructor
      · simp [Literal.ofToken, number]
      · rintro ⟨radix, ⟨kind, _⟩, _⟩
        simp [kind, Kind.radix?] at number
  | some radix =>
      have kind : token.kind = .number radix := by
        unfold Kind.radix? at number
        split at number
        · rename_i found
          rw [found, Option.some.inj number]
        · contradiction
      by_cases nonempty : token.digits = []
      · constructor
        · have none : token.text.toList.filter (fun c => !Character.isGroupSeparator c) = [] :=
            nonempty
          simp [Literal.ofToken, number, none]
        · rintro ⟨radix, ⟨_, digits, _⟩, _⟩
          contradiction
      · rw [Literal.ofToken_eq numeric kind nonempty]
        constructor
        · intro read
          split at read
          · rename_i fits
            exact ⟨radix, ⟨kind, nonempty, fits⟩, (Except.ok.inj read).symm⟩
          · contradiction
        · rintro ⟨other, ⟨same, _, fits⟩, rfl⟩
          obtain rfl : radix = other := Kind.number.inj (kind.symm.trans same)
          exact if_pos fits

theorem Lexeme.Reads.numeric {first : Char} {body tail : List Char} {kind : Kind} {text : String}
    (reads : Reads first body tail kind text) {radix : Radix} (number : kind = .number radix) :
    ∀ c ∈ text.toList, isNumeral radix c = true := by
  have behind {first : Char} {body tail : List Char} {radix : Radix}
      (digit : radix.isDigit first = true) (run : Run (isNumeral radix) body tail) :
      ∀ c ∈ (String.ofList (first :: body)).toList, isNumeral radix c = true := by
    intro c member
    rw [String.toList_ofList] at member
    rcases List.mem_cons.mp member with rfl | member
    · simp [isNumeral, digit]
    · exact run.inside c member
  cases reads with
  | decimal digit run =>
      obtain rfl := Kind.number.inj number
      exact behind digit run
  | hexadecimal digit run =>
      obtain rfl := Kind.number.inj number
      exact behind digit run
  | quaternary run =>
      obtain rfl := Kind.number.inj number
      rw [String.toList_ofList]
      exact run.inside
  | binary digit run =>
      obtain rfl := Kind.number.inj number
      exact behind digit run
  | word =>
      rcases wordKind_cases (first :: body) with ⟨keyword, found⟩ | found <;>
        rw [found] at number <;> cases number
  | _ => cases number

theorem Lexer.Transition.numeric {lexer : Lexer} {step : Step}
    (transition : lexer.Transition step) : step.token.Numeric := by
  intro radix number
  cases transition with
  | close atEnd =>
      cases finished : lexer.layout.finish with
      | mk closed layout =>
          cases closed <;>
            simp [endOfInput, finished, marker, tokenFrom, Token.between] at number
  | @shift first rest shift layout next waits resolved => cases shift <;> cases number
  | @read first rest layout next ready =>
      rw [stepAt_eq] at number ⊢
      change (Lexeme.scan first rest).kind = .number radix at number
      obtain ⟨_, _, _, _, reads⟩ := Lexeme.scan_found (by rw [number]; rfl)
      exact reads.numeric number

theorem numeric_of_mem_tokens {source : String} {token : Token} (member : token ∈ tokens source) :
    token.Numeric := by
  obtain ⟨step, among, rfl⟩ := List.mem_map.mp member
  obtain ⟨passed, reached, _, rfl⟩ := steps_behind among
  exact reached.step_transition.numeric

end SpinBlocks
