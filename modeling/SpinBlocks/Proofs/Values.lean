import SpinBlocks.Proofs.Printing
import SpinBlocks.Proofs.Refusals

namespace SpinBlocks

/-! Numbers have the value of their digits.

A number takes only digits of its own radix, so reading it as a literal cannot
meet a foreign one. What remains to go wrong is a value that does not fit, or a
quaternary number without digits, since the others need one at once.
-/

theorem Token.digits_ne_nil {token : Token} {digit : Char} {rest : List Char} {radix : Radix}
    (text : token.text.toList = digit :: rest) (first : radix.isDigit digit = true) :
    token.digits ≠ [] := by
  have plain : Character.isGroupSeparator digit = false := by
    cases separates : Character.isGroupSeparator digit with
    | false => rfl
    | true =>
        obtain rfl : digit = '_' := by simpa [Character.isGroupSeparator] using separates
        revert first
        cases radix <;> decide
  simp [Token.digits, text, plain]

/-- All but a quaternary number begin with a digit. -/
theorem Lexeme.Reads.leading_digit {first : Char} {body tail : List Char} {kind : Kind}
    {text : String} (reads : Reads first body tail kind text) {radix : Radix}
    (number : kind = .number radix) :
    radix = .quaternary ∨
      ∃ digit rest, text.toList = digit :: rest ∧ radix.isDigit digit = true := by
  cases reads with
  | decimal digit => cases number; exact .inr ⟨_, _, String.toList_ofList, digit⟩
  | hexadecimal digit => cases number; exact .inr ⟨_, _, String.toList_ofList, digit⟩
  | quaternary => cases number; exact .inl rfl
  | binary digit => cases number; exact .inr ⟨_, _, String.toList_ofList, digit⟩
  | word =>
      rcases wordKind_cases (first :: body) with ⟨keyword, found⟩ | found <;>
        rw [found] at number <;> cases number
  | _ => cases number

theorem radix_of_digits_nil {source : String} {token : Token} {radix : Radix}
    (member : token ∈ tokens source) (number : token.kind = .number radix)
    (empty : token.digits = []) : radix = .quaternary := by
  obtain ⟨first, body, tail, reads⟩ :=
    reads_of_mem_tokens member (by rw [number]; rfl) (by rw [number]; rfl)
  rcases reads.leading_digit number with quaternary | ⟨digit, rest, text, leads⟩
  · exact quaternary
  · exact absurd empty (Token.digits_ne_nil text leads)

theorem Token.code_of_fault? {token : Token} {error : ParseError}
    (fault : token.fault? = some error) :
    error.cause.code = .illegalToken ∨ error.cause.code = .unexpectedEnd := by
  unfold Token.fault? at fault
  split at fault
  · split at fault <;> cases fault <;> exact .inl rfl
  · cases fault
    exact .inr rfl
  · cases fault

/-- No token is refused for a foreign digit, nor for not being a number. -/
theorem Refuses.code {demand : Demand} {token : Token} {error : ParseError}
    (refuses : Refuses demand token error) :
    error.cause.code ≠ .invalidDigit ∧ error.cause.code ≠ .unexpectedToken := by
  cases refuses with
  | fault fault =>
      rcases Token.code_of_fault? fault with code | code <;> rw [code] <;> decide
  | _ => exact ⟨Code.noConfusion, Code.noConfusion⟩

theorem Code.text_injective : Function.Injective text := by
  intro first second
  cases first <;> cases second <;> decide

/-- A number is read as a literal with the value of its digits, just if it has
digits and the value fits in 32 bits. No text is refused for a foreign digit, nor
for a number that is none. -/
theorem number_values_exact (source : String) :
    (∀ token ∈ tokens source, ∀ radix, token.kind = .number radix →
      let value := Numeral.value radix.base token.digits
      (∀ literal, Literal.ofToken token = .ok literal ↔
        token.digits ≠ [] ∧ value < 2 ^ 32 ∧ literal = ⟨radix, token.text, value⟩) ∧
      ((∃ error, Literal.ofToken token = .error error ∧ error.cause.code.text = "E022") ↔
        2 ^ 32 ≤ value) ∧
      ((∃ error, Literal.ofToken token = .error error ∧ error.cause.code.text = "E020") ↔
        token.digits = []) ∧
      (token.digits = [] → radix = .quaternary)) ∧
    ∀ error, Object.parse source = .error error →
      error.cause.code.text ≠ "E021" ∧ error.cause.code.text ≠ "E100" := by
  refine ⟨fun token member radix number => ?_, fun error failed => ?_⟩
  · have numeric := numeric_of_mem_tokens member
    refine ⟨fun literal => ?_, ?_, ?_, radix_of_digits_nil member number⟩
    · rw [Literal.ofToken_ok_iff numeric]
      constructor
      · rintro ⟨other, ⟨same, digits, fits⟩, rfl⟩
        obtain rfl : radix = other := Kind.number.inj (number.symm.trans same)
        exact ⟨digits, fits, rfl⟩
      · rintro ⟨digits, fits, rfl⟩
        exact ⟨radix, ⟨number, digits, fits⟩, rfl⟩
    · constructor
      · rintro ⟨error, failed, code⟩
        rcases (Literal.ofToken_error_iff numeric number).mp failed with ⟨_, rfl⟩ | ⟨large, _⟩
        · have same : Code.noDigits = .tooLarge := Code.text_injective code
          cases same
        · exact large
      · intro large
        exact ⟨_, (Literal.ofToken_error_iff numeric number).mpr (.inr ⟨large, rfl⟩), rfl⟩
    · constructor
      · rintro ⟨error, failed, code⟩
        rcases (Literal.ofToken_error_iff numeric number).mp failed with ⟨empty, _⟩ | ⟨_, rfl⟩
        · exact empty
        · have same : Code.tooLarge = .noDigits := Code.text_injective code
          cases same
      · intro empty
        exact ⟨_, (Literal.ofToken_error_iff numeric number).mpr (.inl ⟨empty, rfl⟩), rfl⟩
  · obtain ⟨_, _, _, _, _, _, _, refuses⟩ := Object.parse_refused failed
    obtain ⟨foreign, other⟩ := refuses.code
    exact ⟨fun same => foreign (Code.text_injective same),
      fun same => other (Code.text_injective same)⟩

/-- A number one above the largest, and one of separators only. -/
theorem number_values_exact_limits :
    let large : Token :=
      ⟨.number .hexadecimal, "1_0000_0000", .constants, 0, 8, ⟨8, 20⟩⟩
    let short : Token := ⟨.number .quaternary, "__", .constants, 0, 8, ⟨8, 12⟩⟩
    (large ∈ tokens "CON x = $1_0000_0000" ∧
      ∃ error, Literal.ofToken large = .error error ∧ error.cause.code.text = "E022") ∧
    short ∈ tokens "CON x = %%__" ∧
      ∃ error, Literal.ofToken short = .error error ∧ error.cause.code.text = "E020" :=
  have large : _ ∈ tokens "CON x = $1_0000_0000" := by decide +kernel
  have short : _ ∈ tokens "CON x = %%__" := by decide +kernel
  have ⟨_, exceeds, _⟩ :=
    (number_values_exact "CON x = $1_0000_0000").1 _ large .hexadecimal rfl
  have ⟨_, _, lacks, _⟩ := (number_values_exact "CON x = %%__").1 _ short .quaternary rfl
  ⟨⟨large, exceeds.mpr (by decide)⟩, short, lacks.mpr (by decide)⟩

end SpinBlocks
