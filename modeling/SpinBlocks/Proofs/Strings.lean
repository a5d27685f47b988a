import SpinBlocks.Proofs.Numbers
import SpinBlocks.Proofs.Scanning

namespace SpinBlocks

/-! What a string says.

Behind its opening quote a string is a row of items, and each of them stands for
one character. The first thing that is no item ends the string, and decides
whether it has a value at all. A character's code is told here by its value, as a
number, and not by the way it is computed.
-/

namespace Numeral

theorem value_toDigits (number : Nat) : value 10 (Nat.toDigits 10 number) = number := by
  induction number using Nat.strongRecOn with
  | _ number ih =>
      have digit {d : Nat} (small : d < 10) : digitValue d.digitChar = d := by
        have zero : '0'.toNat = 48 := rfl
        rw [digitValue, if_pos (by simpa using small), Nat.toNat_digitChar_of_lt_ten small, zero]
        omega
      rw [Nat.toDigits_eq_if (by decide)]
      split
      · rename_i small
        rw [value, List.reverse_singleton, List.map_singleton, Nat.ofDigits_singleton, digit small]
      · rename_i large
        rw [value_concat, ih (number / 10) (by omega), digit (Nat.mod_lt _ (by decide))]
        omega

end Numeral

namespace Lexeme.Quotation

/-- A code stands for the character that has it, however many digits it is written
with. A number that does not fit in 32 bits is no character's code either. -/
theorem decode?_eq {digits : List Char} (nonempty : digits ≠ [])
    (decimal : ∀ c ∈ digits, Character.isDecimalDigit c = true) :
    decode? digits =
      if (Numeral.value 10 digits).isValidChar then some (Char.ofNat (Numeral.value 10 digits))
      else none := by
  have unsigned : '+' ∉ digits := fun member => absurd (decimal '+' member) (by decide)
  have parsed := @Numeral.parse_eq 10 (by decide) digits nonempty
    (fun c member => @Numeral.digit?_eq .decimal c (decimal c member)) unsigned
  unfold decode?
  rw [parsed]
  by_cases fits : Numeral.value 10 digits < Numeral.limit
  · rw [if_pos fits]
  · have large : ¬ (Numeral.value 10 digits).isValidChar := by
      have limit : Numeral.limit = 4294967296 := rfl
      unfold Nat.isValidChar
      omega
    rw [if_neg fits, if_neg large]

/-- One item of a string, as it is written in front of `tail`, and the character
that it stands for. A code takes all digits that follow it. -/
inductive Writes : List Char → List Char → Char → Prop
  | plain {c : Char} {tail : List Char} (unquoted : c ≠ '"') (unescaped : c ≠ '\\') :
      Writes [c] tail c
  | escape {letter c : Char} {tail : List Char} (short : (letter, c) ∈ shortEscapes) :
      Writes ['\\', letter] tail c
  | code {digits tail : List Char} (nonempty : digits ≠ [])
      (run : Run Character.isDecimalDigit digits tail)
      (scalar : (Numeral.value 10 digits).isValidChar) :
      Writes ('\\' :: digits) tail (Char.ofNat (Numeral.value 10 digits))

/-- A row of items in front of `tail`, and the characters that they stand for. -/
inductive Spelled : List Char → List Char → List Char → Prop
  | nil {tail : List Char} : Spelled [] tail []
  | cons {written body tail decoded : List Char} {c : Char}
      (item : Writes written (body ++ tail) c) (more : Spelled body tail decoded) :
      Spelled (written ++ body) tail (c :: decoded)

/-- What ends a string whose items stand for `decoded`: the characters that are
taken in front of `tail`, and the kind and text of the token. -/
inductive Ends (decoded : List Char) : List Char → List Char → Kind → List Char → Prop
  | closed {tail : List Char} : Ends decoded ['"'] tail .string decoded
  | unfinished : Ends decoded [] [] .unexpectedEof []
  | cut : Ends decoded ['\\'] [] .unexpectedEof []
  | unknown {c : Char} {tail : List Char} (long : ∀ entry ∈ shortEscapes, entry.1 ≠ c)
      (word : Character.isDecimalDigit c = false) : Ends decoded ['\\', c] tail .illegal [c]
  | code {digits tail : List Char} (nonempty : digits ≠ [])
      (run : Run Character.isDecimalDigit digits tail)
      (missing : ¬ (Numeral.value 10 digits).isValidChar) :
      Ends decoded ('\\' :: digits) tail .illegal digits

variable {written body taken tail decoded text input : List Char} {c : Char} {kind : Kind}

theorem Writes.read (writes : Writes written tail c) :
    Item.read (written ++ tail) = .character c written.length := by
  cases writes with
  | plain unquoted unescaped => exact Item.read_plain tail unquoted unescaped
  | escape short => exact Item.read_short tail short
  | @code digits tail nonempty run scalar =>
      obtain ⟨digit, more, rfl⟩ := List.exists_cons_of_ne_nil nonempty
      obtain ⟨first, inside⟩ := List.forall_mem_cons.mp run.inside
      have value := decode?_eq nonempty run.inside
      rw [if_pos scalar] at value
      exact Item.read_code first ⟨inside, run.stops⟩ value

theorem Item.read_writes {length : Nat} (found : Item.read input = .character c length) :
    ∃ written tail, input = written ++ tail ∧ length = written.length ∧ Writes written tail c := by
  rcases Item.read_cases found with ⟨rest, rfl, unquoted, unescaped, rfl⟩ |
    ⟨letter, rest, rfl, short, rfl⟩ | ⟨digit, rest, rfl, first, value, rfl⟩
  · exact ⟨[c], rest, rfl, rfl, .plain unquoted unescaped⟩
  · exact ⟨['\\', letter], rest, rfl, rfl, .escape short⟩
  · have run := Run.of_takeWhile Character.isDecimalDigit rest
    have inside : ∀ c ∈ digit :: rest.takeWhile Character.isDecimalDigit,
        Character.isDecimalDigit c = true := List.forall_mem_cons.mpr ⟨first, run.inside⟩
    rw [decode?_eq (List.cons_ne_nil _ _) inside] at value
    split at value
    · rename_i scalar
      cases value
      refine ⟨'\\' :: digit :: rest.takeWhile Character.isDecimalDigit, _, ?_, rfl,
        .code (List.cons_ne_nil _ _) ⟨inside, run.stops⟩ scalar⟩
      rw [List.cons_append, List.cons_append, List.takeWhile_append_dropWhile]
    · cases value

theorem Spelled.read (spelled : Spelled body tail decoded) :
    Quotation.read (body ++ tail) =
      ⟨decoded ++ (Quotation.read tail).decoded, (Quotation.read tail).ending,
        body.length + (Quotation.read tail).length⟩ := by
  induction spelled with
  | nil => simp
  | @cons written body tail decoded c item more ih =>
      rw [List.append_assoc, read_character item.read, List.drop_left, ih]
      simp only [List.length_append, Nat.add_assoc, List.cons_append]

theorem exists_spelled (input : List Char) :
    ∃ body rest decoded, input = body ++ rest ∧ Spelled body rest decoded ∧
      ∃ ending length, Item.read rest = .ending ending length := by
  fun_induction Quotation.read input with
  | case1 input c length found rest ih =>
      obtain ⟨written, tail, rfl, rfl, writes⟩ := Item.read_writes found
      rw [List.drop_left] at ih
      obtain ⟨body, behind, decoded, rfl, spelled, ending⟩ := ih
      exact ⟨written ++ body, behind, c :: decoded, by simp, .cons writes spelled, ending⟩
  | case2 input ending length found => exact ⟨[], input, [], rfl, .nil, ending, length, found⟩

theorem Item.read_ends {ending : Ending} {length : Nat}
    (found : Item.read input = .ending ending length) (decoded : List Char) :
    ∃ taken tail kind text, input = taken ++ tail ∧ Ends decoded taken tail kind text := by
  by_cases closed : ending = .closed
  · subst closed
    obtain ⟨tail, rfl, _⟩ := Item.read_closed found
    exact ⟨['"'], tail, _, _, rfl, .closed⟩
  · obtain ⟨taken, tail, parts, _, flaw⟩ := Item.read_flaw found closed
    cases flaw with
    | unfinished => exact ⟨_, _, _, _, parts, .unfinished⟩
    | cut => exact ⟨_, _, _, _, parts, .cut⟩
    | unknown long word => exact ⟨_, _, _, _, parts, .unknown long word⟩
    | @code digit digits tail first run missing =>
        have inside : ∀ c ∈ digit :: digits, Character.isDecimalDigit c = true :=
          List.forall_mem_cons.mpr ⟨first, run.inside⟩
        rw [decode?_eq (List.cons_ne_nil _ _) inside] at missing
        refine ⟨_, _, _, _, parts, .code (List.cons_ne_nil _ _) ⟨inside, run.stops⟩ ?_⟩
        intro scalar
        rw [if_pos scalar] at missing
        cases missing

/-- The items and what ends them make up the lexeme of a string. -/
theorem Ends.quotation (ends : Ends decoded taken tail kind text)
    (spelled : Spelled body (taken ++ tail) decoded) :
    Lexeme.quotation (body ++ (taken ++ tail)) =
      ⟨kind, String.ofList text, (body ++ taken).length⟩ := by
  unfold Lexeme.quotation
  rw [spelled.read, List.length_append]
  cases ends with
  | closed =>
      have closed : Item.read (['"'] ++ tail) = .ending .closed 1 := rfl
      rw [read_ending closed, List.append_nil]
      rfl
  | unfinished => rw [read_ending Flaw.unfinished.read]
  | cut => rw [read_ending Flaw.cut.read]
  | unknown long word => rw [read_ending (Flaw.unknown long word).read]
  | @code digits tail nonempty run missing =>
      obtain ⟨digit, more, rfl⟩ := List.exists_cons_of_ne_nil nonempty
      obtain ⟨first, inside⟩ := List.forall_mem_cons.mp run.inside
      have value := decode?_eq nonempty run.inside
      rw [if_neg missing] at value
      rw [read_ending (Flaw.code first ⟨inside, run.stops⟩ value).read]

/-- A text in which every character is written by its code. -/
def writeCodes (value : List Char) : List Char :=
  value.flatMap fun c => '\\' :: Nat.toDigits 10 c.toNat

theorem stops_writeCodes (value tail : List Char) :
    Stops Character.isDecimalDigit (writeCodes value ++ '"' :: tail) := by
  cases value with
  | nil =>
      rintro c ⟨⟩
      rfl
  | cons c value =>
      rintro c ⟨⟩
      rfl

theorem spelled_writeCodes (value tail : List Char) :
    Spelled (writeCodes value) ('"' :: tail) value := by
  induction value with
  | nil => exact .nil
  | cons c value ih =>
      have same := Numeral.value_toDigits c.toNat
      have item : Writes ('\\' :: Nat.toDigits 10 c.toNat) (writeCodes value ++ '"' :: tail)
          (Char.ofNat (Numeral.value 10 (Nat.toDigits 10 c.toNat))) := by
        refine .code Nat.toDigits_ne_nil ⟨fun digit member => ?_, stops_writeCodes value tail⟩ ?_
        · exact Nat.isDigit_of_mem_toDigits (by decide) (by decide) member
        · rw [same]
          exact c.valid
      rw [same, Char.ofNat_toNat] at item
      exact .cons item ih

end Lexeme.Quotation

namespace Lexer

variable {lexer : Lexer} {first : Char} {rest : List Char}

/-- A step that covers anything reads the lexeme at the front of the text. -/
theorem step_covers (next : lexer.reader.rest = first :: rest) (covers : lexer.step.covered ≠ []) :
    ∃ layout, lexer.step = { lexer with layout }.stepAt first rest := by
  have transition := lexer.step_transition
  generalize lexer.step = step at transition covers
  cases transition with
  | close atEnd => exact absurd rfl covers
  | shift => exact absurd rfl covers
  | @read other more layout found ready =>
      obtain ⟨rfl, rfl⟩ := List.cons.inj (found.symm.trans next)
      exact ⟨layout, rfl⟩

open Lexeme.Quotation in
/-- The step over a string takes its items and what ends them. -/
theorem step_string {body taken tail decoded text : List Char} {kind : Kind}
    (next : lexer.reader.rest = '"' :: (body ++ (taken ++ tail)))
    (covers : lexer.step.covered ≠ []) (spelled : Spelled body (taken ++ tail) decoded)
    (ends : Ends decoded taken tail kind text) :
    lexer.step.covered = '"' :: (body ++ taken) ∧
      lexer.step.token = ⟨kind, String.ofList text, lexer.region, lexer.position.line,
        lexer.position.column, ⟨lexer.position.offset,
          lexer.position.offset + Bytes.size ('"' :: (body ++ taken))⟩⟩ := by
  obtain ⟨layout, stepped⟩ := step_covers next covers
  have found : Lexeme.scan '"' (body ++ (taken ++ tail)) =
      ⟨kind, String.ofList text, (body ++ taken).length⟩ := ends.quotation spelled
  have region : kind.regionBehind lexer.region = lexer.region := by cases ends <;> rfl
  have covered : (body ++ (taken ++ tail)).take (body ++ taken).length = body ++ taken := by
    rw [← List.append_assoc, List.take_left]
  rw [stepped, stepAt_eq]
  simp only [found, covered, region, true_and]
  simp only [tokenFrom, Token.between, position, Reader.skip, next, List.take_succ_cons, covered,
    Position.advanceAll_offset]

end Lexer

open Lexeme.Quotation in
/-- Wherever a string is read, the text behind its quote is a row of items up to the
first thing that is none, and these two alone tell the token. So a string that is
written code by code has the value that was written. -/
theorem strings_decode_exactly {lexer : Lexer} {rest : List Char}
    (next : lexer.reader.rest = '"' :: rest) (covers : lexer.step.covered ≠ []) :
    (∃ body taken tail decoded kind text, rest = body ++ (taken ++ tail) ∧
      Spelled body (taken ++ tail) decoded ∧ Ends decoded taken tail kind text) ∧
    (∀ body taken tail decoded kind text, rest = body ++ (taken ++ tail) →
      Spelled body (taken ++ tail) decoded → Ends decoded taken tail kind text →
      lexer.step.covered = '"' :: (body ++ taken) ∧
        lexer.step.token = ⟨kind, String.ofList text, lexer.region, lexer.position.line,
          lexer.position.column, ⟨lexer.position.offset,
            lexer.position.offset + Bytes.size ('"' :: (body ++ taken))⟩⟩) ∧
    ∀ (value : String) tail, rest = writeCodes value.toList ++ '"' :: tail →
      lexer.step.covered = '"' :: (writeCodes value.toList ++ ['"']) ∧
        lexer.step.token.kind = .string ∧ lexer.step.token.text = value := by
  refine ⟨?_, fun body taken tail decoded kind text parts spelled ends => ?_,
    fun value tail parts => ?_⟩
  · obtain ⟨body, behind, decoded, parts, spelled, ending, length, found⟩ := exists_spelled rest
    obtain ⟨taken, tail, kind, text, rfl, ends⟩ := Item.read_ends found decoded
    exact ⟨body, taken, tail, decoded, kind, text, parts, spelled, ends⟩
  · rw [parts] at next
    exact Lexer.step_string next covers spelled ends
  · rw [parts] at next
    obtain ⟨covered, token⟩ :=
      @Lexer.step_string lexer (writeCodes value.toList) ['"'] tail _ _ _ next covers
        (spelled_writeCodes value.toList tail) .closed
    rw [token]
    exact ⟨covered, rfl, String.ofList_toList⟩

open Lexeme.Quotation in
/-- A plain character and a code that belongs to no character; a letter and a quote
by their codes. -/
theorem strings_decode_exactly_codes :
    let broken := Lexer.ofString "\"A\\55296\""
    let coded := Lexer.ofString "\"\\233\\34\" x"
    broken.step.token = ⟨.illegal, "55296", .outside, 0, 0, ⟨0, 8⟩⟩ ∧
      coded.step.token.kind = .string ∧ coded.step.token.text = "é\"" :=
  have digits : Lexeme.Run Character.isDecimalDigit ['5', '5', '2', '9', '6'] ['"'] :=
    ⟨List.all_eq_true.mp rfl, by rintro c ⟨⟩; rfl⟩
  have items : Spelled ['A'] ('\\' :: ['5', '5', '2', '9', '6'] ++ ['"']) ['A'] :=
    @Spelled.cons ['A'] [] _ [] 'A' (.plain (by decide) (by decide)) .nil
  have ⟨_, whole, _⟩ := @strings_decode_exactly (.ofString "\"A\\55296\"")
    ['A', '\\', '5', '5', '2', '9', '6', '"'] (by decide +kernel) (by decide +kernel)
  have ⟨_, _, codes⟩ := @strings_decode_exactly (.ofString "\"\\233\\34\" x")
    ['\\', '2', '3', '3', '\\', '3', '4', '"', ' ', 'x'] (by decide +kernel) (by decide +kernel)
  ⟨(whole ['A'] _ ['"'] ['A'] _ _ rfl items
      (.code (List.cons_ne_nil _ _) digits (by decide))).2,
    (codes "é\"" [' ', 'x'] (by decide +kernel)).2⟩

end SpinBlocks
