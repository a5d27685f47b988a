import SpinBlocks.Proofs.Locating
import SpinBlocks.Proofs.ViablePrefix

namespace SpinBlocks

/-! What the carets of a report stand under.

A report shows the line on which its span begins. The carets start under the
first character of the span. There is one for each byte of the span, though none
beyond the end of the line, so they stand under the span and nothing else unless
a character of it takes several bytes and the line goes on behind it.
-/

namespace Bytes

theorem length_le_size (characters : List Char) : characters.length ≤ size characters := by
  induction characters with
  | nil => exact Nat.le_refl 0
  | cons c rest ih =>
      have positive := c.utf8Size_pos
      rw [List.length_cons, size_cons]
      omega

theorem size_eq_length_iff {characters : List Char} :
    size characters = characters.length ↔ ∀ c ∈ characters, c.utf8Size = 1 := by
  induction characters with
  | nil => simp
  | cons c rest ih =>
      have positive := c.utf8Size_pos
      have longer := length_le_size rest
      rw [List.forall_mem_cons, ← ih, size_cons, List.length_cons]
      omega

end Bytes

/-- The part of a text that stands on its first line. -/
def visible (characters : List Char) : List Char :=
  characters.takeWhile (· != '\n')

theorem visible_of_inline {characters : List Char} (inline : '\n' ∉ characters)
    (rest : List Char) : visible (characters ++ rest) = characters ++ visible rest :=
  List.takeWhile_append_of_pos (Location.bne_of_inline inline)

theorem visible_of_newline {characters : List Char} (newline : '\n' ∈ characters)
    (rest : List Char) : visible (characters ++ rest) = visible characters := by
  induction characters with
  | nil => cases newline
  | cons c more ih =>
      unfold visible at ih ⊢
      rw [List.cons_append, List.takeWhile_cons, List.takeWhile_cons]
      split
      · rename_i other
        have among : '\n' ∈ more := by
          rcases List.mem_cons.mp newline with rfl | among
          · cases other
          · exact among
        rw [ih among]
      · rfl

/-- A span in its text: `lines` stand above the line on which it begins, and `before`
in front of it on that line. -/
structure Framed (source : List Char) (span : Span) (lines before covered rest : List Char) :
    Prop where
  parts : source = lines ++ before ++ (covered ++ rest)
  start : span.start = Bytes.size (lines ++ before)
  stop : span.stop = Bytes.size (lines ++ before ++ covered)
  above : ∀ c ∈ lines.getLast?, c = '\n'
  inline : '\n' ∉ before

variable {source lines before covered rest : List Char} {span : Span}

theorem Framed.ordered (framed : Framed source span lines before covered rest) :
    span.start ≤ span.stop := by
  rw [framed.start, framed.stop, Bytes.size_append _ covered]
  exact Nat.le_add_right _ _

theorem Framed.length (framed : Framed source span lines before covered rest) :
    span.length? = some (Bytes.size covered) := by
  rw [Span.length?_of_le framed.ordered, framed.start, framed.stop, Bytes.size_append _ covered,
    Nat.add_sub_cancel_left]

theorem Framed.location (framed : Framed source span lines before covered rest) :
    Location.ofOffset source span.start =
      ⟨lines.count '\n' + 1, before.length + 1, before ++ visible (covered ++ rest)⟩ := by
  have cut : Bytes.upTo source span.start = lines ++ before := by
    rw [framed.parts, framed.start, Bytes.upTo_append]
  exact Location.ofOffset_eq framed.parts cut framed.above framed.inline

theorem Framed.exists_render_iff {diagnostic : Diagnostic} {source : String}
    (framed : Framed source.toList diagnostic.span lines before covered rest)
    {filename : Option String} :
    (∃ text, diagnostic.render? source filename = some text) ↔ before.length ≤ Text.widest := by
  rw [Diagnostic.exists_render_iff, framed.location]
  exact and_iff_right framed.ordered

theorem Lexer.Behind.framed {passed : List Char} {lexer : Lexer}
    (behind : Behind source passed lexer) :
    ∃ lines before, Framed source lexer.step.token.span lines before lexer.step.covered
      lexer.step.after.reader.rest := by
  obtain ⟨lines, opening, parts, above, inline, _⟩ :=
    (Position.Counts.start.advanceAll passed).column
  rw [List.nil_append] at parts
  refine ⟨lines, opening, ?_, ?_, ?_, above, inline⟩
  · rw [← parts, ← List.append_assoc]
    exact behind.step.text
  · rw [behind.span, parts]
  · rw [behind.span, parts]

theorem exists_framed {source : String} {token : Token} (member : token ∈ tokens source) :
    ∃ lines before covered rest, Framed source.toList token.span lines before covered rest := by
  obtain ⟨step, among, rfl⟩ := List.mem_map.mp member
  obtain ⟨passed, reached, behind, rfl⟩ := steps_behind among
  obtain ⟨lines, before, framed⟩ := behind.framed
  exact ⟨lines, before, _, _, framed⟩

/-- How many carets stand under a line that goes on, from where its span starts, with
`visible (covered ++ rest)`. -/
def caretsUnder (covered rest : List Char) : Nat :=
  min (max (Bytes.size covered) 1) (max (visible (covered ++ rest)).length 1)

theorem caretCount_eq (line : Nat) (before covered rest : List Char) :
    Diagnostic.caretCount ⟨line, before.length + 1, before ++ visible (covered ++ rest)⟩
      (Bytes.size covered) = caretsUnder covered rest := by
  rw [Diagnostic.caretCount, caretsUnder]
  simp only [Nat.add_sub_cancel, List.length_append, Nat.add_sub_cancel_left]

theorem Framed.carets (framed : Framed source span lines before covered rest)
    (fits : before.length ≤ Text.widest) :
    Diagnostic.carets? (Location.ofOffset source span.start) (Bytes.size covered) =
      some (Text.blanks before.length ++
        String.ofList (List.replicate (caretsUnder covered rest) '^')) := by
  rw [framed.location, ← caretCount_eq (lines.count '\n' + 1) before]
  exact Diagnostic.carets?_of_le _ fits

theorem le_caretsUnder (covered rest : List Char) :
    max (visible covered).length 1 ≤ caretsUnder covered rest := by
  have longer := Bytes.length_le_size covered
  have shorter : (visible covered).length ≤ covered.length := (List.takeWhile_sublist _).length_le
  have within : (visible covered).length ≤ (visible (covered ++ rest)).length := by
    by_cases newline : '\n' ∈ covered
    · rw [visible_of_newline newline]
    · rw [visible_of_inline newline, List.length_append]
      omega
  unfold caretsUnder
  omega

/-- The carets stand under the visible part of the span alone just if each of its
characters takes one byte or the line ends with it. -/
theorem caretsUnder_eq_iff (covered rest : List Char) :
    caretsUnder covered rest = max (visible covered).length 1 ↔
      (∀ c ∈ visible covered, c.utf8Size = 1) ∨
        visible (covered ++ rest) = visible covered := by
  have longer := Bytes.length_le_size covered
  by_cases newline : '\n' ∈ covered
  · have same := visible_of_newline newline rest
    have shorter : (visible covered).length ≤ covered.length := (List.takeWhile_sublist _).length_le
    refine iff_of_true ?_ (.inr same)
    rw [caretsUnder, same]
    omega
  · have whole : visible covered = covered := by
      have same := visible_of_inline newline []
      rwa [List.append_nil, show visible [] = [] from rfl, List.append_nil] at same
    have nothing : covered.length = 0 → Bytes.size covered = 0 := by
      intro empty
      rw [List.length_eq_zero_iff.mp empty, Bytes.size_nil]
    rw [caretsUnder, visible_of_inline newline, whole, ← Bytes.size_eq_length_iff,
      List.append_right_eq_self, ← List.length_eq_zero_iff, List.length_append]
    omega

/-! What is wrong with a text is always wrong at one of its tokens. -/

theorem span_mem_tokens {source : String} {error : ParseError}
    (failed : Object.parse source = .error error ∨ reindent source = .error error) :
    ∃ token ∈ tokens source, error.diagnostic.span = token.span := by
  rcases failed with failed | failed
  · obtain ⟨front, token, rest, demand, parts, _, _, refuses⟩ := Object.parse_refused failed
    have among : token ∈ significant (tokens source) := by simp [parts]
    refine ⟨token, (List.mem_filter.mp among).1, ?_⟩
    rw [← refuses.token_eq]
    rfl
  · obtain ⟨front, token, rest, parts, _, fault⟩ :=
      firstFault?_eq_some.mp (reindent_eq_error.mp failed)
    refine ⟨token, by simp [parts], ?_⟩
    rw [← Token.fault?_token fault]
    rfl

/-- The report shows the line on which the span begins, and under the start of the span
as many carets as `caretsUnder` tells. There is none for a span that begins too far to
the right. -/
structure Underlined (diagnostic : Diagnostic) (source : String) (filename : Option String)
    (lines before covered rest : List Char) : Prop where
  framed : Framed source.toList diagnostic.span lines before covered rest
  report : before.length ≤ Text.widest →
    let number := (lines.count '\n' + 1).repr
    let gutter := Text.blanks number.length
    let shown := String.ofList (before ++ visible (covered ++ rest))
    let carets := String.ofList (List.replicate (caretsUnder covered rest) '^')
    ∃ heading hint, (diagnostic.hint = none → hint = "") ∧
      (∀ advice, diagnostic.hint = some advice → hint = gutter ++ " = hint: " ++ advice ++ "\n") ∧
      diagnostic.render? source filename = some (heading ++
        (number ++ " | " ++ shown ++ "\n") ++
        (gutter ++ " | " ++ (Text.blanks before.length ++ carets) ++ "\n") ++ hint)
  beyond : Text.widest < before.length → diagnostic.render? source filename = none

theorem Framed.underlined {diagnostic : Diagnostic} {source : String}
    (framed : Framed source.toList diagnostic.span lines before covered rest)
    (filename : Option String) :
    Underlined diagnostic source filename lines before covered rest where
  framed := framed
  report := by
    intro fits number gutter shown carets
    let location : Location :=
      ⟨lines.count '\n' + 1, before.length + 1, before ++ visible (covered ++ rest)⟩
    refine ⟨diagnostic.heading filename location, diagnostic.advice location, ?_, ?_, ?_⟩
    · intro missing
      rw [Diagnostic.advice, missing]
    · intro advice given
      rw [Diagnostic.advice, given]
      rfl
    · rw [Diagnostic.render?_eq_some framed.length (framed.carets fits), framed.location]
      rfl
  beyond := fun far => Option.eq_none_iff_forall_ne_some.mpr fun text rendered =>
    absurd (framed.exists_render_iff.mp ⟨text, rendered⟩) (Nat.not_le_of_lt far)

/-- An error is shown with carets from under the first character of its span. They
stand under the visible part of the span alone just if each of its characters takes
one byte or the line ends with it, and if the span begins near enough to be shown. -/
theorem carets_underline {source : String} {error : ParseError}
    (failed : Object.parse source = .error error ∨ reindent source = .error error)
    (filename : Option String) :
    ∃ lines before covered rest,
      Underlined error.diagnostic source filename lines before covered rest ∧
      max (visible covered).length 1 ≤ caretsUnder covered rest ∧
      ((∃ text, error.diagnostic.render? source filename = some text) ∧
          caretsUnder covered rest = max (visible covered).length 1 ↔
        before.length ≤ Text.widest ∧
          ((∀ c ∈ visible covered, c.utf8Size = 1) ∨
            visible (covered ++ rest) = visible covered)) := by
  obtain ⟨token, member, span⟩ := span_mem_tokens failed
  obtain ⟨lines, before, covered, rest, framed⟩ := exists_framed member
  rw [← span] at framed
  refine ⟨lines, before, covered, rest, framed.underlined filename, le_caretsUnder covered rest, ?_⟩
  exact and_congr framed.exists_render_iff (caretsUnder_eq_iff covered rest)

theorem carets_underline_illegal :
    let error : ParseError := ⟨.illegal, ⟨.illegal, "é", .methods, 0, 4, ⟨4, 6⟩⟩⟩
    Object.parse "PUB é x" = .error error ∧
      ∃ lines before covered rest,
        Underlined error.diagnostic "PUB é x" none lines before covered rest ∧
        max (visible covered).length 1 ≤ caretsUnder covered rest ∧
        ((∃ text, error.diagnostic.render? "PUB é x" none = some text) ∧
            caretsUnder covered rest = max (visible covered).length 1 ↔
          before.length ≤ Text.widest ∧
            ((∀ c ∈ visible covered, c.utf8Size = 1) ∨
              visible (covered ++ rest) = visible covered)) :=
  have failed : Object.parse "PUB é x" = .error _ := by decide +kernel
  ⟨failed, carets_underline (.inl failed) none⟩

/-- Two carets stand under a span of one character. -/
theorem carets_count_bytes :
    let error : ParseError := ⟨.illegal, ⟨.illegal, "é", .methods, 0, 4, ⟨4, 6⟩⟩⟩
    Object.parse "PUB é x" = .error error ∧ reindent "PUB é x" = .error error ∧
      Bytes.slice? "PUB é x".toList error.diagnostic.span.start error.diagnostic.span.stop =
        some ['é'] ∧
      error.diagnostic.render? "PUB é x" none = some
        "error[E001]: Illegal token 'é'\n  --> <input>:1:5\n  |\n1 | PUB é x\n  |     ^^\n" := by
  refine ⟨?_, ?_, ?_, ?_⟩ <;> decide +kernel

end SpinBlocks
