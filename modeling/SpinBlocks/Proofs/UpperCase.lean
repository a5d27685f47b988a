import SpinBlocks.Proofs.Scanning

namespace SpinBlocks

/-! The case of letters plays no part in how a text is cut.

Upper case here is that of ASCII letters. It changes what a lexeme says, but not
how far it reaches nor what kind it is, unless the lexeme is a string.
-/

namespace Character

def lowerLetters : List Char :=
  (List.range 26).map fun index => Char.ofNat ('a'.toNat + index)

theorem toUpper_cases (c : Char) : c.toUpper = c ∨ c ∈ lowerLetters := by
  by_cases lower : c.isLower = true
  · have range := isLower_iff.mp lower
    refine .inr (List.mem_map.mpr ⟨c.toNat - 97, List.mem_range.mpr (by omega), ?_⟩)
    have same : 'a'.toNat + (c.toNat - 97) = c.toNat := by
      have first : 'a'.toNat = 97 := rfl
      omega
    rw [same, Char.ofNat_toNat]
  · refine .inl (dif_neg fun range => lower (isLower_iff.mpr ?_))
    exact ⟨UInt32.le_iff_toNat_le.mp range.1, UInt32.le_iff_toNat_le.mp range.2⟩

/-- What does not tell a letter from the same letter in upper case. -/
def Blind {α : Type} (f : Char → α) : Prop :=
  ∀ c, f c.toUpper = f c

theorem blind_iff {α : Type} {f : Char → α} :
    Blind f ↔ ∀ c ∈ lowerLetters, f c.toUpper = f c := by
  refine ⟨fun blind c _ => blind c, fun same c => ?_⟩
  rcases toUpper_cases c with plain | letter
  · rw [plain]
  · exact same c letter

instance {α : Type} [DecidableEq α] (f : Char → α) : Decidable (Blind f) :=
  decidable_of_iff (lowerLetters.all fun c => f c.toUpper = f c) <| by
    rw [List.all_eq_true, blind_iff]
    simp only [decide_eq_true_eq]

theorem Blind.keeps {within : Char → Bool} {c : Char} {among : Bool} (blind : Blind within)
    (inside : within c = among) : within c.toUpper = among :=
  (blind c).trans inside

end Character

open Character (Blind)

namespace Lexeme

def upper (lexeme : Lexeme) : Lexeme :=
  { lexeme with text := lexeme.text.toUpper }

theorem toUpper_ofList (characters : List Char) :
    (String.ofList characters).toUpper = String.ofList (characters.map Char.toUpper) := by
  apply String.toList_injective
  rw [String.toUpper, String.toList_map, String.toList_ofList, String.toList_ofList]

variable {within : Char → Bool} {first : Char} {body tail : List Char} {kind : Kind}
  {text : String}

theorem Stops.upper (stops : Stops within tail) (blind : Blind within) :
    Stops within (tail.map Char.toUpper) := by
  cases tail with
  | nil => exact stops
  | cons c rest =>
      rintro d ⟨⟩
      rw [blind c]
      exact stops c rfl

theorem inside_upper {among : Bool} (inside : ∀ c ∈ body, within c = among) (blind : Blind within) :
    ∀ c ∈ body.map Char.toUpper, within c = among := by
  refine List.forall_mem_map.mpr fun c member => ?_
  rw [blind c]
  exact inside c member

theorem Run.upper (run : Run within body tail) (blind : Blind within) :
    Run within (body.map Char.toUpper) (tail.map Char.toUpper) :=
  ⟨inside_upper run.inside blind, run.stops.upper blind⟩

theorem wordKind_upper (letters : List Char) :
    wordKind (letters.map Char.toUpper) = wordKind letters := by
  have twice : Blind Char.toUpper := by decide
  have same : (letters.map Char.toUpper).map Char.toUpper = letters.map Char.toUpper := by
    rw [List.map_map]
    exact List.map_congr_left fun c _ => twice c
  rw [wordKind, keyword?, same]
  rfl

theorem blind_isNumeral (radix : Radix) : Blind (isNumeral radix) := by
  cases radix <;> decide

/-- No letter takes part in an operator. -/
theorem blind_joins (first : Char) : Blind (joins first) := by
  have symbols : ∀ entry ∈ Operator.pairs, entry.1.2 ∉ Character.lowerLetters ∧
      entry.1.2 ∉ Character.lowerLetters.map Char.toUpper := by decide
  have none {second : Char} (other : ∀ entry ∈ Operator.pairs, entry.1.2 ≠ second) :
      joins first second = false := by
    rw [joins, Option.isSome_eq_false_iff, Option.isNone_iff_eq_none,
      Option.eq_none_iff_forall_ne_some]
    exact fun operator found => other _ (Operator.pair?_eq_some.mp found) rfl
  refine Character.blind_iff.mpr fun c letter => ?_
  have lower : joins first c = false := none fun entry member same =>
    (symbols entry member).1 (same ▸ letter)
  have upper : joins first c.toUpper = false := none fun entry member same =>
    (symbols entry member).2 (same ▸ List.mem_map_of_mem letter)
  rw [lower, upper]

theorem toUpper_of_opensSymbol (opens : opensSymbol first = true) : first.toUpper = first := by
  have words : (Character.lowerLetters.all fun c => !opensSymbol c) = true := by decide
  refine (Character.toUpper_cases first).resolve_right fun letter => ?_
  have word := List.all_eq_true.mp words first letter
  rw [opens] at word
  cases word

/-- Each lexeme but a string is the same lexeme in upper case. -/
theorem Reads.upper (reads : Reads first body tail kind text) (unquoted : first ≠ '"') :
    Reads first.toUpper (body.map Char.toUpper) (tail.map Char.toUpper) kind text.toUpper := by
  cases reads with
  | newline =>
      have same : "\n".toUpper = "\n" := by decide +kernel
      rw [same]
      exact .newline
  | blanks blank run =>
      rw [toUpper_ofList]
      exact .blanks (Blind.keeps (by decide) blank) (run.upper (by decide))
  | word start run =>
      rw [toUpper_ofList, ← wordKind_upper]
      exact .word (Blind.keeps (by decide) start) (run.upper (by decide))
  | decimal digit run =>
      rw [toUpper_ofList]
      exact .decimal (Blind.keeps (by decide) digit) (run.upper (blind_isNumeral _))
  | hexadecimal digit run =>
      rw [toUpper_ofList]
      exact .hexadecimal (Blind.keeps (by decide) digit) (run.upper (blind_isNumeral _))
  | dollar stops =>
      have same : "$".toUpper = "$" := by decide +kernel
      rw [same]
      exact .dollar (stops.upper (by decide))
  | quaternary run =>
      rw [toUpper_ofList]
      exact .quaternary (run.upper (blind_isNumeral _))
  | moduloAssign =>
      have same : "%=".toUpper = "%=" := by decide +kernel
      rw [same]
      exact .moduloAssign
  | binary digit run =>
      rw [toUpper_ofList]
      exact .binary (Blind.keeps (by decide) digit) (run.upper (blind_isNumeral _))
  | modulo stops =>
      have same : "%".toUpper = "%" := by decide +kernel
      rw [same]
      exact .modulo (stops.upper (by decide))
  | string => exact absurd rfl unquoted
  | lineComment plain run =>
      rw [toUpper_ofList]
      exact .lineComment (plain.upper (by decide)) (run.upper (by decide))
  | lineDoc run =>
      rw [toUpper_ofList]
      exact .lineDoc (run.upper (by decide))
  | blockComment plain inside =>
      rw [toUpper_ofList, List.map_append]
      exact .blockComment (plain.upper (by decide)) (inside_upper inside (by decide))
  | blockDoc inside =>
      rw [toUpper_ofList, List.map_cons, List.map_append]
      exact .blockDoc (inside_upper inside (by decide))
  | @pair first second tail operator found =>
      have symbols : ∀ entry ∈ Operator.pairs, entry.1.2.toUpper = entry.1.2 := by decide
      have kept : second.toUpper = second := symbols _ (Operator.pair?_eq_some.mp found)
      have same := toUpper_of_opensSymbol (pair?_opensSymbol found).1
      simp only [toUpper_ofList, List.map_cons, List.map_nil, same, kept]
      exact .pair found
  | single found stops =>
      rw [toUpper_ofList, List.map_singleton, toUpper_of_opensSymbol (single?_opensSymbol found)]
      exact .single found (stops.upper (blind_joins _))

theorem Fails.upper (fails : Fails first body tail kind text) (unquoted : first ≠ '"') :
    Fails first.toUpper (body.map Char.toUpper) (tail.map Char.toUpper) kind text.toUpper := by
  have none : "".toUpper = "" := by decide +kernel
  cases fails with
  | stray opens unknown stops =>
      rw [toUpper_ofList, List.map_singleton, toUpper_of_opensSymbol opens]
      exact .stray opens unknown (stops.upper (blind_joins _))
  | openComment plain inside =>
      rw [none]
      exact .openComment (plain.upper (by decide)) (inside_upper inside (by decide))
  | openDoc inside =>
      rw [none]
      exact .openDoc (inside_upper inside (by decide))
  | cutDoc inside =>
      rw [none, List.map_cons, List.map_append]
      exact .cutDoc (inside_upper inside (by decide))
  | halfDoc inside other =>
      rw [toUpper_ofList, List.map_cons, List.map_append]
      exact .halfDoc (inside_upper inside (by decide)) (Blind.keeps (by decide) other)
  | openString => exact absurd rfl unquoted
  | brokenString => exact absurd rfl unquoted

/-- Scanning takes as much of a text in upper case, and finds the same in it. -/
theorem scan_upper (rest : List Char) (unquoted : first ≠ '"') :
    scan first.toUpper (rest.map Char.toUpper) = (scan first rest).upper := by
  obtain ⟨body, tail, kind, text, rfl, rule⟩ := exists_rule first rest
  have found : scan first (body ++ tail) = ⟨kind, text, body.length⟩ :=
    rule.elim (·.scan_eq) (·.scan_eq)
  have upper : scan first.toUpper (body.map Char.toUpper ++ tail.map Char.toUpper) =
      ⟨kind, text.toUpper, (body.map Char.toUpper).length⟩ :=
    rule.elim (·.upper unquoted |>.scan_eq) (·.upper unquoted |>.scan_eq)
  rw [List.map_append, upper, found, List.length_map]
  rfl

end Lexeme

theorem Position.blind_advance (position : Position) : Blind position.advance := by
  have size : Blind Char.utf8Size := by decide
  have feeds : Blind fun c => decide (c = '\n') := by decide
  intro c
  simp only [advance, size c, decide_eq_decide.mp (feeds c)]

theorem Position.advanceAll_upper (position : Position) (characters : List Char) :
    position.advanceAll (characters.map Char.toUpper) = position.advanceAll characters := by
  induction characters generalizing position with
  | nil => rfl
  | cons c rest ih =>
      rw [List.map_cons, advanceAll_cons, position.blind_advance c, ih, advanceAll_cons]

theorem Layout.behind_upper (layout : Layout) (region : Region) (start : Position)
    (lexeme : Lexeme) :
    layout.behind region start lexeme.upper = layout.behind region start lexeme := by
  simp only [behind, Lexeme.upper, String.toUpper, String.length_map]

/-- The same token, with its text in upper case. -/
def Token.upper (token : Token) : Token :=
  { token with text := token.text.toUpper }

/-- The same lexer in front of its text in upper case. -/
def Lexer.upper (lexer : Lexer) : Lexer :=
  { lexer with reader := ⟨lexer.position, lexer.reader.rest.map Char.toUpper⟩ }

def Step.upper (step : Step) : Step :=
  ⟨step.token.upper, step.covered.map Char.toUpper, step.after.upper⟩

namespace Lexer

variable {lexer : Lexer} {first : Char}

theorem skip_upper (lexer : Lexer) (count : Nat) :
    lexer.upper.reader.skip count =
      ⟨(lexer.reader.skip count).position, (lexer.reader.skip count).rest.map Char.toUpper⟩ := by
  simp only [upper, Reader.skip, position, ← List.map_take, ← List.map_drop,
    Position.advanceAll_upper]

theorem stepAt_upper (rest : List Char) (unquoted : first ≠ '"') :
    lexer.upper.stepAt first.toUpper (rest.map Char.toUpper) = (lexer.stepAt first rest).upper := by
  simp only [stepAt_eq, Lexeme.scan_upper rest unquoted, Layout.behind_upper, skip_upper,
    ← List.map_take, Step.upper, List.map_cons]
  rfl

theorem marker_upper (lexer : Lexer) (kind : Kind) :
    lexer.upper.marker kind = (lexer.marker kind).upper := by
  have none : "".toUpper = "" := by decide +kernel
  simp only [marker, tokenFrom, Token.between, Token.upper, none]
  rfl

/-- A lexer in front of the same text in upper case does the same. -/
theorem step_upper (unquoted : '"' ∉ lexer.reader.rest) : lexer.upper.step = lexer.step.upper := by
  have blind : Blind Character.isSignificant := by decide
  have begins {first : Char} {rest : List Char} (next : lexer.reader.rest = first :: rest) :
      lexer.upper.reader.rest = first.toUpper :: rest.map Char.toUpper := by
    simp [upper, next]
  have transition := lexer.step_transition
  generalize found : lexer.step = step at transition
  cases transition with
  | close atEnd =>
      refine (@step_nil lexer.upper (by simp [upper, atEnd])).trans ?_
      simp only [Step.upper, endOfInput, ← marker_upper]
      rfl
  | @shift first rest shift layout next waits resolved =>
      have waiting : lexer.upper.layout.waits first.toUpper = true := by
        rw [Layout.waits, blind first]
        exact waits
      rw [Step.upper, ← marker_upper]
      exact step_shift (begins next) waiting resolved
  | @read first rest layout next ready =>
      have plain : first ≠ '"' := fun same => unquoted (by simp [next, same])
      rw [← stepAt_upper rest plain]
      refine @step_read lexer.upper _ _ layout (begins next) ?_
      rw [Layout.Ready, Layout.waits, blind first]
      exact ready

theorem steps_upper (unquoted : '"' ∉ lexer.reader.rest) :
    lexer.upper.steps = lexer.steps.map (·.upper) := by
  fun_induction steps lexer with
  | case1 lexer next atEnd =>
      have ended : lexer.upper.step.token.kind = .eof := by
        rw [step_upper unquoted]
        exact atEnd
      rw [steps_eq, if_pos ended, step_upper unquoted]
      rfl
  | case2 lexer next unfinished ih =>
      have goesOn : lexer.upper.step.token.kind ≠ .eof := by
        rw [step_upper unquoted]
        exact unfinished
      have later : '"' ∉ next.after.reader.rest := fun member => unquoted (by
        rw [lexer.step_transition.text]
        exact List.mem_append_right _ member)
      rw [steps_eq, if_neg goesOn, step_upper unquoted, List.map_cons, ← ih later]
      rfl

theorem ofString_toUpper (source : String) :
    ofString source.toUpper = (ofString source).upper := by
  simp only [ofString, Reader.ofString, String.toUpper, String.toList_map]
  rfl

end Lexer

theorem tokens_toUpper {source : String} (unquoted : '"' ∉ source.toList) :
    tokens source.toUpper = (tokens source).map (·.upper) := by
  rw [tokens, tokens, steps, steps, Lexer.ofString_toUpper, Lexer.steps_upper unquoted,
    List.map_map, List.map_map]
  rfl

end SpinBlocks
