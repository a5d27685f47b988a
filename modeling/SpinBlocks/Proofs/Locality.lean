import SpinBlocks.Proofs.Scanning

namespace SpinBlocks

/-! How little a run depends on its surroundings.

A run is the same further down in a text, but for the bytes and lines that it
tells. And of the text behind a run only the first character plays a part in it.
-/

namespace Position

/-- The position further on by some bytes and some lines. -/
def moved (position : Position) (bytes lines : Nat) : Position :=
  ⟨position.offset + bytes, position.line + lines, position.column⟩

variable (position : Position) (bytes lines : Nat)

theorem advance_moved (c : Char) :
    (position.moved bytes lines).advance c = (position.advance c).moved bytes lines := by
  unfold advance
  split
  · simp only [moved, Nat.add_right_comm]
  · simp only [moved, Nat.add_right_comm]

theorem advanceAll_moved (characters : List Char) :
    (position.moved bytes lines).advanceAll characters =
      (position.advanceAll characters).moved bytes lines := by
  induction characters generalizing position with
  | nil => rfl
  | cons c rest ih => rw [advanceAll_cons, advance_moved, ih, advanceAll_cons]

theorem moved_start {position : Position} (opens : position.column = 0) :
    start.moved position.offset position.line = position := by
  obtain ⟨offset, line, column⟩ := position
  obtain rfl : column = 0 := opens
  simp [moved, start]

end Position

/-- The same token further on by some bytes and some lines. -/
def Token.moved (token : Token) (bytes lines : Nat) : Token :=
  { token with
    line := token.line + lines
    span := ⟨token.span.start + bytes, token.span.stop + bytes⟩ }

def Lexer.moved (lexer : Lexer) (bytes lines : Nat) : Lexer :=
  { lexer with reader := ⟨lexer.position.moved bytes lines, lexer.reader.rest⟩ }

def Step.moved (step : Step) (bytes lines : Nat) : Step :=
  ⟨step.token.moved bytes lines, step.covered, step.after.moved bytes lines⟩

namespace Lexer

variable (lexer : Lexer) (bytes lines : Nat)

theorem stepAt_moved (first : Char) (rest : List Char) :
    (lexer.moved bytes lines).stepAt first rest =
      (lexer.stepAt first rest).moved bytes lines := by
  simp only [stepAt_eq, Step.moved, moved, position, Reader.skip, Position.advanceAll_moved]
  rfl

theorem step_moved : (lexer.moved bytes lines).step = lexer.step.moved bytes lines := by
  have transition := lexer.step_transition
  generalize found : lexer.step = step at transition
  cases transition with
  | close atEnd => exact step_nil atEnd
  | shift next waits resolved => exact step_shift next waits resolved
  | @read first rest layout next ready =>
      rw [← stepAt_moved]
      exact @step_read (lexer.moved bytes lines) first rest layout next ready

theorem steps_moved :
    (lexer.moved bytes lines).steps = lexer.steps.map (·.moved bytes lines) := by
  fun_induction steps lexer with
  | case1 lexer next atEnd =>
      have ended : (lexer.moved bytes lines).step.token.kind = .eof := by
        rw [step_moved]
        exact atEnd
      rw [steps_eq, if_pos ended, step_moved]
      rfl
  | case2 lexer next unfinished ih =>
      have goesOn : (lexer.moved bytes lines).step.token.kind ≠ .eof := by
        rw [step_moved]
        exact unfinished
      rw [steps_eq, if_neg goesOn, step_moved, List.map_cons, ← ih]
      rfl

end Lexer

namespace Lexeme

/-- Two texts that begin with the same character. -/
def Alike (tail other : List Char) : Prop :=
  ∃ c rest more, tail = c :: rest ∧ other = c :: more

variable {tail other : List Char}

theorem Alike.append (alike : Alike tail other) (front : List Char) :
    Alike (front ++ tail) (front ++ other) := by
  cases front with
  | nil => exact alike
  | cons c rest => exact ⟨c, rest ++ tail, rest ++ other, rfl, rfl⟩

theorem Stops.alike {within : Char → Bool} (stops : Stops within tail) (alike : Alike tail other) :
    Stops within other := by
  obtain ⟨c, rest, more, rfl, rfl⟩ := alike
  exact stops

theorem Run.alike {within : Char → Bool} {body : List Char} (run : Run within body tail)
    (alike : Alike tail other) : Run within body other :=
  ⟨run.inside, run.stops.alike alike⟩

theorem Quotation.Items.alike {body : List Char} (items : Items body tail)
    (alike : Alike tail other) : Items body other := by
  induction items with
  | nil => exact .nil
  | plain unquoted unescaped _ ih => exact .plain unquoted unescaped (ih alike)
  | escape short _ ih => exact .escape short (ih alike)
  | @code digit c digits body tail first run value _ ih =>
      exact .code first (run.alike (alike.append body)) value (ih alike)

theorem Reads.alike {first : Char} {body : List Char} {kind : Kind} {text : String}
    (reads : Reads first body tail kind text) (alike : Alike tail other) :
    Reads first body other kind text := by
  refine reads.replace fun c front => .inl ?_
  obtain ⟨d, rest, more, rfl, rfl⟩ := alike
  exact front

/-- A fault that takes less than the whole text stays the same as well. -/
theorem Fails.alike {first : Char} {body : List Char} {kind : Kind} {text : String}
    (fails : Fails first body tail kind text) (alike : Alike tail other) :
    Fails first body other kind text := by
  have goesOn : tail ≠ [] := by
    obtain ⟨c, rest, more, rfl, rfl⟩ := alike
    exact List.cons_ne_nil c rest
  cases fails with
  | stray opens unknown stops => exact .stray opens unknown (stops.alike alike)
  | openComment plain inside => exact absurd rfl goesOn
  | openDoc inside => exact absurd rfl goesOn
  | cutDoc inside => exact absurd rfl goesOn
  | halfDoc inside other => exact .halfDoc inside other
  | @openString body taken tail items flaw =>
      cases flaw with
      | unfinished => exact absurd rfl goesOn
      | cut => exact absurd rfl goesOn
  | @brokenString body taken tail text items flaw =>
      refine .brokenString (items.alike (alike.append taken)) ?_
      cases flaw with
      | unknown long word => exact .unknown long word
      | code first run missing => exact .code first (run.alike alike) missing

/-- What is scanned at the front of a text depends on what it takes and on the
character behind it. -/
theorem scan_alike (first : Char) {body : List Char} (alike : Alike tail other)
    (length : (scan first (body ++ tail)).length = body.length) :
    scan first (body ++ other) = scan first (body ++ tail) := by
  obtain ⟨taken, behind, kind, text, parts, rule⟩ := exists_rule first (body ++ tail)
  have found : scan first (body ++ tail) = ⟨kind, text, taken.length⟩ := by
    rw [parts]
    exact rule.elim (·.scan_eq) (·.scan_eq)
  rw [found] at length
  obtain ⟨rfl, rfl⟩ := List.append_inj parts length.symm
  rw [found]
  rcases rule with reads | fails
  · exact (reads.alike alike).scan_eq
  · exact (fails.alike alike).scan_eq

end Lexeme

namespace Lexer

/-- The same lexer in front of another text. -/
def facing (lexer : Lexer) (rest : List Char) : Lexer :=
  { lexer with reader := ⟨lexer.position, rest⟩ }

variable {lexer reached : Lexer} {front : List Step} {other : List Char}

theorem stepAt_facing {first : Char} {body tail : List Char}
    (next : lexer.reader.rest = first :: (body ++ tail))
    (length : (Lexeme.scan first (body ++ tail)).length = body.length)
    (alike : Lexeme.Alike tail other) :
    (lexer.facing (first :: (body ++ other))).stepAt first (body ++ other) =
      let step := lexer.stepAt first (body ++ tail)
      ⟨step.token, first :: body, step.after.facing other⟩ := by
  simp only [stepAt_eq, Lexeme.scan_alike first alike length, length, List.take_left]
  simp only [facing, position, Reader.skip, next, tokenFrom, List.take_succ_cons, List.take_left,
    List.drop_succ_cons, List.drop_left]

theorem step_facing (alike : Lexeme.Alike lexer.step.after.reader.rest other) :
    (lexer.facing (lexer.step.covered ++ other)).step =
      ⟨lexer.step.token, lexer.step.covered, lexer.step.after.facing other⟩ := by
  have transition := lexer.step_transition
  generalize lexer.step = step at transition alike
  cases transition with
  | close atEnd =>
      obtain ⟨c, rest, more, next, _⟩ := alike
      cases atEnd.symm.trans next
  | @shift first rest shift layout next waits resolved =>
      obtain ⟨c, tail, more, begins, rfl⟩ := alike
      obtain ⟨rfl, rfl⟩ := List.cons.inj (next.symm.trans begins)
      exact @step_shift (lexer.facing (first :: more)) first more shift layout rfl waits resolved
  | @read first rest layout next ready =>
      obtain ⟨body, tail, kind, text, rfl, rule⟩ := Lexeme.exists_rule first rest
      have found : Lexeme.scan first (body ++ tail) = ⟨kind, text, body.length⟩ :=
        rule.elim (·.scan_eq) (·.scan_eq)
      obtain ⟨covered, behind, _⟩ :=
        @stepAt_piece { lexer with layout } first body tail kind text next found
      rw [behind] at alike
      rw [covered, List.cons_append,
        @step_read (lexer.facing (first :: (body ++ other))) first (body ++ other) layout rfl ready]
      exact @stepAt_facing { lexer with layout } other first body tail next (by rw [found]) alike

theorem Reaches.text (reaches : lexer.Reaches front reached) :
    lexer.reader.rest = (front.map (·.covered)).flatten ++ reached.reader.rest := by
  induction reaches with
  | here => rfl
  | @step lexer reached front more ih =>
      rw [List.map_cons, List.flatten_cons, List.append_assoc, ← ih]
      exact lexer.step_transition.text

/-- A run up to some character does not depend on what stands behind that
character. -/
theorem Reaches.facing (reaches : lexer.Reaches front reached)
    (alike : Lexeme.Alike reached.reader.rest other) :
    ∃ run, (lexer.facing ((front.map (·.covered)).flatten ++ other)).Reaches run
        (reached.facing other) ∧ run.map (·.token) = front.map (·.token) := by
  induction reaches with
  | here lexer => exact ⟨[], .here _, rfl⟩
  | @step lexer reached front more ih =>
      obtain ⟨run, reaches, same⟩ := ih alike
      have begins := alike.append (front.map (·.covered)).flatten
      rw [← more.text] at begins
      have stepped := step_facing begins
      rw [List.map_cons, List.flatten_cons, List.append_assoc]
      refine ⟨_ :: run, .step ?_, ?_⟩
      · rw [stepped]
        exact reaches
      · rw [List.map_cons, stepped, same, List.map_cons]

theorem Reaches.moved (reaches : lexer.Reaches front reached) (bytes lines : Nat) :
    (lexer.moved bytes lines).Reaches (front.map (·.moved bytes lines))
      (reached.moved bytes lines) := by
  induction reaches with
  | here lexer => exact .here _
  | @step lexer reached front more ih =>
      have stepped := lexer.step_moved bytes lines
      rw [List.map_cons, ← stepped]
      refine .step ?_
      rw [stepped]
      exact ih

/-- The end of a text does not come before the text has been passed. -/
theorem Reaches.unfinished (reaches : lexer.Reaches front reached)
    (unread : reached.reader.rest ≠ []) : ∀ step ∈ front, step.token.kind ≠ .eof := by
  induction reaches with
  | here => simp
  | @step lexer reached front more ih =>
      refine List.forall_mem_cons.mpr ⟨fun atEnd => unread ?_, ih unread⟩
      have text := (Reaches.step more).text
      rw [lexer.step_transition.atEnd atEnd] at text
      exact (List.append_eq_nil_iff.mp text.symm).2

theorem Reaches.steps_eq (reaches : lexer.Reaches front reached)
    (unfinished : ∀ step ∈ front, step.token.kind ≠ .eof) :
    lexer.steps = front ++ reached.steps := by
  induction reaches with
  | here => rfl
  | @step lexer reached front more ih =>
      obtain ⟨goesOn, others⟩ := List.forall_mem_cons.mp unfinished
      rw [Lexer.steps_eq, if_neg goesOn, ih others, List.cons_append]

end Lexer

end SpinBlocks
