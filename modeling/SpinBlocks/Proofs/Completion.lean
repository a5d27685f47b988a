import SpinBlocks.Proofs.Lines
import SpinBlocks.Proofs.Locality

namespace SpinBlocks

/-! What a text lacks that ends too early.

A string or a block comment that is still open reaches to the end of the text, so
there is one such at most. Its missing end can be supplied, and since nothing else
stands behind it, all that was read before is read again.
-/

namespace Lexeme

theorem Stops.cons {within : Char → Bool} {c : Char} (outside : within c = false)
    (tail : List Char) : Stops within (c :: tail) := by
  intro d front
  cases front
  exact outside

theorem Stops.front {within : Char → Bool} {body tail : List Char}
    (stops : Stops within (body ++ tail)) : Stops within body := by
  intro c front
  apply stops
  rw [Option.mem_def] at front ⊢
  rw [List.head?_append, front, Option.some_or]

/-- The items of a string are those of a closed one, whatever closes it. Only a digit
in front would be taken for one of a code. -/
theorem Quotation.Items.quoted {body tail closing decoded : List Char} (items : Items body tail)
    (closes : Quoted closing decoded) (word : Stops Character.isDecimalDigit closing) :
    ∃ whole, Quoted (body ++ closing) whole := by
  induction items with
  | nil => exact ⟨decoded, closes⟩
  | plain unquoted unescaped more ih =>
      obtain ⟨whole, quoted⟩ := ih
      exact ⟨_, .plain unquoted unescaped quoted⟩
  | escape short more ih =>
      obtain ⟨whole, quoted⟩ := ih
      exact ⟨_, .escape short quoted⟩
  | code first run value more ih =>
      obtain ⟨whole, quoted⟩ := ih
      rw [List.cons_append, List.cons_append, List.append_assoc]
      exact ⟨_, .code first ⟨run.inside, run.stops.front.append_of word⟩ value quoted⟩

/-- What ends too early is a string or a comment but for two characters at most. -/
theorem Fails.completes {first : Char} {body tail : List Char} {text : String}
    (fails : Fails first body tail .unexpectedEof text) :
    tail = [] ∧ ∃ suffix kind shown, suffix.length ≤ 2 ∧ kind ∈ [.string, .comment] ∧
      Reads first (body ++ suffix) [] kind shown := by
  generalize cut : Kind.unexpectedEof = kind at fails
  cases fails with
  | openComment plain inside =>
      exact ⟨rfl, ['\x7d'], .comment, _, by simp, by simp, .blockComment plain inside⟩
  | @openString body taken tail items flaw =>
      cases flaw with
      | unfinished =>
          obtain ⟨whole, quoted⟩ := items.quoted .close (.cons (by decide) [])
          rw [List.append_nil]
          exact ⟨rfl, ['"'], .string, _, by simp, by simp, .string quoted⟩
      | cut =>
          have escaped : ('"', '"') ∈ Quotation.shortEscapes := by decide
          obtain ⟨whole, quoted⟩ := items.quoted (.escape escaped .close) (.cons (by decide) _)
          have reads :
              Reads '"' (body ++ ['\\'] ++ ['"', '"']) [] .string (String.ofList whole) := by
            rw [List.append_assoc]
            exact .string quoted
          exact ⟨rfl, ['"', '"'], .string, _, by simp, by simp, reads⟩
  | _ => cases cut

end Lexeme

namespace Lexer

variable {lexer reached : Lexer} {front : List Step}

/-- The step that finds a text unfinished takes all that is left of it. -/
theorem step_unfinished (unfinished : lexer.step.token.kind = .unexpectedEof) :
    ∃ first body layout text, lexer.reader.rest = first :: body ∧
      lexer.layout.Ready first layout ∧ Lexeme.Fails first body [] .unexpectedEof text ∧
      lexer.step.token = .between .unexpectedEof text lexer.region lexer.position
        lexer.step.after.position.offset ∧ lexer.step.after.reader.rest = [] := by
  have transition := lexer.step_transition
  generalize lexer.step = step at transition unfinished
  cases transition with
  | close atEnd =>
      exfalso
      revert unfinished
      cases finished : lexer.layout.finish with
      | mk closed layout =>
          cases closed <;> simp [endOfInput, finished, marker, tokenFrom, Token.between]
  | @shift first rest shift layout next waits resolved => cases shift <;> cases unfinished
  | @read first rest layout next ready =>
      have found : (Lexeme.scan first rest).kind = .unexpectedEof := by
        rwa [stepAt_eq] at unfinished
      have fault : (Lexeme.scan first rest).kind.isFault = true := by rw [found]; rfl
      obtain ⟨body, tail, rfl, length, fails⟩ := Lexeme.scan_failed fault
      rw [found] at fails
      generalize (Lexeme.scan first (body ++ tail)).text = text at fails
      obtain ⟨rfl, _⟩ := fails.completes
      have scanned := fails.scan_eq
      obtain ⟨_, behind, _⟩ :=
        @stepAt_piece { lexer with layout } first body [] _ _ next scanned
      have token : ({ lexer with layout }.stepAt first (body ++ [])).token = .between
          .unexpectedEof text lexer.region lexer.position
          ({ lexer with layout }.stepAt first (body ++ [])).after.position.offset := by
        rw [stepAt_eq, scanned]
        rfl
      rw [List.append_nil] at next
      exact ⟨first, body, layout, _, next, ready, fails, token, behind⟩

theorem Behind.stop_of_atEnd {source : String} {passed : List Char}
    (stands : Behind source.toList passed lexer) (atEnd : lexer.step.after.reader.rest = []) :
    lexer.step.token.span.stop = source.utf8ByteSize := by
  have text := stands.step.text
  rw [atEnd, List.append_nil] at text
  have size := Bytes.utf8ByteSize_ofList source.toList
  rw [String.ofList_toList] at size
  rw [stands.span, ← text, size]

theorem closing_of_atEnd (atEnd : lexer.reader.rest = []) :
    ∀ step ∈ lexer.steps, step.token.kind = .dedent ∨ step.token.kind = .eof := by
  intro step member
  have among : step.token.kind ∈ lexer.steps.map (·.token.kind) := List.mem_map_of_mem member
  rw [kinds_atEnd atEnd, List.mem_append, List.mem_replicate, List.mem_singleton] at among
  exact among.imp_left (·.2)

theorem closing_behind {step : Step} {back : List Step}
    (parts : lexer.steps = front ++ step :: back)
    (unfinished : step.token.kind = .unexpectedEof) :
    ∀ other ∈ back, other.token.kind = .dedent ∨ other.token.kind = .eof := by
  obtain ⟨reached, _, next⟩ := steps_reaches parts
  obtain ⟨rfl, rfl⟩ := steps_cons (next (List.cons_ne_nil step back)) (by simp [unfinished])
  obtain ⟨_, _, _, _, _, _, _, _, atEnd⟩ := step_unfinished unfinished
  exact closing_of_atEnd atEnd

/-- Nothing but marks stands behind the step that finds a text unfinished, so there is
one such at most. -/
theorem unfinished_alone {step : Step} {back : List Step}
    (parts : lexer.steps = front ++ step :: back)
    (unfinished : step.token.kind = .unexpectedEof) :
    ∀ other ∈ front ++ back, other.token.kind ≠ .unexpectedEof := by
  intro other member again
  rcases List.mem_append.mp member with member | member
  · obtain ⟨before, between, rfl⟩ := List.append_of_mem member
    rw [List.append_assoc, List.cons_append] at parts
    rcases closing_behind parts again step (by simp) with mark | atEnd
    · cases unfinished.symm.trans mark
    · cases unfinished.symm.trans atEnd
  · rcases closing_behind parts unfinished other member with mark | atEnd
    · cases again.symm.trans mark
    · cases again.symm.trans atEnd

/-- Where a run finds its text unfinished, the run over the completed text reads a
lexeme, and the steps before that are the same. -/
theorem Reaches.completed {first : Char} {body suffix : List Char} {kind : Kind} {text : String}
    {layout : Layout} (reaches : lexer.Reaches front reached)
    (next : reached.reader.rest = first :: body) (ready : reached.layout.Ready first layout)
    (reads : Lexeme.Reads first (body ++ suffix) [] kind text) :
    ∃ run completed, (lexer.facing (lexer.reader.rest ++ suffix)).Reaches run completed ∧
      run.map (·.token) = front.map (·.token) ∧
      (lexer.facing (lexer.reader.rest ++ suffix)).steps =
        run ++ completed.step :: completed.step.after.steps ∧
      completed.step.token = .between kind text (kind.regionBehind reached.region)
        reached.position (reached.position.advanceAll (first :: (body ++ suffix))).offset ∧
      completed.step.after.reader.rest = [] := by
  have alike : Lexeme.Alike reached.reader.rest (first :: (body ++ suffix)) :=
    ⟨first, body, body ++ suffix, next, rfl⟩
  obtain ⟨run, again, same⟩ := reaches.facing alike
  have whole : (front.map (·.covered)).flatten ++ (first :: (body ++ suffix)) =
      lexer.reader.rest ++ suffix := by
    rw [reaches.text, next, List.append_assoc, List.cons_append]
  rw [whole] at again
  have stepped := @step_reads (reached.facing (first :: (body ++ suffix))) first (body ++ suffix)
    [] kind text layout (by rw [List.append_nil]; rfl) reads ready
  have token := congrArg Step.token stepped
  have steps := again.steps_eq (again.unfinished (List.cons_ne_nil _ _))
  have goesOn : (reached.facing (first :: (body ++ suffix))).step.token.kind ≠ .eof := by
    rw [token]
    rintro rfl
    exact absurd reads.isMark (by decide)
  rw [Lexer.steps_eq (reached.facing _), if_neg goesOn] at steps
  exact ⟨run, _, again, same, steps, token, congrArg (·.after.reader.rest) stepped⟩

theorem ofString_append (source : String) (suffix : List Char) :
    (ofString source).facing ((ofString source).reader.rest ++ suffix) =
      ofString (source ++ String.ofList suffix) := by
  have text : (source ++ String.ofList suffix).toList = source.toList ++ suffix := by
    rw [String.toList_append, String.toList_ofList]
  rw [ofString, ofString, Reader.ofString, Reader.ofString, text]
  rfl

end Lexer

/-- The text is unfinished at the token behind `front` and before `back`. -/
structure Unfinished (source : String) (front : List Token) (token : Token) (back : List Token) :
    Prop where
  alone : ∀ other ∈ front ++ back, other.kind ≠ .unexpectedEof
  stops : token.span.stop = source.utf8ByteSize
  ends : ∀ other ∈ back, other.kind = .dedent ∨ other.kind = .eof
  completes : ∃ suffix completed more, suffix.length ≤ 2 ∧
    tokens (source ++ suffix) = front ++ completed :: more ∧
    completed.kind ∈ [.string, .comment] ∧ completed.region = token.region ∧
    completed.line = token.line ∧ completed.column = token.column ∧
    completed.span = ⟨token.span.start, (source ++ suffix).utf8ByteSize⟩ ∧
    ∀ other ∈ more, other.kind = .dedent ∨ other.kind = .eof

/-- A string or a comment without its end is the only one in its text and the last
thing in it, and lacks two characters at most. -/
theorem unfinished_completes {source : String} {front back : List Token} {token : Token}
    (parts : tokens source = front ++ token :: back) (unfinished : token.kind = .unexpectedEof) :
    Unfinished source front token back := by
  obtain ⟨run, rest, steps, rfl, more⟩ := List.map_eq_append_iff.mp parts
  obtain ⟨step, last, rfl, rfl, rfl⟩ := List.map_eq_cons_iff.mp more
  have alone := Lexer.unfinished_alone steps unfinished
  have closing := Lexer.closing_behind steps unfinished
  obtain ⟨reached, reaches, next⟩ := Lexer.steps_reaches steps
  obtain ⟨rfl, behind⟩ := Lexer.steps_cons (next (List.cons_ne_nil _ _)) (by simp [unfinished])
  obtain ⟨first, body, layout, text, next, ready, fails, place, atEnd⟩ :=
    Lexer.step_unfinished unfinished
  have stands := reaches.behind (.initial source)
  obtain ⟨_, suffix, kind, shown, short, sort, reads⟩ := fails.completes
  obtain ⟨again, completed, more, same, steps, token, nothing⟩ :=
    reaches.completed next ready reads
  exact
    { alone := by
        rw [← List.map_append]
        exact List.forall_mem_map.mpr alone
      stops := stands.stop_of_atEnd atEnd
      ends := List.forall_mem_map.mpr closing
      completes := by
        rw [Lexer.ofString_append] at more steps
        have stops := (more.behind (.initial _)).stop_of_atEnd nothing
        have region : kind.regionBehind reached.region = reached.region := by
          simp only [List.mem_cons, List.not_mem_nil, or_false] at sort
          rcases sort with rfl | rfl <;> rfl
        refine ⟨String.ofList suffix, completed.step.token,
          completed.step.after.steps.map (·.token), ?_, ?_, ?_, ?_, ?_, ?_, ?_, ?_⟩
        · rwa [String.length_ofList]
        · rw [tokens, SpinBlocks.steps, steps, List.map_append, List.map_cons, same]
        · rwa [token]
        · rw [token, place]
          exact region
        · rw [token, place]
          rfl
        · rw [token, place]
          rfl
        · rw [place, ← stops, token]
          rfl
        · exact List.forall_mem_map.mpr (Lexer.closing_of_atEnd nothing) }

/-- A string that is cut off behind a backslash, while a level of a method is open. -/
theorem unfinished_completes_cut :
    let source := "PUB\n a\n  b \"é\\"
    let token : Token := ⟨.unexpectedEof, "", .methods, 2, 4, ⟨11, 15⟩⟩
    let front := (tokens source).take 9
    let back := (tokens source).drop 10
    tokens source = front ++ token :: back ∧ Unfinished source front token back :=
  have parts : tokens "PUB\n a\n  b \"é\\" = _ ++ _ :: _ := by decide +kernel
  ⟨parts, unfinished_completes parts rfl⟩

end SpinBlocks
