import Mathlib.Data.List.Chain
import SpinBlocks.Proofs.Transition

namespace SpinBlocks

/-! Tokens cover their text without gap or overlap.

A lexer that has passed some characters stands right behind them, and its next
token covers what the step reads on from there. So every span is cut out of the
source by the characters before it and the characters in it.
-/

namespace Bytes

theorem size_cons_cut (character : Char) (rest : List Char) :
    ∃ count, size (character :: rest) = count + 1 ∧ character.utf8Size ≤ count + 1 ∧
      count + 1 - character.utf8Size = size rest := by
  have positive := character.utf8Size_pos
  refine ⟨character.utf8Size + size rest - 1, ?_, ?_, ?_⟩
  · rw [size_cons]
    omega
  · omega
  · omega

theorem drop?_append (front back : List Char) : drop? (front ++ back) (size front) = some back := by
  induction front with
  | nil => simp [drop?]
  | cons character rest ih =>
      obtain ⟨count, total, fits, remaining⟩ := size_cons_cut character rest
      rw [total, List.cons_append, drop?, if_pos fits, remaining, ih]

theorem take?_append (front back : List Char) : take? (front ++ back) (size front) = some front := by
  induction front with
  | nil => simp [take?]
  | cons character rest ih =>
      obtain ⟨count, total, fits, remaining⟩ := size_cons_cut character rest
      rw [total, List.cons_append, take?, if_pos fits, remaining, ih, Option.map_some]

theorem slice?_append (front middle back : List Char) :
    slice? (front ++ (middle ++ back)) (size front) (size (front ++ middle)) = some middle := by
  have ordered : ¬ size (front ++ middle) < size front := by simp
  have length : size (front ++ middle) - size front = size middle := by simp
  rw [slice?, if_neg ordered, drop?_append, Option.bind_some, length, take?_append]

theorem size_pos {characters : List Char} (nonempty : characters ≠ []) : 0 < size characters := by
  cases characters with
  | nil => contradiction
  | cons character rest =>
      have := character.utf8Size_pos
      rw [size_cons]
      omega

theorem utf8ByteSize_ofList (characters : List Char) :
    (String.ofList characters).utf8ByteSize = size characters := by
  induction characters with
  | nil => rfl
  | cons character rest ih =>
      rw [← List.singleton_append, String.ofList_append, String.utf8ByteSize_append, ih,
        ← String.singleton_eq_ofList, String.utf8ByteSize_singleton, size_append, size_cons,
        size_nil, Nat.add_zero]

theorem isValid_size {source : String} {front back : List Char}
    (parts : source.toList = front ++ back) :
    (⟨size front⟩ : String.Pos.Raw).IsValid source := by
  rw [String.Pos.Raw.isValid_iff_exists_append]
  refine ⟨String.ofList front, String.ofList back, ?_, ?_⟩
  · rw [← String.ofList_append, ← parts, String.ofList_toList]
  · rw [String.Pos.Raw.ext_iff]
    exact (utf8ByteSize_ofList front).symm

end Bytes

namespace Lexer

theorem Transition.text {lexer : Lexer} {step : Step} (transition : lexer.Transition step) :
    lexer.reader.rest = step.covered ++ step.after.reader.rest := by
  cases transition with
  | close atEnd => rfl
  | shift next waits resolved => rfl
  | read next ready =>
      rw [stepAt_eq]
      simp [Reader.skip, next]

theorem Transition.position {lexer : Lexer} {step : Step} (transition : lexer.Transition step) :
    step.after.position = lexer.position.advanceAll step.covered := by
  cases transition with
  | close atEnd => rfl
  | shift next waits resolved => rfl
  | read next ready =>
      rw [stepAt_eq]
      simp [Lexer.position, Reader.skip, next]

theorem Transition.span {lexer : Lexer} {step : Step} (transition : lexer.Transition step) :
    step.token.span = ⟨lexer.position.offset, step.after.position.offset⟩ := by
  cases transition with
  | close atEnd => rfl
  | shift next waits resolved => rfl
  | read next ready =>
      rw [stepAt_eq]
      rfl

theorem Transition.isEmpty_span {lexer : Lexer} {step : Step}
    (transition : lexer.Transition step) : step.token.span.isEmpty = step.covered.isEmpty := by
  rw [transition.span, transition.position, Position.advanceAll_offset]
  cases covered : step.covered with
  | nil => simp [Span.isEmpty]
  | cons c rest =>
      have := Bytes.size_pos (List.cons_ne_nil c rest)
      simp only [Span.isEmpty, List.isEmpty_cons, beq_eq_false_iff_ne]
      omega

theorem Transition.silent {lexer : Lexer} {step : Step} (transition : lexer.Transition step)
    (silent : step.covered = []) :
    step.token.kind ∈ [.indent, .dedent, .eof] ∨
      step.token.kind = .illegal ∧ step.token.text = "" := by
  cases transition with
  | close atEnd =>
      refine .inl ?_
      cases finished : lexer.layout.finish with
      | mk closed layout =>
          cases closed <;> simp [endOfInput, finished, marker, tokenFrom, Token.between]
  | @shift first rest shift layout next waits resolved =>
      cases shift
      · exact .inl (by simp [marker, tokenFrom, Token.between, Shift.kind])
      · exact .inl (by simp [marker, tokenFrom, Token.between, Shift.kind])
      · exact .inr ⟨rfl, rfl⟩
  | read next ready => simp [stepAt_eq] at silent

theorem Transition.atEnd {lexer : Lexer} {step : Step} (transition : lexer.Transition step)
    (eof : step.token.kind = .eof) : lexer.reader.rest = [] := by
  cases transition with
  | close atEnd => exact atEnd
  | @shift first rest shift layout next waits resolved => cases shift <;> cases eof
  | @read first rest layout next ready =>
      have mark := Lexeme.scan_isMark first rest
      rw [stepAt_eq] at eof
      change (Lexeme.scan first rest).kind = .eof at eof
      rw [eof] at mark
      cases mark

/-- The lexer stands in `source` right behind the characters `passed`. -/
structure Behind (source passed : List Char) (lexer : Lexer) : Prop where
  text : source = passed ++ lexer.reader.rest
  place : lexer.position = Position.start.advanceAll passed

theorem Behind.initial (source : String) : Behind source.toList [] (ofString source) :=
  ⟨rfl, rfl⟩

variable {source passed : List Char} {lexer : Lexer}

theorem Behind.step (behind : Behind source passed lexer) :
    Behind source (passed ++ lexer.step.covered) lexer.step.after where
  text := by
    rw [behind.text, lexer.step_transition.text, List.append_assoc]
  place := by
    rw [lexer.step_transition.position, behind.place, Position.advanceAll_append]

theorem Behind.offset (behind : Behind source passed lexer) :
    lexer.position.offset = Bytes.size passed := by
  rw [behind.place, Position.advanceAll_offset]
  exact Nat.zero_add _

theorem Behind.span (behind : Behind source passed lexer) :
    lexer.step.token.span =
      ⟨Bytes.size passed, Bytes.size (passed ++ lexer.step.covered)⟩ := by
  rw [lexer.step_transition.span, behind.offset, behind.step.offset]

theorem Behind.slice (behind : Behind source passed lexer) :
    Bytes.slice? source lexer.step.token.span.start lexer.step.token.span.stop =
      some lexer.step.covered := by
  rw [behind.span, behind.text, lexer.step_transition.text]
  exact Bytes.slice?_append _ _ _

theorem Reaches.behind {reached : Lexer} {front : List Step}
    (reaches : lexer.Reaches front reached) (start : Behind source passed lexer) :
    Behind source (passed ++ (front.map (·.covered)).flatten) reached := by
  induction reaches generalizing passed with
  | here => simpa using start
  | step more ih =>
      rw [List.map_cons, List.flatten_cons, ← List.append_assoc]
      exact ih start.step

theorem Reaches.stop {lexer reached : Lexer} {front : List Step} {last : Step}
    (reaches : lexer.Reaches front reached) (ends : front.getLast? = some last) :
    last.token.span.stop = reached.position.offset := by
  induction reaches with
  | here => cases ends
  | @step lexer reached front more ih =>
      cases front with
      | nil =>
          obtain rfl : lexer.step = last := by simpa using ends
          cases more
          rw [lexer.step_transition.span]
      | cons next front => exact ih (by rwa [List.getLast?_cons_cons] at ends)

/-- From the start of its first token to the end of its last one a run covers the
text without gap. -/
theorem Behind.slice_row {reached : Lexer} {row : List Step} {first last : Step}
    (behind : Behind source passed lexer) (reaches : lexer.Reaches row reached)
    (opens : row.head? = some first) (ends : row.getLast? = some last) :
    Bytes.slice? source first.token.span.start last.token.span.stop =
      some (row.map (·.covered)).flatten := by
  have start : first.token.span.start = Bytes.size passed := by
    cases reaches with
    | here => cases opens
    | step more =>
        obtain rfl : lexer.step = first := by simpa using opens
        rw [behind.span]
  have there := reaches.behind behind
  rw [start, reaches.stop ends, there.offset, there.text, List.append_assoc]
  exact Bytes.slice?_append _ _ _

/-- Every step of a run is the next step of a lexer that stands in the text. -/
theorem Behind.mem_steps (behind : Behind source passed lexer) {step : Step}
    (member : step ∈ lexer.steps) :
    ∃ front reached, Behind source front reached ∧ step = reached.step := by
  revert passed
  fun_induction steps lexer with
  | case1 lexer next atEnd =>
      intro passed behind
      exact ⟨passed, lexer, behind, List.mem_singleton.mp member⟩
  | case2 lexer next unfinished ih =>
      intro passed behind
      rcases List.mem_cons.mp member with same | member
      · exact ⟨passed, lexer, behind, same⟩
      · exact ih member behind.step

theorem covered_flatten (lexer : Lexer) :
    (lexer.steps.map (·.covered)).flatten = lexer.reader.rest := by
  fun_induction steps lexer with
  | case1 lexer next atEnd =>
      have ended := lexer.step_transition.atEnd atEnd
      have text := lexer.step_transition.text
      rw [ended] at text ⊢
      simpa [next] using (List.append_eq_nil_iff.mp text.symm).1
  | case2 lexer next unfinished ih =>
      rw [List.map_cons, List.flatten_cons, ih]
      exact lexer.step_transition.text.symm

theorem head?_steps (lexer : Lexer) : lexer.steps.head? = some lexer.step := by
  rw [steps_eq, List.head?_cons]

theorem steps_adjoin (lexer : Lexer) :
    lexer.steps.IsChain fun step next => next.token.span.start = step.token.span.stop := by
  fun_induction steps lexer with
  | case1 lexer next atEnd => exact .singleton _
  | case2 lexer next unfinished ih =>
      refine List.isChain_cons.mpr ⟨?_, ih⟩
      intro following front
      rw [head?_steps] at front
      obtain rfl : next.after.step = following := by simpa using front
      rw [next.after.step_transition.span, lexer.step_transition.span]

theorem steps_end (lexer : Lexer) :
    ∃ front last, lexer.steps = front ++ [last] ∧ last.token.kind = .eof ∧
      ∀ step ∈ front, step.token.kind ≠ .eof := by
  fun_induction steps lexer with
  | case1 lexer next atEnd => exact ⟨[], next, rfl, atEnd, by simp⟩
  | case2 lexer next unfinished ih =>
      obtain ⟨front, last, parts, atEnd, others⟩ := ih
      refine ⟨next :: front, last, by rw [parts, List.cons_append], atEnd, ?_⟩
      intro step member
      rcases List.mem_cons.mp member with rfl | member
      · exact unfinished
      · exact others step member

theorem isEmpty_span {step : Step} (member : step ∈ lexer.steps) :
    step.token.span.isEmpty = step.covered.isEmpty := by
  obtain ⟨_, reached, _, rfl⟩ := mem_steps_reaches member
  exact reached.step_transition.isEmpty_span

theorem Behind.stop (behind : Behind source passed lexer) (atEnd : lexer.step.token.kind = .eof) :
    lexer.step.token.span.stop = Bytes.size source := by
  have ended := lexer.step_transition.atEnd atEnd
  have text := lexer.step_transition.text
  rw [ended] at text
  rw [behind.span, behind.text, ended, (List.append_eq_nil_iff.mp text.symm).1]

end Lexer

theorem steps_behind {source : String} {step : Step} (member : step ∈ steps source) :
    ∃ passed reached, Lexer.Behind source.toList passed reached ∧ step = reached.step :=
  (Lexer.Behind.initial source).mem_steps member

theorem slice_of_mem_steps {source : String} {step : Step} (member : step ∈ steps source) :
    Bytes.slice? source.toList step.token.span.start step.token.span.stop = some step.covered := by
  obtain ⟨passed, reached, behind, rfl⟩ := steps_behind member
  exact behind.slice

theorem ordered_of_mem_tokens {source : String} {token : Token} (member : token ∈ tokens source) :
    token.span.start ≤ token.span.stop := by
  obtain ⟨step, among, rfl⟩ := List.mem_map.mp member
  obtain ⟨passed, reached, behind, rfl⟩ := steps_behind among
  rw [behind.span, Bytes.size_append]
  exact Nat.le_add_right _ _

theorem boundaries_of_mem_tokens {source : String} {token : Token}
    (member : token ∈ tokens source) :
    (⟨token.span.start⟩ : String.Pos.Raw).IsValid source ∧
      (⟨token.span.stop⟩ : String.Pos.Raw).IsValid source ∧
      token.span.stop ≤ source.utf8ByteSize := by
  obtain ⟨step, among, rfl⟩ := List.mem_map.mp member
  obtain ⟨passed, reached, behind, rfl⟩ := steps_behind among
  rw [behind.span]
  have valid := Bytes.isValid_size behind.step.text
  exact ⟨Bytes.isValid_size behind.text, valid, valid.le_rawEndPos⟩

/-- A row of tokens covers a text without gap or overlap, and ends with its one
end. Only marks of layout, the end and an illegal token without text cover
nothing. -/
structure Tiling (source : String) (tokens : List Token) : Prop where
  starts : tokens.head?.map (·.span.start) = some 0
  adjoins : tokens.IsChain fun token next => next.span.start = token.span.stop
  stops : tokens.getLast?.map (·.span.stop) = some source.utf8ByteSize
  boundaries : ∀ token ∈ tokens, (⟨token.span.start⟩ : String.Pos.Raw).IsValid source ∧
    (⟨token.span.stop⟩ : String.Pos.Raw).IsValid source
  rebuilds : (tokens.mapM fun token =>
    Bytes.slice? source.toList token.span.start token.span.stop).map List.flatten =
      some source.toList
  ends : ∃ front last, tokens = front ++ [last] ∧ last.kind = .eof ∧
    ∀ token ∈ front, token.kind ≠ .eof
  silent : ∀ token ∈ tokens, token.span.isEmpty = true →
    token.kind ∈ [.indent, .dedent, .eof] ∨ token.kind = .illegal ∧ token.text = ""

theorem mapM_eq_some {α β : Type} {f : α → Option β} {g : α → β} {items : List α}
    (every : ∀ item ∈ items, f item = some (g item)) : items.mapM f = some (items.map g) := by
  induction items with
  | nil => rfl
  | cons item rest ih =>
      rw [List.mapM_cons, every item (by simp), ih fun other member => every other (by simp [member])]
      rfl

theorem tokens_tile (source : String) : Tiling source (tokens source) where
  starts := by
    have behind := Lexer.Behind.initial source
    simp [tokens, steps, Lexer.head?_steps, behind.span]
  adjoins := by
    rw [tokens, List.isChain_map]
    exact (Lexer.ofString source).steps_adjoin
  stops := by
    obtain ⟨front, last, parts, atEnd, _⟩ := (Lexer.ofString source).steps_end
    have among : last ∈ steps source := by simp [steps, parts]
    obtain ⟨passed, reached, behind, rfl⟩ := steps_behind among
    have size := Bytes.utf8ByteSize_ofList source.toList
    rw [String.ofList_toList] at size
    simp [tokens, steps, parts, behind.stop atEnd, size]
  boundaries := by
    intro token member
    obtain ⟨step, among, rfl⟩ := List.mem_map.mp member
    obtain ⟨passed, reached, behind, rfl⟩ := steps_behind among
    rw [behind.span]
    exact ⟨Bytes.isValid_size behind.text, Bytes.isValid_size behind.step.text⟩
  rebuilds := by
    rw [tokens, List.mapM_map]
    simp only [Function.comp_def]
    rw [mapM_eq_some fun step => slice_of_mem_steps, Option.map_some, steps,
      Lexer.covered_flatten]
    rfl
  ends := by
    obtain ⟨front, last, parts, atEnd, others⟩ := (Lexer.ofString source).steps_end
    refine ⟨front.map (·.token), last.token, by simp [tokens, steps, parts], atEnd, ?_⟩
    intro token member
    obtain ⟨step, among, rfl⟩ := List.mem_map.mp member
    exact others step among
  silent := by
    intro token member empty
    obtain ⟨step, among, rfl⟩ := List.mem_map.mp member
    obtain ⟨passed, reached, behind, rfl⟩ := steps_behind among
    refine reached.step_transition.silent ?_
    have size : Bytes.size reached.step.covered = 0 := by
      simpa [behind.span, Span.isEmpty] using empty
    by_contra nonempty
    have := Bytes.size_pos nonempty
    omega

end SpinBlocks
