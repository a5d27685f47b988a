import SpinBlocks.Proofs.Placing
import SpinBlocks.Proofs.Tiling

namespace SpinBlocks

/-! Which region a token belongs to, and in which regions indentation counts.

A region lasts from the block keyword that opens it to the next one. A line
waits for its indentation in methods only, and no level is open before the
first block.
-/

/-- Each token belongs to the region that the last block keyword up to it has
opened, where `region` is the one in front of all. -/
inductive Zoned : Region → List Token → Prop
  | nil {region : Region} : Zoned region []
  | cons {region : Region} {token : Token} {rest : List Token}
      (inside : token.region = token.kind.regionBehind region) (more : Zoned token.region rest) :
      Zoned region (token :: rest)

namespace Lexer

theorem endOfInput_kind (lexer : Lexer) :
    lexer.endOfInput.1.kind = .dedent ∨ lexer.endOfInput.1.kind = .eof := by
  cases finished : lexer.layout.finish with
  | mk closed layout =>
      cases closed <;> simp [endOfInput, finished, marker, tokenFrom, Token.between]

theorem Transition.region {lexer : Lexer} {step : Step} (transition : lexer.Transition step) :
    step.token.region = step.token.kind.regionBehind lexer.region ∧
      step.after.region = step.token.region := by
  cases transition with
  | close atEnd =>
      refine ⟨?_, rfl⟩
      rcases lexer.endOfInput_kind with kind | kind <;> simp only [kind] <;> rfl
  | @shift first rest shift layout next waits resolved => cases shift <;> exact ⟨rfl, rfl⟩
  | read next ready =>
      rw [stepAt_eq]
      exact ⟨rfl, rfl⟩

theorem steps_zoned (lexer : Lexer) : Zoned lexer.region (lexer.steps.map (·.token)) := by
  fun_induction steps lexer with
  | case1 lexer next atEnd => exact .cons lexer.step_transition.region.1 .nil
  | case2 lexer next unfinished ih =>
      obtain ⟨inside, behind⟩ := lexer.step_transition.region
      exact .cons inside (behind ▸ ih)

/-- A line is pending in methods only, and levels are open in some block only. -/
structure Orderly (lexer : Lexer) : Prop where
  pending : lexer.layout.pending = true → lexer.region = .methods
  outside : lexer.region = .outside → lexer.layout.levels = []

theorem Orderly.initial (source : String) : (ofString source).Orderly :=
  ⟨nofun, fun _ => rfl⟩

end Lexer

theorem Kind.regionBehind_ne_outside {kind : Kind} (opens : kind.isBlockKeyword = true)
    (region : Region) : kind.regionBehind region ≠ .outside := by
  obtain ⟨block, found⟩ := Option.isSome_iff_exists.mp opens
  rw [regionBehind, found]
  cases block <;> exact Region.noConfusion

theorem Kind.regionBehind_of_not_opens {kind : Kind} (plain : kind.isBlockKeyword = false)
    (region : Region) : kind.regionBehind region = region := by
  have none : kind.block? = none :=
    Option.isNone_iff_eq_none.mp (Option.isSome_eq_false_iff.mp plain)
  rw [regionBehind, none]

namespace Layout

theorem ready_pending {layout settled : Layout} {first : Char}
    (ready : layout.Ready first settled) (significant : Character.isSignificant first = true) :
    settled.pending = false := by
  unfold Ready at ready
  split at ready
  · exact (resolve_settled ready).1
  · rename_i calm
    rw [ready]
    simpa [waits, significant] using calm

/-- A lexeme sets a line pending only if it is a line feed within methods. -/
theorem pending_behind (layout : Layout) (region : Region) (start : Position) (lexeme : Lexeme) :
    (layout.behind region start lexeme).pending = true →
      layout.pending = true ∨ lexeme.kind = .newline ∧ region = .methods := by
  intro pends
  unfold behind at pends
  split at pends
  · rename_i newline
    split at pends
    · rename_i inside
      exact .inr ⟨newline, inside⟩
    · exact .inl pends
  · unfold noteBlanks at pends
    split at pends <;> exact .inl pends
  · exact .inl pends
  · exact .inl pends

end Layout

namespace Lexer

variable {lexer : Lexer} {step : Step}

theorem Orderly.ready {first : Char} {layout : Layout} (orderly : lexer.Orderly)
    (ready : lexer.layout.Ready first layout) : Orderly { lexer with layout } := by
  unfold Layout.Ready at ready
  split at ready
  · rename_i waits
    have inside := orderly.pending (Bool.and_eq_true_iff.mp waits).1
    exact ⟨fun _ => inside, fun outside => by simp [inside] at outside⟩
  · rw [ready]
    exact orderly

theorem Orderly.stepAt {first : Char} {rest : List Char} (orderly : lexer.Orderly)
    (calm : Character.isSignificant first = true → lexer.layout.pending = false) :
    (lexer.stepAt first rest).after.Orderly := by
  rw [stepAt_eq]
  generalize found : Lexeme.scan first rest = lexeme
  cases opens : lexeme.kind.isBlockKeyword with
  | true =>
      -- A keyword is significant, so its line is not pending any more.
      have keyword : lexeme.kind.isTrivia = false ∧ lexeme.kind.isFault = false ∧
          lexeme.kind ≠ .newline := by
        cases kind : lexeme.kind <;> simp_all [Kind.isBlockKeyword, Kind.block?, Kind.isTrivia,
          Kind.isFault]
      have significant : Character.isSignificant first = true := by
        have sound : (Lexeme.scan first rest).kind.isFault = false := found ▸ keyword.2.1
        obtain ⟨_, _, _, _, reads⟩ := Lexeme.scan_found sound
        rw [reads.isSignificant, found, keyword.1]
        rfl
      refine ⟨fun pends => ?_, fun outside => ?_⟩
      · rcases Layout.pending_behind _ _ _ _ pends with pends | ⟨newline, _⟩
        · rw [calm significant] at pends
          cases pends
        · exact absurd newline keyword.2.2
      · exact absurd outside (Kind.regionBehind_ne_outside opens _)
  | false =>
      have same := Kind.regionBehind_of_not_opens opens lexer.region
      refine ⟨fun pends => ?_, fun outside => ?_⟩
      · refine same.trans ?_
        rcases Layout.pending_behind _ _ _ _ pends with pends | ⟨_, inside⟩
        · exact orderly.pending pends
        · exact inside
      · rw [Layout.levels_behind]
        exact orderly.outside (same.symm.trans outside)

theorem Transition.orderly (transition : lexer.Transition step) (orderly : lexer.Orderly) :
    step.after.Orderly := by
  cases transition with
  | close atEnd =>
      rcases lexer.layout.finish_cases with ⟨_, _, _, levels, finished⟩ | ⟨_, finished⟩
      · refine ⟨fun pends => ?_, fun outside => ?_⟩
        · simp [endOfInput, finished, Layout.settle] at pends
        · have none := orderly.outside outside
          rw [levels] at none
          cases none
      · refine ⟨fun pends => ?_, fun outside => ?_⟩
        · simp [endOfInput, finished, Layout.settle] at pends
        · simp [endOfInput, finished, Layout.settle]
  | shift next waits resolved =>
      have inside := orderly.pending (Bool.and_eq_true_iff.mp waits).1
      exact ⟨fun _ => inside, fun outside => by simp [inside] at outside⟩
  | read next ready => exact (orderly.ready ready).stepAt (Layout.ready_pending ready)

/-- Levels are opened in methods only, and closed in some block only. -/
theorem Transition.marks (transition : lexer.Transition step) (orderly : lexer.Orderly) :
    (step.token.kind = .indent → step.token.region = .methods) ∧
      (step.token.kind = .dedent → step.token.region ≠ .outside) := by
  cases transition with
  | close atEnd =>
      refine ⟨fun opens => ?_, fun closes outside => ?_⟩
      · rcases lexer.endOfInput_kind with kind | kind <;> rw [kind] at opens <;> cases opens
      · have levels := orderly.outside outside
        simp [endOfInput, Layout.finish, levels, marker, tokenFrom, Token.between] at closes
  | shift next waits resolved =>
      have inside := orderly.pending (Bool.and_eq_true_iff.mp waits).1
      exact ⟨fun _ => inside, fun _ outside => by
        simp [marker, tokenFrom, Token.between, inside] at outside⟩
  | @read first rest layout next ready =>
      have mark := Lexeme.scan_isMark first rest
      rw [stepAt_eq]
      refine ⟨fun opens => ?_, fun closes => ?_⟩
      · change (Lexeme.scan first rest).kind = .indent at opens
        rw [opens] at mark
        cases mark
      · change (Lexeme.scan first rest).kind = .dedent at closes
        rw [closes] at mark
        cases mark

/-- A fault that covers nothing is a line that fits no level of a method. -/
theorem Transition.misfit (transition : lexer.Transition step) (orderly : lexer.Orderly)
    (fault : step.token.kind = .illegal) (silent : step.covered = []) :
    step.token.region = .methods := by
  cases transition with
  | close atEnd =>
      rcases lexer.endOfInput_kind with kind | kind <;> rw [kind] at fault <;> cases fault
  | shift next waits resolved => exact orderly.pending (Bool.and_eq_true_iff.mp waits).1
  | read next ready => simp [stepAt_eq] at silent

theorem Transition.levels (transition : lexer.Transition step) (orderly : lexer.Orderly)
    (elsewhere : lexer.region ≠ .methods) (unread : lexer.reader.rest ≠ []) :
    step.after.layout.levels = lexer.layout.levels := by
  have calm (first : Char) : lexer.layout.waits first = false := by
    cases waits : lexer.layout.waits first with
    | false => rfl
    | true => exact absurd (orderly.pending (Bool.and_eq_true_iff.mp waits).1) elsewhere
  cases transition with
  | close atEnd => exact absurd atEnd unread
  | @shift first rest shift layout next waits resolved =>
      rw [calm first] at waits
      cases waits
  | @read first rest layout next ready =>
      have same : layout = lexer.layout := by simpa [Layout.Ready, calm first] using ready
      rw [stepAt_eq, same]
      exact Layout.levels_behind _ _ _ _

theorem Reaches.orderly {front : List Step} {reached : Lexer}
    (reaches : lexer.Reaches front reached) (orderly : lexer.Orderly) : reached.Orderly :=
  reaches.invariant (fun {lexer} => lexer.step_transition.orderly) orderly

end Lexer

namespace Zoned

variable {region : Region} {tokens body rest : List Token}

theorem filter {keep : Token → Bool} (zoned : Zoned region tokens)
    (kept : ∀ token, keep token = false → token.kind.isBlockKeyword = false) :
    Zoned region (tokens.filter keep) := by
  induction zoned with
  | nil => exact .nil
  | @cons region token rest inside more ih =>
      rw [List.filter_cons]
      split
      · exact .cons inside ih
      · rename_i dropped
        have same : token.region = region := by
          rw [inside, Kind.regionBehind_of_not_opens (kept token (by simpa using dropped))]
        exact same ▸ ih

/-- Up to the next block keyword all tokens belong to one region. -/
theorem split (zoned : Zoned region (body ++ rest))
    (plain : ∀ token ∈ body, token.kind.isBlockKeyword = false) :
    (∀ token ∈ body, token.region = region) ∧ Zoned region rest := by
  induction body generalizing region with
  | nil => exact ⟨by simp, zoned⟩
  | cons token body ih =>
      obtain ⟨here, others⟩ := List.forall_mem_cons.mp plain
      cases zoned with
      | cons inside more =>
          have same : token.region = region := by
            rw [inside, Kind.regionBehind_of_not_opens here]
          rw [same] at more
          obtain ⟨inner, behind⟩ := ih more others
          exact ⟨List.forall_mem_cons.mpr ⟨same, inner⟩, behind⟩

theorem front (zoned : Zoned region (body ++ rest)) : Zoned region body := by
  induction body generalizing region with
  | nil => exact .nil
  | cons token body ih =>
      cases zoned with
      | cons inside more => exact .cons inside (ih more)

theorem behind (zoned : Zoned region (body ++ rest)) : ∃ reached, Zoned reached rest := by
  induction body generalizing region with
  | nil => exact ⟨region, zoned⟩
  | cons token body ih =>
      cases zoned with
      | cons inside more => exact ih more

theorem tail {token : Token} (zoned : Zoned region (token :: rest))
    (plain : token.kind.isBlockKeyword = false) : Zoned region rest := by
  have parts : Zoned region ([token] ++ rest) := zoned
  exact (parts.split (by simpa using plain)).2

theorem block {start : Token} {kind : BlockKind} (zoned : Zoned region (start :: (body ++ rest)))
    (opens : start.kind = .keyword (.block kind))
    (plain : ∀ token ∈ body, token.kind.isBlockKeyword = false) :
    start.region = kind.region ∧ (∀ token ∈ body, token.region = kind.region) ∧
      Zoned kind.region rest := by
  cases zoned with
  | cons inside more =>
      rw [opens] at inside
      have same : start.region = kind.region := inside
      rw [same] at more
      exact ⟨same, more.split plain⟩

end Zoned

theorem tokens_zoned (source : String) : Zoned .outside (tokens source) :=
  (Lexer.ofString source).steps_zoned

theorem steps_orderly {source : String} {step : Step} (member : step ∈ steps source) :
    ∃ reached : Lexer, reached.Orderly ∧ step = reached.step := by
  obtain ⟨front, reached, reaches, same⟩ := Lexer.mem_steps_reaches member
  exact ⟨reached, reaches.orderly (.initial source), same⟩

theorem marks_of_mem_tokens {source : String} {token : Token} (member : token ∈ tokens source) :
    (token.kind = .indent → token.region = .methods) ∧
      (token.kind = .dedent → token.region ≠ .outside) := by
  obtain ⟨step, among, rfl⟩ := List.mem_map.mp member
  obtain ⟨reached, orderly, rfl⟩ := steps_orderly among
  exact reached.step_transition.marks orderly

theorem misfit_of_mem_tokens {source : String} {token : Token} (member : token ∈ tokens source)
    (fault : token.kind = .illegal) (empty : token.span.isEmpty = true) :
    token.region = .methods := by
  obtain ⟨step, among, rfl⟩ := List.mem_map.mp member
  have silent : step.covered = [] := by
    rw [Lexer.isEmpty_span among] at empty
    exact List.isEmpty_iff.mp empty
  obtain ⟨reached, orderly, rfl⟩ := steps_orderly among
  exact reached.step_transition.misfit orderly fault silent

/-- The region that the last block keyword of a row of tokens opens. -/
def lastRegion (tokens : List Token) : Region :=
  match tokens.reverse.findSome? (·.kind.block?) with
  | some block => block.region
  | none => .outside

theorem lastRegion_concat (front : List Token) (token : Token) :
    lastRegion (front ++ [token]) = token.kind.regionBehind (lastRegion front) := by
  rw [lastRegion, List.reverse_append, List.reverse_singleton, List.singleton_append,
    List.findSome?_cons, Kind.regionBehind]
  cases token.kind.block? <;> rfl

theorem Zoned.region_eq {passed front behind : List Token} {token : Token}
    (zoned : Zoned (lastRegion passed) (front ++ token :: behind)) :
    token.region = lastRegion (passed ++ front ++ [token]) := by
  induction front generalizing passed with
  | nil =>
      cases zoned with
      | cons inside more => rw [List.append_nil, lastRegion_concat, inside]
  | cons first front ih =>
      cases zoned with
      | cons inside more =>
          rw [← lastRegion_concat] at inside
          rw [inside] at more
          have found := ih more
          rwa [List.append_assoc passed, List.singleton_append] at found

/-- A token belongs to the region that the last block keyword up to it has opened.
Only in methods do lines wait for their indentation, and only there is it marked
or found at fault. Elsewhere the levels stay as they are until the text ends. -/
theorem regions_disciplined (source : String) :
    (∀ front token behind, tokens source = front ++ token :: behind →
      token.region = lastRegion (front ++ [token])) ∧
    (∀ token ∈ tokens source,
      token.kind = .indent ∨ token.kind = .illegal ∧ token.span.isEmpty = true →
        token.region = .methods) ∧
    ∀ front lexer, (Lexer.ofString source).Reaches front lexer →
      (lexer.layout.pending = true → lexer.region = .methods) ∧
      (lexer.region ≠ .methods → lexer.reader.rest ≠ [] →
        lexer.step.after.layout.levels = lexer.layout.levels) := by
  refine ⟨fun front token behind parts => ?_, fun token member => ?_,
    fun front lexer reaches => ?_⟩
  · have zoned := tokens_zoned source
    rw [parts] at zoned
    exact @Zoned.region_eq [] front behind token zoned
  · rintro (opens | ⟨fault, empty⟩)
    · exact (marks_of_mem_tokens member).1 opens
    · exact misfit_of_mem_tokens member fault empty
  · have orderly := reaches.orderly (.initial source)
    exact ⟨orderly.pending, lexer.step_transition.levels orderly⟩

end SpinBlocks
