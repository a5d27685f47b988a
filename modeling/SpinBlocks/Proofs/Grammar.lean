import SpinBlocks.Proofs.Numbers

namespace SpinBlocks

/-! The grammar of objects, and that parsing accepts just what it derives.

Tokens are taken from a supply with room for one token that is put back. All
that matters of a supply is which tokens are still coming from it, so what each
reading function does is told by the tokens that come before it and behind it.
-/

/-- The tokens that count for the grammar. -/
def significant (tokens : List Token) : List Token :=
  tokens.filter fun token => !token.kind.isTrivia

/-- The number that a token of digits stands for. -/
def Token.literal (token : Token) (radix : Radix) : Literal :=
  ⟨radix, token.text, Numeral.value radix.base token.digits⟩

/-- Whether and what a token counts depends on its kind and its text alone. -/
theorem Token.Counts.congr {token other : Token} {radix : Radix} (counts : token.Counts radix)
    (kind : other.kind = token.kind) (text : other.text = token.text) :
    other.Counts radix ∧ other.literal radix = token.literal radix := by
  have digits : other.digits = token.digits := by rw [Token.digits, Token.digits, text]
  unfold Token.Counts Token.literal at *
  rw [kind, text, digits]
  exact ⟨counts, rfl⟩

inductive Constants : List Token → List (String × Literal) → Prop
  | nil : Constants [] []
  | cons {name assign number : Token} {radix : Radix} {tokens : List Token}
      {constants : List (String × Literal)} (named : name.kind = .identifier)
      (assigns : assign.kind = .operator .assign) (counts : number.Counts radix)
      (more : Constants tokens constants) :
      Constants (name :: assign :: number :: tokens)
        ((name.text, number.literal radix) :: constants)

/-- What is kept of a block, but for the place where it stands. -/
structure Outline where
  kind : BlockKind
  constants : List (String × Literal)

def Declaration.outline (declaration : Declaration) : String × Literal :=
  (declaration.name, declaration.value)

def Block.outline (block : Block) : Outline :=
  ⟨block.kind, block.declarations.map (·.outline)⟩

inductive Blocks : List Token → List Outline → Prop
  | nil : Blocks [] []
  | constants {start : Token} {body rest : List Token} {constants : List (String × Literal)}
      {outlines : List Outline} (opens : start.kind = .keyword (.block .con))
      (declares : Constants body constants) (more : Blocks rest outlines) :
      Blocks (start :: (body ++ rest)) (⟨.con, constants⟩ :: outlines)
  | raw {start : Token} {body rest : List Token} {kind : BlockKind} {outlines : List Outline}
      (unread : kind ≠ .con) (opens : start.kind = .keyword (.block kind))
      (inside : ∀ token ∈ body, token.kind.endsBlock = false) (more : Blocks rest outlines) :
      Blocks (start :: (body ++ rest)) (⟨kind, []⟩ :: outlines)

/-! The same grammar, with the places where blocks and constants stand. -/

inductive Declares : List Token → List Declaration → Prop
  | nil : Declares [] []
  | cons {name assign number : Token} {radix : Radix} {tokens : List Token}
      {declarations : List Declaration} (named : name.kind = .identifier)
      (assigns : assign.kind = .operator .assign) (counts : number.Counts radix)
      (more : Declares tokens declarations) :
      Declares (name :: assign :: number :: tokens)
        (⟨name.text, number.literal radix, name.span.merge number.span⟩ :: declarations)

/-- The least span that covers all of them. -/
def Span.mergeAll (span : Span) (spans : List Span) : Span :=
  spans.foldl merge span

/-- The spans of the tokens that cover anything. -/
def solidSpans (tokens : List Token) : List Span :=
  (tokens.filter fun token => !token.span.isEmpty).map (·.span)

/-- The tokens of a single block. -/
inductive Forms : List Token → Block → Prop
  | constants {start : Token} {body : List Token} {declarations : List Declaration}
      (opens : start.kind = .keyword (.block .con)) (declares : Declares body declarations) :
      Forms (start :: body)
        (.constants declarations (start.span.mergeAll (declarations.map (·.span))))
  | raw {start : Token} {body : List Token} {kind : BlockKind} (unread : kind ≠ .con)
      (opens : start.kind = .keyword (.block kind))
      (inside : ∀ token ∈ body, token.kind.endsBlock = false) :
      Forms (start :: body) (.raw kind unread (start.span.mergeAll (solidSpans body)))

inductive Builds : List Token → List Block → Prop
  | nil : Builds [] []
  | cons {part rest : List Token} {block : Block} {blocks : List Block}
      (forms : Forms part block) (more : Builds rest blocks) :
      Builds (part ++ rest) (block :: blocks)

theorem Declares.constants {tokens : List Token} {declarations : List Declaration}
    (declares : Declares tokens declarations) :
    Constants tokens (declarations.map (·.outline)) := by
  induction declares with
  | nil => exact .nil
  | cons named assigns counts more ih => exact .cons named assigns counts ih

theorem Constants.declares {tokens : List Token} {constants : List (String × Literal)}
    (derived : Constants tokens constants) :
    ∃ declarations, Declares tokens declarations ∧ declarations.map (·.outline) = constants := by
  induction derived with
  | nil => exact ⟨[], .nil, rfl⟩
  | cons named assigns counts more ih =>
      obtain ⟨declarations, declares, same⟩ := ih
      exact ⟨_, .cons named assigns counts declares, by rw [List.map_cons, same]; rfl⟩

theorem Builds.outlines {tokens : List Token} {blocks : List Block}
    (builds : Builds tokens blocks) : Blocks tokens (blocks.map (·.outline)) := by
  induction builds with
  | nil => exact .nil
  | cons forms more ih =>
      cases forms with
      | constants opens declares => exact .constants opens declares.constants ih
      | raw unread opens inside => exact .raw unread opens inside ih

theorem Blocks.builds {tokens : List Token} {outlines : List Outline}
    (derived : Blocks tokens outlines) :
    ∃ blocks, Builds tokens blocks ∧ blocks.map (·.outline) = outlines := by
  induction derived with
  | nil => exact ⟨[], .nil, rfl⟩
  | constants opens constants more ih =>
      obtain ⟨declarations, declares, rfl⟩ := constants.declares
      obtain ⟨blocks, builds, rfl⟩ := ih
      exact ⟨_, .cons (.constants opens declares) builds, rfl⟩
  | raw unread opens inside more ih =>
      obtain ⟨blocks, builds, rfl⟩ := ih
      exact ⟨_, .cons (.raw unread opens inside) builds, rfl⟩

/-- The tokens end with their one end. -/
structure Stream (tokens : List Token) : Prop where
  numeric : ∀ token ∈ tokens, token.Numeric
  ends : ∃ front last, tokens = front ++ [last] ∧ last.kind = .eof ∧
    ∀ token ∈ front, token.kind ≠ .eof

namespace Stream

theorem ne_nil {tokens : List Token} (stream : Stream tokens) : tokens ≠ [] := by
  obtain ⟨front, last, parts, _⟩ := stream.ends
  simp [parts]

theorem tail {token : Token} {rest : List Token} (stream : Stream (token :: rest))
    (unfinished : token.kind ≠ .eof) : Stream rest where
  numeric := fun other member => stream.numeric other (by simp [member])
  ends := by
    obtain ⟨front, last, parts, atEnd, others⟩ := stream.ends
    cases front with
    | nil =>
        obtain ⟨rfl, rfl⟩ : token = last ∧ rest = [] := by simpa using parts
        contradiction
    | cons first front =>
        obtain ⟨rfl, rfl⟩ : token = first ∧ rest = front ++ [last] := by simpa using parts
        exact ⟨front, last, rfl, atEnd, fun other member => others other (by simp [member])⟩

theorem rest_eq_nil {token : Token} {rest : List Token} (stream : Stream (token :: rest))
    (atEnd : token.kind = .eof) : rest = [] := by
  obtain ⟨front, last, parts, _, others⟩ := stream.ends
  cases front with
  | nil => simpa using (List.cons.inj parts).2
  | cons first front =>
      obtain ⟨rfl, _⟩ := List.cons.inj parts
      exact absurd atEnd (others token (by simp))

theorem of_source (source : String) : Stream (significant (tokens source)) where
  numeric := fun token member => numeric_of_mem_tokens (List.mem_filter.mp member).1
  ends := by
    obtain ⟨front, last, parts, atEnd, others⟩ := (Lexer.ofString source).steps_end
    refine ⟨significant (front.map (·.token)), last.token, ?_, atEnd, ?_⟩
    · simp [significant, tokens, steps, parts, atEnd, Kind.isTrivia]
    · intro token member
      obtain ⟨step, among, rfl⟩ := List.mem_map.mp (List.mem_filter.mp member).1
      exact others step among

end Stream

theorem Kind.isFault_of_isTrivia {kind : Kind} (trivia : kind.isTrivia = true) :
    kind.isFault = false := by
  cases kind <;> first | rfl | cases trivia

theorem Kind.endsBlock_eq_false {kind : Kind} :
    kind.endsBlock = false ↔ kind ≠ .eof ∧ kind.isBlockKeyword = false := by
  simp [endsBlock]

theorem Kind.isTrivia_of_endsBlock {kind : Kind} (ends : kind.endsBlock = true) :
    kind.isTrivia = false ∧ kind.isFault = false := by
  cases kind <;> first | exact ⟨rfl, rfl⟩ | cases ends

theorem Declares.plain {body : List Token} {declarations : List Declaration}
    (declares : Declares body declarations) :
    ∀ token ∈ body, token.kind.endsBlock = false ∧ token.kind.isFault = false := by
  induction declares with
  | nil => simp
  | cons named assigns counts more ih =>
      intro token member
      simp only [List.mem_cons] at member
      rcases member with rfl | rfl | rfl | member
      · rw [named]; exact ⟨rfl, rfl⟩
      · rw [assigns]; exact ⟨rfl, rfl⟩
      · rw [counts.1]; exact ⟨rfl, rfl⟩
      · exact ih token member

/-- A block runs from its keyword to the next token that ends one. -/
theorem Forms.opens {part : List Token} {block : Block} (forms : Forms part block) :
    ∃ start body, part = start :: body ∧ start.kind = .keyword (.block block.kind) ∧
      ∀ token ∈ body, token.kind.endsBlock = false := by
  cases forms with
  | constants opens declares =>
      exact ⟨_, _, rfl, opens, fun token member => (declares.plain token member).1⟩
  | raw unread opens inside => exact ⟨_, _, rfl, opens, inside⟩

theorem Builds.stop {front : List Token} {blocks : List Block} (builds : Builds front blocks)
    {last : Token} (atEnd : last.kind = .eof) :
    ∃ stop tokens, front ++ [last] = stop :: tokens ∧ stop.kind.endsBlock = true := by
  cases builds with
  | nil => exact ⟨last, [], rfl, by rw [atEnd]; rfl⟩
  | @cons part rest block blocks forms =>
      obtain ⟨start, body, rfl, opens, _⟩ := forms.opens
      exact ⟨start, body ++ rest ++ [last], rfl, by rw [opens]; rfl⟩

theorem Kind.block?_eq_some {kind : Kind} {block : BlockKind} :
    kind.block? = some block ↔ kind = .keyword (.block block) := by
  unfold Kind.block?
  split
  · simp
  · rename_i other
    refine ⟨by simp, ?_⟩
    intro same
    exact absurd same (other block)

namespace Supply

/-- The tokens that count and are still to be taken. -/
def coming (supply : Supply) : List Token :=
  significant (supply.returned.toList ++ supply.upcoming)

theorem returned_next (supply : Supply) : supply.next.2.returned = none := by
  cases supply with
  | mk returned upcoming final final_eof => cases returned <;> cases upcoming <;> rfl

theorem coming_next_trivia {supply : Supply} (trivia : supply.next.1.kind.isTrivia = true) :
    supply.next.2.coming = supply.coming := by
  cases supply with
  | mk returned upcoming final final_eof =>
      cases returned <;> cases upcoming <;> simp_all [next, coming, significant]

theorem coming_next {supply : Supply} (counts : supply.next.1.kind.isTrivia = false)
    (nonempty : supply.coming ≠ []) : supply.coming = supply.next.1 :: supply.next.2.coming := by
  cases supply with
  | mk returned upcoming final final_eof =>
      cases returned <;> cases upcoming <;> simp_all [next, coming, significant]

theorem coming_putBack {supply : Supply} {token : Token} (free : supply.returned = none)
    (counts : token.kind.isTrivia = false) :
    (supply.putBack token).coming = token :: supply.coming := by
  simp [coming, putBack, significant, free, counts]

theorem returned_nextSignificant (supply : Supply) :
    supply.nextSignificant.2.returned = none := by
  fun_induction nextSignificant supply with
  | case1 supply trivia ih => exact ih
  | case2 supply counts => exact supply.returned_next

theorem nextSignificant_isTrivia (supply : Supply) :
    supply.nextSignificant.1.kind.isTrivia = false := by
  fun_induction nextSignificant supply with
  | case1 supply trivia ih => exact ih
  | case2 supply counts => simpa using counts

theorem coming_nextSignificant (supply : Supply) (nonempty : supply.coming ≠ []) :
    supply.coming = supply.nextSignificant.1 :: supply.nextSignificant.2.coming := by
  fun_induction nextSignificant supply with
  | case1 supply trivia ih =>
      rw [← coming_next_trivia trivia] at nonempty ⊢
      exact ih nonempty
  | case2 supply counts => exact coming_next (by simpa using counts) nonempty

variable {supply after rest : Supply} {token name : Token}

theorem nextChecked_ok (stream : Stream supply.coming)
    (taken : supply.nextChecked = (.ok token, after)) :
    supply.coming = token :: after.coming ∧ token.kind.isFault = false ∧
      (after.putBack token).coming = supply.coming := by
  have found := nextChecked_token taken
  have coming := supply.coming_nextSignificant stream.ne_nil
  have free := supply.returned_nextSignificant
  have counts := supply.nextSignificant_isTrivia
  rw [found] at coming free counts
  have checked : token.checked = .ok token := by
    simpa [nextChecked, found] using congrArg Prod.fst taken
  refine ⟨coming, (Token.checked_eq_ok.mp checked).1, ?_⟩
  rw [coming_putBack free counts]
  exact coming.symm

theorem nextChecked_of_coming {tokens : List Token} (coming : supply.coming = token :: tokens)
    (sound : token.kind.isFault = false) :
    ∃ after, supply.nextChecked = (.ok token, after) ∧ after.coming = tokens ∧
      (after.putBack token).coming = supply.coming := by
  have parts := supply.coming_nextSignificant (by simp [coming])
  have free := supply.returned_nextSignificant
  have counts := supply.nextSignificant_isTrivia
  rw [coming] at parts
  obtain ⟨same, behind⟩ := List.cons.inj parts
  refine ⟨supply.nextSignificant.2, ?_, behind.symm, ?_⟩
  · rw [nextChecked, ← same, Token.checked_eq_ok.mpr ⟨sound, rfl⟩]
  · rw [← same] at counts
    rw [coming_putBack free counts, coming, behind]

theorem expect_ok {kind : Kind} {code : Code} {demand : String} (stream : Stream supply.coming)
    (taken : supply.expect kind code demand = (.ok token, after)) :
    supply.coming = token :: after.coming ∧ token.kind = kind := by
  unfold expect at taken
  cases found : supply.nextChecked with
  | mk result behind =>
      cases result with
      | error error => simp [found] at taken
      | ok other =>
          simp only [found] at taken
          split at taken
          · rename_i same
            simp only [Prod.mk.injEq, Except.ok.injEq] at taken
            obtain ⟨rfl, rfl⟩ := taken
            exact ⟨(nextChecked_ok stream found).1, same⟩
          · simp at taken

theorem value_ok {declaration : Declaration} (stream : Stream supply.coming)
    (read : supply.value name = (.ok declaration, rest)) :
    ∃ number radix, supply.coming = number :: rest.coming ∧ number.Counts radix ∧
      declaration = ⟨name.text, number.literal radix, name.span.merge number.span⟩ := by
  unfold value at read
  cases found : supply.nextChecked with
  | mk result behind =>
      cases result with
      | error error => simp [found] at read
      | ok number =>
          simp only [found] at read
          obtain ⟨parts, _, _⟩ := nextChecked_ok stream found
          have numeric : number.Numeric := stream.numeric number (by simp [parts])
          split at read
          · cases literal : Literal.ofToken number with
            | error error => simp [literal] at read
            | ok value =>
                simp only [literal, Prod.mk.injEq, Except.ok.injEq] at read
                obtain ⟨rfl, rfl⟩ := read
                obtain ⟨radix, counts, rfl⟩ := (Literal.ofToken_ok_iff numeric).mp literal
                exact ⟨number, radix, parts, counts, rfl⟩
          · simp at read

theorem declaration_sound {declared : Declaration} (stream : Stream supply.coming)
    (read : supply.declaration name = (.ok declared, rest)) :
    ∃ assign number radix, supply.coming = assign :: number :: rest.coming ∧
      assign.kind = .operator .assign ∧ number.Counts radix ∧
      declared = ⟨name.text, number.literal radix, name.span.merge number.span⟩ := by
  unfold declaration at read
  split at read
  · simp at read
  · rename_i assign behind taken
    obtain ⟨parts, assigns⟩ := expect_ok stream taken
    rw [parts] at stream
    obtain ⟨number, radix, more, counts, same⟩ :=
      value_ok (stream.tail (by simp [assigns])) read
    exact ⟨assign, number, radix, by rw [parts, more], assigns, counts, same⟩

theorem declaration_complete {assign number : Token} {radix : Radix} {tokens : List Token}
    (name : Token) (coming : supply.coming = assign :: number :: tokens)
    (assigns : assign.kind = .operator .assign) (counts : number.Counts radix)
    (numeric : number.Numeric) :
    ∃ rest, rest.coming = tokens ∧ supply.declaration name =
      (.ok ⟨name.text, number.literal radix, name.span.merge number.span⟩, rest) := by
  obtain ⟨behind, first, more, _⟩ := nextChecked_of_coming coming (by rw [assigns]; rfl)
  obtain ⟨last, second, done, _⟩ := nextChecked_of_coming more (by rw [counts.1]; rfl)
  have read := (Literal.ofToken_ok_iff numeric).mpr ⟨radix, counts, rfl⟩
  have counted : number.kind.isNumber = true := by simp [counts.1, Kind.isNumber, Kind.radix?]
  refine ⟨last, done, ?_⟩
  simp only [declaration, expect, first, assigns, if_true, value, second, counted, read]
  rfl

/-- The constants read are those that the tokens up to the end of the block
declare. -/
theorem constants_sound {declarations : List Declaration} (stream : Stream supply.coming)
    (read : supply.constants = (.ok declarations, rest)) :
    ∃ body, supply.coming = body ++ rest.coming ∧ Stream rest.coming ∧
      Declares body declarations := by
  revert declarations rest
  fun_induction constants supply with
  | case1 supply error after taken =>
      intro rest declarations read
      simp at read
  | case2 supply token after taken ends =>
      intro rest declarations read
      simp only [Prod.mk.injEq, Except.ok.injEq] at read
      obtain ⟨rfl, rfl⟩ := read
      obtain ⟨_, _, back⟩ := nextChecked_ok stream taken
      rw [back]
      exact ⟨[], rfl, stream, .nil⟩
  | case3 supply token after taken inside named error last declared =>
      intro rest declarations read
      simp at read
  | case4 supply token after taken inside named declaration behind declared error last failed ih =>
      intro rest declarations read
      simp at read
  | case5 supply token after taken inside named declaration behind declared more last done ih =>
      intro rest declarations read
      simp only [Prod.mk.injEq, Except.ok.injEq] at read
      obtain ⟨rfl, rfl⟩ := read
      obtain ⟨front, _, _⟩ := nextChecked_ok stream taken
      rw [front] at stream
      have stream := stream.tail (by simp [named])
      obtain ⟨assign, number, radix, parts, assigns, counts, rfl⟩ :=
        declaration_sound stream declared
      rw [parts] at stream
      have stream := (stream.tail (by simp [assigns])).tail (by simp [counts.1])
      obtain ⟨body, split, ends, declares⟩ := ih stream done
      refine ⟨token :: assign :: number :: body, ?_, ends, .cons named assigns counts declares⟩
      rw [front, parts, split]
      rfl
  | case6 supply token after taken inside other =>
      intro rest declarations read
      simp at read

theorem constants_stop (taken : supply.nextChecked = (.ok token, after))
    (ends : token.kind.endsBlock = true) : supply.constants = (.ok [], after.putBack token) := by
  fun_cases constants supply <;> simp_all

theorem constants_more {declared : Declaration} {declarations : List Declaration} {last : Supply}
    (taken : supply.nextChecked = (.ok name, after)) (named : name.kind = .identifier)
    (read : after.declaration name = (.ok declared, rest))
    (done : rest.constants = (.ok declarations, last)) :
    supply.constants = (.ok (declared :: declarations), last) := by
  have inside : name.kind.endsBlock = false := by rw [named]; rfl
  fun_cases constants supply <;> simp_all

theorem constants_complete {body tokens : List Token} {stop : Token}
    {declarations : List Declaration} (declares : Declares body declarations)
    (coming : supply.coming = body ++ stop :: tokens)
    (numeric : ∀ token ∈ body, token.Numeric) (ends : stop.kind.endsBlock = true)
    (sound : stop.kind.isFault = false) :
    ∃ rest, supply.constants = (.ok declarations, rest) ∧ rest.coming = stop :: tokens := by
  induction declares generalizing supply with
  | nil =>
      obtain ⟨after, taken, _, back⟩ := nextChecked_of_coming coming sound
      exact ⟨after.putBack stop, constants_stop taken ends, back.trans coming⟩
  | @cons name assign number radix body declarations named assigns counts more ih =>
      obtain ⟨after, taken, behind, _⟩ := nextChecked_of_coming coming (by rw [named]; rfl)
      obtain ⟨last, parts, read⟩ :=
        declaration_complete name behind assigns counts (numeric number (by simp))
      obtain ⟨rest, done, coming⟩ := ih parts fun token member => numeric token (by simp [member])
      exact ⟨rest, constants_more taken named read done, coming⟩

/-- The tokens `body` lead from one supply to the other, and none of them ends a
block or is a fault. -/
structure Passes (supply rest : Supply) (body : List Token) : Prop where
  parts : supply.coming = body ++ rest.coming
  stream : Stream rest.coming
  plain : ∀ token ∈ body, token.kind.endsBlock = false ∧ token.kind.isFault = false

theorem Passes.trans {front back : List Token} (first : Passes supply after front)
    (second : Passes after rest back) : Passes supply rest (front ++ back) where
  parts := by rw [first.parts, second.parts, List.append_assoc]
  stream := second.stream
  plain := List.forall_mem_append.mpr ⟨first.plain, second.plain⟩

theorem passes_next (stream : Stream supply.coming) (fault : supply.next.1.fault? = none)
    (inside : ¬ supply.next.1.kind.endsBlock = true) :
    Passes supply supply.next.2 (significant [supply.next.1]) := by
  cases counts : supply.next.1.kind.isTrivia with
  | true =>
      have same := coming_next_trivia counts
      have none : significant [supply.next.1] = [] := by simp [significant, counts]
      rw [none]
      exact ⟨same.symm, by rwa [same], by simp⟩
  | false =>
      have parts := coming_next counts stream.ne_nil
      have unfinished : supply.next.1.kind ≠ .eof := by
        intro atEnd
        simp [Kind.endsBlock, atEnd] at inside
      have one : significant [supply.next.1] = [supply.next.1] := by simp [significant, counts]
      rw [parts] at stream
      rw [one]
      refine ⟨parts, stream.tail unfinished, ?_⟩
      intro token member
      rw [List.mem_singleton.mp member]
      exact ⟨by simpa using inside, Token.fault?_eq_none.mp fault⟩

theorem mergeAll_skipped {span : Span} {body : List Token}
    (skipped : (token.kind.isTrivia || token.span.isEmpty) = true) :
    span.mergeAll (solidSpans (significant [token] ++ body)) =
      span.mergeAll (solidSpans body) := by
  cases trivia : token.kind.isTrivia with
  | true => simp [significant, trivia]
  | false =>
      have empty : token.span.isEmpty = true := by simpa [trivia] using skipped
      simp [significant, solidSpans, trivia, empty]

theorem mergeAll_kept {span : Span} {body : List Token}
    (kept : ¬ (token.kind.isTrivia || token.span.isEmpty) = true) :
    span.mergeAll (solidSpans (significant [token] ++ body)) =
      (span.merge token.span).mergeAll (solidSpans body) := by
  obtain ⟨counts, solid⟩ : token.kind.isTrivia = false ∧ token.span.isEmpty = false := by
    simpa using kept
  simp [significant, solidSpans, Span.mergeAll, counts, solid]

theorem coming_putBack_next (nonempty : supply.coming ≠ [])
    (ends : supply.next.1.kind.endsBlock = true) :
    (supply.next.2.putBack supply.next.1).coming = supply.coming := by
  have counts := (Kind.isTrivia_of_endsBlock ends).1
  rw [coming_putBack supply.returned_next counts, ← coming_next counts nonempty]

theorem rawBody_sound {span whole : Span} (stream : Stream supply.coming)
    (read : supply.rawBody span = (.ok whole, rest)) :
    ∃ body, Passes supply rest body ∧ whole = span.mergeAll (solidSpans body) := by
  revert whole rest
  fun_induction rawBody supply span with
  | case1 supply span error fault =>
      intro rest whole read
      simp at read
  | case2 supply span fault ends =>
      intro rest whole read
      simp only [Prod.mk.injEq, Except.ok.injEq] at read
      obtain ⟨rfl, rfl⟩ := read
      have back := coming_putBack_next stream.ne_nil ends
      exact ⟨[], ⟨back.symm, by rwa [back], by simp⟩, rfl⟩
  | case3 supply span fault inside skipped ih =>
      intro rest whole read
      have first := passes_next stream fault inside
      obtain ⟨body, more, rfl⟩ := ih first.stream read
      exact ⟨_, first.trans more, by rw [mergeAll_skipped skipped]⟩
  | case4 supply span fault inside kept ih =>
      intro rest whole read
      have first := passes_next stream fault inside
      obtain ⟨body, more, rfl⟩ := ih first.stream read
      exact ⟨_, first.trans more, by rw [mergeAll_kept kept]⟩

/-- The next token ends the block, or it is trivia or the first of the block's
tokens. -/
theorem next_of_coming {body tokens : List Token} {stop : Token}
    (coming : supply.coming = body ++ stop :: tokens) :
    (body = [] ∧ supply.next.1 = stop) ∨
      ∃ fewer, body = significant [supply.next.1] ++ fewer ∧
        supply.next.2.coming = fewer ++ stop :: tokens := by
  cases counts : supply.next.1.kind.isTrivia with
  | true =>
      refine .inr ⟨body, by simp [significant, counts], ?_⟩
      rw [coming_next_trivia counts, coming]
  | false =>
      have parts := coming_next counts (by simp [coming])
      rw [coming] at parts
      cases body with
      | nil => exact .inl ⟨rfl, (List.cons.inj parts).1.symm⟩
      | cons first fewer =>
          obtain ⟨rfl, behind⟩ := List.cons.inj parts
          exact .inr ⟨fewer, by simp [significant, counts], behind.symm⟩

theorem rawBody_complete {body tokens : List Token} {stop : Token} (span : Span)
    (coming : supply.coming = body ++ stop :: tokens)
    (ends : stop.kind.endsBlock = true)
    (plain : ∀ token ∈ body, token.kind.endsBlock = false ∧ token.kind.isFault = false) :
    ∃ rest, supply.rawBody span = (.ok (span.mergeAll (solidSpans body)), rest) ∧
      rest.coming = stop :: tokens := by
  revert body
  fun_induction rawBody supply span with
  | case1 supply span error fault =>
      intro body coming plain
      have sound : supply.next.1.kind.isFault = false := by
        rcases next_of_coming coming with ⟨_, same⟩ | ⟨fewer, rfl, _⟩
        · rw [same]
          exact (Kind.isTrivia_of_endsBlock ends).2
        · cases counts : supply.next.1.kind.isTrivia with
          | true => exact Kind.isFault_of_isTrivia counts
          | false => exact (plain _ (by simp [significant, counts])).2
      rw [Token.fault?_eq_none.mpr sound] at fault
      cases fault
  | case2 supply span fault ended =>
      intro body coming plain
      have counts := (Kind.isTrivia_of_endsBlock ended).1
      rcases next_of_coming coming with ⟨rfl, _⟩ | ⟨fewer, rfl, _⟩
      · exact ⟨_, rfl, (coming_putBack_next (by simp [coming]) ended).trans coming⟩
      · rw [(plain supply.next.1 (by simp [significant, counts])).1] at ended
        cases ended
  | case3 supply span fault inside skipped ih =>
      intro body coming plain
      rcases next_of_coming coming with ⟨_, same⟩ | ⟨fewer, rfl, behind⟩
      · rw [same] at inside
        contradiction
      · rw [mergeAll_skipped skipped]
        exact ih behind fun token member => plain token (by simp [member])
  | case4 supply span fault inside kept ih =>
      intro body coming plain
      rcases next_of_coming coming with ⟨_, same⟩ | ⟨fewer, rfl, behind⟩
      · rw [same] at inside
        contradiction
      · rw [mergeAll_kept kept]
        exact ih behind fun token member => plain token (by simp [member])

theorem block_sound {kind : BlockKind} {start : Token} {block : Block}
    (stream : Stream supply.coming) (opens : start.kind = .keyword (.block kind))
    (read : supply.block kind start = (.ok block, rest)) :
    ∃ body, supply.coming = body ++ rest.coming ∧ Stream rest.coming ∧
      (∀ token ∈ body, token.kind.isFault = false) ∧ Forms (start :: body) block := by
  unfold Supply.block at read
  split at read
  · rename_i interpreted
    subst interpreted
    unfold constantBlock at read
    cases found : supply.constants with
    | mk result after =>
        cases result with
        | error error => simp [found] at read
        | ok declarations =>
            simp only [found, Prod.mk.injEq, Except.ok.injEq] at read
            obtain ⟨rfl, rfl⟩ := read
            obtain ⟨body, parts, stream, declares⟩ := constants_sound stream found
            refine ⟨body, parts, stream, fun token member => (declares.plain token member).2, ?_⟩
            rw [← List.foldl_map]
            exact .constants opens declares
  · rename_i unread
    cases found : supply.rawBody start.span with
    | mk result after =>
        cases result with
        | error error => simp [found] at read
        | ok span =>
            simp only [found, Prod.mk.injEq, Except.ok.injEq] at read
            obtain ⟨rfl, rfl⟩ := read
            obtain ⟨body, ⟨parts, stream, plain⟩, rfl⟩ := rawBody_sound stream found
            exact ⟨body, parts, stream, fun token member => (plain token member).2,
              .raw unread opens fun token member => (plain token member).1⟩

/-- The blocks read are those that the tokens build. -/
theorem blocks_builds {blocks : List Block} (stream : Stream supply.coming)
    (read : supply.blocks = (.ok blocks, rest)) :
    (∀ token ∈ supply.coming, token.kind.isFault = false) ∧
      ∃ front last, supply.coming = front ++ [last] ∧ last.kind = .eof ∧
        Builds front blocks := by
  revert blocks rest
  fun_induction Supply.blocks supply with
  | case1 supply error after taken =>
      intro rest blocks read
      simp at read
  | case2 supply token after taken atEnd =>
      intro rest blocks read
      simp only [Prod.mk.injEq, Except.ok.injEq] at read
      obtain ⟨rfl, rfl⟩ := read
      obtain ⟨parts, sound, _⟩ := nextChecked_ok stream taken
      rw [parts] at stream ⊢
      rw [stream.rest_eq_nil atEnd]
      exact ⟨by simpa using sound, [], token, rfl, atEnd, .nil⟩
  | case3 supply token after taken unfinished outside =>
      intro rest blocks read
      simp at read
  | case4 supply token after taken unfinished kind opens error behind failed =>
      intro rest blocks read
      simp at read
  | case5 supply token after taken unfinished kind opens block behind found error last failed ih =>
      intro rest blocks read
      simp at read
  | case6 supply token after taken unfinished kind opens block behind found more last done ih =>
      intro rest blocks read
      simp only [Prod.mk.injEq, Except.ok.injEq] at read
      obtain ⟨rfl, rfl⟩ := read
      obtain ⟨front, sound, _⟩ := nextChecked_ok stream taken
      rw [front] at stream ⊢
      obtain ⟨body, parts, stream, plain, forms⟩ :=
        block_sound (stream.tail unfinished) (Kind.block?_eq_some.mp opens) found
      obtain ⟨others, tokens, last, split, atEnd, builds⟩ := ih stream done
      constructor
      · intro other member
        rw [parts] at member
        simp only [List.mem_cons, List.mem_append] at member
        rcases member with rfl | member | member
        · exact sound
        · exact plain other member
        · exact others other member
      · refine ⟨token :: body ++ tokens, last, ?_, atEnd, .cons forms builds⟩
        rw [parts, split]
        simp

theorem blocks_sound {blocks : List Block} (stream : Stream supply.coming)
    (read : supply.blocks = (.ok blocks, rest)) :
    (∀ token ∈ supply.coming, token.kind.isFault = false) ∧
      ∃ front last, supply.coming = front ++ [last] ∧ last.kind = .eof ∧
        Blocks front (blocks.map (·.outline)) := by
  obtain ⟨sound, front, last, parts, atEnd, builds⟩ := blocks_builds stream read
  exact ⟨sound, front, last, parts, atEnd, builds.outlines⟩

theorem block_complete {body tokens : List Token} {start stop : Token} {block : Block}
    (forms : Forms (start :: body) block) (numeric : ∀ token ∈ body, token.Numeric)
    (coming : supply.coming = body ++ stop :: tokens) (ends : stop.kind.endsBlock = true)
    (sound : ∀ token ∈ body, token.kind.isFault = false) :
    ∃ rest, rest.coming = stop :: tokens ∧ supply.block block.kind start = (.ok block, rest) := by
  cases forms with
  | @constants _ _ declarations opens declares =>
      obtain ⟨rest, read, behind⟩ :=
        constants_complete declares coming numeric ends (Kind.isTrivia_of_endsBlock ends).2
      refine ⟨rest, behind, ?_⟩
      rw [Span.mergeAll, List.foldl_map]
      simp only [Block.kind, Supply.block, constantBlock, read, dite_true]
  | raw unread opens inside =>
      obtain ⟨rest, read, behind⟩ := rawBody_complete start.span coming ends
        fun token member => ⟨inside token member, sound token member⟩
      refine ⟨rest, behind, ?_⟩
      simp only [Block.kind, Supply.block, dif_neg unread, read]

theorem blocks_more {kind : BlockKind} {block : Block} {blocks : List Block} {last : Supply}
    (taken : supply.nextChecked = (.ok token, after))
    (opens : token.kind = .keyword (.block kind)) (read : after.block kind token = (.ok block, rest))
    (done : rest.blocks = (.ok blocks, last)) :
    supply.blocks = (.ok (block :: blocks), last) := by
  have found := Kind.block?_eq_some.mpr opens
  fun_cases Supply.blocks supply <;> simp_all

/-- The blocks that the tokens build are read from them. -/
theorem blocks_of_builds {front : List Token} {last : Token} {blocks : List Block}
    (builds : Builds front blocks) (numeric : ∀ token ∈ front, token.Numeric)
    (coming : supply.coming = front ++ [last]) (atEnd : last.kind = .eof)
    (sound : ∀ token ∈ front, token.kind.isFault = false) :
    ∃ rest, supply.blocks = (.ok blocks, rest) := by
  induction builds generalizing supply with
  | nil =>
      obtain ⟨after, taken, _, _⟩ := nextChecked_of_coming coming (by rw [atEnd]; rfl)
      refine ⟨after, ?_⟩
      fun_cases Supply.blocks supply <;> simp_all
  | @cons part rest block blocks forms more ih =>
      obtain ⟨start, body, rfl, opens, _⟩ := forms.opens
      obtain ⟨stop, tokens, split, ends⟩ := more.stop atEnd
      rw [List.append_assoc, split, List.cons_append] at coming
      obtain ⟨after, taken, behind, _⟩ := nextChecked_of_coming coming (sound start (by simp))
      obtain ⟨left, remaining, read⟩ :=
        block_complete forms (fun token member => numeric token (by simp [member])) behind ends
          fun token member => sound token (by simp [member])
      obtain ⟨final, done⟩ :=
        ih (fun token member => numeric token (by simp [member])) (remaining.trans split.symm)
          fun token member => sound token (by simp [member])
      exact ⟨final, blocks_more taken opens read done⟩

theorem blocks_complete {front : List Token} {last : Token} {outlines : List Outline}
    (derived : Blocks front outlines) (stream : Stream supply.coming)
    (coming : supply.coming = front ++ [last]) (atEnd : last.kind = .eof)
    (sound : ∀ token ∈ front, token.kind.isFault = false) :
    ∃ blocks rest, supply.blocks = (.ok blocks, rest) ∧
      blocks.map (·.outline) = outlines := by
  obtain ⟨blocks, builds, same⟩ := derived.builds
  have numeric : ∀ token ∈ front, token.Numeric := fun token member =>
    stream.numeric token (by simp [coming, member])
  obtain ⟨rest, read⟩ := blocks_of_builds builds numeric coming atEnd sound
  exact ⟨blocks, rest, read, same⟩

end Supply

/-- A text is an object just where the grammar derives it without faults, and
the object then has the blocks and constants of the derivation. -/
theorem parse_ok_iff (source : String) (outlines : List Outline) :
    (∃ object, Object.parse source = .ok object ∧ object.blocks.map (·.outline) = outlines) ↔
      (∀ token ∈ significant (tokens source), token.kind.isFault = false) ∧
        ∃ front last, significant (tokens source) = front ++ [last] ∧ last.kind = .eof ∧
          Blocks front outlines := by
  have coming : (Supply.ofString source).coming = significant (tokens source) := rfl
  have stream : Stream (Supply.ofString source).coming := Stream.of_source source
  constructor
  · rintro ⟨object, parsed, rfl⟩
    cases read : (Supply.ofString source).blocks with
    | mk result rest =>
        cases result with
        | error error => simp [Object.parse, read, Except.map] at parsed
        | ok blocks =>
            simp only [Object.parse, read, Except.map, Except.ok.injEq] at parsed
            subst parsed
            exact Supply.blocks_sound stream read
  · rintro ⟨sound, front, last, parts, atEnd, derived⟩
    obtain ⟨blocks, rest, read, outlines⟩ :=
      Supply.blocks_complete derived stream parts atEnd fun token member =>
        sound token (by simp [parts, member])
    refine ⟨⟨blocks⟩, ?_, outlines⟩
    simp [Object.parse, read, Except.map]

end SpinBlocks
