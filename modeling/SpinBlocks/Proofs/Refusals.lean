import SpinBlocks.Proofs.LayoutFree

namespace SpinBlocks

/-! Where reading stops, and why.

The tokens in front of an error begin an object, so there is something that the
grammar asks for behind them. That alone decides which tokens are refused there
and which error tells so.
-/

/-- What the grammar asks for. Inside a block that is not looked into, that is
any token of the block. -/
inductive Demand where
  | block
  | name
  | assignment
  | value (name : String)
  | item
deriving Repr, DecidableEq

/-- The tokens begin the inside of a block of constants, which goes on with what
is asked for. -/
inductive Expects : List Token → Demand → Prop
  | name : Expects [] .name
  | assignment {name : Token} (named : name.kind = .identifier) : Expects [name] .assignment
  | value {name assign : Token} (named : name.kind = .identifier)
      (assigns : assign.kind = .operator .assign) : Expects [name, assign] (.value name.text)
  | behind {name assign number : Token} {radix : Radix} {rest : List Token} {demand : Demand}
      (named : name.kind = .identifier) (assigns : assign.kind = .operator .assign)
      (counts : number.Counts radix) (more : Expects rest demand) :
      Expects (name :: assign :: number :: rest) demand

/-- The tokens begin an object, which goes on with what is asked for. Only in front
of all blocks a block keyword is asked for: behind one, anything else still
belongs to it. -/
inductive Asks : List Token → Demand → Prop
  | block : Asks [] .block
  | constants {start : Token} {body : List Token} {demand : Demand}
      (opens : start.kind = .keyword (.block .con)) (expects : Expects body demand) :
      Asks (start :: body) demand
  | item {start : Token} {body : List Token} {kind : BlockKind} (unread : kind ≠ .con)
      (opens : start.kind = .keyword (.block kind))
      (inside : ∀ token ∈ body, token.kind.endsBlock = false) : Asks (start :: body) .item
  | behind {part rest : List Token} {block : Block} {demand : Demand} (forms : Forms part block)
      (more : Asks rest demand) (nonempty : rest ≠ []) : Asks (part ++ rest) demand

/-- The error with which a token is refused in the place of what is asked for. -/
inductive Refuses : Demand → Token → ParseError → Prop
  | fault {demand : Demand} {token : Token} {error : ParseError}
      (fault : token.fault? = some error) : Refuses demand token error
  | block {token : Token} (sound : token.kind.isFault = false)
      (inside : token.kind.endsBlock = false) : Refuses .block token ⟨.outsideBlock, token⟩
  | name {token : Token} (sound : token.kind.isFault = false)
      (inside : token.kind.endsBlock = false) (unnamed : token.kind ≠ .identifier) :
      Refuses .name token ⟨.expectedName, token⟩
  | assignment {token : Token} (sound : token.kind.isFault = false)
      (other : token.kind ≠ .operator .assign) :
      Refuses .assignment token
        ⟨.expected .expectedAssignment "Expected '=' after constant name", token⟩
  | value {name : String} {token : Token} (sound : token.kind.isFault = false)
      (other : token.kind.isNumber = false) :
      Refuses (.value name) token ⟨.expectedValue name, token⟩
  | noDigits {name : String} {token : Token} {radix : Radix} (number : token.kind = .number radix)
      (empty : token.digits = []) : Refuses (.value name) token ⟨.noDigits radix, token⟩
  | tooLarge {name : String} {token : Token} {radix : Radix} (number : token.kind = .number radix)
      (large : 2 ^ 32 ≤ Numeral.value radix.base token.digits) :
      Refuses (.value name) token ⟨.tooLarge, token⟩

/-- Reading the tokens stops with the error, at a token that is refused behind the
ones in front of it. -/
def Refused (asks : List Token → Demand → Prop) (tokens : List Token) (error : ParseError) :
    Prop :=
  ∃ front token rest demand, tokens = front ++ token :: rest ∧
    (∀ token ∈ front, token.kind.isFault = false) ∧ asks front demand ∧
    Refuses demand token error

variable {error : ParseError}

theorem Refused.here {asks : List Token → Demand → Prop} {token : Token} {demand : Demand}
    (asked : asks [] demand) (refuses : Refuses demand token error) (rest : List Token) :
    Refused asks (token :: rest) error :=
  ⟨[], token, rest, demand, rfl, by simp, asked, refuses⟩

theorem Refused.behind {asks others : List Token → Demand → Prop} {tokens : List Token}
    (refused : Refused asks tokens error) (front : List Token)
    (sound : ∀ token ∈ front, token.kind.isFault = false)
    (follows : ∀ body demand, asks body demand → others (front ++ body) demand) :
    Refused others (front ++ tokens) error := by
  obtain ⟨body, token, rest, demand, rfl, plain, asked, refuses⟩ := refused
  refine ⟨front ++ body, token, rest, demand, by simp, ?_, follows body demand asked, refuses⟩
  exact List.forall_mem_append.mpr ⟨sound, plain⟩

theorem Asks.demand_of_nil {front : List Token} {demand : Demand} (asked : Asks front demand)
    (empty : front = []) : demand = .block := by
  cases asked with
  | block => rfl
  | behind _ _ nonempty => exact absurd (List.append_eq_nil_iff.mp empty).2 nonempty
  | _ => cases empty

theorem Kind.isNumber_iff {kind : Kind} :
    kind.isNumber = true ↔ ∃ radix, kind = .number radix := by
  cases kind <;> simp [isNumber, radix?]

/-- A number token is not read as a literal just where it lacks digits or its value
does not fit. -/
theorem Literal.ofToken_error_iff {token : Token} (numeric : token.Numeric) {radix : Radix}
    (number : token.kind = .number radix) :
    Literal.ofToken token = .error error ↔
      token.digits = [] ∧ error = ⟨.noDigits radix, token⟩ ∨
        2 ^ 32 ≤ Numeral.value radix.base token.digits ∧ error = ⟨.tooLarge, token⟩ := by
  by_cases empty : token.digits = []
  · have none : token.text.toList.filter (fun c => !Character.isGroupSeparator c) = [] := empty
    have read : Literal.ofToken token = .error ⟨.noDigits radix, token⟩ := by
      simp [Literal.ofToken, number, Kind.radix?, none]
    have small : Numeral.value radix.base token.digits < 2 ^ 32 := by
      rw [empty]
      exact Nat.two_pow_pos 32
    rw [read, Except.error.injEq, and_iff_right empty, eq_comm]
    exact (or_iff_left fun large => Nat.not_lt.mpr large.1 small).symm
  · rw [Literal.ofToken_eq numeric number empty, or_iff_right fun lacks => empty lacks.1]
    split
    · rename_i fits
      refine ⟨fun accepted => ?_, fun large => ?_⟩
      · cases accepted
      · exact absurd fits (Nat.not_lt.mpr large.1)
    · rename_i large
      rw [Except.error.injEq, eq_comm]
      exact (and_iff_right (Nat.le_of_not_lt large)).symm

theorem Literal.ofToken_refuses {token : Token} (numeric : token.Numeric)
    (number : token.kind.isNumber = true) (misread : Literal.ofToken token = .error error)
    (name : String) : Refuses (.value name) token error := by
  obtain ⟨radix, kind⟩ := Kind.isNumber_iff.mp number
  rcases (ofToken_error_iff numeric kind).mp misread with ⟨empty, rfl⟩ | ⟨large, rfl⟩
  · exact .noDigits kind empty
  · exact .tooLarge kind large

namespace Supply

variable {supply last : Supply}

theorem nextChecked_refuses (stream : Stream supply.coming)
    (failed : supply.nextChecked = (.error error, last)) :
    ∃ token rest, supply.coming = token :: rest ∧ token.fault? = some error := by
  have checked := congrArg Prod.fst failed
  unfold nextChecked Token.checked at checked
  split at checked
  · rename_i fault
    obtain rfl := Except.error.inj checked
    exact ⟨_, _, supply.coming_nextSignificant stream.ne_nil, fault⟩
  · cases checked

theorem nextChecked_refused {asks : List Token → Demand → Prop} {demand : Demand}
    (asked : asks [] demand) (stream : Stream supply.coming)
    (failed : supply.nextChecked = (.error error, last)) : Refused asks supply.coming error := by
  obtain ⟨token, rest, parts, fault⟩ := nextChecked_refuses stream failed
  rw [parts]
  exact .here asked (.fault fault) rest

theorem expect_refuses {kind : Kind} {code : Code} {demand : String}
    (stream : Stream supply.coming)
    (failed : supply.expect kind code demand = (.error error, last)) :
    ∃ token rest, supply.coming = token :: rest ∧
      (token.fault? = some error ∨ token.kind.isFault = false ∧ token.kind ≠ kind ∧
        error = ⟨.expected code demand, token⟩) := by
  unfold expect at failed
  split at failed
  case h_1 missing =>
    obtain ⟨rfl, _⟩ : _ = error ∧ _ = last := by simpa using failed
    obtain ⟨token, rest, parts, fault⟩ := nextChecked_refuses stream missing
    exact ⟨token, rest, parts, .inl fault⟩
  case h_2 token after taken =>
    obtain ⟨parts, sound, _⟩ := nextChecked_ok stream taken
    split at failed
    · cases failed
    · rename_i other
      obtain ⟨rfl, _⟩ : _ = error ∧ _ = last := by simpa using failed
      exact ⟨token, after.coming, parts, .inr ⟨sound, other, rfl⟩⟩

/-- Where a constant's value is due, only a number that counts is taken. -/
theorem value_refused {name assign : Token} (named : name.kind = .identifier)
    (assigns : assign.kind = .operator .assign) (stream : Stream supply.coming)
    (failed : supply.value name = (.error error, last)) :
    Refused Expects (name :: assign :: supply.coming) error := by
  have asked : Expects [name, assign] (.value name.text) := .value named assigns
  have faultless : ∀ token ∈ [name, assign], token.kind.isFault = false := by
    simp [named, assigns, Kind.isFault]
  unfold value at failed
  split at failed
  case h_1 refused =>
    obtain ⟨rfl, _⟩ : _ = error ∧ _ = last := by simpa using failed
    obtain ⟨token, rest, parts, fault⟩ := nextChecked_refuses stream refused
    rw [parts]
    exact ⟨_, token, rest, _, rfl, faultless, asked, .fault fault⟩
  case h_2 token after taken =>
    obtain ⟨parts, sound, _⟩ := nextChecked_ok stream taken
    rw [parts]
    refine ⟨_, token, after.coming, _, rfl, faultless, asked, ?_⟩
    split at failed
    · rename_i number
      split at failed
      · rename_i misread
        obtain ⟨rfl, _⟩ : _ = error ∧ _ = last := by simpa using failed
        have numeric := stream.numeric token (by simp [parts])
        exact Literal.ofToken_refuses numeric number misread name.text
      · cases failed
    · rename_i other
      obtain ⟨rfl, _⟩ : _ = error ∧ _ = last := by simpa using failed
      exact .value sound (by simpa using other)

theorem declaration_refused {name : Token} (named : name.kind = .identifier)
    (stream : Stream supply.coming) (failed : supply.declaration name = (.error error, last)) :
    Refused Expects (name :: supply.coming) error := by
  have asked : Expects [name] .assignment := .assignment named
  have sound : ∀ token ∈ [name], token.kind.isFault = false := by
    simp [named, Kind.isFault]
  unfold declaration at failed
  split at failed
  case h_1 refused =>
    obtain ⟨rfl, _⟩ : _ = error ∧ _ = last := by simpa using failed
    obtain ⟨token, rest, parts, refuses⟩ := expect_refuses stream refused
    rw [parts]
    refine ⟨_, token, rest, _, rfl, sound, asked, ?_⟩
    rcases refuses with fault | ⟨sound, other, rfl⟩
    · exact .fault fault
    · exact .assignment sound other
  case h_2 assign after taken =>
    obtain ⟨parts, assigns⟩ := expect_ok stream taken
    rw [parts] at stream ⊢
    exact value_refused named assigns (stream.tail (by simp [assigns])) failed

theorem constants_refused (stream : Stream supply.coming)
    (failed : supply.constants = (.error error, last)) :
    Refused Expects supply.coming error := by
  revert error last
  fun_induction constants supply with
  | case1 supply fault after taken =>
      intro error last failed
      obtain ⟨rfl, _⟩ : fault = error ∧ after = last := by simpa using failed
      exact nextChecked_refused .name stream taken
  | case2 supply token after taken ends =>
      intro error last failed
      cases failed
  | case3 supply name after taken inside named fault behind declared =>
      intro error last failed
      obtain ⟨rfl, _⟩ : fault = error ∧ behind = last := by simpa using failed
      obtain ⟨parts, _, _⟩ := nextChecked_ok stream taken
      rw [parts] at stream ⊢
      exact declaration_refused named (stream.tail (by simp [named])) declared
  | case4 supply name after taken inside named declared behind found fault rest failure ih =>
      intro error last failed
      obtain ⟨rfl, _⟩ : fault = error ∧ rest = last := by simpa using failed
      obtain ⟨parts, _, _⟩ := nextChecked_ok stream taken
      rw [parts] at stream ⊢
      have stream := stream.tail (by simp [named])
      obtain ⟨assign, number, radix, more, assigns, counts, _⟩ := declaration_sound stream found
      rw [more] at stream ⊢
      have stream := (stream.tail (by simp [assigns])).tail (by simp [counts.1])
      refine (ih stream failure).behind [name, assign, number] ?_ ?_
      · simp [named, assigns, counts.1, Kind.isFault]
      · intro body demand expects
        exact .behind named assigns counts expects
  | case5 supply name after taken inside named declared behind found more rest done ih =>
      intro error last failed
      cases failed
  | case6 supply token after taken inside unnamed =>
      intro error last failed
      obtain ⟨rfl, _⟩ : _ = error ∧ after = last := by simpa using failed
      obtain ⟨parts, sound, _⟩ := nextChecked_ok stream taken
      rw [parts]
      exact .here .name (.name sound (by simpa using inside) unnamed) after.coming

/-- A block that is not looked into is left at its first fault only. -/
theorem rawBody_refused {span : Span} (stream : Stream supply.coming)
    (failed : supply.rawBody span = (.error error, last)) :
    ∃ body token rest, supply.coming = body ++ token :: rest ∧
      (∀ token ∈ body, token.kind.endsBlock = false ∧ token.kind.isFault = false) ∧
      token.fault? = some error := by
  revert error last
  fun_induction rawBody supply span with
  | case1 supply span fault faulty =>
      intro error last failed
      obtain ⟨rfl, _⟩ : fault = error ∧ supply.next.2 = last := by simpa using failed
      have counts : supply.next.1.kind.isTrivia = false := by
        by_contra trivia
        rw [Token.fault?_eq_none.mpr (Kind.isFault_of_isTrivia (by simpa using trivia))] at faulty
        cases faulty
      exact ⟨[], _, _, coming_next counts stream.ne_nil, by simp, faulty⟩
  | case2 supply span sound ends =>
      intro error last failed
      cases failed
  | case3 supply span sound inside skipped ih =>
      intro error last failed
      have passes := passes_next stream sound inside
      obtain ⟨body, token, rest, parts, plain, fault⟩ := ih passes.stream failed
      refine ⟨_ ++ body, token, rest, by rw [passes.parts, parts, List.append_assoc], ?_, fault⟩
      exact List.forall_mem_append.mpr ⟨passes.plain, plain⟩
  | case4 supply span sound inside kept ih =>
      intro error last failed
      have passes := passes_next stream sound inside
      obtain ⟨body, token, rest, parts, plain, fault⟩ := ih passes.stream failed
      refine ⟨_ ++ body, token, rest, by rw [passes.parts, parts, List.append_assoc], ?_, fault⟩
      exact List.forall_mem_append.mpr ⟨passes.plain, plain⟩

theorem block_refused {kind : BlockKind} {start : Token} (stream : Stream supply.coming)
    (opens : start.kind = .keyword (.block kind))
    (failed : supply.block kind start = (.error error, last)) :
    Refused Asks (start :: supply.coming) error := by
  have sound : ∀ token ∈ [start], token.kind.isFault = false := by simp [opens, Kind.isFault]
  unfold Supply.block at failed
  split at failed
  case isTrue interpreted =>
    subst interpreted
    unfold constantBlock at failed
    cases found : supply.constants with
    | mk result after =>
        cases result with
        | error fault =>
            obtain ⟨rfl, _⟩ : fault = error ∧ after = last := by simpa [found] using failed
            refine (constants_refused stream found).behind [start] sound ?_
            intro body demand expects
            exact .constants opens expects
        | ok declarations => simp [found] at failed
  case isFalse unread =>
    cases found : supply.rawBody start.span with
    | mk result after =>
        cases result with
        | error fault =>
            obtain ⟨rfl, _⟩ : fault = error ∧ after = last := by simpa [found] using failed
            obtain ⟨body, token, rest, parts, plain, faulty⟩ := rawBody_refused stream found
            refine ⟨start :: body, token, rest, .item, by rw [parts]; rfl, ?_, ?_, .fault faulty⟩
            · exact List.forall_mem_append.mpr ⟨sound, fun token member => (plain token member).2⟩
            · exact .item unread opens fun token member => (plain token member).1
        | ok span => simp [found] at failed

/-- Reading stops where the grammar asks for something else than what comes. -/
theorem blocks_refused (stream : Stream supply.coming)
    (failed : supply.blocks = (.error error, last)) : Refused Asks supply.coming error := by
  revert error last
  fun_induction Supply.blocks supply with
  | case1 supply fault after taken =>
      intro error last failed
      obtain ⟨rfl, _⟩ : fault = error ∧ after = last := by simpa using failed
      exact nextChecked_refused .block stream taken
  | case2 supply token after taken atEnd =>
      intro error last failed
      cases failed
  | case3 supply token after taken unfinished outside =>
      intro error last failed
      obtain ⟨rfl, _⟩ : _ = error ∧ after = last := by simpa using failed
      obtain ⟨parts, sound, _⟩ := nextChecked_ok stream taken
      have inside : token.kind.endsBlock = false :=
        Kind.endsBlock_eq_false.mpr ⟨unfinished, by simp [Kind.isBlockKeyword, outside]⟩
      rw [parts]
      exact .here .block (.block sound inside) after.coming
  | case4 supply token after taken unfinished kind opens fault behind failure =>
      intro error last failed
      obtain ⟨rfl, _⟩ : fault = error ∧ behind = last := by simpa using failed
      obtain ⟨parts, _, _⟩ := nextChecked_ok stream taken
      rw [parts] at stream ⊢
      exact block_refused (stream.tail unfinished) (Kind.block?_eq_some.mp opens) failure
  | case5 supply token after taken unfinished kind opens block behind found fault rest failure ih =>
      intro error last failed
      obtain ⟨rfl, _⟩ : fault = error ∧ rest = last := by simpa using failed
      obtain ⟨parts, sound, _⟩ := nextChecked_ok stream taken
      rw [parts] at stream ⊢
      have stream := stream.tail unfinished
      obtain ⟨body, split, more, plain, forms⟩ :=
        block_sound stream (Kind.block?_eq_some.mp opens) found
      obtain ⟨stop, tokens, ends, closes⟩ := block_stops stream found
      obtain ⟨front, refused, others, demand, coming, faultless, asked, refuses⟩ := ih more failure
      rw [split, coming]
      refine ⟨token :: body ++ front, refused, others, demand, by simp, ?_, ?_, refuses⟩
      · exact List.forall_mem_append.mpr ⟨List.forall_mem_cons.mpr ⟨sound, plain⟩, faultless⟩
      · refine .behind forms asked ?_
        rintro rfl
        -- The token behind a block is the next block's keyword or the end, and fits there.
        obtain ⟨rfl, _⟩ := List.cons.inj (ends.symm.trans coming)
        obtain rfl := asked.demand_of_nil rfl
        cases refuses with
        | fault fault =>
            have sound := (Kind.isTrivia_of_endsBlock closes).2
            rw [Token.fault?_eq_none.mpr sound] at fault
            cases fault
        | block _ inside =>
            rw [inside] at closes
            cases closes
  | case6 supply token after taken unfinished kind opens block behind found more rest done ih =>
      intro error last failed
      cases failed

end Supply

theorem Object.parse_refused {source : String} (failed : Object.parse source = .error error) :
    Refused Asks (significant (tokens source)) error := by
  have stream : Stream (Supply.ofString source).coming := Stream.of_source source
  cases read : (Supply.ofString source).blocks with
  | mk result rest =>
      cases result with
      | error fault =>
          obtain rfl : fault = error := by simpa [Object.parse, read, Except.map] using failed
          exact Supply.blocks_refused stream read
      | ok blocks => simp [Object.parse, read, Except.map] at failed

end SpinBlocks
