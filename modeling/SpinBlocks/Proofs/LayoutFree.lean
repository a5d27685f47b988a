import SpinBlocks.Proofs.Grammar
import SpinBlocks.Proofs.Regions

namespace SpinBlocks

/-! Parsing does not depend on indentation, with one exception.

The grammar asks for no mark of indentation anywhere. Inside methods, and in
every other block whose content is not looked at, marks do no harm either. Only
the constants have no room for them: levels that are still open when a block of
constants ends the text are closed within that block.
-/

/-- The kinds of token that open or close a level of indentation. -/
def Kind.isShift : Kind → Bool
  | .indent | .dedent => true
  | _ => false

def unshifted (tokens : List Token) : List Token :=
  tokens.filter fun token => !token.kind.isShift

/-- The tokens that count for the grammar, without the marks of indentation. -/
def bare (tokens : List Token) : List Token :=
  unshifted (significant tokens)

theorem Kind.plain_of_isShift {kind : Kind} (shifts : kind.isShift = true) :
    kind.isBlockKeyword = false ∧ kind.endsBlock = false := by
  cases kind <;> first | exact ⟨rfl, rfl⟩ | cases shifts

theorem Kind.isShift_of_isBlockKeyword {kind : Kind} (opens : kind.isBlockKeyword = true) :
    kind.isShift = false := by
  cases kind <;> first | rfl | cases opens

theorem Constants.plain {body : List Token} {constants : List (String × Literal)}
    (declares : Constants body constants) :
    ∀ token ∈ body, token.kind.isShift = false ∧ token.kind.isBlockKeyword = false := by
  induction declares with
  | nil => simp
  | cons named assigns counts more ih =>
      intro token member
      simp only [List.mem_cons] at member
      rcases member with rfl | rfl | rfl | member
      · rw [named]; exact ⟨rfl, rfl⟩
      · rw [assigns]; exact ⟨rfl, rfl⟩
      · rw [counts.1]; exact ⟨rfl, rfl⟩
      · exact ih token member

theorem unshifted_eq_self {tokens : List Token}
    (plain : ∀ token ∈ tokens, token.kind.isShift = false) : unshifted tokens = tokens :=
  List.filter_eq_self.mpr fun token member => by simp [plain token member]

theorem unshifted_append (front back : List Token) :
    unshifted (front ++ back) = unshifted front ++ unshifted back :=
  List.filter_append ..

theorem unshifted_cons {token : Token} (tokens : List Token) (plain : token.kind.isShift = false) :
    unshifted (token :: tokens) = token :: unshifted tokens := by
  simp [unshifted, plain]

namespace Blocks

variable {front rest : List Token} {outlines : List Outline}

/-- What is derived with marks of indentation is derived without them. -/
theorem drop_shifts (blocks : Blocks front outlines) : Blocks (unshifted front) outlines := by
  induction blocks with
  | nil => exact .nil
  | @constants start body rest constants outlines opens declares more ih =>
      have plain : start.kind.isShift = false := by rw [opens]; rfl
      rw [unshifted_cons _ plain, unshifted_append,
        unshifted_eq_self fun token member => (declares.plain token member).1]
      exact .constants opens declares ih
  | @raw start body rest kind outlines unread opens inside more ih =>
      have plain : start.kind.isShift = false := by rw [opens]; rfl
      rw [unshifted_cons _ plain, unshifted_append]
      exact .raw unread opens (fun token member => inside token (List.mem_filter.mp member).1) ih

theorem shift_region {region : Region} (blocks : Blocks front outlines)
    (zoned : Zoned region front) :
    ∀ token ∈ front, token.kind.isShift = true → token.region ≠ .constants := by
  induction blocks generalizing region with
  | nil => simp
  | @constants start body rest constants outlines opens declares more ih =>
      obtain ⟨_, _, behind⟩ := zoned.block opens fun token member => (declares.plain token member).2
      intro token member shifts
      simp only [List.mem_cons, List.mem_append] at member
      rcases member with rfl | member | member
      · rw [opens] at shifts
        cases shifts
      · rw [(declares.plain token member).1] at shifts
        cases shifts
      · exact ih behind token member shifts
  | @raw start body rest kind outlines unread opens inside more ih =>
      have plain : ∀ token ∈ body, token.kind.isBlockKeyword = false := fun token member =>
        (Bool.or_eq_false_iff.mp (inside token member)).2
      obtain ⟨_, within, behind⟩ := zoned.block opens plain
      intro token member shifts
      simp only [List.mem_cons, List.mem_append] at member
      rcases member with rfl | member | member
      · rw [opens] at shifts
        cases shifts
      · rw [within token member]
        cases kind <;> first | contradiction | exact Region.noConfusion
      · exact ih behind token member shifts

theorem headed (blocks : Blocks front outlines) :
    ∀ token ∈ front.head?, token.kind.isBlockKeyword = true := by
  cases blocks with
  | nil => simp
  | constants opens => simp [opens, Kind.isBlockKeyword, Kind.block?]
  | raw unread opens => simp [opens, Kind.isBlockKeyword, Kind.block?]

end Blocks

/-- Where the tokens without marks of indentation fall into two parts at a block
keyword, so do the tokens with them. -/
theorem split_unshifted {tokens body rest : List Token} (parts : unshifted tokens = body ++ rest)
    (plain : ∀ token ∈ body, token.kind.isBlockKeyword = false)
    (headed : ∀ token ∈ rest.head?, token.kind.isBlockKeyword = true) :
    ∃ inner outer, tokens = inner ++ outer ∧ unshifted inner = body ∧ unshifted outer = rest ∧
      (∀ token ∈ inner, token.kind.isBlockKeyword = false) ∧
      ∀ token ∈ outer.head?, token.kind.isBlockKeyword = true := by
  obtain ⟨front, back, rfl, rfl, rfl⟩ := List.filter_eq_append_iff.mp parts
  -- The marks in front of the block keyword go to the first part.
  let marks := back.takeWhile fun token => token.kind.isShift
  let outer := back.dropWhile fun token => token.kind.isShift
  have whole : marks ++ outer = back := List.takeWhile_append_dropWhile
  have shifts : ∀ token ∈ marks, token.kind.isShift = true := by
    intro token member
    exact List.mem_takeWhile_imp (p := fun token : Token => token.kind.isShift) member
  have none : unshifted marks = [] :=
    List.filter_eq_nil_iff.mpr fun token member => by simp [shifts token member]
  have same : unshifted outer = unshifted back := by
    rw [← whole, unshifted_append, none, List.nil_append]
  refine ⟨front ++ marks, outer, ?_, ?_, same, ?_, ?_⟩
  · rw [List.append_assoc, whole]
  · rw [unshifted_append, none, List.append_nil]
    rfl
  · intro token member
    rcases List.mem_append.mp member with member | member
    · cases shifts : token.kind.isShift with
      | true => exact (Kind.plain_of_isShift shifts).1
      | false => exact plain token (List.mem_filter.mpr ⟨member, by simp [shifts]⟩)
    · exact (Kind.plain_of_isShift (shifts token member)).1
  · intro token first
    have stands := List.head?_dropWhile_not (fun token : Token => token.kind.isShift) back
    rw [show back.dropWhile (fun token => token.kind.isShift) = outer from rfl, first] at stands
    apply headed
    change token ∈ (unshifted back).head?
    obtain ⟨more, split⟩ := List.head?_eq_some_iff.mp first
    rw [← same, split, unshifted_cons more (by simpa using stands)]
    rfl

theorem unshifted_eq_cons {front more : List Token} {start : Token}
    (same : unshifted front = start :: more)
    (headed : ∀ token ∈ front.head?, token.kind.isBlockKeyword = true) :
    ∃ tail, front = start :: tail ∧ unshifted tail = more := by
  cases front with
  | nil => cases same
  | cons first tail =>
      rw [unshifted_cons tail (Kind.isShift_of_isBlockKeyword (headed first rfl))] at same
      obtain ⟨rfl, behind⟩ := List.cons.inj same
      exact ⟨tail, rfl, behind⟩

namespace Blocks

variable {tokens front : List Token} {outlines : List Outline} {region : Region}

/-- What is derived without marks of indentation is derived with them, unless
one of them stands among constants. -/
theorem restore_shifts (blocks : Blocks tokens outlines) (same : unshifted front = tokens)
    (zoned : Zoned region front)
    (spared : ∀ token ∈ front, token.kind.isShift = true → token.region ≠ .constants)
    (headed : ∀ token ∈ front.head?, token.kind.isBlockKeyword = true) :
    Blocks front outlines := by
  induction blocks generalizing front region with
  | nil =>
      cases front with
      | nil => exact .nil
      | cons first tail =>
          rw [unshifted_cons tail (Kind.isShift_of_isBlockKeyword (headed first rfl))] at same
          cases same
  | @constants start body rest constants outlines opens declares more ih =>
      obtain ⟨tail, rfl, parts⟩ := unshifted_eq_cons same headed
      obtain ⟨inner, outer, rfl, rfl, behind, plain, next⟩ :=
        split_unshifted parts (fun token member => (declares.plain token member).2) more.headed
      obtain ⟨_, within, zoned⟩ := zoned.block opens plain
      have bare : unshifted inner = inner := by
        refine unshifted_eq_self fun token member => ?_
        by_contra shifts
        exact spared token (by simp [member]) (by simpa using shifts) (within token member)
      rw [bare] at declares
      exact .constants opens declares
        (ih behind zoned (fun token member => spared token (by simp [member])) next)
  | @raw start body rest kind outlines unread opens inside more ih =>
      obtain ⟨tail, rfl, parts⟩ := unshifted_eq_cons same headed
      obtain ⟨inner, outer, rfl, rfl, behind, plain, next⟩ :=
        split_unshifted parts
          (fun token member => (Bool.or_eq_false_iff.mp (inside token member)).2) more.headed
      obtain ⟨_, _, zoned⟩ := zoned.block opens plain
      have inner : ∀ token ∈ inner, token.kind.endsBlock = false := by
        intro token member
        cases shifts : token.kind.isShift with
        | true => exact (Kind.plain_of_isShift shifts).2
        | false => exact inside token (List.mem_filter.mpr ⟨member, by simp [shifts]⟩)
      exact .raw unread opens inner
        (ih behind zoned (fun token member => spared token (by simp [member])) next)

end Blocks

/-- The token that cannot be read as a number is to blame for it. -/
theorem Literal.ofToken_error {token : Token} {error : ParseError}
    (misread : Literal.ofToken token = .error error) : ∃ cause, error = ⟨cause, token⟩ := by
  unfold Literal.ofToken at misread
  split at misread
  · exact ⟨_, (Except.error.inj misread).symm⟩
  · dsimp only at misread
    split at misread
    · exact ⟨_, (Except.error.inj misread).symm⟩
    · split at misread
      · cases misread
      · exact ⟨_, (Except.error.inj misread).symm⟩
      · exact ⟨_, (Except.error.inj misread).symm⟩

/-- A mark of indentation that an error is about is one of `tokens` and belongs
to `region`. -/
def ParseError.Blames (error : ParseError) (region : Region) (tokens : List Token) : Prop :=
  error.token.kind.isShift = true → error.token ∈ tokens ∧ error.token.region = region

namespace ParseError.Blames

variable {error : ParseError} {region : Region} {tokens : List Token}

theorem of_fault? {token : Token} (fault : token.fault? = some error) :
    error.Blames region tokens := by
  intro shifts
  unfold Token.fault? at fault
  split at fault
  case h_1 kind =>
    split at fault <;> obtain rfl := Option.some.inj fault <;> rw [kind] at shifts <;> cases shifts
  case h_2 kind =>
    obtain rfl := Option.some.inj fault
    rw [kind] at shifts
    cases shifts
  case h_3 => cases fault

theorem of_zoned {token : Token} {cause : Cause} (zoned : Zoned region (token :: tokens)) :
    Blames ⟨cause, token⟩ region (token :: tokens) := by
  intro shifts
  refine ⟨by simp, ?_⟩
  cases zoned with
  | cons inside => rw [inside, Kind.regionBehind_of_not_opens (Kind.plain_of_isShift shifts).1]

theorem mono {more : List Token} (blames : error.Blames region tokens)
    (among : tokens ⊆ more) : error.Blames region more :=
  fun shifts => ⟨among (blames shifts).1, (blames shifts).2⟩

end ParseError.Blames

namespace Supply

variable {supply rest : Supply} {region : Region} {error : ParseError}

theorem nextChecked_blames {tokens : List Token}
    (failed : supply.nextChecked = (.error error, rest)) : error.Blames region tokens := by
  have checked := congrArg Prod.fst failed
  unfold nextChecked Token.checked at checked
  split at checked
  · rename_i fault
    obtain rfl := Except.error.inj checked
    exact .of_fault? fault
  · cases checked

theorem expect_blames {kind : Kind} {code : Code} {demand : String} (stream : Stream supply.coming)
    (zoned : Zoned region supply.coming)
    (failed : supply.expect kind code demand = (.error error, rest)) :
    error.Blames region supply.coming := by
  unfold expect at failed
  split at failed
  case h_1 taken =>
    obtain ⟨rfl, _⟩ : _ = error ∧ _ = rest := by simpa using failed
    exact nextChecked_blames taken
  case h_2 token after taken =>
    obtain ⟨parts, _⟩ := nextChecked_ok stream taken
    split at failed
    · cases failed
    · obtain ⟨rfl, _⟩ : _ = error ∧ _ = rest := by simpa using failed
      rw [parts] at zoned ⊢
      exact .of_zoned zoned

theorem value_blames {name : Token} (stream : Stream supply.coming)
    (zoned : Zoned region supply.coming) (failed : supply.value name = (.error error, rest)) :
    error.Blames region supply.coming := by
  unfold value at failed
  split at failed
  case h_1 taken =>
    obtain ⟨rfl, _⟩ : _ = error ∧ _ = rest := by simpa using failed
    exact nextChecked_blames taken
  case h_2 token after taken =>
    obtain ⟨parts, _⟩ := nextChecked_ok stream taken
    rw [parts] at zoned ⊢
    split at failed
    · split at failed
      · rename_i misread
        obtain ⟨rfl, _⟩ : _ = error ∧ _ = rest := by simpa using failed
        obtain ⟨cause, rfl⟩ := Literal.ofToken_error misread
        exact .of_zoned zoned
      · cases failed
    · obtain ⟨rfl, _⟩ : _ = error ∧ _ = rest := by simpa using failed
      exact .of_zoned zoned

theorem declaration_blames {name : Token} (stream : Stream supply.coming)
    (zoned : Zoned region supply.coming)
    (failed : supply.declaration name = (.error error, rest)) :
    error.Blames region supply.coming := by
  unfold declaration at failed
  split at failed
  case h_1 refused =>
    obtain ⟨rfl, _⟩ : _ = error ∧ _ = rest := by simpa using failed
    exact expect_blames stream zoned refused
  case h_2 assign after taken =>
    obtain ⟨parts, assigns⟩ := expect_ok stream taken
    rw [parts] at stream zoned ⊢
    have zoned := zoned.tail (by rw [assigns]; rfl)
    exact (value_blames (stream.tail (by simp [assigns])) zoned failed).mono (by simp)

/-- While constants are read, an error blames a mark of the block's own region. -/
theorem constants_blames (stream : Stream supply.coming) (zoned : Zoned region supply.coming)
    (failed : supply.constants = (.error error, rest)) : error.Blames region supply.coming := by
  revert error rest
  fun_induction constants supply with
  | case1 supply fault after taken =>
      intro rest error failed
      obtain ⟨rfl, _⟩ : fault = error ∧ after = rest := by simpa using failed
      exact nextChecked_blames taken
  | case2 supply token after taken ends =>
      intro rest error failed
      cases failed
  | case3 supply token after taken inside named fault last declared =>
      intro rest error failed
      obtain ⟨rfl, _⟩ : fault = error ∧ last = rest := by simpa using failed
      obtain ⟨parts, _⟩ := nextChecked_ok stream taken
      rw [parts] at stream zoned ⊢
      have zoned := zoned.tail (by rw [named]; rfl)
      exact (declaration_blames (stream.tail (by simp [named])) zoned declared).mono (by simp)
  | case4 supply token after taken inside named declared behind found fault last failure ih =>
      intro rest error failed
      obtain ⟨rfl, _⟩ : fault = error ∧ last = rest := by simpa using failed
      obtain ⟨parts, _⟩ := nextChecked_ok stream taken
      rw [parts] at stream zoned ⊢
      have stream := stream.tail (by simp [named])
      have zoned := zoned.tail (by rw [named]; rfl)
      obtain ⟨assign, number, radix, more, assigns, counts, _⟩ := declaration_sound stream found
      rw [more] at stream zoned ⊢
      have stream := (stream.tail (by simp [assigns])).tail (by simp [counts.1])
      have zoned := (zoned.tail (by rw [assigns]; rfl)).tail (by rw [counts.1]; rfl)
      refine (ih stream zoned failure).mono ?_
      intro other member
      simp [member]
  | case5 supply token after taken inside named declared behind found more last done ih =>
      intro rest error failed
      cases failed
  | case6 supply token after taken inside unnamed =>
      intro rest error failed
      obtain ⟨rfl, _⟩ : _ = error ∧ after = rest := by simpa using failed
      obtain ⟨parts, _⟩ := nextChecked_ok stream taken
      rw [parts] at zoned ⊢
      exact .of_zoned zoned

theorem rawBody_blames {span : Span} {tokens : List Token}
    (failed : supply.rawBody span = (.error error, rest)) : error.Blames region tokens := by
  revert error rest
  fun_induction rawBody supply span with
  | case1 supply span fault faulty =>
      intro rest error failed
      obtain ⟨rfl, _⟩ : fault = error ∧ supply.next.2 = rest := by simpa using failed
      exact .of_fault? faulty
  | case2 supply span sound ends =>
      intro rest error failed
      cases failed
  | case3 supply span sound inside skipped ih =>
      intro rest error failed
      exact ih failed
  | case4 supply span sound inside kept ih =>
      intro rest error failed
      exact ih failed

/-- The next token to come ends a block. -/
def Stops (supply : Supply) : Prop :=
  ∃ stop tokens, supply.coming = stop :: tokens ∧ stop.kind.endsBlock = true

theorem constants_stops {declarations : List Declaration} (stream : Stream supply.coming)
    (read : supply.constants = (.ok declarations, rest)) : rest.Stops := by
  revert declarations rest
  fun_induction constants supply with
  | case1 supply error after taken =>
      intro rest declarations read
      cases read
  | case2 supply token after taken ends =>
      intro rest declarations read
      obtain ⟨_, rfl⟩ : _ ∧ after.putBack token = rest := by simpa using read
      obtain ⟨parts, _, back⟩ := nextChecked_ok stream taken
      exact ⟨token, after.coming, back.trans parts, ends⟩
  | case3 supply token after taken inside named error last declared =>
      intro rest declarations read
      cases read
  | case4 supply token after taken inside named declared behind found error last failed ih =>
      intro rest declarations read
      cases read
  | case5 supply token after taken inside named declared behind found more last done ih =>
      intro rest declarations read
      obtain ⟨_, rfl⟩ : _ ∧ last = rest := by simpa using read
      obtain ⟨parts, _⟩ := nextChecked_ok stream taken
      rw [parts] at stream
      have stream := stream.tail (by simp [named])
      obtain ⟨assign, number, radix, split, assigns, counts, _⟩ := declaration_sound stream found
      rw [split] at stream
      exact ih ((stream.tail (by simp [assigns])).tail (by simp [counts.1])) done
  | case6 supply token after taken inside unnamed =>
      intro rest declarations read
      cases read

theorem rawBody_stops {span whole : Span} (stream : Stream supply.coming)
    (read : supply.rawBody span = (.ok whole, rest)) : rest.Stops := by
  revert whole rest
  fun_induction rawBody supply span with
  | case1 supply span error fault =>
      intro rest whole read
      cases read
  | case2 supply span sound ends =>
      intro rest whole read
      obtain ⟨_, rfl⟩ : _ ∧ supply.next.2.putBack supply.next.1 = rest := by simpa using read
      have counts := (Kind.isTrivia_of_endsBlock ends).1
      exact ⟨supply.next.1, supply.next.2.coming, coming_putBack supply.returned_next counts, ends⟩
  | case3 supply span sound inside skipped ih =>
      intro rest whole read
      exact ih (passes_next stream sound inside).stream read
  | case4 supply span sound inside kept ih =>
      intro rest whole read
      exact ih (passes_next stream sound inside).stream read

theorem block_blames {kind : BlockKind} {start : Token} (stream : Stream supply.coming)
    (zoned : Zoned kind.region supply.coming)
    (failed : supply.block kind start = (.error error, rest)) :
    error.Blames .constants supply.coming := by
  unfold Supply.block at failed
  split at failed
  · rename_i interpreted
    subst interpreted
    unfold constantBlock at failed
    cases found : supply.constants with
    | mk result after =>
        cases result with
        | error fault =>
            obtain ⟨rfl, _⟩ : fault = error ∧ after = rest := by simpa [found] using failed
            exact constants_blames stream zoned found
        | ok declarations => simp [found] at failed
  · cases found : supply.rawBody start.span with
    | mk result after =>
        cases result with
        | error fault =>
            obtain ⟨rfl, _⟩ : fault = error ∧ after = rest := by simpa [found] using failed
            exact rawBody_blames found
        | ok span => simp [found] at failed

theorem block_stops {kind : BlockKind} {start : Token} {block : Block}
    (stream : Stream supply.coming) (read : supply.block kind start = (.ok block, rest)) :
    rest.Stops := by
  unfold Supply.block at read
  split at read
  · unfold constantBlock at read
    cases found : supply.constants with
    | mk result after =>
        cases result with
        | error fault => simp [found] at read
        | ok declarations =>
            obtain ⟨_, rfl⟩ : _ ∧ after = rest := by simpa [found] using read
            exact constants_stops stream found
  · cases found : supply.rawBody start.span with
    | mk result after =>
        cases result with
        | error fault => simp [found] at read
        | ok span =>
            obtain ⟨_, rfl⟩ : _ ∧ after = rest := by simpa [found] using read
            exact rawBody_stops stream found

/-- An error blames a mark of the constants, or one that stands in front of all
blocks. -/
theorem blocks_blames (stream : Stream supply.coming) (zoned : Zoned region supply.coming)
    (start : region = .outside ∨ supply.Stops) (failed : supply.blocks = (.error error, rest)) :
    error.Blames .constants supply.coming ∨ error.Blames .outside supply.coming := by
  revert error rest
  fun_induction Supply.blocks supply generalizing region with
  | case1 supply fault after taken =>
      intro rest error failed
      obtain ⟨rfl, _⟩ : fault = error ∧ after = rest := by simpa using failed
      exact .inl (nextChecked_blames taken)
  | case2 supply token after taken atEnd =>
      intro rest error failed
      cases failed
  | case3 supply token after taken unfinished outside =>
      intro rest error failed
      obtain ⟨rfl, _⟩ : _ = error ∧ after = rest := by simpa using failed
      obtain ⟨parts, _⟩ := nextChecked_ok stream taken
      rcases start with rfl | ⟨stop, tokens, coming, ends⟩
      · rw [parts] at zoned ⊢
        exact .inr (.of_zoned zoned)
      · obtain ⟨rfl, _⟩ := List.cons.inj (parts.symm.trans coming)
        simp [Kind.endsBlock, Kind.isBlockKeyword, unfinished, outside] at ends
  | case4 supply token after taken unfinished kind opens fault behind failure =>
      intro rest error failed
      obtain ⟨rfl, _⟩ : fault = error ∧ behind = rest := by simpa using failed
      obtain ⟨parts, _⟩ := nextChecked_ok stream taken
      rw [parts] at stream zoned ⊢
      have zoned : Zoned kind.region after.coming := by
        have parts : Zoned region (token :: ([] ++ after.coming)) := zoned
        exact (parts.block (Kind.block?_eq_some.mp opens) (by simp)).2.2
      exact .inl ((block_blames (stream.tail unfinished) zoned failure).mono (by simp))
  | case5 supply token after taken unfinished kind opens block behind found fault last failure ih =>
      intro rest error failed
      obtain ⟨rfl, _⟩ : fault = error ∧ last = rest := by simpa using failed
      obtain ⟨parts, _⟩ := nextChecked_ok stream taken
      rw [parts] at stream zoned ⊢
      have stream := stream.tail unfinished
      obtain ⟨body, split, more, _, forms⟩ :=
        block_sound stream (Kind.block?_eq_some.mp opens) found
      have plain : ∀ token ∈ body, token.kind.isBlockKeyword = false := by
        obtain ⟨_, _, same, _, inside⟩ := forms.opens
        obtain ⟨rfl, rfl⟩ := List.cons.inj same
        exact fun token member => (Bool.or_eq_false_iff.mp (inside token member)).2
      have among : behind.coming ⊆ token :: after.coming := by
        intro other member
        simp [split, member]
      rw [split] at zoned
      obtain ⟨_, _, zoned⟩ := zoned.block (Kind.block?_eq_some.mp opens) plain
      exact (ih more zoned (.inr (block_stops stream found)) failure).imp
        (·.mono among) (·.mono among)
  | case6 supply token after taken unfinished kind opens block behind found more last done ih =>
      intro rest error failed
      cases failed

end Supply

theorem Object.parse_ok {source : String} {object : Object} (parsed : parse source = .ok object) :
    ∃ rest, (Supply.ofString source).blocks = (.ok object.blocks, rest) := by
  cases read : (Supply.ofString source).blocks with
  | mk result rest =>
      cases result with
      | error error => simp [parse, read, Except.map] at parsed
      | ok blocks =>
          simp only [parse, read, Except.map, Except.ok.injEq] at parsed
          subst parsed
          exact ⟨rest, rfl⟩

theorem Object.parse_error {source : String} {error : ParseError}
    (failed : parse source = .error error) :
    ∃ rest, (Supply.ofString source).blocks = (.error error, rest) := by
  cases read : (Supply.ofString source).blocks with
  | mk result rest =>
      cases result with
      | error other =>
          simp only [parse, read, Except.map, Except.error.injEq] at failed
          subst failed
          exact ⟨rest, rfl⟩
      | ok blocks => simp [parse, read, Except.map] at failed

theorem significant_zoned (source : String) : Zoned .outside (significant (tokens source)) :=
  (tokens_zoned source).filter fun token dropped =>
    Kind.isBlockKeyword_of_isTrivia (by simpa using dropped)

/-- No mark of indentation stands in front of all blocks. -/
theorem shift_not_outside {source : String} {token : Token} (member : token ∈ tokens source)
    (shifts : token.kind.isShift = true) : token.region ≠ .outside := by
  obtain ⟨opens, closes⟩ := marks_of_mem_tokens member
  cases kind : token.kind with
  | indent =>
      rw [opens kind]
      exact Region.noConfusion
  | dedent => exact closes kind
  | _ => rw [kind] at shifts; cases shifts

/-- The only marks of indentation among constants are those that close a level. -/
theorem shift_constants_iff (source : String) :
    (∀ token ∈ tokens source, token.kind.isShift = true → token.region ≠ .constants) ↔
      ∀ token ∈ tokens source, token.kind = .dedent → token.region ≠ .constants := by
  constructor
  · intro spared token member closes
    exact spared token member (by rw [closes]; rfl)
  · intro spared token member shifts
    cases kind : token.kind with
    | indent =>
        rw [(marks_of_mem_tokens member).1 kind]
        exact Region.noConfusion
    | dedent => exact spared token member kind
    | _ => rw [kind] at shifts; cases shifts

/-- The blocks of a text are derived from its tokens with the marks of
indentation just if they are without them and no mark stands among constants. -/
theorem derives_unshifted_iff (source : String) (outlines : List Outline) :
    (∃ front last, significant (tokens source) = front ++ [last] ∧ last.kind = .eof ∧
        Blocks front outlines) ↔
      (∃ front last, bare (tokens source) = front ++ [last] ∧ last.kind = .eof ∧
        Blocks front outlines) ∧
      ∀ token ∈ tokens source, token.kind.isShift = true → token.region ≠ .constants := by
  have zoned := significant_zoned source
  have counted : ∀ token ∈ tokens source, token.kind.isShift = true →
      token ∈ significant (tokens source) := by
    intro token member shifts
    refine List.mem_filter.mpr ⟨member, ?_⟩
    cases kind : token.kind <;> rw [kind] at shifts <;> first | rfl | cases shifts
  constructor
  · rintro ⟨front, last, parts, atEnd, derived⟩
    rw [parts] at zoned counted
    have plain : last.kind.isShift = false := by rw [atEnd]; rfl
    refine ⟨⟨unshifted front, last, ?_, atEnd, derived.drop_shifts⟩, ?_⟩
    · rw [bare, parts, unshifted_append, unshifted_cons [] plain]
      rfl
    · intro token member shifts
      rcases List.mem_append.mp (counted token member shifts) with among | among
      · exact derived.shift_region zoned.front token among shifts
      · rw [List.mem_singleton.mp among, plain] at shifts
        cases shifts
  · rintro ⟨⟨tokens', last', parts', atEnd', derived⟩, spared⟩
    obtain ⟨front, last, parts, atEnd, _⟩ := (Stream.of_source source).ends
    have plain : last.kind.isShift = false := by rw [atEnd]; rfl
    rw [bare, parts, unshifted_append, unshifted_cons [] plain] at parts'
    obtain ⟨same, _⟩ := List.append_inj' parts' rfl
    rw [parts] at zoned
    have among : ∀ token ∈ front, token ∈ tokens source := fun token member =>
      (List.mem_filter.mp (parts ▸ List.mem_append_left [last] member)).1
    refine ⟨front, last, parts, atEnd, derived.restore_shifts same zoned.front
      (fun token member => spared token (among token member)) ?_⟩
    intro token first
    obtain ⟨more, rfl⟩ := List.head?_eq_some_iff.mp first
    cases shifts : token.kind.isShift with
    | true =>
        cases zoned with
        | cons inside =>
            rw [Kind.regionBehind_of_not_opens (Kind.plain_of_isShift shifts).1] at inside
            exact absurd inside (shift_not_outside (among token (by simp)) shifts)
    | false =>
        rw [unshifted_cons more shifts] at same
        exact derived.headed token (by rw [← same]; rfl)

/-- The blocks of a faultless text are those that the grammar derives without
the marks of indentation, unless a level is closed among constants. No error is
about a mark of indentation but there. -/
theorem parse_without_layout (source : String) :
    ((∀ token ∈ tokens source, token.kind.isFault = false) → ∀ outlines,
      ((∃ object, Object.parse source = .ok object ∧ object.blocks.map (·.outline) = outlines) ↔
        (∃ front last, bare (tokens source) = front ++ [last] ∧ last.kind = .eof ∧
          Blocks front outlines) ∧
        ∀ token ∈ tokens source, token.kind = .dedent → token.region ≠ .constants)) ∧
      ∀ error, Object.parse source = .error error → error.token.kind ≠ .indent ∧
        (error.token.kind = .dedent → error.token.region = .constants) := by
  have coming : (Supply.ofString source).coming = significant (tokens source) := rfl
  have stream : Stream (Supply.ofString source).coming := Stream.of_source source
  refine ⟨fun faultless outlines => ?_, fun error failed => ?_⟩
  · rw [← shift_constants_iff, ← derives_unshifted_iff]
    constructor
    · rintro ⟨object, parsed, rfl⟩
      obtain ⟨rest, read⟩ := Object.parse_ok parsed
      exact (Supply.blocks_sound stream read).2
    · rintro ⟨front, last, parts, atEnd, derived⟩
      have sound : ∀ token ∈ front, token.kind.isFault = false := fun token member =>
        faultless token (List.mem_filter.mp (parts ▸ List.mem_append_left [last] member)).1
      obtain ⟨blocks, rest, read, same⟩ :=
        Supply.blocks_complete derived stream parts atEnd sound
      exact ⟨⟨blocks⟩, by simp [Object.parse, read, Except.map], same⟩
  · obtain ⟨rest, read⟩ := Object.parse_error failed
    have blames := Supply.blocks_blames stream (significant_zoned source) (.inl rfl) read
    have among : error.token.kind.isShift = true →
        error.token ∈ tokens source ∧ error.token.region = .constants := by
      intro shifts
      rcases blames with blames | blames
      · obtain ⟨member, inside⟩ := blames shifts
        exact ⟨(List.mem_filter.mp member).1, inside⟩
      · obtain ⟨member, outside⟩ := blames shifts
        exact absurd outside (shift_not_outside (List.mem_filter.mp member).1 shifts)
    refine ⟨fun opens => ?_, fun closes => (among (by rw [closes]; rfl)).2⟩
    obtain ⟨member, inside⟩ := among (by rw [opens]; rfl)
    rw [(marks_of_mem_tokens member).1 opens] at inside
    cases inside

theorem parse_without_layout_nested :
    (∀ token ∈ tokens "PUB\n a\n  b\nCON x = 1", token.kind.isFault = false) ∧
      ∃ front last, bare (tokens "PUB\n a\n  b\nCON x = 1") = front ++ [last] ∧
        last.kind = .eof ∧ Blocks front [⟨.pub, []⟩, ⟨.con, [("x", ⟨.decimal, "1", 1⟩)]⟩] :=
  have faultless : ∀ token ∈ tokens "PUB\n a\n  b\nCON x = 1", token.kind.isFault = false := by
    decide +kernel
  have parsed : Object.parse "PUB\n a\n  b\nCON x = 1" =
      .ok ⟨[.raw .pub (by decide) ⟨0, 10⟩,
        .constants [⟨"x", ⟨.decimal, "1", 1⟩, ⟨15, 20⟩⟩] ⟨11, 20⟩]⟩ := by
    decide +kernel
  ⟨faultless, (((parse_without_layout _).1 faultless _).mp ⟨_, parsed, rfl⟩).1⟩

/-- A level of the method is still open where the block of constants ends the
text. The mark that closes it is taken for the name of a constant. -/
theorem parse_refuses_open_level :
    (∀ token ∈ tokens "PUB\n a\n  b CON x = 1", token.kind.isFault = false) ∧
      (∃ front last, bare (tokens "PUB\n a\n  b CON x = 1") = front ++ [last] ∧
        last.kind = .eof ∧ Blocks front [⟨.pub, []⟩, ⟨.con, [("x", ⟨.decimal, "1", 1⟩)]⟩]) ∧
      (Object.parse "PUB\n a\n  b CON x = 1").mapError
          (fun error => (error.cause, error.token.kind)) =
        .error (.expectedName, .dedent) := by
  refine ⟨by decide +kernel, ?_, by decide +kernel⟩
  let method : List Token :=
    [⟨.identifier, "a", .methods, 1, 1, ⟨5, 6⟩⟩, ⟨.identifier, "b", .methods, 2, 2, ⟨9, 10⟩⟩]
  let constant : List Token :=
    [⟨.identifier, "x", .constants, 2, 8, ⟨15, 16⟩⟩,
      ⟨.operator .assign, "=", .constants, 2, 10, ⟨17, 18⟩⟩,
      ⟨.number .decimal, "1", .constants, 2, 12, ⟨19, 20⟩⟩]
  refine ⟨⟨.keyword (.block .pub), "PUB", .methods, 0, 0, ⟨0, 3⟩⟩ :: (method ++
      ⟨.keyword (.block .con), "CON", .constants, 2, 4, ⟨11, 14⟩⟩ :: (constant ++ [])),
    ⟨.eof, "", .constants, 2, 13, ⟨20, 20⟩⟩, by decide +kernel, rfl, ?_⟩
  refine .raw (by decide) rfl (by decide) (.constants rfl ?_ .nil)
  have counts : Token.Counts ⟨.number .decimal, "1", .constants, 2, 12, ⟨19, 20⟩⟩ .decimal :=
    ⟨rfl, by decide, by decide⟩
  exact .cons rfl rfl counts .nil

end SpinBlocks
