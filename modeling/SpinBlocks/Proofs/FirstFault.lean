import SpinBlocks.Proofs.Balance
import SpinBlocks.Proofs.LayoutFree
import SpinBlocks.Proofs.Locating

namespace SpinBlocks

/-! All commands report the same fault.

A fault is a token like any other, and each command meets it in its own way:
reindenting before it writes the token, a listing after it has shown it, and
parsing when it takes it from the supply. None of them passes over a fault, so
each reports the first one of the text.
-/

/-- The first fault among some tokens. -/
def firstFault? (tokens : List Token) : Option ParseError :=
  tokens.findSome? (·.fault?)

variable {row front rest : List Token} {token : Token} {error : ParseError}

theorem firstFault?_of_fault (fault : token.fault? = some error) (rest : List Token) :
    firstFault? (token :: rest) = some error := by
  rw [firstFault?, List.findSome?_cons, fault]

theorem firstFault?_append (sound : ∀ token ∈ front, token.kind.isFault = false)
    (rest : List Token) : firstFault? (front ++ rest) = firstFault? rest := by
  have none : front.findSome? (·.fault?) = none :=
    List.findSome?_eq_none_iff.mpr fun token member =>
      Token.fault?_eq_none.mpr (sound token member)
  rw [firstFault?, List.findSome?_append, none, Option.none_or]
  rfl

theorem firstFault?_cons (sound : token.kind.isFault = false) (rest : List Token) :
    firstFault? (token :: rest) = firstFault? rest :=
  firstFault?_append (List.forall_mem_singleton.mpr sound) rest

theorem firstFault?_eq_none :
    firstFault? row = none ↔ ∀ token ∈ row, token.kind.isFault = false := by
  simp only [firstFault?, List.findSome?_eq_none_iff, Token.fault?_eq_none]

theorem firstFault?_eq_some :
    firstFault? row = some error ↔
      ∃ front token rest, row = front ++ token :: rest ∧
        (∀ other ∈ front, other.kind.isFault = false) ∧ token.fault? = some error := by
  simp only [firstFault?, List.findSome?_eq_some_iff, Token.fault?_eq_none]
  constructor
  · rintro ⟨front, token, rest, parts, fault, sound⟩
    exact ⟨front, token, rest, parts, sound, fault⟩
  · rintro ⟨front, token, rest, parts, sound, fault⟩
    exact ⟨front, token, rest, parts, fault, sound⟩

theorem firstFault?_significant (tokens : List Token) :
    firstFault? (significant tokens) = firstFault? tokens := by
  induction tokens with
  | nil => rfl
  | cons token rest ih =>
      cases trivia : token.kind.isTrivia with
      | true =>
          have dropped : significant (token :: rest) = significant rest := by
            simp [significant, trivia]
          rw [dropped, ih, firstFault?_cons (Kind.isFault_of_isTrivia trivia)]
      | false =>
          have kept : significant (token :: rest) = token :: significant rest := by
            simp [significant, trivia]
          rw [kept, firstFault?, List.findSome?_cons, firstFault?, List.findSome?_cons]
          cases token.fault? with
          | some error => rfl
          | none => exact ih

theorem Token.fault?_token (fault : token.fault? = some error) : error.token = token := by
  unfold Token.fault? at fault
  split at fault
  · split at fault <;> exact (Option.some.inj fault) ▸ rfl
  · exact (Option.some.inj fault) ▸ rfl
  · cases fault

/-! Reindenting stops at the first fault. -/

theorem Reindent.Draft.addAll_eq_error {draft : Draft} {steps : List Step} :
    draft.addAll steps = .error error ↔ firstFault? (steps.map (·.token)) = some error := by
  induction steps generalizing draft with
  | nil => simp [addAll, firstFault?]
  | cons step rest ih =>
      cases fault : step.token.fault? with
      | some other =>
          rw [List.map_cons, firstFault?_of_fault fault, addAll, fault]
          simp
      | none =>
          rw [List.map_cons, firstFault?_cons (Token.fault?_eq_none.mp fault), addAll, fault]
          exact ih

theorem reindent_eq_error {source : String} :
    reindent source = .error error ↔ firstFault? (tokens source) = some error := by
  have added := @Reindent.Draft.addAll_eq_error error .initial (steps source)
  rw [tokens, ← added, reindent]
  cases Reindent.Draft.initial.addAll (steps source) <;> simp [Except.map]

/-- A text without faults is reindented. -/
theorem exists_reindent_iff {source : String} :
    (∃ text, reindent source = .ok text) ↔ firstFault? (tokens source) = none := by
  constructor
  · rintro ⟨text, done⟩
    cases fault : firstFault? (tokens source) with
    | none => rfl
    | some error =>
        rw [reindent_eq_error.mpr fault] at done
        cases done
  · intro sound
    cases done : reindent source with
    | ok text => exact ⟨text, rfl⟩
    | error error =>
        rw [reindent_eq_error.mp done] at sound
        cases sound

/-! A listing has one line for each token, up to the first fault. -/

/-- The text holds no line feed. -/
def Inline (text : String) : Prop :=
  '\n' ∉ text.toList

instance (text : String) : Decidable (Inline text) :=
  inferInstanceAs (Decidable (¬ '\n' ∈ text.toList))

namespace Inline

theorem append {first second : String} (inline : Inline first) (more : Inline second) :
    Inline (first ++ second) := by
  unfold Inline at inline more ⊢
  rw [String.toList_append, List.mem_append]
  rintro (member | member)
  · exact inline member
  · exact more member

theorem blanks (count : Nat) : Inline (Text.blanks count) := by
  unfold Inline Text.blanks
  rw [String.toList_ofList, List.mem_replicate]
  rintro ⟨_, same⟩
  exact absurd same (by decide)

theorem padRight {text : String} (inline : Inline text) (width : Nat) :
    Inline (Text.padRight width text) :=
  inline.append (.blanks _)

theorem padLeft {text : String} (inline : Inline text) (width : Nat) :
    Inline (Text.padLeft width text) :=
  (blanks _).append inline

theorem repr (count : Nat) : Inline count.repr := by
  unfold Inline
  rw [Nat.toList_repr]
  intro member
  exact absurd (Nat.isDigit_of_mem_toDigits (by decide) (by decide) member) (by decide)

theorem abbreviation (region : Region) : Inline region.abbreviation := by
  cases region <;> decide

theorem spelling (word : Keyword) : Inline word.spelling := by
  have words : ∀ spelling ∈ vocabulary, Inline spelling := by decide +kernel
  cases word with
  | block kind => cases kind <;> decide
  | word spelling reserved => exact words spelling reserved

theorem name (kind : Kind) : Inline kind.name := by
  cases kind with
  | keyword word => exact spelling word
  | operator symbol => cases symbol <;> decide
  | number radix => cases radix <;> decide
  | _ => decide

theorem toDigits (count : Nat) : '\n' ∉ Nat.toDigits 16 count := by
  have digits : ∀ digit < 16, '\n' ≠ Nat.digitChar digit := by decide
  induction count using Nat.strongRecOn with
  | _ count ih =>
      rw [Nat.toDigits_eq_if (by decide)]
      split
      · rename_i small
        rw [List.mem_singleton]
        exact digits count small
      · rename_i large
        rw [List.mem_append, List.mem_singleton]
        rintro (member | same)
        · exact ih (count / 16) (Nat.div_lt_self (by omega) (by decide)) member
        · exact digits (count % 16) (Nat.mod_lt _ (by decide)) same

theorem codeEscape (c : Char) : '\n' ∉ Text.codeEscape c := by
  have digits := toDigits c.toNat
  simp [Text.codeEscape, digits]

/-- A line feed has an escape, and no escape has a line feed. -/
theorem escapeInner (c : Char) : '\n' ∉ Text.escapeInner c := by
  unfold Text.escapeInner Text.shortEscape?
  split
  · rename_i short found
    split at found <;> cases found <;> decide
  · rename_i missing
    split
    · intro member
      obtain rfl := List.mem_singleton.mp member
      cases missing
    · exact codeEscape c

theorem escape (text : List Char) : Inline (String.ofList (Text.escape text)) := by
  unfold Inline
  rw [String.toList_ofList]
  cases text with
  | nil => exact List.not_mem_nil
  | cons c rest =>
      rw [Text.escape, List.mem_append, List.mem_flatMap]
      rintro (member | ⟨d, _, member⟩)
      · unfold Text.escapeFirst at member
        split at member
        · exact codeEscape c member
        · exact escapeInner c member
      · exact escapeInner d member

end Inline

namespace Command

theorem listingLine_eq (token : Token) (depth : Nat) :
    ∃ line, Inline line ∧ listingLine token depth = line ++ "\n" := by
  have blank : Inline " " := by decide
  have opening : Inline " (" := by decide
  have comma : Inline ", " := by decide
  have closing : Inline "): " := by decide
  have quote : Inline "'" := by decide
  have kind := (((Inline.abbreviation token.region).padRight 3).append blank).append
    ((Inline.name token.kind).padRight 16)
  have line := (kind.append opening).append ((Inline.repr (token.line + 1)).padLeft 4)
  have column := (line.append comma).append ((Inline.repr (token.column + 1)).padLeft 4)
  have margin := (column.append closing).append (.blanks (2 * depth))
  have shown := (margin.append quote).append (.escape token.text.toList)
  rw [listingLine, show "'\n" = "'" ++ "\n" from rfl, ← String.append_assoc]
  exact ⟨_, shown.append quote, rfl⟩

/-- The lines show the tokens one by one, each on a line of its own. -/
def Lists (tokens : List Token) (lines : List String) : Prop :=
  List.Forall₂ (fun token line => (∃ depth, line = listingLine token depth) ∧
    ∃ text, Inline text ∧ line = text ++ "\n") tokens lines

theorem Lists.append {others : List Token} {lines more : List String} (lists : Lists row lines)
    (behind : Lists others more) : Lists (row ++ others) (lines ++ more) :=
  List.rel_append lists behind

theorem lists_line (token : Token) (depth : Nat) : Lists [token] [listingLine token depth] :=
  .cons ⟨⟨depth, rfl⟩, listingLine_eq token depth⟩ .nil

theorem listing_append (depth : Nat) (sound : ∀ token ∈ front, token.kind.isFault = false)
    (rest : List Token) :
    ∃ lines inner, Lists front lines ∧
      (listing depth (front ++ rest)).1 = lines ++ (listing inner rest).1 := by
  induction front generalizing depth with
  | nil => exact ⟨[], depth, .nil, rfl⟩
  | cons token front ih =>
      obtain ⟨plain, others⟩ := List.forall_mem_cons.mp sound
      obtain ⟨lines, inner, lists, same⟩ :=
        ih (depth + indents [token] - dedents [token]) others
      refine ⟨_, inner, (lists_line token (depth - dedents [token])).append lists, ?_⟩
      rw [List.cons_append, listing_cons, plain, if_neg Bool.false_ne_true, same]
      rfl

theorem listing_fault (depth : Nat) (tokens : List Token) :
    (listing depth tokens).2 = firstFault? tokens := by
  induction tokens generalizing depth with
  | nil => rfl
  | cons token rest ih =>
      rw [listing]
      cases fault : token.fault? with
      | some error => rw [firstFault?_of_fault fault]
      | none =>
          rw [firstFault?_cons (Token.fault?_eq_none.mp fault)]
          exact ih _

theorem exists_listing (sound : ∀ token ∈ row, token.kind.isFault = false) :
    ∃ lines, Lists row lines ∧ listing 0 row = (lines, none) := by
  obtain ⟨lines, inner, lists, same⟩ := listing_append 0 sound []
  rw [List.append_nil] at same
  refine ⟨lines, lists, Prod.ext ?_ ?_⟩
  · rw [same]
    exact List.append_nil lines
  · rw [listing_fault, firstFault?_eq_none.mpr sound]

theorem exists_listing_fault (sound : ∀ token ∈ front, token.kind.isFault = false)
    (fault : token.fault? = some error) (rest : List Token) :
    ∃ lines, Lists (front ++ [token]) lines ∧
      listing 0 (front ++ token :: rest) = (lines, some error) := by
  obtain ⟨lines, inner, lists, same⟩ := listing_append 0 sound (token :: rest)
  refine ⟨_, lists.append (lists_line token (inner - dedents [token])), Prod.ext ?_ ?_⟩
  · have faulty : token.kind.isFault = true := by
      by_contra plain
      rw [Token.fault?_eq_none.mpr (by simpa using plain)] at fault
      cases fault
    rw [same, listing_cons, faulty, if_pos rfl]
  · rw [listing_fault, firstFault?_append sound, firstFault?_of_fault fault]

end Command

/-! Parsing takes no token that is a fault, so an error with the code of a fault
is about the first one. -/

def Code.isLexical : Code → Bool
  | .illegalToken | .unexpectedEnd => true
  | _ => false

/-- If the error has the code of a fault, it is the first fault of `tokens`. -/
def ParseError.Leads (error : ParseError) (tokens : List Token) : Prop :=
  error.cause.code.isLexical = true → firstFault? tokens = some error

namespace ParseError.Leads

theorem of_code (other : error.cause.code.isLexical = false) : error.Leads row := by
  intro lexical
  rw [other] at lexical
  cases lexical

theorem of_fault (fault : token.fault? = some error) : error.Leads (token :: rest) :=
  fun _ => firstFault?_of_fault fault rest

theorem behind (sound : ∀ token ∈ front, token.kind.isFault = false)
    (leads : error.Leads rest) : error.Leads (front ++ rest) :=
  fun lexical => (firstFault?_append sound rest).trans (leads lexical)

theorem tail (sound : token.kind.isFault = false) (leads : error.Leads rest) :
    error.Leads (token :: rest) :=
  leads.behind (List.forall_mem_singleton.mpr sound)

end ParseError.Leads

theorem Literal.ofToken_leads (misread : Literal.ofToken token = .error error) :
    error.Leads row := by
  apply ParseError.Leads.of_code
  unfold Literal.ofToken at misread
  split at misread
  · exact (Except.error.inj misread) ▸ rfl
  · dsimp only at misread
    split at misread
    · exact (Except.error.inj misread) ▸ rfl
    · split at misread
      · cases misread
      · exact (Except.error.inj misread) ▸ rfl
      · exact (Except.error.inj misread) ▸ rfl

namespace Supply

variable {supply last : Supply}

theorem nextChecked_leads (stream : Stream supply.coming)
    (failed : supply.nextChecked = (.error error, last)) : error.Leads supply.coming := by
  have checked := congrArg Prod.fst failed
  unfold nextChecked Token.checked at checked
  split at checked
  · rename_i fault
    obtain rfl := Except.error.inj checked
    rw [supply.coming_nextSignificant stream.ne_nil]
    exact .of_fault fault
  · cases checked

theorem expect_leads {kind : Kind} {code : Code} {demand : String}
    (other : code.isLexical = false) (stream : Stream supply.coming)
    (failed : supply.expect kind code demand = (.error error, last)) :
    error.Leads supply.coming := by
  unfold expect at failed
  split at failed
  case h_1 refused =>
    obtain ⟨rfl, _⟩ : _ = error ∧ _ = last := by simpa using failed
    exact nextChecked_leads stream refused
  case h_2 token after taken =>
    split at failed
    · cases failed
    · obtain ⟨rfl, _⟩ : _ = error ∧ _ = last := by simpa using failed
      exact .of_code other

theorem value_leads {name : Token} (stream : Stream supply.coming)
    (failed : supply.value name = (.error error, last)) : error.Leads supply.coming := by
  unfold value at failed
  split at failed
  case h_1 refused =>
    obtain ⟨rfl, _⟩ : _ = error ∧ _ = last := by simpa using failed
    exact nextChecked_leads stream refused
  case h_2 token after taken =>
    split at failed
    · split at failed
      · rename_i misread
        obtain ⟨rfl, _⟩ : _ = error ∧ _ = last := by simpa using failed
        exact Literal.ofToken_leads misread
      · cases failed
    · obtain ⟨rfl, _⟩ : _ = error ∧ _ = last := by simpa using failed
      exact .of_code rfl

theorem declaration_leads {name : Token} (stream : Stream supply.coming)
    (failed : supply.declaration name = (.error error, last)) : error.Leads supply.coming := by
  unfold declaration at failed
  split at failed
  case h_1 refused =>
    obtain ⟨rfl, _⟩ : _ = error ∧ _ = last := by simpa using failed
    exact expect_leads rfl stream refused
  case h_2 assign after taken =>
    obtain ⟨parts, assigns⟩ := expect_ok stream taken
    rw [parts] at stream ⊢
    exact (value_leads (stream.tail (by simp [assigns])) failed).tail (by rw [assigns]; rfl)

theorem constants_leads (stream : Stream supply.coming)
    (failed : supply.constants = (.error error, last)) : error.Leads supply.coming := by
  revert error last
  fun_induction constants supply with
  | case1 supply fault after taken =>
      intro error last failed
      obtain ⟨rfl, _⟩ : fault = error ∧ after = last := by simpa using failed
      exact nextChecked_leads stream taken
  | case2 supply token after taken ends =>
      intro error last failed
      cases failed
  | case3 supply token after taken inside named fault behind declared =>
      intro error last failed
      obtain ⟨rfl, _⟩ : fault = error ∧ behind = last := by simpa using failed
      obtain ⟨parts, sound, _⟩ := nextChecked_ok stream taken
      rw [parts] at stream ⊢
      exact (declaration_leads (stream.tail (by simp [named])) declared).tail sound
  | case4 supply token after taken inside named declared behind found fault rest failure ih =>
      intro error last failed
      obtain ⟨rfl, _⟩ : fault = error ∧ rest = last := by simpa using failed
      obtain ⟨parts, sound, _⟩ := nextChecked_ok stream taken
      rw [parts] at stream ⊢
      have stream := stream.tail (by simp [named])
      obtain ⟨assign, number, radix, more, assigns, counts, _⟩ := declaration_sound stream found
      rw [more] at stream ⊢
      have stream := (stream.tail (by simp [assigns])).tail (by simp [counts.1])
      have leads := (ih stream failure).tail (by rw [counts.1]; rfl)
      exact (leads.tail (by rw [assigns]; rfl)).tail sound
  | case5 supply token after taken inside named declared behind found more rest done ih =>
      intro error last failed
      cases failed
  | case6 supply token after taken inside unnamed =>
      intro error last failed
      obtain ⟨rfl, _⟩ : _ = error ∧ after = last := by simpa using failed
      exact .of_code rfl

theorem rawBody_leads {span : Span} (stream : Stream supply.coming)
    (failed : supply.rawBody span = (.error error, last)) : error.Leads supply.coming := by
  revert error last
  fun_induction rawBody supply span with
  | case1 supply span fault faulty =>
      intro error last failed
      obtain ⟨rfl, _⟩ : fault = error ∧ supply.next.2 = last := by simpa using failed
      have counts : supply.next.1.kind.isTrivia = false := by
        by_contra trivia
        rw [Token.fault?_eq_none.mpr (Kind.isFault_of_isTrivia (by simpa using trivia))] at faulty
        cases faulty
      rw [coming_next counts stream.ne_nil]
      exact .of_fault faulty
  | case2 supply span sound ends =>
      intro error last failed
      cases failed
  | case3 supply span sound inside skipped ih =>
      intro error last failed
      have passes := passes_next stream sound inside
      rw [passes.parts]
      exact (ih passes.stream failed).behind fun token member => (passes.plain token member).2
  | case4 supply span sound inside kept ih =>
      intro error last failed
      have passes := passes_next stream sound inside
      rw [passes.parts]
      exact (ih passes.stream failed).behind fun token member => (passes.plain token member).2

theorem block_leads {kind : BlockKind} {start : Token} (stream : Stream supply.coming)
    (failed : supply.block kind start = (.error error, last)) : error.Leads supply.coming := by
  unfold Supply.block at failed
  split at failed
  · unfold constantBlock at failed
    cases found : supply.constants with
    | mk result after =>
        cases result with
        | error fault =>
            obtain ⟨rfl, _⟩ : fault = error ∧ after = last := by simpa [found] using failed
            exact constants_leads stream found
        | ok declarations => simp [found] at failed
  · cases found : supply.rawBody start.span with
    | mk result after =>
        cases result with
        | error fault =>
            obtain ⟨rfl, _⟩ : fault = error ∧ after = last := by simpa [found] using failed
            exact rawBody_leads stream found
        | ok span => simp [found] at failed

theorem blocks_leads (stream : Stream supply.coming)
    (failed : supply.blocks = (.error error, last)) : error.Leads supply.coming := by
  revert error last
  fun_induction Supply.blocks supply with
  | case1 supply fault after taken =>
      intro error last failed
      obtain ⟨rfl, _⟩ : fault = error ∧ after = last := by simpa using failed
      exact nextChecked_leads stream taken
  | case2 supply token after taken atEnd =>
      intro error last failed
      cases failed
  | case3 supply token after taken unfinished outside =>
      intro error last failed
      obtain ⟨rfl, _⟩ : _ = error ∧ after = last := by simpa using failed
      exact .of_code rfl
  | case4 supply token after taken unfinished kind opens fault behind failure =>
      intro error last failed
      obtain ⟨rfl, _⟩ : fault = error ∧ behind = last := by simpa using failed
      obtain ⟨parts, sound, _⟩ := nextChecked_ok stream taken
      rw [parts] at stream ⊢
      exact (block_leads (stream.tail unfinished) failure).tail sound
  | case5 supply token after taken unfinished kind opens block behind found fault rest failure ih =>
      intro error last failed
      obtain ⟨rfl, _⟩ : fault = error ∧ rest = last := by simpa using failed
      obtain ⟨parts, sound, _⟩ := nextChecked_ok stream taken
      rw [parts] at stream ⊢
      obtain ⟨body, split, more, plain, _⟩ :=
        block_sound (stream.tail unfinished) (Kind.block?_eq_some.mp opens) found
      rw [split]
      exact ((ih more failure).behind plain).tail sound
  | case6 supply token after taken unfinished kind opens block behind found more rest done ih =>
      intro error last failed
      cases failed

end Supply

theorem Object.parse_firstFault {source : String} {object : Object}
    (parsed : Object.parse source = .ok object) :
    firstFault? (tokens source) = none := by
  obtain ⟨rest, read⟩ := Object.parse_ok parsed
  have stream : Stream (Supply.ofString source).coming := Stream.of_source source
  rw [← firstFault?_significant]
  exact firstFault?_eq_none.mpr (Supply.blocks_builds stream read).1

/-- An error at a token of the text has a report, unless the token stands too far to the
right. -/
theorem ParseError.exists_render_iff {source : String} (member : error.token ∈ tokens source)
    (filename : Option String) :
    (∃ text, error.diagnostic.render? source filename = some text) ↔
      error.token.column ≤ Text.widest := by
  have ordered : error.diagnostic.span.start ≤ error.diagnostic.span.stop :=
    ordered_of_mem_tokens member
  have column : (Location.ofOffset source.toList error.diagnostic.span.start).column =
      error.token.column + 1 := (location_of_mem_tokens member).2
  rw [Diagnostic.exists_render_iff, column, Nat.add_sub_cancel]
  exact and_iff_right ordered

theorem ParseError.render_eq_none_iff {source : String} (member : error.token ∈ tokens source)
    (filename : Option String) :
    error.diagnostic.render? source filename = none ↔ Text.widest < error.token.column := by
  rw [← Nat.not_le, ← exists_render_iff member filename, not_exists,
    Option.eq_none_iff_forall_ne_some]

/-! A text whose first fault stands as far to the right as one likes. -/

/-- A character that opens nothing, behind blanks. -/
def strayBehind (count : Nat) : String :=
  String.ofList (List.replicate count ' ' ++ ['?'])

theorem Position.advanceAll_blanks (position : Position) (count : Nat) :
    position.advanceAll (List.replicate count ' ') =
      ⟨position.offset + count, position.line, position.column + count⟩ := by
  induction count generalizing position with
  | zero => rfl
  | succ count ih =>
      have one : position.advance ' ' = ⟨position.offset + 1, position.line, position.column + 1⟩ :=
        rfl
      rw [List.replicate_succ, advanceAll_cons, ih, one]
      simp only [Nat.add_assoc, Nat.add_comm 1 count]

/-- The token of the character that opens nothing. -/
def strayToken (count : Nat) : Token :=
  ⟨.illegal, "?", .outside, 0, count, ⟨count, count + 1⟩⟩

/-- The token of the blanks. -/
def leadingBlanks (count : Nat) : Token :=
  ⟨.space, String.ofList (List.replicate count ' '), .outside, 0, 0, ⟨0, count⟩⟩

theorem step_strayBehind {count : Nat} (blank : 0 < count) :
    (Lexer.ofString (strayBehind count)).step =
      ⟨leadingBlanks count, List.replicate count ' ',
        ⟨⟨⟨count, 0, count⟩, ['?']⟩, .outside, .initial⟩⟩ := by
  obtain ⟨more, rfl⟩ := Nat.exists_eq_add_one.mpr blank
  have text : (Lexer.ofString (strayBehind (more + 1))).reader.rest =
      ' ' :: (List.replicate more ' ' ++ ['?']) := by
    rw [strayBehind, List.replicate_succ, List.cons_append]
    exact String.toList_ofList
  have run : Lexeme.Run Character.isSpace (List.replicate more ' ') ['?'] := by
    refine ⟨fun c member => ?_, by simp [Lexeme.Stops, Character.isSpace]⟩
    rw [List.eq_of_mem_replicate member]
    rfl
  have place : (Lexer.ofString (strayBehind (more + 1))).position.advanceAll
      (' ' :: List.replicate more ' ') = ⟨more + 1, 0, more + 1⟩ := by
    rw [← List.replicate_succ, Position.advanceAll_blanks]
    simp [Lexer.position, Lexer.ofString, Reader.ofString, Position.start]
  have ready : Layout.initial.Ready ' ' .initial := rfl
  have reads := Lexer.step_reads text (.blanks rfl run) ready
  simp only [place] at reads
  exact reads

theorem tokens_strayBehind {count : Nat} (blank : 0 < count) :
    ∃ rest, tokens (strayBehind count) = [leadingBlanks count] ++ strayToken count :: rest := by
  rw [tokens, steps, Lexer.steps_eq, step_strayBehind blank, if_neg Kind.noConfusion,
    Lexer.steps_eq]
  exact ⟨_, rfl⟩

theorem fault?_strayToken (count : Nat) :
    (strayToken count).fault? = some ⟨.illegal, strayToken count⟩ := by
  simp [Token.fault?, strayToken, Span.isEmpty]

namespace Command

/-- How the commands end at `token`, the first fault of a text, when the listing has
printed `lines`. -/
structure Stops (path source : String) (error : ParseError) (token : Token)
    (lines : List String) : Prop where
  reported : token.column ≤ Text.widest →
    ∃ text, error.diagnostic.render? source (some (displayName path)) = some text ∧
      listTokens path source = .ended 1 (String.join lines) text ∧
      printReindented path source = .ended 1 "" text
  brokenOff : Text.widest < token.column →
    error.diagnostic.render? source (some (displayName path)) = none ∧
      listTokens path source = .brokenOff (String.join lines) ∧
      printReindented path source = .brokenOff ""

/-- How the commands deal with one text. -/
structure Agree (path source : String) : Prop where
  refuses : (∃ error, reindent source = .error error) ↔
    ∃ token ∈ tokens source, token.kind.isFault = true
  faulty : ∀ error, reindent source = .error error →
    ∃ front token rest lines, tokens source = front ++ token :: rest ∧
      (∀ other ∈ front, other.kind.isFault = false) ∧ token.fault? = some error ∧
      Lists (front ++ [token]) lines ∧ Stops path source error token lines
  sound : ∀ text, reindent source = .ok text →
    ∃ lines, Lists (tokens source) lines ∧
      listTokens path source = .ended 0 (String.join lines) "" ∧
      printReindented path source = .ended 0 text ""
  parsed : ∀ object, Object.parse source = .ok object →
    (∃ text, reindent source = .ok text) ∧ (listTokens path source).code = 0
  misread : ∀ error, Object.parse source = .error error →
    error.diagnostic.code.text ∈ ["E001", "E010"] → reindent source = .error error

theorem refuses_iff (source : String) :
    (∃ error, reindent source = .error error) ↔
      ∃ token ∈ tokens source, token.kind.isFault = true := by
  constructor
  · rintro ⟨error, refused⟩
    by_contra sound
    have none : firstFault? (tokens source) = none :=
      firstFault?_eq_none.mpr fun token member => by
        by_contra faulty
        exact sound ⟨token, member, by simpa using faulty⟩
    rw [reindent_eq_error.mp refused] at none
    cases none
  · rintro ⟨token, member, faulty⟩
    cases fault : firstFault? (tokens source) with
    | some error => exact ⟨error, reindent_eq_error.mpr fault⟩
    | none =>
        rw [firstFault?_eq_none.mp fault token member] at faulty
        cases faulty

theorem listTokens_sound {path source : String} (sound : firstFault? (tokens source) = none) :
    ∃ lines, Lists (tokens source) lines ∧
      listTokens path source = .ended 0 (String.join lines) "" := by
  obtain ⟨lines, lists, listed⟩ := exists_listing (firstFault?_eq_none.mp sound)
  exact ⟨lines, lists, by rw [listTokens, listed]⟩

theorem stops_of_refused {source : String} (path : String)
    (parts : tokens source = front ++ token :: rest)
    (sound : ∀ other ∈ front, other.kind.isFault = false) (fault : token.fault? = some error) :
    ∃ lines, Lists (front ++ [token]) lines ∧ Stops path source error token lines := by
  obtain ⟨lines, lists, listed⟩ := exists_listing_fault sound fault rest
  have refused : reindent source = .error error :=
    reindent_eq_error.mpr (firstFault?_eq_some.mpr ⟨front, token, rest, parts, sound, fault⟩)
  have shown : listTokens path source = .ofError error path source (String.join lines) := by
    rw [listTokens, parts, listed]
  have printed : printReindented path source = .ofError error path source "" := by
    rw [printReindented, refused]
  obtain rfl := Token.fault?_token fault
  have member : error.token ∈ tokens source := by simp [parts]
  refine ⟨lines, lists, ⟨fun near => ?_, fun far => ?_⟩⟩
  · obtain ⟨text, rendered⟩ := (error.exists_render_iff member (some (displayName path))).mpr near
    refine ⟨text, rendered, ?_, ?_⟩
    · rw [shown, Outcome.ofError, rendered]
    · rw [printed, Outcome.ofError, rendered]
  · have missing := (error.render_eq_none_iff member (some (displayName path))).mpr far
    refine ⟨missing, ?_, ?_⟩
    · rw [shown, Outcome.ofError, missing]
    · rw [printed, Outcome.ofError, missing]

end Command

open Command in
/-- Reindenting and listing stop at the first fault of a text, and report it in
the same words unless it stands too far to the right for a report. What can be parsed
has no fault, and an error of parsing with the code of a fault is that one. -/
theorem commands_agree (path source : String) : Agree path source where
  refuses := refuses_iff source
  faulty := by
    intro error refused
    obtain ⟨front, token, rest, parts, sound, fault⟩ :=
      firstFault?_eq_some.mp (reindent_eq_error.mp refused)
    obtain ⟨lines, lists, stops⟩ := stops_of_refused path parts sound fault
    exact ⟨front, token, rest, lines, parts, sound, fault, lists, stops⟩
  sound := by
    intro text done
    obtain ⟨lines, lists, listed⟩ := listTokens_sound (exists_reindent_iff.mp ⟨text, done⟩)
    exact ⟨lines, lists, listed, by rw [printReindented, done]⟩
  parsed := by
    intro object parsed
    have sound := Object.parse_firstFault parsed
    obtain ⟨lines, _, listed⟩ := @listTokens_sound path source sound
    exact ⟨exists_reindent_iff.mpr sound, by rw [listed]; rfl⟩
  misread := by
    intro error failed lexical
    obtain ⟨rest, read⟩ := Object.parse_error failed
    have stream : Stream (Supply.ofString source).coming := Stream.of_source source
    have coded : error.cause.code.isLexical = true := by
      revert lexical
      change error.cause.code.text ∈ _ → _
      cases error.cause.code <;> decide
    rw [reindent_eq_error, ← firstFault?_significant]
    exact Supply.blocks_leads stream read coded

/-- The text is not reindented, but neither its listing nor its printing ends with exit
code 1. -/
theorem listing_breaks_off :
    (∃ error, reindent (strayBehind 65536) = .error error) ∧
      (Command.listTokens "input.spin" (strayBehind 65536)).code = 101 ∧
      (Command.printReindented "input.spin" (strayBehind 65536)).code = 101 := by
  obtain ⟨rest, parts⟩ := @tokens_strayBehind 65536 (by decide)
  have sound : ∀ other ∈ [leadingBlanks 65536], other.kind.isFault = false :=
    List.forall_mem_singleton.mpr rfl
  have fault := fault?_strayToken 65536
  have refused := reindent_eq_error.mpr (firstFault?_eq_some.mpr ⟨_, _, _, parts, sound, fault⟩)
  obtain ⟨lines, _, stops⟩ := Command.stops_of_refused "input.spin" parts sound fault
  obtain ⟨_, listed, printed⟩ := stops.brokenOff (by decide)
  refine ⟨⟨_, refused⟩, ?_, ?_⟩
  · rw [listed]
    rfl
  · rw [printed]
    rfl

end SpinBlocks
