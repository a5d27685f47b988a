import SpinBlocks.Proofs.FirstFault
import SpinBlocks.Proofs.Values

namespace SpinBlocks

/-! Reading stops at the first token that no object has there.

Whatever is asked for behind some tokens can be supplied, so they begin an
object. A token that is refused there begins none, and reading finds that out
without a look at what comes behind the token.
-/

variable {front rest : List Token} {token : Token} {demand : Demand} {error : ParseError}

/-! Nothing behind a refused token changes the refusal. -/

/-- A fault is refused for what it is, whatever is asked for. -/
theorem Refuses.eq_of_fault {other : ParseError} (refuses : Refuses demand token error)
    (fault : token.fault? = some other) : other = error := by
  have faulty : token.kind.isFault ≠ false := by
    intro sound
    rw [Token.fault?_eq_none.mpr sound] at fault
    cases fault
  cases refuses with
  | fault same => exact Option.some.inj (fault.symm.trans same)
  | noDigits number => exact absurd (by rw [number]; rfl) faulty
  | tooLarge number => exact absurd (by rw [number]; rfl) faulty
  | _ => contradiction

/-- Behind a whole block comes another one. -/
theorem Asks.headed (asks : Asks front demand) (nonempty : front ≠ []) :
    ∃ start body, front = start :: body ∧ start.kind.endsBlock = true := by
  cases asks with
  | block => contradiction
  | constants opens => exact ⟨_, _, rfl, by rw [opens]; rfl⟩
  | item unread opens => exact ⟨_, _, rfl, by rw [opens]; rfl⟩
  | behind forms =>
      obtain ⟨start, body, rfl, opens, _⟩ := forms.opens
      exact ⟨start, _, rfl, by rw [opens]; rfl⟩

namespace Supply

variable {supply : Supply}

/-- The next token that counts is either taken or is itself the error. -/
theorem nextChecked_cases (coming : supply.coming = token :: rest) :
    (∃ error after, token.fault? = some error ∧ supply.nextChecked = (.error error, after)) ∨
      ∃ after, token.fault? = none ∧ supply.nextChecked = (.ok token, after) ∧
        after.coming = rest := by
  cases fault : token.fault? with
  | some error =>
      have parts := supply.coming_nextSignificant (by simp [coming])
      rw [coming] at parts
      obtain ⟨same, _⟩ := List.cons.inj parts
      refine .inl ⟨error, supply.nextSignificant.2, rfl, ?_⟩
      rw [nextChecked, ← same, Token.checked, fault]
  | none =>
      obtain ⟨after, taken, behind, _⟩ :=
        nextChecked_of_coming coming (Token.fault?_eq_none.mp fault)
      exact .inr ⟨after, rfl, taken, behind⟩

theorem value_of_refuses {name : Token} (coming : supply.coming = token :: rest)
    (refuses : Refuses (.value name.text) token error) (numeric : token.Numeric) :
    ∃ after, supply.value name = (.error error, after) := by
  rcases nextChecked_cases coming with ⟨other, after, fault, failed⟩ | ⟨after, sound, taken, _⟩
  · obtain rfl := refuses.eq_of_fault fault
    exact ⟨after, by simp only [value, failed]⟩
  · refine ⟨after, ?_⟩
    cases refuses with
    | fault fault =>
        rw [sound] at fault
        cases fault
    | value _ other => simp [value, taken, other]
    | noDigits number empty =>
        have misread := (Literal.ofToken_error_iff numeric number).mpr (.inl ⟨empty, rfl⟩)
        simp only [value, taken, Kind.isNumber_iff.mpr ⟨_, number⟩, if_true, misread]
    | tooLarge number large =>
        have misread := (Literal.ofToken_error_iff numeric number).mpr (.inr ⟨large, rfl⟩)
        simp only [value, taken, Kind.isNumber_iff.mpr ⟨_, number⟩, if_true, misread]

theorem declaration_of_refuses (name : Token) (coming : supply.coming = token :: rest)
    (refuses : Refuses .assignment token error) :
    ∃ after, supply.declaration name = (.error error, after) := by
  rcases nextChecked_cases coming with ⟨other, after, fault, failed⟩ | ⟨after, sound, taken, _⟩
  · obtain rfl := refuses.eq_of_fault fault
    exact ⟨after, by simp only [declaration, expect, failed]⟩
  · refine ⟨after, ?_⟩
    cases refuses with
    | fault fault =>
        rw [sound] at fault
        cases fault
    | assignment _ other => simp only [declaration, expect, taken, other, if_false]

theorem declaration_of_value {name assign : Token} (coming : supply.coming = assign :: rest)
    (assigns : assign.kind = .operator .assign) :
    ∃ after : Supply, after.coming = rest ∧ supply.declaration name = after.value name := by
  obtain ⟨after, taken, behind, _⟩ := nextChecked_of_coming coming (by rw [assigns]; rfl)
  refine ⟨after, behind, ?_⟩
  simp only [declaration, expect, taken, assigns, if_true]

theorem constants_of_declaration {name : Token} {after last : Supply}
    (taken : supply.nextChecked = (.ok name, after)) (named : name.kind = .identifier)
    (failed : after.declaration name = (.error error, last)) :
    supply.constants = (.error error, last) := by
  have inside : name.kind.endsBlock = false := by rw [named]; rfl
  fun_cases constants supply <;> simp_all

theorem constants_of_constants {name : Token} {declared : Declaration} {after behind last : Supply}
    (taken : supply.nextChecked = (.ok name, after)) (named : name.kind = .identifier)
    (read : after.declaration name = (.ok declared, behind))
    (failed : behind.constants = (.error error, last)) :
    supply.constants = (.error error, last) := by
  have inside : name.kind.endsBlock = false := by rw [named]; rfl
  fun_cases constants supply <;> simp_all

theorem constants_of_refuses (expects : Expects front demand)
    (coming : supply.coming = front ++ token :: rest) (refuses : Refuses demand token error)
    (numeric : ∀ other ∈ front ++ [token], other.Numeric) :
    ∃ after, supply.constants = (.error error, after) := by
  induction expects generalizing supply with
  | name =>
      rcases nextChecked_cases coming with ⟨other, after, fault, failed⟩ | ⟨after, sound, taken, _⟩
      · obtain rfl := refuses.eq_of_fault fault
        refine ⟨after, ?_⟩
        fun_cases constants supply <;> simp_all
      · refine ⟨after, ?_⟩
        cases refuses with
        | fault fault =>
            rw [sound] at fault
            cases fault
        | name _ inside unnamed => fun_cases constants supply <;> simp_all
  | assignment named =>
      obtain ⟨after, taken, behind, _⟩ := nextChecked_of_coming coming (by rw [named]; rfl)
      obtain ⟨last, failed⟩ := declaration_of_refuses _ behind refuses
      exact ⟨last, constants_of_declaration taken named failed⟩
  | value named assigns =>
      obtain ⟨after, taken, behind, _⟩ := nextChecked_of_coming coming (by rw [named]; rfl)
      obtain ⟨last, more, same⟩ := declaration_of_value behind assigns
      obtain ⟨final, failed⟩ := value_of_refuses more refuses (numeric token (by simp))
      exact ⟨final, constants_of_declaration taken named (same.trans failed)⟩
  | @behind name assign number radix tokens demand named assigns counts more ih =>
      obtain ⟨after, taken, behind, _⟩ := nextChecked_of_coming coming (by rw [named]; rfl)
      obtain ⟨last, parts, read⟩ :=
        declaration_complete name behind assigns counts (numeric number (by simp))
      obtain ⟨final, failed⟩ := ih parts refuses fun other member => numeric other (by simp_all)
      exact ⟨final, constants_of_constants taken named read failed⟩

/-- A block that is not looked into is left at its first fault. -/
theorem rawBody_of_fault {body : List Token} (span : Span)
    (coming : supply.coming = body ++ token :: rest) (fault : token.fault? = some error)
    (plain : ∀ other ∈ body, other.kind.endsBlock = false ∧ other.kind.isFault = false) :
    ∃ after, supply.rawBody span = (.error error, after) := by
  have sound : token.kind.isFault ≠ false := by
    intro sound
    rw [Token.fault?_eq_none.mpr sound] at fault
    cases fault
  have counts : token.kind.isTrivia = false := by
    by_contra trivia
    exact sound (Kind.isFault_of_isTrivia (by simpa using trivia))
  revert body
  fun_induction rawBody supply span with
  | case1 supply span other found =>
      intro body coming plain
      rcases next_of_coming coming with ⟨_, same⟩ | ⟨fewer, rfl, _⟩
      · rw [same, fault] at found
        obtain rfl := Option.some.inj found
        exact ⟨_, rfl⟩
      · cases trivia : supply.next.1.kind.isTrivia with
        | true =>
            rw [Token.fault?_eq_none.mpr (Kind.isFault_of_isTrivia trivia)] at found
            cases found
        | false =>
            have plain := (plain supply.next.1 (by simp [significant, trivia])).2
            rw [Token.fault?_eq_none.mpr plain] at found
            cases found
  | case2 supply span missing ended =>
      intro body coming plain
      have closes := Kind.isTrivia_of_endsBlock ended
      rcases next_of_coming coming with ⟨_, same⟩ | ⟨fewer, rfl, _⟩
      · rw [same] at closes
        exact absurd closes.2 sound
      · rw [(plain supply.next.1 (by simp [significant, closes.1])).1] at ended
        cases ended
  | case3 supply span missing inside skipped ih =>
      intro body coming plain
      rcases next_of_coming coming with ⟨_, same⟩ | ⟨fewer, rfl, behind⟩
      · rw [same, fault] at missing
        cases missing
      · exact ih behind fun other member => plain other (by simp [member])
  | case4 supply span missing inside kept ih =>
      intro body coming plain
      rcases next_of_coming coming with ⟨_, same⟩ | ⟨fewer, rfl, behind⟩
      · rw [same, fault] at missing
        cases missing
      · exact ih behind fun other member => plain other (by simp [member])

theorem blocks_of_block {kind : BlockKind} {start : Token} {after last : Supply}
    (taken : supply.nextChecked = (.ok start, after)) (opens : start.kind = .keyword (.block kind))
    (failed : after.block kind start = (.error error, last)) :
    supply.blocks = (.error error, last) := by
  have found := Kind.block?_eq_some.mpr opens
  fun_cases Supply.blocks supply <;> simp_all

theorem blocks_of_blocks {kind : BlockKind} {start : Token} {block : Block}
    {after behind last : Supply} (taken : supply.nextChecked = (.ok start, after))
    (opens : start.kind = .keyword (.block kind))
    (read : after.block kind start = (.ok block, behind))
    (failed : behind.blocks = (.error error, last)) : supply.blocks = (.error error, last) := by
  have found := Kind.block?_eq_some.mpr opens
  fun_cases Supply.blocks supply <;> simp_all

/-- Reading fails with the error for which a token is refused, whatever comes behind
that token. -/
theorem blocks_of_refuses (asks : Asks front demand)
    (coming : supply.coming = front ++ token :: rest) (refuses : Refuses demand token error)
    (sound : ∀ other ∈ front, other.kind.isFault = false)
    (numeric : ∀ other ∈ front ++ [token], other.Numeric) :
    ∃ after, supply.blocks = (.error error, after) := by
  induction asks generalizing supply with
  | block =>
      rcases nextChecked_cases coming with ⟨other, after, fault, failed⟩ | ⟨after, plain, taken, _⟩
      · obtain rfl := refuses.eq_of_fault fault
        refine ⟨after, ?_⟩
        fun_cases Supply.blocks supply <;> simp_all
      · cases refuses with
        | fault fault =>
            rw [plain] at fault
            cases fault
        | block _ inside =>
            have outside : token.kind.block? = none := by
              simpa [Kind.isBlockKeyword] using (Kind.endsBlock_eq_false.mp inside).2
            have unfinished := (Kind.endsBlock_eq_false.mp inside).1
            refine ⟨after, ?_⟩
            fun_cases Supply.blocks supply <;> simp_all
  | @constants start body demand opens expects =>
      obtain ⟨after, taken, behind, _⟩ := nextChecked_of_coming coming (sound start (by simp))
      obtain ⟨last, failed⟩ := constants_of_refuses expects behind refuses
        fun other member => numeric other (by simp_all)
      refine ⟨last, blocks_of_block taken opens ?_⟩
      simp only [Supply.block, constantBlock, failed, dite_true]
  | @item start body kind unread opens inside =>
      obtain ⟨after, taken, behind, _⟩ := nextChecked_of_coming coming (sound start (by simp))
      cases refuses with
      | fault fault =>
          obtain ⟨last, failed⟩ := rawBody_of_fault start.span behind fault
            fun other member => ⟨inside other member, sound other (by simp [member])⟩
          refine ⟨last, blocks_of_block taken opens ?_⟩
          simp only [Supply.block, dif_neg unread, failed]
  | @behind part tokens block demand forms more nonempty ih =>
      obtain ⟨start, body, rfl, opens, _⟩ := forms.opens
      obtain ⟨stop, others, rfl, closes⟩ := more.headed nonempty
      rw [List.append_assoc, List.cons_append] at coming
      obtain ⟨after, taken, behind, _⟩ := nextChecked_of_coming coming (sound start (by simp))
      obtain ⟨last, remaining, read⟩ :=
        block_complete forms (fun other member => numeric other (by simp [member])) behind closes
          fun other member => sound other (by simp [member])
      obtain ⟨final, failed⟩ := ih (remaining.trans rfl) refuses
        (fun other member => sound other (List.mem_append_right _ member))
        (fun other member => numeric other (by simp_all))
      exact ⟨final, blocks_of_blocks taken opens read failed⟩

end Supply

/-- What is reported is just the refusal that the tokens of the text lead to. -/
theorem Object.parse_eq_error_iff {source : String} :
    Object.parse source = .error error ↔ Refused Asks (significant (tokens source)) error := by
  refine ⟨parse_refused, ?_⟩
  rintro ⟨front, token, rest, demand, parts, sound, asks, refuses⟩
  have coming : (Supply.ofString source).coming = front ++ token :: rest := parts
  have numeric : ∀ other ∈ front ++ [token], other.Numeric := by
    intro other member
    apply (Stream.of_source source).numeric
    rw [parts, List.append_cons]
    exact List.mem_append_left rest member
  obtain ⟨after, failed⟩ := Supply.blocks_of_refuses asks coming refuses sound numeric
  rw [Object.parse, failed]
  rfl

/-! Parsing looks at tokens alone, not at where they stand. -/

/-- What is read of a token: anything but its place. -/
def Token.face (token : Token) : Kind × String :=
  (token.kind, token.text)

theorem Token.face_eq {first second : Token} :
    first.face = second.face ↔ first.kind = second.kind ∧ first.text = second.text :=
  Prod.ext_iff

theorem Token.Numeric.alike {other : Token} (numeric : token.Numeric)
    (same : token.face = other.face) : other.Numeric := by
  obtain ⟨kind, text⟩ := Token.face_eq.mp same
  unfold Token.Numeric at *
  rwa [← kind, ← text]

/-- What holds of some tokens for their faces holds of those with the same faces. -/
theorem forall_alike {holds : Token → Prop} {row others : List Token}
    (same : others.map Token.face = row.map Token.face) (every : ∀ token ∈ row, holds token)
    (alike : ∀ first second : Token, first.face = second.face → holds first → holds second) :
    ∀ token ∈ others, holds token := by
  intro token member
  have among : token.face ∈ row.map Token.face := same ▸ List.mem_map_of_mem member
  obtain ⟨other, origin, face⟩ := List.mem_map.mp among
  exact alike other token face (every other origin)

theorem inside_alike {row others : List Token}
    (same : others.map Token.face = row.map Token.face)
    (inside : ∀ token ∈ row, token.kind.endsBlock = false) :
    ∀ token ∈ others, token.kind.endsBlock = false :=
  forall_alike same inside fun _ _ face plain => (Token.face_eq.mp face).1 ▸ plain

theorem Declares.alike {body others : List Token} {declarations : List Declaration}
    (declares : Declares body declarations) (same : others.map Token.face = body.map Token.face) :
    ∃ moved, Declares others moved := by
  induction declares generalizing others with
  | nil =>
      obtain rfl := List.map_eq_nil_iff.mp same
      exact ⟨[], .nil⟩
  | cons named assigns counts more ih =>
      obtain ⟨name, _, rfl, first, same⟩ := List.map_eq_cons_iff.mp same
      obtain ⟨assign, _, rfl, second, same⟩ := List.map_eq_cons_iff.mp same
      obtain ⟨number, _, rfl, third, same⟩ := List.map_eq_cons_iff.mp same
      obtain ⟨moved, declares⟩ := ih same
      obtain ⟨kind, text⟩ := Token.face_eq.mp third
      exact ⟨_, .cons ((Token.face_eq.mp first).1.trans named)
        ((Token.face_eq.mp second).1.trans assigns) (counts.congr kind text).1 declares⟩


theorem Forms.alike {part others : List Token} {block : Block} (forms : Forms part block)
    (same : others.map Token.face = part.map Token.face) : ∃ moved, Forms others moved := by
  cases forms with
  | constants opens declares =>
      obtain ⟨start, body, rfl, first, same⟩ := List.map_eq_cons_iff.mp same
      obtain ⟨moved, declares⟩ := declares.alike same
      exact ⟨_, .constants ((Token.face_eq.mp first).1.trans opens) declares⟩
  | raw unread opens inside =>
      obtain ⟨start, body, rfl, first, same⟩ := List.map_eq_cons_iff.mp same
      exact ⟨_, .raw unread ((Token.face_eq.mp first).1.trans opens) (inside_alike same inside)⟩

theorem Expects.alike {others : List Token} (expects : Expects front demand)
    (same : others.map Token.face = front.map Token.face) : Expects others demand := by
  induction expects generalizing others with
  | name =>
      obtain rfl := List.map_eq_nil_iff.mp same
      exact .name
  | assignment named =>
      obtain ⟨name, _, rfl, first, same⟩ := List.map_eq_cons_iff.mp same
      obtain rfl := List.map_eq_nil_iff.mp same
      exact .assignment ((Token.face_eq.mp first).1.trans named)
  | value named assigns =>
      obtain ⟨name, _, rfl, first, same⟩ := List.map_eq_cons_iff.mp same
      obtain ⟨assign, _, rfl, second, same⟩ := List.map_eq_cons_iff.mp same
      obtain rfl := List.map_eq_nil_iff.mp same
      obtain ⟨kind, text⟩ := Token.face_eq.mp first
      rw [← text]
      exact .value (kind.trans named) ((Token.face_eq.mp second).1.trans assigns)
  | behind named assigns counts more ih =>
      obtain ⟨name, _, rfl, first, same⟩ := List.map_eq_cons_iff.mp same
      obtain ⟨assign, _, rfl, second, same⟩ := List.map_eq_cons_iff.mp same
      obtain ⟨number, _, rfl, third, same⟩ := List.map_eq_cons_iff.mp same
      obtain ⟨kind, text⟩ := Token.face_eq.mp third
      exact .behind ((Token.face_eq.mp first).1.trans named)
        ((Token.face_eq.mp second).1.trans assigns) (counts.congr kind text).1 (ih same)

theorem Asks.alike {others : List Token} (asks : Asks front demand)
    (same : others.map Token.face = front.map Token.face) : Asks others demand := by
  induction asks generalizing others with
  | block =>
      obtain rfl := List.map_eq_nil_iff.mp same
      exact .block
  | constants opens expects =>
      obtain ⟨start, body, rfl, first, same⟩ := List.map_eq_cons_iff.mp same
      exact .constants ((Token.face_eq.mp first).1.trans opens) (expects.alike same)
  | item unread opens inside =>
      obtain ⟨start, body, rfl, first, same⟩ := List.map_eq_cons_iff.mp same
      exact .item unread ((Token.face_eq.mp first).1.trans opens) (inside_alike same inside)
  | behind forms more nonempty ih =>
      rw [List.map_append] at same
      obtain ⟨part, tokens, rfl, first, second⟩ := List.map_eq_append_iff.mp same
      obtain ⟨moved, forms⟩ := forms.alike first
      refine .behind forms (ih second) ?_
      rintro rfl
      exact nonempty (List.map_eq_nil_iff.mp second.symm)

theorem Refuses.alike {other : Token} (refuses : Refuses demand token error)
    (same : other.face = token.face) : ∃ moved, Refuses demand other moved := by
  obtain ⟨kind, text⟩ := Token.face_eq.mp same
  have digits : other.digits = token.digits := by rw [Token.digits, Token.digits, text]
  cases refuses with
  | fault fault =>
      cases found : other.fault? with
      | some moved => exact ⟨moved, .fault found⟩
      | none =>
          rw [Token.fault?_eq_none, kind, ← Token.fault?_eq_none, fault] at found
          cases found
  | block sound inside => exact ⟨_, .block (kind ▸ sound) (kind ▸ inside)⟩
  | name sound inside unnamed => exact ⟨_, .name (kind ▸ sound) (kind ▸ inside) (kind ▸ unnamed)⟩
  | assignment sound differs => exact ⟨_, .assignment (kind ▸ sound) (kind ▸ differs)⟩
  | value sound differs => exact ⟨_, .value (kind ▸ sound) (kind ▸ differs)⟩
  | noDigits number empty => exact ⟨_, .noDigits (kind.trans number) (digits.trans empty)⟩
  | tooLarge number large => exact ⟨_, .tooLarge (kind.trans number) (digits ▸ large)⟩

/-- Parsing takes the tokens, of which the last is their end, for an object. -/
def Accepted (tokens : List Token) : Prop :=
  ∃ row final, tokens = row ++ [final] ∧ ∃ atEnd : final.kind = .eof,
    ∃ blocks, (Supply.mk none tokens final atEnd).blocks.1 = .ok blocks

theorem accepted_tokens_iff {source : String} :
    Accepted (tokens source) ↔ ∃ object, Object.parse source = .ok object := by
  have last : (tokens source).getLast? = some (Supply.ofString source).final := by
    rw [tokens, List.getLast?_map, steps, List.getLast?_eq_some_getLast (Lexer.steps_ne_nil _)]
    rfl
  constructor
  · rintro ⟨row, final, parts, atEnd, blocks, read⟩
    obtain rfl : final = (Supply.ofString source).final := by simpa [parts] using last
    refine ⟨⟨blocks⟩, ?_⟩
    change (Supply.ofString source).blocks.1 = .ok blocks at read
    rw [Object.parse, read]
    rfl
  · rintro ⟨object, parsed⟩
    obtain ⟨rest, read⟩ := Object.parse_ok parsed
    obtain ⟨row, parts⟩ := List.getLast?_eq_some_iff.mp last
    exact ⟨row, _, parts, (Supply.ofString source).final_eof, object.blocks, congrArg Prod.fst read⟩

/-- No tokens are accepted that begin like those in front of a refused token and the
token itself. -/
theorem Accepted.not_begins {others : List Token} (accepted : Accepted others)
    (asks : Asks front demand) (refuses : Refuses demand token error)
    (sound : ∀ other ∈ front, other.kind.isFault = false)
    (numeric : ∀ other ∈ front ++ [token], other.Numeric) :
    ¬ (front ++ [token]).map Token.face <+: (significant others).map Token.face := by
  rintro ⟨more, same⟩
  obtain ⟨row, final, _, atEnd, blocks, read⟩ := accepted
  obtain ⟨begun, rest, parts, first, _⟩ := List.map_eq_append_iff.mp same.symm
  rw [List.map_append] at first
  obtain ⟨before, last, rfl, alike, face⟩ := List.map_eq_append_iff.mp first
  obtain ⟨other, _, rfl, like, empty⟩ := List.map_eq_cons_iff.mp face
  obtain rfl := List.map_eq_nil_iff.mp empty
  obtain ⟨moved, refuses⟩ := refuses.alike like
  have coming : (Supply.mk none others final atEnd).coming = before ++ other :: rest := by
    rw [List.append_cons]
    exact parts
  rw [← List.map_append] at first
  have numeric := forall_alike first numeric fun _ _ face holds => holds.alike face
  have sound : ∀ token ∈ before, token.kind.isFault = false :=
    forall_alike alike sound fun _ _ face plain => (Token.face_eq.mp face).1 ▸ plain
  obtain ⟨after, failed⟩ :=
    Supply.blocks_of_refuses (asks.alike alike) coming refuses sound numeric
  rw [failed] at read
  cases read

/-! Whatever is asked for can be supplied. -/

/-- Tokens with which a text can go on, and end, where it is asked to. -/
def Demand.answer : Demand → List Token
  | .assignment => [sign, number]
  | .value _ => [number]
  | _ => []
where
  sign : Token := ⟨.operator .assign, "=", .constants, 0, 0, ⟨0, 0⟩⟩
  number : Token := ⟨.number .decimal, "1", .constants, 0, 0, ⟨0, 0⟩⟩

theorem Demand.answer_fitting (demand : Demand) : ∀ token ∈ demand.answer,
    token.kind.isTrivia = false ∧ token.kind.isFault = false ∧ token.Numeric := by
  have sign : answer.sign.Numeric := by
    intro radix same
    cases same
  have number : answer.number.Numeric := by
    intro radix same
    cases same
    exact List.forall_mem_singleton.mpr rfl
  cases demand with
  | assignment =>
      exact List.forall_mem_cons.mpr ⟨⟨rfl, rfl, sign⟩, by simpa using ⟨rfl, rfl, number⟩⟩
  | value name => simpa [answer] using ⟨rfl, rfl, number⟩
  | _ => exact List.forall_mem_nil _

theorem Expects.completes (expects : Expects front demand) :
    ∃ declarations, Declares (front ++ demand.answer) declarations := by
  have counts : Demand.answer.number.Counts .decimal := by
    refine ⟨rfl, ?_, ?_⟩ <;> decide +kernel
  induction expects with
  | name => exact ⟨[], .nil⟩
  | assignment named => exact ⟨_, .cons named rfl counts .nil⟩
  | value named assigns => exact ⟨_, .cons named assigns counts .nil⟩
  | behind named assigns others more ih =>
      obtain ⟨declarations, declares⟩ := ih
      exact ⟨_, .cons named assigns others declares⟩

theorem Asks.completes (asks : Asks front demand) :
    ∃ blocks, Builds (front ++ demand.answer) blocks := by
  induction asks with
  | block => exact ⟨[], .nil⟩
  | @constants start body demand opens expects =>
      obtain ⟨declarations, declares⟩ := expects.completes
      have forms := Forms.constants opens declares
      exact ⟨_, by simpa using Builds.cons forms .nil⟩
  | item unread opens inside =>
      have forms := Forms.raw unread opens inside
      exact ⟨_, by simpa [Demand.answer] using Builds.cons forms .nil⟩
  | behind forms more nonempty ih =>
      obtain ⟨blocks, builds⟩ := ih
      rw [List.append_assoc]
      exact ⟨_, .cons forms builds⟩

theorem Builds.unfinished {row : List Token} {blocks : List Block} (builds : Builds row blocks) :
    ∀ token ∈ row, token.kind ≠ .eof := by
  induction builds with
  | nil => simp
  | cons forms more ih =>
      obtain ⟨start, body, rfl, opens, inside⟩ := forms.opens
      intro token member
      simp only [List.cons_append, List.mem_cons, List.mem_append] at member
      rcases member with rfl | member | member
      · rw [opens]
        exact Kind.noConfusion
      · exact (Kind.endsBlock_eq_false.mp (inside token member)).1
      · exact ih token member

/-- The tokens in front of a refused one begin an object. -/
theorem Asks.begins (asks : Asks front demand)
    (counts : ∀ other ∈ front, other.kind.isTrivia = false)
    (sound : ∀ other ∈ front, other.kind.isFault = false)
    (numeric : ∀ other ∈ front, other.Numeric) :
    ∃ more, Stream (front ++ more) ∧ Accepted (front ++ more) := by
  obtain ⟨blocks, builds⟩ := asks.completes
  let final : Token := ⟨.eof, "", .constants, 0, 0, ⟨0, 0⟩⟩
  have ends : final.Numeric := fun radix number => Kind.noConfusion number
  have every : ∀ other ∈ front ++ demand.answer, other.kind.isTrivia = false ∧
      other.kind.isFault = false ∧ other.Numeric :=
    List.forall_mem_append.mpr
      ⟨fun other member => ⟨counts other member, sound other member, numeric other member⟩,
        demand.answer_fitting⟩
  have coming : (Supply.mk none (front ++ demand.answer ++ [final]) final rfl).coming =
      front ++ demand.answer ++ [final] := by
    apply List.filter_eq_self.mpr
    intro other member
    change other ∈ front ++ demand.answer ++ [final] at member
    rcases List.mem_append.mp member with member | member
    · simp [(every other member).1]
    · rw [List.mem_singleton.mp member]
      rfl
  obtain ⟨after, read⟩ := Supply.blocks_of_builds builds
    (fun other member => (every other member).2.2) coming rfl
    fun other member => (every other member).2.1
  refine ⟨demand.answer ++ [final], ?_⟩
  rw [← List.append_assoc]
  constructor
  · refine ⟨?_, _, final, rfl, rfl, builds.unfinished⟩
    exact List.forall_mem_append.mpr
      ⟨fun other member => (every other member).2.2, List.forall_mem_singleton.mpr ends⟩
  · exact ⟨_, final, rfl, rfl, blocks, congrArg Prod.fst read⟩

theorem Expects.ne_block (expects : Expects front demand) : demand ≠ .block := by
  induction expects with
  | behind named assigns counts more ih => exact ih
  | _ => exact Demand.noConfusion

theorem Asks.eq_nil_of_block (asks : Asks front demand) (block : demand = .block) : front = [] := by
  induction asks with
  | block => rfl
  | constants opens expects => exact absurd block expects.ne_block
  | item => cases block
  | behind forms more nonempty ih => exact absurd (ih block) nonempty

/-- The code with which a token is refused: the fault that it is, or else what is
asked for in its place. -/
inductive Tells (token : Token) : Demand → String → Prop
  | illegal {demand : Demand} (illegal : token.kind = .illegal) : Tells token demand "E001"
  | unfinished {demand : Demand} (unfinished : token.kind = .unexpectedEof) :
      Tells token demand "E010"
  | block (sound : token.kind.isFault = false) : Tells token .block "E101"
  | name (sound : token.kind.isFault = false) : Tells token .name "E104"
  | assignment (sound : token.kind.isFault = false) : Tells token .assignment "E105"
  | value {name : String} (sound : token.kind.isFault = false)
      (other : token.kind.isNumber = false) : Tells token (.value name) "E106"
  | noDigits {name : String} {radix : Radix} (number : token.kind = .number radix)
      (empty : token.digits = []) : Tells token (.value name) "E020"
  | tooLarge {name : String} {radix : Radix} (number : token.kind = .number radix)
      (large : 2 ^ 32 ≤ Numeral.value radix.base token.digits) :
      Tells token (.value name) "E022"

theorem Refuses.tells (refuses : Refuses demand token error) :
    Tells token demand error.diagnostic.code.text := by
  cases refuses with
  | fault fault =>
      unfold Token.fault? at fault
      split at fault
      case h_1 kind => split at fault <;> cases fault <;> exact .illegal kind
      case h_2 kind => cases fault; exact .unfinished kind
      case h_3 => cases fault
  | block sound => exact .block sound
  | name sound => exact .name sound
  | assignment sound => exact .assignment sound
  | value sound other => exact .value sound other
  | noDigits number empty => exact .noDigits number empty
  | tooLarge number large => exact .tooLarge number large

theorem Refuses.token_eq (refuses : Refuses demand token error) : error.token = token := by
  cases refuses with
  | fault fault => exact Token.fault?_token fault
  | _ => rfl

/-- What an error of parsing tells about the token it is about and the tokens in
front of that. -/
structure Located (source : String) (error : ParseError) (front : List Token) (token : Token)
    (demand : Demand) : Prop where
  span : error.diagnostic.span = token.span
  faultless : ∀ other ∈ front, other.kind.isFault = false
  begins : ∃ more, Stream (front ++ more) ∧ Accepted (front ++ more)
  refused : ∀ others, Accepted others →
    ¬ (front ++ [token]).map Token.face <+: (significant others).map Token.face
  asks : Asks front demand
  outside : demand = .block ↔ front = []
  code : Tells token demand error.diagnostic.code.text
  ordered : token.span.start ≤ token.span.stop ∧ token.span.stop ≤ source.utf8ByteSize
  boundaries : (⟨token.span.start⟩ : String.Pos.Raw).IsValid source ∧
    (⟨token.span.stop⟩ : String.Pos.Raw).IsValid source
  rendered : ∀ filename, (∃ text, error.diagnostic.render? source filename = some text) ↔
    token.column ≤ Text.widest

/-- An error of parsing is about the first token that no object has in its place, and
its code tells what is wrong with the token there. -/
theorem parse_error_located {source : String} (failed : Object.parse source = .error error) :
    ∃ front token rest demand, significant (tokens source) = front ++ token :: rest ∧
      Located source error front token demand := by
  obtain ⟨front, token, rest, demand, parts, sound, asks, refuses⟩ := Object.parse_refused failed
  have stream := Stream.of_source source
  rw [parts, List.append_cons] at stream
  have numeric : ∀ other ∈ front ++ [token], other.Numeric := fun other member =>
    stream.numeric other (List.mem_append_left rest member)
  have counts : ∀ other ∈ front, other.kind.isTrivia = false := by
    intro other member
    have among : other ∈ significant (tokens source) := by simp [parts, member]
    simpa using (List.mem_filter.mp among).2
  have among : token ∈ significant (tokens source) := by simp [parts]
  have member : token ∈ tokens source := (List.mem_filter.mp among).1
  have span : error.diagnostic.span = token.span := by rw [← refuses.token_eq]; rfl
  have ordered := ordered_of_mem_tokens member
  obtain ⟨starts, stops, fits⟩ := boundaries_of_mem_tokens member
  have rendered : ∀ filename, (∃ text, error.diagnostic.render? source filename = some text) ↔
      token.column ≤ Text.widest := by
    rw [← refuses.token_eq] at member ⊢
    exact error.exists_render_iff member
  refine ⟨front, token, rest, demand, parts, ?_⟩
  exact
    { span
      faultless := sound
      begins := asks.begins counts sound fun other member => numeric other (by simp [member])
      refused := fun others accepted => accepted.not_begins asks refuses sound numeric
      asks
      outside := ⟨asks.eq_nil_of_block, asks.demand_of_nil⟩
      code := refuses.tells
      ordered := ⟨ordered, fits⟩
      boundaries := ⟨starts, stops⟩
      rendered }

/-- A value is due, and the text ends inside a string. -/
theorem parse_error_located_unfinished :
    let error : ParseError :=
      ⟨.unfinished, ⟨.unexpectedEof, "", .constants, 1, 8, ⟨14, 17⟩⟩⟩
    Object.parse "PUB f\nCON x = \"é" = .error error ∧
      ∃ front token rest demand,
        significant (tokens "PUB f\nCON x = \"é") = front ++ token :: rest ∧
          Located "PUB f\nCON x = \"é" error front token demand :=
  have failed : Object.parse "PUB f\nCON x = \"é" = .error _ := by decide +kernel
  ⟨failed, parse_error_located failed⟩

/-- An error without a report, whatever the file is called. -/
theorem parse_error_unshown :
    ∃ error, Object.parse (strayBehind 65536) = .error error ∧
      ∀ filename, error.diagnostic.render? (strayBehind 65536) filename = none := by
  obtain ⟨rest, parts⟩ := @tokens_strayBehind 65536 (by decide)
  have counts : significant (tokens (strayBehind 65536)) =
      [] ++ strayToken 65536 :: significant rest := by
    rw [parts]
    rfl
  have fault := fault?_strayToken 65536
  have refused : Refused Asks (significant (tokens (strayBehind 65536))) _ :=
    ⟨[], _, _, .block, counts, by simp, .block, .fault fault⟩
  refine ⟨_, Object.parse_eq_error_iff.mpr refused, fun filename => ?_⟩
  exact (ParseError.render_eq_none_iff (by simp [parts]) filename).mpr (by decide)

end SpinBlocks
