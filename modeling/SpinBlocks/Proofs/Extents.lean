import SpinBlocks.Proofs.LayoutFree

namespace SpinBlocks

/-! Where the blocks of a text stand.

The tokens of a text stand one behind the other. A block keyword opens a part of
them that lasts up to the next one, and the block is the stretch from the keyword
to the last token of its part that is neither trivia nor a mark of layout. So the
blocks stand in order as well, and between them there is nothing but trivia.
-/

namespace Lexer

theorem Transition.offset {lexer : Lexer} {step : Step} (transition : lexer.Transition step) :
    step.after.position.offset = lexer.position.offset + Bytes.size step.covered := by
  rw [transition.position, Position.advanceAll_offset]

theorem steps_ordered (lexer : Lexer) :
    (lexer.steps.map (·.token)).Pairwise (fun token next => token.span.stop ≤ next.span.start) ∧
      ∀ token ∈ lexer.steps.map (·.token), lexer.position.offset ≤ token.span.start := by
  fun_induction steps lexer with
  | case1 lexer next atEnd =>
      have span : next.token.span = _ := lexer.step_transition.span
      simp [span]
  | case2 lexer next unfinished ih =>
      obtain ⟨ordered, behind⟩ := ih
      have span : next.token.span = _ := lexer.step_transition.span
      have place : next.after.position.offset = _ := lexer.step_transition.offset
      rw [List.map_cons, List.pairwise_cons, List.forall_mem_cons, span]
      refine ⟨⟨behind, ordered⟩, Nat.le_refl _, ?_⟩
      intro token member
      have := behind token member
      omega

/-- Every byte of the text belongs to some token. -/
theorem exists_covering (lexer : Lexer) {offset : Nat} (behind : lexer.position.offset ≤ offset)
    (before : offset < lexer.position.offset + Bytes.size lexer.reader.rest) :
    ∃ step ∈ lexer.steps, step.token.span.start ≤ offset ∧ offset < step.token.span.stop := by
  fun_induction steps lexer with
  | case1 lexer next atEnd =>
      rw [lexer.step_transition.atEnd atEnd, Bytes.size_nil] at before
      omega
  | case2 lexer next unfinished ih =>
      have span : next.token.span = _ := lexer.step_transition.span
      have place : next.after.position.offset = lexer.position.offset + Bytes.size next.covered :=
        lexer.step_transition.offset
      have text : lexer.reader.rest = next.covered ++ next.after.reader.rest :=
        lexer.step_transition.text
      rw [text, Bytes.size_append] at before
      by_cases here : offset < next.after.position.offset
      · exact ⟨next, List.mem_cons_self, by rw [span]; exact ⟨behind, here⟩⟩
      · obtain ⟨step, member, covers⟩ := ih (by omega) (by omega)
        exact ⟨step, List.mem_cons_of_mem _ member, covers⟩

end Lexer

/-- The tokens stand one behind the other, and the only ones that cover nothing
are marks and faults. -/
structure Row (tokens : List Token) : Prop where
  ordered : tokens.Pairwise fun token next => token.span.stop ≤ next.span.start
  forward : ∀ token ∈ tokens, token.span.start ≤ token.span.stop
  empty : ∀ token ∈ tokens, token.span.isEmpty = true →
    token.kind.isMark = true ∨ token.kind.isFault = true

namespace Row

variable {tokens others : List Token} {token : Token}

theorem of_source (source : String) : Row (SpinBlocks.tokens source) where
  ordered := (Lexer.ofString source).steps_ordered.1
  forward := fun token member => ordered_of_mem_tokens member
  empty := by
    intro token member empty
    obtain ⟨step, among, rfl⟩ := List.mem_map.mp member
    rw [Lexer.isEmpty_span among, List.isEmpty_iff] at empty
    obtain ⟨_, reached, _, rfl⟩ := Lexer.mem_steps_reaches among
    rcases reached.step_transition.silent empty with mark | ⟨illegal, _⟩
    · simp only [List.mem_cons, List.not_mem_nil, or_false] at mark
      rcases mark with kind | kind | kind <;> exact .inl (by rw [kind]; rfl)
    · exact .inr (by rw [illegal]; rfl)

theorem sublist (row : Row others) (among : tokens.Sublist others) : Row tokens where
  ordered := row.ordered.sublist among
  forward := fun token member => row.forward token (among.subset member)
  empty := fun token member => row.empty token (among.subset member)

theorem tail (row : Row (token :: tokens)) : Row tokens :=
  row.sublist (List.sublist_cons_self token tokens)

theorem behind (row : Row (token :: tokens)) :
    ∀ other ∈ tokens, token.span.stop ≤ other.span.start :=
  (List.pairwise_cons.mp row.ordered).1

theorem start_lt_stop (row : Row tokens) (member : token ∈ tokens)
    (solid : token.span.isEmpty = false) : token.span.start < token.span.stop := by
  have forward := row.forward token member
  have other : token.span.start ≠ token.span.stop := by simpa [Span.isEmpty] using solid
  omega

theorem solid (row : Row tokens) (member : token ∈ tokens) (plain : token.kind.isMark = false)
    (sound : token.kind.isFault = false) : token.span.isEmpty = false := by
  by_contra empty
  rcases row.empty token member (by simpa using empty) with mark | fault
  · rw [plain] at mark
    cases mark
  · rw [sound] at fault
    cases fault

/-- No token stands behind the last one. -/
theorem stop_le_last (row : Row tokens) {last : Token} (ends : tokens.getLast? = some last)
    (member : token ∈ tokens) : token.span.stop ≤ last.span.stop := by
  obtain ⟨front, rfl⟩ := List.getLast?_eq_some_iff.mp ends
  rcases List.mem_append.mp member with member | member
  · have before := (List.pairwise_append.mp row.ordered).2.2 token member last (by simp)
    have forward := row.forward last (by simp)
    omega
  · rw [List.mem_singleton.mp member]

theorem first_le_start (row : Row (token :: tokens)) {other : Token}
    (member : other ∈ token :: tokens) : token.span.start ≤ other.span.start := by
  rcases List.mem_cons.mp member with rfl | member
  · exact Nat.le_refl _
  · have behind := row.behind other member
    have forward := row.forward token (by simp)
    omega

end Row

namespace Span

def Within (inner outer : Span) : Prop :=
  outer.start ≤ inner.start ∧ inner.stop ≤ outer.stop

theorem Within.trans {inner middle outer : Span} (first : inner.Within middle)
    (second : middle.Within outer) : inner.Within outer :=
  ⟨Nat.le_trans second.1 first.1, Nat.le_trans first.2 second.2⟩

theorem within_mergeAll {span other : Span} {spans : List Span} (member : other ∈ span :: spans) :
    other.Within (span.mergeAll spans) := by
  induction spans generalizing span other with
  | nil =>
      obtain rfl := List.mem_singleton.mp member
      exact ⟨Nat.le_refl _, Nat.le_refl _⟩
  | cons next spans ih =>
      have merged : (span.merge next).Within (span.mergeAll (next :: spans)) :=
        ih List.mem_cons_self
      rcases List.mem_cons.mp member with rfl | member
      · exact Within.trans ⟨Nat.min_le_left _ _, Nat.le_max_left _ _⟩ merged
      · rcases List.mem_cons.mp member with rfl | member
        · exact Within.trans ⟨Nat.min_le_right _ _, Nat.le_max_right _ _⟩ merged
        · exact ih (List.mem_cons_of_mem _ member)

/-- Spans that stand in order are covered from the first start to the last stop. -/
theorem mergeAll_eq {span : Span} {spans : List Span}
    (ordered : (span :: spans).Pairwise fun first second => first.stop ≤ second.start)
    (forward : ∀ other ∈ span :: spans, other.start ≤ other.stop) :
    span.mergeAll spans = ⟨span.start, (spans.map (·.stop)).getLastD span.stop⟩ := by
  induction spans generalizing span with
  | nil => rfl
  | cons next spans ih =>
      obtain ⟨behind, more⟩ := List.pairwise_cons.mp ordered
      have first := behind next (by simp)
      have here := forward span (by simp)
      have there := forward next (by simp)
      have merged : span.merge next = ⟨span.start, next.stop⟩ := by
        rw [merge, Nat.min_eq_left (by omega), Nat.max_eq_right (by omega)]
      have chained : (⟨span.start, next.stop⟩ :: spans : List Span).Pairwise
          fun first second => first.stop ≤ second.start :=
        List.pairwise_cons.mpr (List.pairwise_cons.mp more)
      have turned : ∀ other ∈ (⟨span.start, next.stop⟩ :: spans : List Span),
          other.start ≤ other.stop :=
        List.forall_mem_cons.mpr
          ⟨by simp only; omega, fun other member => forward other (by simp [member])⟩
      rw [mergeAll, List.foldl_cons, merged, List.map_cons, List.getLastD_cons]
      exact ih chained turned

end Span

namespace Declares

variable {body : List Token} {declarations : List Declaration}

theorem isMark (declares : Declares body declarations) :
    ∀ token ∈ body, token.kind.isMark = false := by
  induction declares with
  | nil => simp
  | cons named assigns counts more ih =>
      intro token member
      simp only [List.mem_cons] at member
      rcases member with rfl | rfl | rfl | member
      · rw [named]; rfl
      · rw [assigns]; rfl
      · rw [counts.1]; rfl
      · exact ih token member

theorem solid (declares : Declares body declarations) (row : Row body) :
    ∀ token ∈ body, token.span.isEmpty = false := fun token member =>
  row.solid member (declares.isMark token member) (declares.plain token member).2

theorem merge_eq {name assign number : Token} {tokens : List Token}
    (row : Row (name :: assign :: number :: tokens)) :
    name.span.merge number.span = ⟨name.span.start, number.span.stop⟩ := by
  have behind := row.behind number (by simp)
  have first := row.forward name (by simp)
  have last := row.forward number (by simp)
  rw [Span.merge, Nat.min_eq_left (by omega), Nat.max_eq_right (by omega)]

/-- A declaration stands from one of the tokens to another. -/
theorem ends (declares : Declares body declarations) (row : Row body) :
    ∀ declared ∈ declarations, declared.span.start < declared.span.stop ∧
      ∃ first ∈ body, ∃ last ∈ body, declared.span = ⟨first.span.start, last.span.stop⟩ := by
  induction declares with
  | nil => simp
  | @cons name assign number radix tokens declarations named assigns counts more ih =>
      intro declared member
      rcases List.mem_cons.mp member with rfl | member
      · have merged := merge_eq row
        have behind := row.behind number (by simp)
        have solid := (Declares.cons named assigns counts more).solid row
        have first := row.start_lt_stop List.mem_cons_self (solid name (by simp))
        have last := row.forward number (by simp)
        refine ⟨?_, name, by simp, number, by simp, merged⟩
        rw [merged]
        simp only
        omega
      · obtain ⟨solid, first, opens, last, closes, span⟩ := ih row.tail.tail.tail declared member
        exact ⟨solid, first, by simp [opens], last, by simp [closes], span⟩

theorem ordered (declares : Declares body declarations) (row : Row body) :
    declarations.Pairwise fun declared next => declared.span.stop ≤ next.span.start := by
  induction declares with
  | nil => exact .nil
  | @cons name assign number radix tokens declarations named assigns counts more ih =>
      have rest := row.tail.tail.tail
      refine .cons ?_ (ih rest)
      intro next member
      obtain ⟨_, first, opens, last, _, span⟩ := more.ends rest next member
      rw [span, merge_eq row]
      exact row.tail.tail.behind first opens

/-- The last declaration ends where the last token does. -/
theorem getLastD_stop (declares : Declares body declarations) (row : Row body) (default : Nat) :
    ((declarations.map (·.span)).map (·.stop)).getLastD default =
      (body.map (·.span.stop)).getLastD default := by
  induction declares generalizing default with
  | nil => rfl
  | @cons name assign number radix tokens declarations named assigns counts more ih =>
      simp only [List.map_cons, List.getLastD_cons, merge_eq row]
      exact ih row.tail.tail.tail _

end Declares

/-- The tokens that are neither trivia nor cover nothing. -/
def contents (tokens : List Token) : List Token :=
  (significant tokens).filter fun token => !token.span.isEmpty

/-- A block stands from its keyword to the last of the tokens that are not
empty. -/
theorem Forms.span {start : Token} {body : List Token} {block : Block}
    (forms : Forms (start :: body) block) (row : Row (start :: body)) :
    block.span = ⟨start.span.start,
      ((body.filter fun token => !token.span.isEmpty).map (·.span.stop)).getLastD
        start.span.stop⟩ := by
  cases forms with
  | @constants _ _ declarations opens declares =>
      have rest := row.tail
      have ends := declares.ends rest
      have ordered : (start.span :: declarations.map (·.span)).Pairwise
          fun first second => first.stop ≤ second.start := by
        refine List.pairwise_cons.mpr ⟨?_, List.pairwise_map.mpr (declares.ordered rest)⟩
        intro span member
        obtain ⟨declared, among, rfl⟩ := List.mem_map.mp member
        obtain ⟨_, first, opens, last, _, span⟩ := ends declared among
        rw [span]
        exact row.behind first opens
      have forward : ∀ span ∈ start.span :: declarations.map (·.span), span.start ≤ span.stop := by
        refine List.forall_mem_cons.mpr ⟨row.forward start (by simp), ?_⟩
        intro span member
        obtain ⟨declared, among, rfl⟩ := List.mem_map.mp member
        exact Nat.le_of_lt (ends declared among).1
      have whole : (body.filter fun token => !token.span.isEmpty) = body :=
        List.filter_eq_self.mpr fun token member => by simp [declares.solid rest token member]
      rw [Block.span, Span.mergeAll_eq ordered forward, declares.getLastD_stop rest, whole]
  | raw unread opens inside =>
      have kept : Row (start :: body.filter fun token => !token.span.isEmpty) :=
        row.sublist (List.filter_sublist.cons_cons start)
      have spans : start.span :: solidSpans body =
          (start :: body.filter fun token => !token.span.isEmpty).map (·.span) := rfl
      have ordered : (start.span :: solidSpans body).Pairwise
          fun first second => first.stop ≤ second.start := by
        rw [spans]
        exact List.pairwise_map.mpr kept.ordered
      have forward : ∀ span ∈ start.span :: solidSpans body, span.start ≤ span.stop := by
        rw [spans]
        exact List.forall_mem_map.mpr kept.forward
      rw [Block.span, Span.mergeAll_eq ordered forward, solidSpans, List.map_map]
      rfl

/-- The block stands from the keyword that opens `part` to the end of the last
token in it that is neither trivia nor empty. -/
def Occupies (part : List Token) (block : Block) : Prop :=
  ∃ keyword body last, part = keyword :: body ∧ keyword.kind = .keyword (.block block.kind) ∧
    (∀ token ∈ body, token.kind.endsBlock = false) ∧ (contents part).getLast? = some last ∧
    block.span = ⟨keyword.span.start, last.span.stop⟩

theorem getLast?_map_stop (tokens : List Token) (token : Token) :
    ∃ last, (token :: tokens).getLast? = some last ∧
      last.span.stop = (tokens.map (·.span.stop)).getLastD token.span.stop := by
  induction tokens generalizing token with
  | nil => exact ⟨token, rfl, rfl⟩
  | cons next tokens ih =>
      obtain ⟨last, ends, stop⟩ := ih next
      refine ⟨last, by rw [List.getLast?_cons_cons, ends], ?_⟩
      rw [stop, List.map_cons, List.getLastD_cons]

theorem Forms.occupies {part : List Token} {block : Block} (forms : Forms (significant part) block)
    (row : Row part) {keyword : Token} {body : List Token} (parts : part = keyword :: body)
    (counts : keyword.kind.isTrivia = false) : Occupies part block := by
  subst parts
  have split : significant (keyword :: body) = keyword :: significant body := by
    simp [significant, counts]
  have row : Row (significant (keyword :: body)) := row.sublist List.filter_sublist
  obtain ⟨start, rest, same, opens, inside⟩ := forms.opens
  rw [split] at forms same row
  obtain ⟨rfl, rfl⟩ := List.cons.inj same
  have solid : keyword.span.isEmpty = false :=
    row.solid List.mem_cons_self (by rw [opens]; rfl) (by rw [opens]; rfl)
  obtain ⟨last, ends, stop⟩ :=
    getLast?_map_stop ((significant body).filter fun token => !token.span.isEmpty) keyword
  refine ⟨keyword, body, last, rfl, opens, ?_, ?_, ?_⟩
  · intro token member
    cases trivia : token.kind.isTrivia with
    | true =>
        by_contra ends
        rw [(Kind.isTrivia_of_endsBlock (by simpa using ends)).1] at trivia
        cases trivia
    | false => exact inside token (List.mem_filter.mpr ⟨member, by simp [trivia]⟩)
  · rw [contents, split, List.filter_cons_of_pos (by simp [solid]), ends]
  · rw [forms.span row, stop]

/-- The parts of a row of tokens, and the block that each of them forms. -/
def Parts (parts : List (List Token)) (blocks : List Block) : Prop :=
  List.Forall₂ (fun part block => Forms (significant part) block ∧ Occupies part block)
    parts blocks

/-- A row of tokens falls into the parts that its blocks take, with the trivia
behind each of them, and the trivia in front of all. -/
theorem Builds.parts {tokens front : List Token} {blocks : List Block}
    (builds : Builds front blocks) (same : significant tokens = front) (row : Row tokens) :
    ∃ lead parts, tokens = lead ++ parts.flatten ∧ (∀ token ∈ lead, token.kind.isTrivia = true) ∧
      Parts parts blocks := by
  induction builds generalizing tokens with
  | nil =>
      refine ⟨tokens, [], by simp, ?_, .nil⟩
      intro token member
      simpa using List.filter_eq_nil_iff.mp same token member
  | @cons part rest block blocks forms more ih =>
      obtain ⟨inner, outer, rfl, rfl, behind⟩ := List.filter_eq_append_iff.mp same
      obtain ⟨lead, parts, rfl, blank, formed⟩ :=
        ih behind (row.sublist (List.sublist_append_right _ _))
      obtain ⟨start, body, split, opens, _⟩ := forms.opens
      obtain ⟨before, inside, rfl, skipped, _, _⟩ := List.filter_eq_cons_iff.mp split
      have counts : start.kind.isTrivia = false := by rw [opens]; rfl
      have idle : significant lead = [] :=
        List.filter_eq_nil_iff.mpr fun token member => by simp [blank token member]
      have none : significant before = [] :=
        List.filter_eq_nil_iff.mpr fun token member => by simpa using skipped token member
      have whole : significant (start :: (inside ++ lead)) =
          significant (before ++ start :: inside) := by
        unfold significant at idle none ⊢
        rw [← List.cons_append, List.filter_append, List.filter_append, idle, none,
          List.append_nil, List.nil_append]
      have split : before ++ start :: inside ++ (lead ++ parts.flatten) =
          before ++ (start :: (inside ++ lead)) ++ parts.flatten := by simp
      have taken : Row (start :: (inside ++ lead)) := by
        rw [split] at row
        exact row.sublist (List.infix_append before _ parts.flatten).sublist
      have forms : Forms (significant (start :: (inside ++ lead))) block := by
        rw [whole]
        exact forms
      refine ⟨before, (start :: (inside ++ lead)) :: parts, by simp, ?_,
        .cons ⟨forms, forms.occupies taken rfl counts⟩ formed⟩
      intro token member
      simpa using skipped token member

theorem mem_contents {tokens : List Token} {token : Token} :
    token ∈ contents tokens ↔
      token ∈ tokens ∧ token.kind.isTrivia = false ∧ token.span.isEmpty = false := by
  simp [contents, significant, and_comm]

namespace Occupies

variable {part : List Token} {block : Block}

theorem within (occupies : Occupies part block) (row : Row part) {token : Token}
    (member : token ∈ contents part) : token.span.Within block.span := by
  obtain ⟨keyword, body, last, rfl, _, _, ends, span⟩ := occupies
  have kept : Row (contents (keyword :: body)) :=
    row.sublist (List.filter_sublist.trans List.filter_sublist)
  rw [span]
  exact ⟨row.first_le_start (mem_contents.mp member).1, kept.stop_le_last ends member⟩

theorem start_lt_stop (occupies : Occupies part block) (row : Row part) :
    block.span.start < block.span.stop := by
  obtain ⟨keyword, body, _, rfl, opens, _⟩ := id occupies
  have solid : keyword.span.isEmpty = false :=
    row.solid List.mem_cons_self (by rw [opens]; rfl) (by rw [opens]; rfl)
  have inside := occupies.within row
    (mem_contents.mpr ⟨List.mem_cons_self, by rw [opens]; rfl, solid⟩)
  have forward := row.start_lt_stop List.mem_cons_self solid
  exact Nat.lt_of_le_of_lt inside.1 (Nat.lt_of_lt_of_le forward inside.2)

/-- The block begins and ends with tokens of its part. -/
theorem ends (occupies : Occupies part block) :
    ∃ first ∈ part, ∃ last ∈ part, block.span = ⟨first.span.start, last.span.stop⟩ := by
  obtain ⟨keyword, body, last, rfl, _, _, ends, span⟩ := occupies
  exact ⟨keyword, by simp, last, (mem_contents.mp (List.mem_of_getLast? ends)).1, span⟩

end Occupies

theorem exists_of_mem {α β : Type} {related : α → β → Prop} {items : List α} {others : List β}
    (pairs : List.Forall₂ related items others) :
    ∀ item ∈ items, ∃ other ∈ others, related item other := by
  induction pairs with
  | nil => simp
  | cons here more ih =>
      intro item member
      rcases List.mem_cons.mp member with rfl | member
      · exact ⟨_, List.mem_cons_self, here⟩
      · obtain ⟨other, among, there⟩ := ih item member
        exact ⟨other, List.mem_cons_of_mem _ among, there⟩

namespace Parts

variable {parts : List (List Token)} {blocks : List Block}

theorem exists_part (formed : Parts parts blocks) {block : Block} (member : block ∈ blocks) :
    ∃ part ∈ parts, Forms (significant part) block ∧ Occupies part block :=
  exists_of_mem (List.Forall₂.flip formed) block member

theorem exists_block (formed : Parts parts blocks) {part : List Token} (member : part ∈ parts) :
    ∃ block ∈ blocks, Forms (significant part) block ∧ Occupies part block :=
  exists_of_mem formed part member

theorem ordered (formed : Parts parts blocks) (row : Row parts.flatten) :
    blocks.Pairwise fun block next => block.span.stop ≤ next.span.start := by
  induction formed with
  | nil => exact .nil
  | @cons part block parts blocks here more ih =>
      rw [List.flatten_cons] at row
      refine .cons ?_ (ih (row.sublist (List.sublist_append_right _ _)))
      intro next member
      obtain ⟨other, among, _, there⟩ := exists_part more member
      obtain ⟨_, _, last, closes, span⟩ := here.2.ends
      obtain ⟨first, opens, _, _, beyond⟩ := there.ends
      rw [span, beyond]
      exact (List.pairwise_append.mp row.ordered).2.2 last closes first
        (List.mem_flatten_of_mem among opens)

theorem row_of_mem (row : Row parts.flatten) {part : List Token} (member : part ∈ parts) :
    Row part :=
  row.sublist (List.sublist_flatten_of_mem member)

/-- No two blocks share a token that covers anything. -/
theorem unique {token : Token} (formed : Parts parts blocks) (row : Row parts.flatten)
    (solid : token.span.start < token.span.stop) {first second : Fin blocks.length}
    (within : token.span.Within (blocks.get first).span)
    (also : token.span.Within (blocks.get second).span) : first = second := by
  have ordered := List.pairwise_iff_get.mp (formed.ordered row)
  have apart {first second : Fin blocks.length} (before : first < second)
      (within : token.span.Within (blocks.get first).span)
      (also : token.span.Within (blocks.get second).span) : False := by
    have := ordered first second before
    have := within.2
    have := also.1
    omega
  rcases Nat.lt_trichotomy first second with before | same | behind
  · exact (apart before within also).elim
  · exact Fin.ext same
  · exact (apart behind also within).elim

end Parts

namespace Forms

variable {part : List Token} {block : Block}

theorem declared_within (forms : Forms part block) (row : Row part) :
    ∀ declared ∈ block.declarations,
      declared.span.Within block.span ∧ declared.span.start < declared.span.stop := by
  cases forms with
  | constants opens declares =>
      intro declared member
      refine ⟨Span.within_mergeAll (List.mem_cons_of_mem _ ?_),
        (declares.ends row.tail declared member).1⟩
      exact List.mem_map_of_mem member
  | raw unread opens inside => exact fun _ => nofun

theorem declared_ordered (forms : Forms part block) (row : Row part) :
    block.declarations.Pairwise fun declared next => declared.span.stop ≤ next.span.start := by
  cases forms with
  | constants opens declares => exact declares.ordered row.tail
  | raw unread opens inside => exact .nil

end Forms

theorem isEmpty_of_eof {source : String} {token : Token} (member : token ∈ tokens source)
    (atEnd : token.kind = .eof) : token.span.isEmpty = true := by
  obtain ⟨step, among, rfl⟩ := List.mem_map.mp member
  rw [Lexer.isEmpty_span among]
  obtain ⟨_, reached, _, rfl⟩ := Lexer.mem_steps_reaches among
  have text := reached.step_transition.text
  rw [reached.step_transition.atEnd atEnd] at text
  rw [(List.append_eq_nil_iff.mp text.symm).1]
  rfl

/-- The tokens of a text that can be parsed: trivia, then the parts of its
blocks, then the end. -/
theorem Object.parse_parts {source : String} {object : Object}
    (parsed : Object.parse source = .ok object) :
    ∃ lead parts final, tokens source = lead ++ (parts.flatten ++ [final]) ∧ final.kind = .eof ∧
      (∀ token ∈ lead, token.kind.isTrivia = true) ∧ Parts parts object.blocks := by
  obtain ⟨rest, read⟩ := Object.parse_ok parsed
  have stream : Stream (Supply.ofString source).coming := Stream.of_source source
  obtain ⟨_, front, last, split, atEnd, builds⟩ := Supply.blocks_builds stream read
  obtain ⟨run, step, steps, finished, _⟩ := (Lexer.ofString source).steps_end
  have whole : tokens source = run.map (·.token) ++ [step.token] := by
    simp [tokens, SpinBlocks.steps, steps]
  have counted : significant (tokens source) = significant (run.map (·.token)) ++ [step.token] := by
    simp [whole, significant, finished, Kind.isTrivia]
  obtain ⟨same, _⟩ := List.append_inj' (counted.symm.trans split) rfl
  have row : Row (run.map (·.token)) :=
    (Row.of_source source).sublist (whole ▸ List.sublist_append_left _ _)
  obtain ⟨lead, parts, cut, blank, formed⟩ := builds.parts same row
  exact ⟨lead, parts, step.token, by rw [whole, cut, List.append_assoc], finished, blank, formed⟩

theorem Parts.within_block {source : String} {lead : List Token} {parts : List (List Token)}
    {final token : Token} {blocks : List Block} (formed : Parts parts blocks)
    (cut : tokens source = lead ++ (parts.flatten ++ [final])) (atEnd : final.kind = .eof)
    (blank : ∀ token ∈ lead, token.kind.isTrivia = true) (row : Row parts.flatten)
    (member : token ∈ contents (tokens source)) :
    ∃ block ∈ blocks, token.span.Within block.span := by
  obtain ⟨among, counts, solid⟩ := mem_contents.mp member
  have inside : token ∈ parts.flatten := by
    rw [cut, List.mem_append, List.mem_append, List.mem_singleton] at among
    rcases among with before | inside | rfl
    · rw [blank token before] at counts
      cases counts
    · exact inside
    · rw [isEmpty_of_eof (by rw [cut]; simp) atEnd] at solid
      cases solid
  obtain ⟨part, taken, held⟩ := List.mem_flatten.mp inside
  obtain ⟨block, present, _, occupies⟩ := formed.exists_block taken
  exact ⟨block, present,
    occupies.within (row_of_mem row taken) (mem_contents.mpr ⟨held, counts, solid⟩)⟩

/-- A byte that is in no block belongs to trivia, since every other token that
covers a byte lies within a block. -/
theorem exists_trivia {source : String} {blocks : List Block} {offset : Nat}
    (inside : offset < source.utf8ByteSize)
    (within : ∀ token ∈ contents (tokens source), ∃ block ∈ blocks, token.span.Within block.span)
    (outside : ∀ block ∈ blocks, ¬ (block.span.start ≤ offset ∧ offset < block.span.stop)) :
    ∃ token ∈ tokens source, token.kind.isTrivia = true ∧
      token.span.start ≤ offset ∧ offset < token.span.stop := by
  have size : Bytes.size source.toList = source.utf8ByteSize := by
    rw [← Bytes.utf8ByteSize_ofList, String.ofList_toList]
  have start : (Lexer.ofString source).position.offset = 0 := rfl
  obtain ⟨step, member, opens, closes⟩ :=
    (Lexer.ofString source).exists_covering (Nat.zero_le offset) (by
      rw [start, Nat.zero_add]
      exact size ▸ inside)
  have among : step.token ∈ tokens source := List.mem_map_of_mem member
  refine ⟨step.token, among, ?_, opens, closes⟩
  by_contra counts
  have solid : step.token.span.isEmpty = false := by
    simp only [Span.isEmpty, beq_eq_false_iff_ne]
    omega
  obtain ⟨block, present, around⟩ :=
    within step.token (mem_contents.mpr ⟨among, by simpa using counts, solid⟩)
  exact outside block present
    ⟨Nat.le_trans around.1 opens, Nat.lt_of_lt_of_le closes around.2⟩

/-- How the blocks of a text share it among them. -/
structure Partition (source : String) (blocks : List Block) : Prop where
  parts : ∃ lead parts final, tokens source = lead ++ (parts.flatten ++ [final]) ∧
    final.kind = .eof ∧ (∀ token ∈ lead, token.kind.isTrivia = true) ∧
    List.Forall₂ Occupies parts blocks
  solid : ∀ block ∈ blocks, block.span.start < block.span.stop
  ordered : blocks.Pairwise fun block next => block.span.stop ≤ next.span.start
  contents : ∀ token ∈ contents (tokens source),
    ∃! index : Fin blocks.length, token.span.Within (blocks.get index).span
  declared : ∀ block ∈ blocks, ∀ declared ∈ block.declarations,
    declared.span.Within block.span ∧ declared.span.start < declared.span.stop
  declaredOrdered : (blocks.flatMap (·.declarations)).Pairwise
    fun declared next => declared.span.stop ≤ next.span.start
  trivia : ∀ offset < source.utf8ByteSize,
    (∀ block ∈ blocks, ¬ (block.span.start ≤ offset ∧ offset < block.span.stop)) →
    ∃ token ∈ tokens source, token.kind.isTrivia = true ∧
      token.span.start ≤ offset ∧ offset < token.span.stop

/-- The blocks of a text stand in order, each from its keyword to the last token
before the next block that is neither trivia nor empty. They share all such
tokens among them, and leave out nothing but trivia. -/
theorem blocks_partition {source : String} {object : Object}
    (parsed : Object.parse source = .ok object) : Partition source object.blocks := by
  obtain ⟨lead, parts, final, cut, atEnd, blank, formed⟩ := Object.parse_parts parsed
  have row : Row parts.flatten := by
    have whole := Row.of_source source
    rw [cut] at whole
    exact whole.sublist ((List.sublist_append_left _ _).trans (List.sublist_append_right _ _))
  have counted {part : List Token} (member : part ∈ parts) : Row (significant part) :=
    (Parts.row_of_mem row member).sublist List.filter_sublist
  have within : ∀ token ∈ contents (tokens source),
      ∃ block ∈ object.blocks, token.span.Within block.span := fun token member =>
    formed.within_block cut atEnd blank row member
  have declared : ∀ block ∈ object.blocks, ∀ declared ∈ block.declarations,
      declared.span.Within block.span ∧ declared.span.start < declared.span.stop := by
    intro block member
    obtain ⟨part, among, forms, _⟩ := formed.exists_part member
    exact forms.declared_within (counted among)
  refine ⟨⟨lead, parts, final, cut, atEnd, blank, formed.imp fun _ _ => And.right⟩, ?_,
    formed.ordered row, ?_, declared, ?_, ?_⟩
  · intro block member
    obtain ⟨part, among, _, occupies⟩ := formed.exists_part member
    exact occupies.start_lt_stop (Parts.row_of_mem row among)
  · intro token member
    obtain ⟨block, among, inside⟩ := within token member
    obtain ⟨index, rfl⟩ := List.mem_iff_get.mp among
    obtain ⟨present, _, solid⟩ := mem_contents.mp member
    refine ⟨index, inside, fun other also => ?_⟩
    exact formed.unique row ((Row.of_source source).start_lt_stop present solid) also inside
  · rw [List.pairwise_flatMap]
    refine ⟨fun block member => ?_, (formed.ordered row).imp_of_mem ?_⟩
    · obtain ⟨part, among, forms, _⟩ := formed.exists_part member
      exact forms.declared_ordered (counted among)
    · intro block next member beyond before first here second there
      have inner := (declared block member first here).1.2
      have outer := (declared next beyond second there).1.1
      omega
  · intro offset inside outside
    exact exists_trivia inside within outside

/-- Two blocks on one line, the first with a constant and a comment, and a method
whose inner level is still open at the end. -/
theorem blocks_partition_mixed :
    Object.parse "'x\nCON a = %%1 \x7b\x7d PUB\n b\n  c \n" =
        .ok ⟨[.constants [⟨"a", ⟨.quaternary, "1", 1⟩, ⟨7, 14⟩⟩] ⟨3, 14⟩,
          .raw .pub (by decide) ⟨18, 28⟩]⟩ ∧
      Partition "'x\nCON a = %%1 \x7b\x7d PUB\n b\n  c \n"
        [.constants [⟨"a", ⟨.quaternary, "1", 1⟩, ⟨7, 14⟩⟩] ⟨3, 14⟩,
          .raw .pub (by decide) ⟨18, 28⟩] :=
  have parsed : Object.parse "'x\nCON a = %%1 \x7b\x7d PUB\n b\n  c \n" =
      .ok ⟨[.constants [⟨"a", ⟨.quaternary, "1", 1⟩, ⟨7, 14⟩⟩] ⟨3, 14⟩,
        .raw .pub (by decide) ⟨18, 28⟩]⟩ := by
    decide +kernel
  ⟨parsed, blocks_partition parsed⟩

end SpinBlocks
