import SpinBlocks.Character
import SpinBlocks.Object.Basic
import SpinBlocks.Object.Supply

namespace SpinBlocks

/-! Reading an object from its tokens.

Each function takes what it needs from a supply and gives back what is left of
it, also where it fails. A block reads up to the token that ends it and puts
that one back for whoever comes next.
-/

def Literal.ofToken (token : Token) : Except ParseError Literal :=
  match token.kind.radix? with
  | none => .error ⟨.notANumber, token⟩
  | some radix =>
      let digits := token.text.toList.filter fun c => !Character.isGroupSeparator c
      if digits.isEmpty then .error ⟨.noDigits radix, token⟩
      else
        match Numeral.parse radix.base digits with
        | .ok value => .ok ⟨radix, token.text, value⟩
        | .error .tooLarge => .error ⟨.tooLarge, token⟩
        | .error .invalidDigit => .error ⟨.invalidDigit radix, token⟩

namespace Supply

def value (supply : Supply) (name : Token) : Except ParseError Declaration × Supply :=
  match supply.nextChecked with
  | (.error error, after) => (.error error, after)
  | (.ok token, after) =>
      if token.kind.isNumber then
        match Literal.ofToken token with
        | .error error => (.error error, after)
        | .ok literal => (.ok ⟨name.text, literal, name.span.merge token.span⟩, after)
      else
        (.error ⟨.expectedValue name.text, token⟩, after)

/-- What follows the name of a constant: an equals sign and the value. -/
def declaration (supply : Supply) (name : Token) : Except ParseError Declaration × Supply :=
  match supply.expect (.operator .assign) .expectedAssignment "Expected '=' after constant name" with
  | (.error error, after) => (.error error, after)
  | (.ok _, after) => after.value name

theorem nextChecked_available_le (supply : Supply) :
    supply.nextChecked.2.available ≤ supply.available :=
  supply.nextSignificant_available_le

theorem nextChecked_token {supply after : Supply} {token : Token}
    (taken : supply.nextChecked = (.ok token, after)) :
    supply.nextSignificant = (token, after) := by
  simp only [nextChecked, Prod.mk.injEq, Token.checked] at taken
  obtain ⟨checked, rest⟩ := taken
  split at checked
  · simp at checked
  · simp only [Except.ok.injEq] at checked
    rw [← checked, ← rest]

theorem expect_available_le (supply : Supply) (kind : Kind) (code : Code) (demand : String) :
    (supply.expect kind code demand).2.available ≤ supply.available := by
  have taken := supply.nextChecked_available_le
  unfold expect
  split <;> simp_all
  split <;> exact taken

theorem value_available_le (supply : Supply) (name : Token) :
    (supply.value name).2.available ≤ supply.available := by
  have taken := supply.nextChecked_available_le
  unfold value
  split <;> simp_all
  split
  · split <;> exact taken
  · exact taken

theorem declaration_available_le (supply : Supply) (name : Token) :
    (supply.declaration name).2.available ≤ supply.available := by
  have taken := supply.expect_available_le (.operator .assign) .expectedAssignment
    "Expected '=' after constant name"
  unfold declaration
  split
  · simp_all
  · rename_i found
    rw [found] at taken
    exact Nat.le_trans (value_available_le _ _) taken

theorem nextChecked_available_lt {supply after : Supply} {token : Token}
    (taken : supply.nextChecked = (.ok token, after)) (unfinished : token.kind ≠ .eof) :
    after.available < supply.available := by
  have found := nextChecked_token taken
  have shorter : supply.nextSignificant.2.available < supply.available :=
    nextSignificant_available_lt (by rwa [found])
  rwa [found] at shorter

theorem declaration_available_lt {supply after rest : Supply} {token : Token}
    {result : Except ParseError Declaration}
    (taken : supply.nextChecked = (.ok token, after)) (inside : ¬ token.kind.endsBlock = true)
    (declared : after.declaration token = (result, rest)) :
    rest.available < supply.available := by
  have unfinished : token.kind ≠ .eof := by
    intro atEnd
    exact inside (by simp [Kind.endsBlock, atEnd])
  have kept := after.declaration_available_le token
  rw [declared] at kept
  exact Nat.lt_of_le_of_lt kept (nextChecked_available_lt taken unfinished)

/-- The constants up to the end of the block. -/
def constants (supply : Supply) : Except ParseError (List Declaration) × Supply :=
  match _ : supply.nextChecked with
  | (.error error, after) => (.error error, after)
  | (.ok token, after) =>
      if _ : token.kind.endsBlock then (.ok [], after.putBack token)
      else if token.kind = .identifier then
        match _ : after.declaration token with
        | (.error error, rest) => (.error error, rest)
        | (.ok declaration, rest) =>
            match rest.constants with
            | (.error error, rest) => (.error error, rest)
            | (.ok declarations, rest) => (.ok (declaration :: declarations), rest)
      else
        (.error ⟨.expectedName, token⟩, after)
termination_by supply.available
decreasing_by exact declaration_available_lt ‹_› ‹_› ‹_›

theorem constants_available_le (supply : Supply) :
    supply.constants.2.available ≤ supply.available := by
  fun_induction constants supply with
  | case1 supply error after taken =>
      simpa only [taken] using supply.nextChecked_available_le
  | case2 supply token after taken ends =>
      simpa only [nextChecked_token taken] using supply.putBack_significant_le
  | case3 supply token after taken inside named error rest declared =>
      exact Nat.le_of_lt (declaration_available_lt taken inside declared)
  | case4 supply token after taken inside named declaration rest declared error last failed ih =>
      rw [failed] at ih
      exact Nat.le_trans ih (Nat.le_of_lt (declaration_available_lt taken inside declared))
  | case5 supply token after taken inside named declaration rest declared declarations last done ih =>
      rw [done] at ih
      exact Nat.le_trans ih (Nat.le_of_lt (declaration_available_lt taken inside declared))
  | case6 supply token after taken =>
      simpa only [taken] using supply.nextChecked_available_le

/-- The span of a block whose keyword and tokens so far cover `span`. Trivia and
marks of layout do not count. -/
def rawBody (supply : Supply) (span : Span) : Except ParseError Span × Supply :=
  match supply.next.1.fault? with
  | some error => (.error error, supply.next.2)
  | none =>
      if _ : supply.next.1.kind.endsBlock then (.ok span, supply.next.2.putBack supply.next.1)
      else if supply.next.1.kind.isTrivia || supply.next.1.span.isEmpty then
        supply.next.2.rawBody span
      else
        supply.next.2.rawBody (span.merge supply.next.1.span)
termination_by supply.available
decreasing_by
  all_goals
    refine next_available_lt ?_
    intro atEnd
    simp_all [Kind.endsBlock]

theorem rawBody_available_le (supply : Supply) (span : Span) :
    (supply.rawBody span).2.available ≤ supply.available := by
  fun_induction rawBody supply span with
  | case1 supply => exact supply.next_available_le
  | case2 supply => exact supply.putBack_available_le
  | case3 supply _ _ _ _ ih => exact Nat.le_trans ih supply.next_available_le
  | case4 supply _ _ _ _ ih => exact Nat.le_trans ih supply.next_available_le

def constantBlock (supply : Supply) (start : Token) :
    Except ParseError (List Declaration × Span) × Supply :=
  match supply.constants with
  | (.error error, after) => (.error error, after)
  | (.ok declarations, after) =>
      let span := declarations.foldl (fun span declaration => span.merge declaration.span) start.span
      (.ok (declarations, span), after)

def block (supply : Supply) (kind : BlockKind) (start : Token) : Except ParseError Block × Supply :=
  if interpreted : kind = .con then
    match supply.constantBlock start with
    | (.error error, after) => (.error error, after)
    | (.ok (declarations, span), after) => (.ok (.constants declarations span), after)
  else
    match supply.rawBody start.span with
    | (.error error, after) => (.error error, after)
    | (.ok span, after) => (.ok (.raw kind interpreted span), after)

theorem block_available_le (supply : Supply) (kind : BlockKind) (start : Token) :
    (supply.block kind start).2.available ≤ supply.available := by
  have constants := supply.constants_available_le
  have raw := supply.rawBody_available_le start.span
  unfold block constantBlock
  split
  · cases found : supply.constants with
    | mk result after =>
        rw [found] at constants
        cases result <;> exact constants
  · cases found : supply.rawBody start.span with
    | mk result after =>
        rw [found] at raw
        cases result <;> exact raw

/-- The block that a keyword opens, which has to be one that opens a block. -/
def blockOf (supply : Supply) (keyword : Keyword) (start : Token) :
    Except ParseError Block × Supply :=
  match keyword with
  | .block kind => supply.block kind start
  | .word _ _ => (.error ⟨.notABlock, start⟩, supply)

theorem block_available_lt {supply after rest : Supply} {token : Token} {kind : BlockKind}
    {result : Except ParseError Block}
    (taken : supply.nextChecked = (.ok token, after)) (opens : token.kind.block? = some kind)
    (read : after.block kind token = (result, rest)) : rest.available < supply.available := by
  have unfinished : token.kind ≠ .eof := by
    intro atEnd
    simp [Kind.block?, atEnd] at opens
  have kept := after.block_available_le kind token
  rw [read] at kept
  exact Nat.lt_of_le_of_lt kept (nextChecked_available_lt taken unfinished)

/-- The blocks up to the end of the text. -/
def blocks (supply : Supply) : Except ParseError (List Block) × Supply :=
  match _ : supply.nextChecked with
  | (.error error, after) => (.error error, after)
  | (.ok token, after) =>
      if token.kind = .eof then (.ok [], after)
      else
        match _ : token.kind.block? with
        | none => (.error ⟨.outsideBlock, token⟩, after)
        | some kind =>
            match _ : after.block kind token with
            | (.error error, rest) => (.error error, rest)
            | (.ok block, rest) =>
                match rest.blocks with
                | (.error error, rest) => (.error error, rest)
                | (.ok blocks, rest) => (.ok (block :: blocks), rest)
termination_by supply.available
decreasing_by exact block_available_lt ‹_› ‹_› ‹_›

end Supply

/-- The object that a source text declares, or the first fault in it. -/
def Object.parse (source : String) : Except ParseError Object :=
  (Supply.ofString source).blocks.1.map Object.mk

end SpinBlocks
