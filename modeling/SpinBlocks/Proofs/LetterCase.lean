import SpinBlocks.Proofs.Numbers
import SpinBlocks.Proofs.UpperCase

namespace SpinBlocks

/-! A program is the same program in upper case.

What is read from a text changes its names and its digits with the text, and
nothing else; where reading fails, it fails for the same cause and at the same
place. Reading never looks at more of a token than its kind, its place and the
digits of a number, so every reader does the same from a supply in upper case.
-/

namespace Numeral

theorem digit?_upper (radix : Radix) (c : Char) :
    digit? radix.base c.toUpper = digit? radix.base c := by
  have blind : ∀ radix ∈ Radix.all, Character.Blind (digit? radix.base) := by decide
  exact blind radix (by cases radix <;> decide) c

theorem extend_upper (radix : Radix) (value : Nat) (digits : List Char) :
    extend radix.base value (digits.map Char.toUpper) = extend radix.base value digits := by
  induction digits generalizing value with
  | nil => rfl
  | cons c rest ih => simp only [List.map_cons, extend, digit?_upper, ih]

theorem parse_unsigned {base : Nat} {digits : List Char} (nonempty : digits ≠ [])
    (unsigned : digits.head? ≠ some '+') : parse base digits = extend base 0 digits := by
  unfold parse
  split <;> simp_all

theorem parse_upper (radix : Radix) (digits : List Char) :
    parse radix.base (digits.map Char.toUpper) = parse radix.base digits := by
  have signs : Character.Blind fun c => decide (c = '+') := by decide
  cases digits with
  | nil => rfl
  | cons c rest =>
      have whole := extend_upper radix 0 (c :: rest)
      by_cases sign : c = '+'
      · subst sign
        cases rest with
        | nil => rfl
        | cons d more => exact extend_upper radix 0 (d :: more)
      · have other : c.toUpper ≠ '+' := (decide_eq_decide.mp (signs c)).not.mpr sign
        rw [parse_unsigned (by simp) (by simpa using other),
          parse_unsigned (by simp) (by simpa using sign), whole]

end Numeral

def Literal.upper (literal : Literal) : Literal :=
  { literal with digits := literal.digits.toUpper }

def Declaration.upper (declaration : Declaration) : Declaration :=
  ⟨declaration.name.toUpper, declaration.value.upper, declaration.span⟩

def Block.upper : Block → Block
  | .constants declarations span => .constants (declarations.map (·.upper)) span
  | .raw kind unread span => .raw kind unread span

def Object.upper (object : Object) : Object :=
  ⟨object.blocks.map (·.upper)⟩

def Cause.upper : Cause → Cause
  | .expectedValue name => .expectedValue name.toUpper
  | cause => cause

def ParseError.upper (error : ParseError) : ParseError :=
  ⟨error.cause.upper, error.token.upper⟩

def Supply.upper (supply : Supply) : Supply :=
  { returned := supply.returned.map (·.upper)
    upcoming := supply.upcoming.map (·.upper)
    final := supply.final.upper
    final_eof := supply.final_eof }

/-- The same outcome in upper case, whether there is a value or an error. -/
def upperResult {α : Type} (upper : α → α) : Except ParseError α → Except ParseError α
  | .ok value => .ok (upper value)
  | .error error => .error error.upper

theorem Token.isEmpty_upper (token : Token) : token.upper.text.isEmpty = token.text.isEmpty := by
  rw [Bool.eq_iff_iff, String.isEmpty_iff, String.isEmpty_iff, ← String.toList_eq_nil_iff, upper,
    String.toUpper, String.toList_map, List.map_eq_nil_iff, String.toList_eq_nil_iff]

theorem Token.fault?_upper (token : Token) :
    token.upper.fault? = token.fault?.map (·.upper) := by
  have empty := token.isEmpty_upper
  obtain ⟨kind, text, region, line, column, span⟩ := token
  cases kind with
  | illegal =>
      simp only [fault?, empty, apply_ite (Option.map _)]
      rfl
  | _ => rfl

theorem Token.digits_upper (token : Token) :
    token.upper.digits = token.digits.map Char.toUpper := by
  have blind : Character.Blind Character.isGroupSeparator := by decide
  rw [digits, digits, upper, String.toUpper, String.toList_map, List.filter_map]
  refine congrArg _ (List.filter_congr fun c _ => ?_)
  rw [Function.comp_apply, blind c]

theorem Literal.ofToken_upper (token : Token) :
    Literal.ofToken token.upper = upperResult (·.upper) (Literal.ofToken token) := by
  have digits := token.digits_upper
  unfold Token.digits at digits
  rw [ofToken, ofToken, digits]
  cases found : token.kind.radix? with
  | none =>
      simp only [Token.upper, found]
      rfl
  | some radix =>
      simp only [Token.upper, found, List.isEmpty_map, Numeral.parse_upper]
      cases (token.text.toList.filter fun c => !Character.isGroupSeparator c).isEmpty with
      | true => rfl
      | false =>
          cases Numeral.parse radix.base _ with
          | ok value => rfl
          | error fault => cases fault <;> rfl

namespace Supply

def upperOutcome {α : Type} (upper : α → α) (outcome : Except ParseError α × Supply) :
    Except ParseError α × Supply :=
  (upperResult upper outcome.1, outcome.2.upper)

theorem next_upper (supply : Supply) :
    supply.upper.next = (supply.next.1.upper, supply.next.2.upper) := by
  obtain ⟨returned, upcoming, final, atEnd⟩ := supply
  cases returned with
  | some token => rfl
  | none => cases upcoming <;> rfl

theorem nextSignificant_upper (supply : Supply) :
    supply.upper.nextSignificant =
      (supply.nextSignificant.1.upper, supply.nextSignificant.2.upper) := by
  fun_induction nextSignificant supply with
  | case1 supply trivia ih =>
      rw [nextSignificant, next_upper, dif_pos (by exact trivia), ih]
  | case2 supply significant =>
      rw [nextSignificant, next_upper, dif_neg (by exact significant)]

theorem nextChecked_upper (supply : Supply) :
    supply.upper.nextChecked = upperOutcome (·.upper) supply.nextChecked := by
  rw [nextChecked, nextSignificant_upper, nextChecked]
  simp only [Token.checked, Token.fault?_upper]
  cases supply.nextSignificant.1.fault? <;> rfl

theorem expect_upper (supply : Supply) (kind : Kind) (code : Code) (demand : String) :
    supply.upper.expect kind code demand =
      upperOutcome (·.upper) (supply.expect kind code demand) := by
  rw [expect, nextChecked_upper, expect]
  obtain ⟨result, after⟩ := supply.nextChecked
  cases result with
  | error error => rfl
  | ok token =>
      dsimp only
      rw [apply_ite (upperOutcome _)]
      rfl

theorem value_upper (supply : Supply) (name : Token) :
    supply.upper.value name.upper = upperOutcome (·.upper) (supply.value name) := by
  rw [value, nextChecked_upper, value]
  obtain ⟨result, after⟩ := supply.nextChecked
  cases result with
  | error error => rfl
  | ok token =>
      simp only [upperOutcome, upperResult, Literal.ofToken_upper]
      cases number : token.kind.isNumber with
      | false =>
          simp only [Token.upper, number]
          rfl
      | true =>
          simp only [Token.upper, number, if_true]
          cases Literal.ofToken token <;> rfl

theorem declaration_upper (supply : Supply) (name : Token) :
    supply.upper.declaration name.upper = upperOutcome (·.upper) (supply.declaration name) := by
  rw [declaration, expect_upper, declaration]
  obtain ⟨result, after⟩ := supply.expect (.operator .assign) .expectedAssignment _
  cases result with
  | error error => rfl
  | ok token => exact after.value_upper name

theorem constants_eq (supply : Supply) :
    supply.constants =
      match supply.nextChecked with
      | (.error error, after) => (.error error, after)
      | (.ok token, after) =>
          if token.kind.endsBlock then (.ok [], after.putBack token)
          else if token.kind = .identifier then
            match after.declaration token with
            | (.error error, rest) => (.error error, rest)
            | (.ok declaration, rest) =>
                match rest.constants with
                | (.error error, rest) => (.error error, rest)
                | (.ok declarations, rest) => (.ok (declaration :: declarations), rest)
          else (.error ⟨.expectedName, token⟩, after) := by
  fun_cases constants supply <;> simp_all

theorem constants_upper (supply : Supply) :
    supply.upper.constants = upperOutcome (List.map (·.upper)) supply.constants := by
  fun_induction constants supply with
  | case1 supply error after taken =>
      rw [constants_eq, nextChecked_upper, taken]
      rfl
  | case2 supply token after taken ends =>
      rw [constants_eq, nextChecked_upper, taken]
      exact if_pos ends
  | case3 supply token after taken inside named error rest declared =>
      rw [constants_eq, nextChecked_upper, taken]
      refine (if_neg inside).trans ((if_pos named).trans ?_)
      rw [declaration_upper, declared]
      rfl
  | case4 supply token after taken inside named declaration rest declared _ _ failed ih =>
      rw [constants_eq, nextChecked_upper, taken]
      refine (if_neg inside).trans ((if_pos named).trans ?_)
      rw [declaration_upper, declared]
      dsimp only [upperOutcome, upperResult]
      rw [ih, failed]
      rfl
  | case5 supply token after taken inside named declaration rest declared _ _ done ih =>
      rw [constants_eq, nextChecked_upper, taken]
      refine (if_neg inside).trans ((if_pos named).trans ?_)
      rw [declaration_upper, declared]
      dsimp only [upperOutcome, upperResult]
      rw [ih, done]
      rfl
  | case6 supply token after taken inside unnamed =>
      rw [constants_eq, nextChecked_upper, taken]
      exact (if_neg inside).trans (if_neg unnamed)

theorem rawBody_upper (supply : Supply) (span : Span) :
    supply.upper.rawBody span = upperOutcome id (supply.rawBody span) := by
  fun_induction rawBody supply span with
  | case1 supply span error fault =>
      rw [rawBody, next_upper]
      simp only [Token.fault?_upper, fault]
      rfl
  | case2 supply span sound ends =>
      rw [rawBody, next_upper]
      simp only [Token.fault?_upper, sound]
      exact dif_pos ends
  | case3 supply span sound inside hidden ih =>
      rw [rawBody, next_upper]
      simp only [Token.fault?_upper, sound]
      exact (dif_neg inside).trans ((if_pos hidden).trans ih)
  | case4 supply span sound inside shown ih =>
      rw [rawBody, next_upper]
      simp only [Token.fault?_upper, sound]
      exact (dif_neg inside).trans ((if_neg shown).trans ih)

theorem constantBlock_upper (supply : Supply) (start : Token) :
    supply.upper.constantBlock start.upper =
      upperOutcome (fun (declarations, span) => (declarations.map (·.upper), span))
        (supply.constantBlock start) := by
  rw [constantBlock, constants_upper, constantBlock]
  obtain ⟨result, after⟩ := supply.constants
  cases result with
  | error error => rfl
  | ok declarations =>
      simp only [upperOutcome, upperResult, List.foldl_map]
      rfl

theorem block_upper (supply : Supply) (kind : BlockKind) (start : Token) :
    supply.upper.block kind start.upper = upperOutcome (·.upper) (supply.block kind start) := by
  by_cases interpreted : kind = .con
  · rw [block, dif_pos interpreted, constantBlock_upper, block, dif_pos interpreted]
    obtain ⟨result, after⟩ := supply.constantBlock start
    cases result <;> rfl
  · have body := supply.rawBody_upper start.span
    rw [block, dif_neg interpreted, block, dif_neg interpreted, Token.upper, body]
    obtain ⟨result, after⟩ := supply.rawBody start.span
    cases result <;> rfl

theorem blocks_eq (supply : Supply) :
    supply.blocks =
      match supply.nextChecked with
      | (.error error, after) => (.error error, after)
      | (.ok token, after) =>
          if token.kind = .eof then (.ok [], after)
          else
            match token.kind.block? with
            | none => (.error ⟨.outsideBlock, token⟩, after)
            | some kind =>
                match after.block kind token with
                | (.error error, rest) => (.error error, rest)
                | (.ok block, rest) =>
                    match rest.blocks with
                    | (.error error, rest) => (.error error, rest)
                    | (.ok blocks, rest) => (.ok (block :: blocks), rest) := by
  fun_cases blocks supply <;> simp_all

theorem blocks_upper (supply : Supply) :
    supply.upper.blocks = upperOutcome (List.map (·.upper)) supply.blocks := by
  fun_induction blocks supply with
  | case1 supply error after taken =>
      rw [blocks_eq, nextChecked_upper, taken]
      rfl
  | case2 supply token after taken atEnd =>
      rw [blocks_eq, nextChecked_upper, taken]
      exact if_pos atEnd
  | case3 supply token after taken inside unopened =>
      rw [blocks_eq, nextChecked_upper, taken]
      refine (if_neg inside).trans ?_
      have other : token.upper.kind.block? = none := unopened
      simp only [other]
      rfl
  | case4 supply token after taken inside kind opens error rest failed =>
      rw [blocks_eq, nextChecked_upper, taken]
      refine (if_neg inside).trans ?_
      have opened : token.upper.kind.block? = some kind := opens
      simp only [opened, block_upper, failed]
      rfl
  | case5 supply token after taken inside kind opens block rest read error last failed ih =>
      rw [blocks_eq, nextChecked_upper, taken]
      refine (if_neg inside).trans ?_
      have opened : token.upper.kind.block? = some kind := opens
      simp only [opened, block_upper, read]
      dsimp only [upperOutcome, upperResult]
      rw [ih, failed]
      rfl
  | case6 supply token after taken inside kind opens block rest read blocks last done ih =>
      rw [blocks_eq, nextChecked_upper, taken]
      refine (if_neg inside).trans ?_
      have opened : token.upper.kind.block? = some kind := opens
      simp only [opened, block_upper, read]
      dsimp only [upperOutcome, upperResult]
      rw [ih, done]
      rfl

theorem ofString_toUpper {source : String} (unquoted : '"' ∉ source.toList) :
    ofString source.toUpper = (ofString source).upper := by
  have run : (Lexer.ofString source).upper.steps = _ := Lexer.steps_upper unquoted
  simp only [ofString, upper, Lexer.ofString_toUpper, run, List.getLast_map, List.map_map]
  rfl

end Supply

theorem Object.parse_toUpper {source : String} (unquoted : '"' ∉ source.toList) :
    parse source.toUpper = upperResult (·.upper) (parse source) := by
  rw [parse, Supply.ofString_toUpper unquoted, Supply.blocks_upper, parse]
  dsimp only [Supply.upperOutcome]
  cases (Supply.ofString source).blocks.1 <;> rfl

theorem Cause.code_upper (cause : Cause) : cause.upper.code = cause.code := by
  cases cause <;> rfl

/-- In a text without strings the case of letters changes nothing but the texts of
the tokens, and the names and digits that are made of them. What cannot be read is
found at the same place and for the same cause. -/
theorem letter_case_ignored {source : String} (unquoted : '"' ∉ source.toList) :
    tokens source.toUpper = (tokens source).map (·.upper) ∧
      (∀ object, Object.parse source = .ok object →
        Object.parse source.toUpper = .ok object.upper) ∧
      ∀ error, Object.parse source = .error error →
        ∃ other, Object.parse source.toUpper = .error other ∧
          other.diagnostic.code = error.diagnostic.code ∧
          other.diagnostic.span = error.diagnostic.span := by
  have parsed := Object.parse_toUpper unquoted
  refine ⟨tokens_toUpper unquoted, fun object read => ?_, fun error failed => ?_⟩
  · rw [parsed, read]
    rfl
  · refine ⟨error.upper, ?_, error.cause.code_upper, rfl⟩
    rw [parsed, failed]
    rfl

theorem letter_case_ignored_mixed :
    tokens "CON\n MASK = $FF" = (tokens "con\n Mask = $fF").map (·.upper) ∧
      Object.parse "CON\n MASK = $FF" =
        .ok ⟨[.constants [⟨"MASK", ⟨.hexadecimal, "FF", 255⟩, ⟨5, 15⟩⟩] ⟨0, 15⟩]⟩ ∧
      ∃ other, Object.parse "CON\n MASK = FF" = .error other ∧
        other.diagnostic.code = .expectedValue ∧ other.diagnostic.span = ⟨12, 14⟩ := by
  have upper : "con\n Mask = $fF".toUpper = "CON\n MASK = $FF" := by decide +kernel
  have bare : "con\n Mask = fF".toUpper = "CON\n MASK = FF" := by decide +kernel
  let object : Object :=
    ⟨[.constants [⟨"Mask", ⟨.hexadecimal, "fF", 255⟩, ⟨5, 15⟩⟩] ⟨0, 15⟩]⟩
  let error : ParseError :=
    ⟨.expectedValue "Mask", ⟨.identifier, "fF", .constants, 1, 8, ⟨12, 14⟩⟩⟩
  obtain ⟨listed, read, _⟩ := @letter_case_ignored "con\n Mask = $fF" (by decide +kernel)
  obtain ⟨_, _, failed⟩ := @letter_case_ignored "con\n Mask = fF" (by decide +kernel)
  rw [upper] at listed read
  rw [bare] at failed
  have shown : object.upper =
      ⟨[.constants [⟨"MASK", ⟨.hexadecimal, "FF", 255⟩, ⟨5, 15⟩⟩] ⟨0, 15⟩]⟩ := by decide +kernel
  exact ⟨listed, (read object (by decide +kernel)).trans (congrArg _ shown),
    failed error (by decide +kernel)⟩

end SpinBlocks
