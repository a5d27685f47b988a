import Mathlib.Data.List.DropRight
import SpinBlocks.Proofs.Lexical.Rules

namespace SpinBlocks

/-! What a lexeme looks like from outside: the kinds it can have, the characters
it begins and ends with, and how little it depends on what stands behind it. -/

/-- The kinds of token that never stand for any text. -/
def Kind.isMark : Kind → Bool
  | .eof | .indent | .dedent => true
  | _ => false

/-- The kinds of token that show on a line. -/
def Kind.isVisible (kind : Kind) : Bool :=
  !kind.isMark && kind != .newline && kind != .space

theorem Kind.ne_of_isVisible {kind : Kind} (visible : kind.isVisible = true) :
    kind ≠ .space ∧ kind ≠ .newline := by
  constructor <;> rintro rfl <;> cases visible

theorem Kind.plain_of_isMark {kind : Kind} (mark : kind.isMark = true) :
    kind ≠ .space ∧ kind.isFault = false ∧ kind.isBlockKeyword = false := by
  cases kind <;> first | exact ⟨Kind.noConfusion, rfl, rfl⟩ | cases mark

theorem Kind.isBlockKeyword_of_isTrivia {kind : Kind} (trivia : kind.isTrivia = true) :
    kind.isBlockKeyword = false := by
  cases kind <;> first | rfl | cases trivia

namespace Lexeme

/-- `other` can stand in the place of `tail`: it begins like it, or with a line
feed, or it is empty. -/
def Replaces (other tail : List Char) : Prop :=
  ∀ c ∈ other.head?, c ∈ tail.head? ∨ c = '\n'

theorem Stops.replace {within : Char → Bool} {tail other : List Char} (stops : Stops within tail)
    (replaces : Replaces other tail) (outside : within '\n' = false) : Stops within other := by
  intro c front
  rcases replaces c front with same | newline
  · exact stops c same
  · rw [newline, outside]

theorem Run.replace {within : Char → Bool} {body tail other : List Char}
    (run : Run within body tail) (replaces : Replaces other tail)
    (outside : within '\n' = false) : Run within body other :=
  ⟨run.inside, run.stops.replace replaces outside⟩

theorem isNumeral_newline (radix : Radix) : isNumeral radix '\n' = false := by
  cases radix <;> decide

theorem joins_newline (first : Char) : joins first '\n' = false := by
  unfold joins
  cases found : Operator.pair? first '\n' with
  | none => rfl
  | some operator => exact absurd (pair?_opensSymbol found).2 (by decide)

/-- A lexeme stays the same when something else comes to stand behind it. -/
theorem Reads.replace {first : Char} {body tail other : List Char} {kind : Kind} {text : String}
    (reads : Reads first body tail kind text) (replaces : Replaces other tail) :
    Reads first body other kind text := by
  cases reads with
  | newline => exact .newline
  | blanks blank run => exact .blanks blank (run.replace replaces rfl)
  | word start run => exact .word start (run.replace replaces rfl)
  | decimal digit run => exact .decimal digit (run.replace replaces (isNumeral_newline _))
  | hexadecimal digit run => exact .hexadecimal digit (run.replace replaces (isNumeral_newline _))
  | dollar stops => exact .dollar (stops.replace replaces rfl)
  | quaternary run => exact .quaternary (run.replace replaces (isNumeral_newline _))
  | moduloAssign => exact .moduloAssign
  | binary digit run => exact .binary digit (run.replace replaces (isNumeral_newline _))
  | modulo stops => exact .modulo (stops.replace replaces rfl)
  | string quoted => exact .string quoted
  | lineComment plain run => exact .lineComment plain (run.replace replaces rfl)
  | lineDoc run => exact .lineDoc (run.replace replaces rfl)
  | blockComment plain inside => exact .blockComment plain inside
  | blockDoc inside => exact .blockDoc inside
  | pair found => exact .pair found
  | single found stops => exact .single found (stops.replace replaces (joins_newline _))

theorem wordKind_cases (letters : List Char) :
    (∃ keyword, wordKind letters = .keyword keyword) ∨ wordKind letters = .identifier := by
  unfold wordKind
  split
  · exact .inl ⟨_, rfl⟩
  · exact .inr rfl

theorem Reads.isMark {first : Char} {body tail : List Char} {kind : Kind} {text : String}
    (reads : Reads first body tail kind text) : kind.isMark = false := by
  cases reads with
  | word =>
      rcases wordKind_cases (first :: body) with ⟨keyword, found⟩ | found <;> rw [found] <;> rfl
  | _ => rfl

theorem Reads.isFault {first : Char} {body tail : List Char} {kind : Kind} {text : String}
    (reads : Reads first body tail kind text) : kind.isFault = false := by
  cases reads with
  | word =>
      rcases wordKind_cases (first :: body) with ⟨keyword, found⟩ | found <;> rw [found] <;> rfl
  | _ => rfl

theorem scan_isMark (first : Char) (rest : List Char) : (scan first rest).kind.isMark = false := by
  cases fault : (scan first rest).kind.isFault with
  | false =>
      obtain ⟨_, _, _, _, reads⟩ := scan_found fault
      exact reads.isMark
  | true =>
      unfold Kind.isFault at fault
      split at fault <;> simp_all [Kind.isMark]

theorem isSignificant_of_opensSymbol {c : Char} (opens : opensSymbol c = true) :
    Character.isSignificant c = true := by
  simp only [opensSymbol, Bool.not_eq_true', Bool.or_eq_false_iff] at opens
  simp [Character.isSignificant, opens]

theorem isSignificant_of_within {within : Char → Bool} {c : Char} (inside : within c = true)
    (blank : within ' ' = false ∧ within '\t' = false ∧ within '\n' = false)
    (comment : within '\'' = false ∧ within '\x7b' = false) :
    Character.isSignificant c = true := by
  have space : c ≠ ' ' := ne_of_within inside blank.1
  have tab : c ≠ '\t' := ne_of_within inside blank.2.1
  have newline : c ≠ '\n' := ne_of_within inside blank.2.2
  have quote : c ≠ '\'' := ne_of_within inside comment.1
  have brace : c ≠ '\x7b' := ne_of_within inside comment.2
  simp [Character.isSignificant, Character.isNewline, Character.isSpace,
    Character.isLineCommentStart, Character.isBlockCommentStart, space, tab, newline, quote, brace]

theorem Reads.isSignificant {first : Char} {body tail : List Char} {kind : Kind} {text : String}
    (reads : Reads first body tail kind text) :
    Character.isSignificant first = !kind.isTrivia := by
  cases reads with
  | blanks blank => simp [Character.isSignificant, blank, Kind.isTrivia]
  | word start =>
      rw [isSignificant_of_within start (by decide) (by decide)]
      rcases wordKind_cases (first :: body) with ⟨keyword, found⟩ | found <;> rw [found] <;> rfl
  | decimal digit => exact isSignificant_of_within digit (by decide) (by decide)
  | pair found => exact isSignificant_of_opensSymbol (pair?_opensSymbol found).1
  | single found => exact isSignificant_of_opensSymbol (single?_opensSymbol found)
  | _ => rfl

theorem isSpace_of_isSignificant {c : Char} (significant : Character.isSignificant c = true) :
    Character.isSpace c = false := by
  simp only [Character.isSignificant, Bool.and_eq_true, Bool.not_eq_true'] at significant
  exact significant.1.1.1

theorem Reads.isSpace_first {first : Char} {body tail : List Char} {kind : Kind} {text : String}
    (reads : Reads first body tail kind text) :
    Character.isSpace first = true ↔ kind = .space := by
  cases trivia : kind.isTrivia with
  | false =>
      have solid := isSpace_of_isSignificant (by rw [reads.isSignificant, trivia]; rfl)
      rw [solid]
      refine ⟨by simp, ?_⟩
      rintro rfl
      cases trivia
  | true =>
      cases reads with
      | blanks blank => simp [blank]
      | word =>
          rcases wordKind_cases (first :: body) with ⟨keyword, found⟩ | found <;>
            rw [found] at trivia <;> cases trivia
      | newline => decide
      | lineComment => decide
      | lineDoc => decide
      | blockComment => decide
      | blockDoc => decide
      | _ => cases trivia

theorem Reads.newline_body {first : Char} {body tail : List Char} {kind : Kind} {text : String}
    (reads : Reads first body tail kind text) (newline : kind = .newline) :
    first = '\n' ∧ body = [] ∧ text = "\n" := by
  cases reads with
  | newline => exact ⟨rfl, rfl, rfl⟩
  | word =>
      rcases wordKind_cases (first :: body) with ⟨keyword, found⟩ | found <;>
        rw [found] at newline <;> cases newline
  | _ => cases newline

theorem Reads.space_run {first : Char} {body tail : List Char} {kind : Kind} {text : String}
    (reads : Reads first body tail kind text) (space : kind = .space) :
    Run Character.isSpace (first :: body) tail ∧ text = String.ofList (first :: body) := by
  cases reads with
  | blanks blank run => exact ⟨⟨List.forall_mem_cons.mpr ⟨blank, run.inside⟩, run.stops⟩, rfl⟩
  | word =>
      rcases wordKind_cases (first :: body) with ⟨keyword, found⟩ | found <;>
        rw [found] at space <;> cases space
  | _ => cases space

theorem Reads.newline_first {first : Char} {body tail : List Char} {kind : Kind} {text : String}
    (reads : Reads first body tail kind text) : kind = .newline ↔ first = '\n' := by
  refine ⟨fun newline => (reads.newline_body newline).1, ?_⟩
  rintro rfl
  have trivia : kind.isTrivia = true := by
    simpa [Character.isSignificant, Character.isNewline] using reads.isSignificant
  generalize same : '\n' = first at reads
  cases reads with
  | newline => rfl
  | blanks blank => subst same; cases blank
  | word start => subst same; cases start
  | lineComment => cases same
  | lineDoc => cases same
  | blockComment => cases same
  | blockDoc => cases same
  | _ => cases trivia

/-- The last character, if there is one, lies outside a class. -/
def EndsOutside (within : Char → Bool) (characters : List Char) : Prop :=
  ∀ c ∈ characters.getLast?, within c = false

namespace EndsOutside

variable {within other : Char → Bool} {characters : List Char}

theorem of_forall (outside : ∀ c ∈ characters, within c = false) :
    EndsOutside within characters :=
  fun c last => outside c (List.mem_of_mem_getLast? last)

theorem mono (ends : EndsOutside within characters)
    (wider : ∀ c, other c = true → within c = true) : EndsOutside other characters := by
  intro c last
  have outside := ends c last
  cases inside : other c with
  | false => rfl
  | true => rw [wider c inside] at outside; cases outside

theorem append_singleton (front : List Char) {last : Char} (outside : within last = false) :
    EndsOutside within (front ++ [last]) := by
  intro c same
  simp only [List.getLast?_append, List.getLast?_singleton, Option.some_or, Option.mem_def,
    Option.some.injEq] at same
  rw [← same, outside]

end EndsOutside

def Solid (characters : List Char) : Prop :=
  EndsOutside Character.isSpace characters

def isBreak (c : Char) : Bool :=
  Character.isSpace c || Character.isNewline c

theorem Quotation.Quoted.ends {body decoded : List Char} (quoted : Quoted body decoded) :
    ∃ front, body = front ++ ['"'] := by
  induction quoted with
  | close => exact ⟨[], rfl⟩
  | @plain c body decoded unquoted unescaped more ih =>
      obtain ⟨front, rfl⟩ := ih
      exact ⟨c :: front, rfl⟩
  | @escape letter c body decoded short more ih =>
      obtain ⟨front, rfl⟩ := ih
      exact ⟨'\\' :: letter :: front, rfl⟩
  | @code digit c digits body decoded first run value more ih =>
      obtain ⟨front, rfl⟩ := ih
      exact ⟨'\\' :: digit :: (digits ++ front), by simp⟩

theorem isBreak_of_within {within : Char → Bool} {c : Char} (inside : within c = true)
    (outside : within ' ' = false ∧ within '\t' = false ∧ within '\n' = false) :
    isBreak c = false := by
  have space : c ≠ ' ' := ne_of_within inside outside.1
  have tab : c ≠ '\t' := ne_of_within inside outside.2.1
  have newline : c ≠ '\n' := ne_of_within inside outside.2.2
  simp [isBreak, Character.isSpace, Character.isNewline, space, tab, newline]

theorem isBreak_of_opensSymbol {c : Char} (opens : opensSymbol c = true) : isBreak c = false :=
  isBreak_of_within opens (by decide)

theorem isNumeral_break (radix : Radix) : isNumeral radix ' ' = false ∧
    isNumeral radix '\t' = false ∧ isNumeral radix '\n' = false := by
  cases radix <;> decide

theorem Run.endsOutside_break {within : Char → Bool} {first : Char} {body tail : List Char}
    (run : Run within body tail) (front : isBreak first = false)
    (outside : within ' ' = false ∧ within '\t' = false ∧ within '\n' = false) :
    EndsOutside isBreak (first :: body) := by
  refine .of_forall fun c member => ?_
  rcases List.mem_cons.mp member with rfl | member
  · exact front
  · exact isBreak_of_within (run.inside c member) outside

/-- Besides blanks and line feeds, only a comment that ends with its line can
end in a blank. -/
theorem Reads.ends {first : Char} {body tail : List Char} {kind : Kind} {text : String}
    (reads : Reads first body tail kind text) (spaced : kind ≠ .space) (inline : kind ≠ .newline)
    (line : first ≠ '\'') : EndsOutside isBreak (first :: body) := by
  cases reads with
  | newline => exact absurd rfl inline
  | blanks => exact absurd rfl spaced
  | word start run => exact run.endsOutside_break (isBreak_of_within start (by decide)) (by decide)
  | decimal digit run =>
      exact run.endsOutside_break (isBreak_of_within digit (by decide)) (isNumeral_break _)
  | @hexadecimal c body tail digit run =>
      have inner : EndsOutside isBreak (c :: body) :=
        run.endsOutside_break (isBreak_of_within digit (by decide)) (isNumeral_break _)
      exact inner
  | dollar => exact .append_singleton [] (by decide)
  | @quaternary body tail run =>
      have inner : EndsOutside isBreak ('%' :: body) :=
        run.endsOutside_break (by decide) (isNumeral_break _)
      exact inner
  | moduloAssign => exact .append_singleton ['%'] (by decide)
  | @binary c body tail digit run =>
      have inner : EndsOutside isBreak (c :: body) :=
        run.endsOutside_break (isBreak_of_within digit (by decide)) (isNumeral_break _)
      exact inner
  | modulo => exact .append_singleton [] (by decide)
  | string quoted =>
      obtain ⟨front, rfl⟩ := quoted.ends
      exact .append_singleton ('"' :: front) (by decide)
  | lineComment => exact absurd rfl line
  | lineDoc => exact absurd rfl line
  | @blockComment body => exact .append_singleton ('\x7b' :: body) (by decide)
  | @blockDoc body =>
      have closing : isBreak '\x7d' = false := by decide
      have ending :=
        EndsOutside.append_singleton ('\x7b' :: '\x7b' :: (body ++ ['\x7d'])) closing
      simpa using ending
  | pair found =>
      exact .append_singleton [first] (isBreak_of_opensSymbol (pair?_opensSymbol found).2)
  | single found => exact .append_singleton [] (isBreak_of_opensSymbol (single?_opensSymbol found))

theorem Reads.solid {first : Char} {body tail : List Char} {kind : Kind} {text : String}
    (reads : Reads first body tail kind text) (spaced : kind ≠ .space) (line : first ≠ '\'') :
    Solid (first :: body) := by
  by_cases newline : kind = .newline
  · obtain ⟨rfl, rfl, _⟩ := reads.newline_body newline
    exact .append_singleton [] (by decide)
  · exact (reads.ends spaced newline line).mono fun c blank => by simp [isBreak, blank]

def trimEnd (characters : List Char) : List Char :=
  characters.rdropWhile Character.isSpace

theorem Solid.trimEnd {characters : List Char} (solid : Solid characters) :
    trimEnd characters = characters := by
  refine List.rdropWhile_eq_self_iff.mpr fun nonempty => ?_
  rw [solid _ (List.getLast?_eq_some_getLast nonempty)]
  simp

theorem trimEnd_append_cons (front : List Char) {c : Char} (solid : Character.isSpace c = false)
    (rest : List Char) : trimEnd (front ++ c :: rest) = front ++ trimEnd (c :: rest) := by
  have kept : (c :: rest).reverse.dropWhile Character.isSpace ≠ [] := by
    intro dropped
    have blank := List.dropWhile_eq_nil_iff.mp dropped c (by simp)
    rw [solid] at blank
    cases blank
  have nonempty : ((c :: rest).reverse.dropWhile Character.isSpace).isEmpty = false := by
    simpa using kept
  rw [trimEnd, trimEnd, List.rdropWhile, List.rdropWhile, List.reverse_append,
    List.dropWhile_append, nonempty]
  simp

theorem trimEnd_cons {c : Char} (solid : Character.isSpace c = false) (rest : List Char) :
    trimEnd (c :: rest) = c :: trimEnd rest := by
  induction rest using List.reverseRecOn with
  | nil => simp [trimEnd, solid]
  | append_singleton front last ih =>
      unfold trimEnd at ih ⊢
      rw [← List.cons_append, List.rdropWhile_concat, List.rdropWhile_concat, ih]
      split <;> rfl

theorem trimEnd_append_blanks (front : List Char) {blanks : List Char}
    (blank : ∀ c ∈ blanks, Character.isSpace c = true) :
    trimEnd (front ++ blanks) = trimEnd front := by
  have dropped : blanks.reverse.dropWhile Character.isSpace = [] :=
    List.dropWhile_eq_nil_iff.mpr fun c member => blank c (List.mem_reverse.mp member)
  rw [trimEnd, trimEnd, List.rdropWhile, List.rdropWhile, List.reverse_append,
    List.dropWhile_append, dropped]
  rfl

theorem trimEnd_subset {characters : List Char} {c : Char} (member : c ∈ trimEnd characters) :
    c ∈ characters :=
  (List.rdropWhile_prefix _ _).subset member

theorem Stops.trimEnd {within : Char → Bool} {body : List Char} (stops : Stops within body) :
    Stops within (trimEnd body) := by
  intro c front
  obtain ⟨rest, parts⟩ := List.rdropWhile_prefix Character.isSpace body
  refine stops c ?_
  rw [← parts]
  exact List.mem_head?_append_of_mem_head? front

/-- A single quote opens nothing but a comment that ends with its line. -/
theorem Reads.line_cases {first : Char} {body tail : List Char} {kind : Kind} {text : String}
    (reads : Reads first body tail kind text) (line : first = '\'') :
    (Stops Character.isLineCommentStart body ∧ Run isOnLine body tail ∧ kind = .comment ∧
      text = String.ofList body) ∨
    (∃ more, body = '\'' :: more ∧ Run isOnLine more tail ∧ kind = .docComment ∧
      text = String.ofList more) := by
  cases reads with
  | lineComment plain run => exact .inl ⟨plain, run, rfl, rfl⟩
  | lineDoc run => exact .inr ⟨_, rfl, run, rfl, rfl⟩
  | blanks blank => subst line; cases blank
  | word start => subst line; cases start
  | decimal digit => subst line; cases digit
  | pair found => subst line; cases (pair?_opensSymbol found).1
  | single found => subst line; cases single?_opensSymbol found
  | _ => cases line

theorem Reads.unbroken {first : Char} {body tail : List Char} {kind : Kind} {text : String}
    (reads : Reads first body tail kind text) (inline : kind ≠ .newline) :
    EndsOutside Character.isNewline (first :: body) := by
  by_cases space : kind = .space
  · refine .of_forall fun c member => ?_
    have blank := (reads.space_run space).1.inside c member
    have other : c ≠ '\n' := ne_of_within blank (by decide)
    simp [Character.isNewline, other]
  · by_cases line : first = '\''
    · subst line
      have onLine (more : List Char) (run : Run isOnLine more tail) :
          ∀ c ∈ '\'' :: more, Character.isNewline c = false := by
        refine List.forall_mem_cons.mpr ⟨rfl, fun c member => ?_⟩
        simpa [isOnLine] using run.inside c member
      rcases reads.line_cases rfl with ⟨_, run, _⟩ | ⟨more, rfl, run, _⟩
      · exact .of_forall (onLine body run)
      · exact .of_forall (List.forall_mem_cons.mpr ⟨rfl, onLine more run⟩)
    · exact (reads.ends space inline line).mono fun c newline => by simp [isBreak, newline]

theorem Reads.line_tail {first : Char} {body tail : List Char} {kind : Kind} {text : String}
    (reads : Reads first body tail kind text) (line : first = '\'') : Stops isOnLine tail := by
  rcases reads.line_cases line with ⟨_, run, _⟩ | ⟨_, _, run, _⟩ <;> exact run.stops

theorem Run.trimEnd {within : Char → Bool} {body tail : List Char} (run : Run within body tail) :
    Run within (trimEnd body) tail :=
  ⟨fun c member => run.inside c (trimEnd_subset member), run.stops⟩

/-- A comment at the end of a line is the same comment without the blanks at its
end, and any other lexeme but blanks has none there. -/
theorem Reads.trim {first : Char} {body tail : List Char} {kind : Kind} {text : String}
    (reads : Reads first body tail kind text) (spaced : kind ≠ .space) :
    ∃ less shown, trimEnd (first :: body) = first :: less ∧ Reads first less tail kind shown ∧
      (shown = text ∨ first = '\'' ∧ shown = String.ofList (trimEnd text.toList)) := by
  by_cases line : first = '\''
  · have quote : Character.isSpace '\'' = false := by decide
    rcases reads.line_cases line with ⟨plain, run, rfl, rfl⟩ | ⟨more, rfl, run, rfl, rfl⟩
    · subst line
      exact ⟨trimEnd body, _, trimEnd_cons quote body, .lineComment plain.trimEnd run.trimEnd,
        .inr ⟨rfl, by rw [String.toList_ofList]⟩⟩
    · subst line
      refine ⟨'\'' :: trimEnd more, _, ?_, .lineDoc run.trimEnd,
        .inr ⟨rfl, by rw [String.toList_ofList]⟩⟩
      rw [trimEnd_cons quote, trimEnd_cons quote]
  · exact ⟨body, text, (reads.solid spaced line).trimEnd, reads, .inl rfl⟩

end Lexeme

end SpinBlocks
