import SpinBlocks.Proofs.Extents

namespace SpinBlocks

/-! Constants that are printed can be read again.

A constant keeps the text of its name and the digits of its value just as they
were written, and both are lexemes wherever a blank or a line feed follows them.
In a block of constants no line waits for its indentation, so nothing but these
lexemes is read from what was printed.
-/

/-- A block of constants, with one of them on each line. -/
def printConstants (declarations : List Declaration) : String :=
  "CON\n" ++ String.join (declarations.map fun declaration => declaration.render ++ "\n")

def Token.word (token : Token) : Kind × String :=
  (token.kind, token.text)

/-- The text is a row of lexemes of these kinds and texts. -/
inductive Spells : List Char → List (Kind × String) → Prop
  | nil : Spells [] []
  | cons {first : Char} {body tail : List Char} {kind : Kind} {text : String}
      {words : List (Kind × String)} (reads : Lexeme.Reads first body tail kind text)
      (more : Spells tail words) : Spells (first :: (body ++ tail)) ((kind, text) :: words)

namespace Lexer

/-- No level is open, and no line will wait for its indentation. -/
structure Calm (lexer : Lexer) : Prop where
  pending : lexer.layout.pending = false
  levels : lexer.layout.levels = []
  elsewhere : lexer.region ≠ .methods

variable {lexer : Lexer}

theorem Calm.step_reads (calm : lexer.Calm) {first : Char} {body tail : List Char} {kind : Kind}
    {text : String} (next : lexer.reader.rest = first :: (body ++ tail))
    (reads : Lexeme.Reads first body tail kind text) (plain : kind.isBlockKeyword = false) :
    lexer.step.token.word = (kind, text) ∧ lexer.step.after.reader.rest = tail ∧
      lexer.step.after.Calm := by
  have ready : lexer.layout.Ready first lexer.layout := by
    simp [Layout.Ready, Layout.waits, calm.pending]
  rw [Lexer.step_reads next reads ready]
  refine ⟨rfl, rfl, ?_, ?_, ?_⟩
  · by_contra pends
    rcases Layout.pending_behind _ _ _ _ (by simpa using pends) with pends | ⟨_, methods⟩
    · rw [calm.pending] at pends
      cases pends
    · exact calm.elsewhere methods
  · rw [Layout.levels_behind]
    exact calm.levels
  · rw [Kind.regionBehind_of_not_opens plain]
    exact calm.elsewhere

/-- A calm lexer reads the lexemes of its text, then the end. -/
theorem Calm.steps (calm : lexer.Calm) {text : List Char} {words : List (Kind × String)}
    (spells : Spells text words) (next : lexer.reader.rest = text)
    (plain : ∀ word ∈ words, word.1.isBlockKeyword = false) :
    ∃ run final, lexer.steps = run ++ [final] ∧ final.token.kind = .eof ∧
      run.map (·.token.word) = words := by
  induction spells generalizing lexer with
  | nil =>
      have atEnd : lexer.step.token.kind = .eof := by
        rw [step_nil next]
        simp [endOfInput, Layout.finish, calm.levels, marker, tokenFrom, Token.between]
      exact ⟨[], lexer.step, by rw [steps_eq, if_pos atEnd]; rfl, atEnd, rfl⟩
  | @cons first body tail kind text words reads more ih =>
      obtain ⟨here, others⟩ := List.forall_mem_cons.mp plain
      obtain ⟨word, behind, calm⟩ := calm.step_reads next reads here
      obtain ⟨run, final, steps, atEnd, same⟩ := ih calm behind others
      have unfinished : lexer.step.token.kind ≠ .eof := by
        intro ended
        have kinds : lexer.step.token.kind = kind := congrArg Prod.fst word
        have mark := reads.isMark
        rw [← kinds, ended] at mark
        cases mark
      refine ⟨lexer.step :: run, final, ?_, atEnd, by rw [List.map_cons, word, same]⟩
      rw [steps_eq, if_neg unfinished, steps, List.cons_append]

end Lexer

namespace Lexeme

variable {first : Char} {body tail : List Char} {kind : Kind} {text : String}

/-- A name is written as it is read, and stays a name in front of a blank. -/
theorem Reads.identifier (reads : Reads first body tail kind text) (named : kind = .identifier)
    (other : List Char) :
    text.toList = first :: body ∧ Reads first body (' ' :: other) .identifier text := by
  cases reads with
  | word start run =>
      refine ⟨String.toList_ofList, named ▸ .word start ⟨run.inside, ?_⟩⟩
      rintro c ⟨⟩
      rfl
  | _ => cases named

/-- A number is written as its sigil and the digits that are read. -/
theorem Reads.number (reads : Reads first body tail kind text) {radix : Radix}
    (number : kind = .number radix) : radix.sigil.toList ++ text.toList = first :: body := by
  cases reads with
  | decimal => cases number; simp [Radix.sigil]
  | hexadecimal => cases number; simp [Radix.sigil]
  | quaternary => cases number; simp [Radix.sigil]
  | binary => cases number; simp [Radix.sigil]
  | word =>
      rcases wordKind_cases (first :: body) with ⟨keyword, found⟩ | found <;>
        rw [found] at number <;> cases number
  | _ => cases number

/-- A blank in front of anything else. -/
theorem reads_blank {c : Char} (solid : Character.isSpace c = false) (rest : List Char) :
    Reads ' ' [] (c :: rest) .space " " := by
  refine @Reads.blanks ' ' [] (c :: rest) rfl ⟨nofun, ?_⟩
  rintro d ⟨⟩
  exact solid

theorem reads_assign {rest : List Char} : Reads '=' [] (' ' :: rest) (.operator .assign) "=" := by
  refine @Reads.single '=' (' ' :: rest) .assign rfl ?_
  rintro c ⟨⟩
  decide

theorem reads_con (rest : List Char) :
    Reads 'C' ['O', 'N'] ('\n' :: rest) (.keyword (.block .con)) "CON" := by
  refine @Reads.word 'C' ['O', 'N'] ('\n' :: rest) rfl ⟨List.all_eq_true.mp rfl, ?_⟩
  rintro c ⟨⟩
  rfl

end Lexeme

/-- The lexeme that a token of a text was read from. -/
theorem reads_of_mem_tokens {source : String} {token : Token} (member : token ∈ tokens source)
    (plain : token.kind.isMark = false) (sound : token.kind.isFault = false) :
    ∃ first body tail, Lexeme.Reads first body tail token.kind token.text := by
  obtain ⟨step, among, rfl⟩ := List.mem_map.mp member
  obtain ⟨_, reached, _, rfl⟩ := Lexer.mem_steps_reaches among
  cases reached.step_transition.sound sound with
  | mark mark =>
      rw [plain] at mark
      cases mark
  | newline _ takes => exact ⟨_, _, _, takes.reads⟩
  | blanks _ takes => exact ⟨_, _, _, takes.reads⟩
  | visible _ takes => exact ⟨_, _, _, takes.reads⟩

namespace Declaration

open Lexeme (reads_blank reads_assign)

/-- The lexemes of a line that a declaration is printed on. -/
def words (declaration : Declaration) : List (Kind × String) :=
  [(.identifier, declaration.name), (.space, " "), (.operator .assign, "="), (.space, " "),
    (.number declaration.value.radix, declaration.value.digits), (.newline, "\n")]

theorem isBlockKeyword_words (declaration : Declaration) :
    ∀ word ∈ declaration.words, word.1.isBlockKeyword = false := by
  simp [words, Kind.isBlockKeyword, Kind.block?]

/-- The name and the value are lexemes where they are printed, and the value is
that of its digits. -/
structure Legible (declaration : Declaration) : Prop where
  name : ∃ first body, declaration.name.toList = first :: body ∧
    ∀ tail, Lexeme.Reads first body (' ' :: tail) .identifier declaration.name
  value : ∃ first body, declaration.value.render.toList = first :: body ∧
    ∀ tail, Lexeme.Reads first body ('\n' :: tail) (.number declaration.value.radix)
      declaration.value.digits
  counts : ∀ token : Token,
    token.word = (.number declaration.value.radix, declaration.value.digits) →
      token.Counts declaration.value.radix ∧
        token.literal declaration.value.radix = declaration.value

theorem Legible.spells {declaration : Declaration} (legible : declaration.Legible)
    {tail : List Char} {words : List (Kind × String)} (more : Spells tail words) :
    Spells ((declaration.render ++ "\n").toList ++ tail) (declaration.words ++ words) := by
  obtain ⟨first, body, name, named⟩ := legible.name
  obtain ⟨digit, digits, value, counted⟩ := legible.value
  have text : (declaration.render ++ "\n").toList ++ tail =
      first :: (body ++ ' ' :: '=' :: ' ' :: digit :: (digits ++ '\n' :: tail)) := by
    simp [render, name, value]
  rw [text]
  -- The blank behind the sign ends where the sigil or the first digit stands.
  have solid : Character.isSpace digit = false := by
    have other := mt (counted tail).isSpace_first.mp Kind.noConfusion
    simpa using other
  exact .cons (named _) (.cons (reads_blank (by decide) _) (.cons reads_assign
    (.cons (reads_blank solid _) (.cons (counted tail) (.cons .newline more)))))

theorem spells_lines {declarations : List Declaration}
    (legible : ∀ declaration ∈ declarations, declaration.Legible) :
    Spells (declarations.flatMap fun declaration => (declaration.render ++ "\n").toList)
      (declarations.flatMap (·.words)) := by
  induction declarations with
  | nil => exact .nil
  | cons declaration declarations ih =>
      obtain ⟨here, others⟩ := List.forall_mem_cons.mp legible
      rw [List.flatMap_cons, List.flatMap_cons]
      exact here.spells (ih others)

/-- Tokens that are spelled like printed declarations declare the same again. -/
theorem constants_of_words {declarations : List Declaration} {tokens : List Token}
    (legible : ∀ declaration ∈ declarations, declaration.Legible)
    (words : tokens.map (·.word) = declarations.flatMap (·.words)) :
    Constants (significant tokens) (declarations.map (·.outline)) := by
  induction declarations generalizing tokens with
  | nil =>
      obtain rfl : tokens = [] := List.map_eq_nil_iff.mp words
      exact .nil
  | cons declaration declarations ih =>
      obtain ⟨here, others⟩ := List.forall_mem_cons.mp legible
      rw [List.flatMap_cons] at words
      obtain ⟨line, rest, rfl, spelled, more⟩ := List.map_eq_append_iff.mp words
      obtain ⟨name, _, rfl, named, behind⟩ := List.map_eq_cons_iff.mp spelled
      obtain ⟨blank, _, rfl, first, behind⟩ := List.map_eq_cons_iff.mp behind
      obtain ⟨assign, _, rfl, assigns, behind⟩ := List.map_eq_cons_iff.mp behind
      obtain ⟨space, _, rfl, second, behind⟩ := List.map_eq_cons_iff.mp behind
      obtain ⟨number, _, rfl, numbered, behind⟩ := List.map_eq_cons_iff.mp behind
      obtain ⟨feed, _, rfl, third, behind⟩ := List.map_eq_cons_iff.mp behind
      obtain rfl := List.map_eq_nil_iff.mp behind
      obtain ⟨counts, literal⟩ := here.counts number numbered
      simp only [Token.word, Prod.mk.injEq] at named first assigns second third
      have counted : significant ([name, blank, assign, space, number, feed] ++ rest) =
          name :: assign :: number :: significant rest := by
        simp [significant, named.1, first.1, assigns.1, second.1, third.1, counts.1, Kind.isTrivia]
      rw [counted, List.map_cons, outline, ← named.2, ← literal]
      exact .cons named.1 assigns.1 counts (ih others more)

end Declaration

/-- What is declared by tokens that were read can be printed and read again. -/
theorem Declares.legible {body : List Token} {declarations : List Declaration}
    (declares : Declares body declarations)
    (read : ∀ token ∈ body, ∃ first rest tail,
      Lexeme.Reads first rest tail token.kind token.text) :
    ∀ declaration ∈ declarations, declaration.Legible := by
  induction declares with
  | nil => simp
  | @cons name assign number radix tokens declarations named assigns counts more ih =>
      have others := ih fun token member => read token (by simp [member])
      refine List.forall_mem_cons.mpr ⟨⟨?_, ?_, ?_⟩, others⟩
      · obtain ⟨first, rest, tail, reads⟩ := read name (by simp)
        exact ⟨first, rest, (reads.identifier named []).1, fun tail =>
          (reads.identifier named tail).2⟩
      · obtain ⟨first, rest, tail, reads⟩ := read number (by simp)
        have written := reads.number counts.1
        rw [counts.1] at reads
        refine ⟨first, rest, ?_, fun other => reads.replace ?_⟩
        · rw [← written]
          exact String.toList_append
        · rintro c ⟨⟩
          exact .inr rfl
      · intro token word
        exact counts.congr ((congrArg Prod.fst word).trans counts.1.symm) (congrArg Prod.snd word)

theorem Object.legible {source : String} {object : Object}
    (parsed : Object.parse source = .ok object) :
    ∀ declaration ∈ object.constants, declaration.Legible := by
  intro declaration member
  obtain ⟨block, present, declared⟩ := List.mem_flatMap.mp member
  obtain ⟨lead, parts, final, cut, _, _, formed⟩ := Object.parse_parts parsed
  obtain ⟨part, among, forms, _⟩ := formed.exists_part present
  have inside : ∀ token ∈ significant part, token ∈ tokens source := by
    intro token member
    rw [cut]
    have held := List.mem_flatten_of_mem among (List.mem_filter.mp member).1
    simp [held]
  generalize significant part = row at forms inside
  cases forms with
  | constants opens declares =>
      refine declares.legible (fun token member => ?_) declaration declared
      exact reads_of_mem_tokens (inside token (List.mem_cons_of_mem _ member))
        (declares.isMark token member) (declares.plain token member).2
  | raw => cases declared

theorem toList_printConstants (declarations : List Declaration) :
    (printConstants declarations).toList = 'C' :: (['O', 'N'] ++ '\n' ::
      declarations.flatMap fun declaration => (declaration.render ++ "\n").toList) := by
  simp [printConstants, String.toList_join, List.flatMap_map]

/-- The tokens of a printed block. -/
theorem tokens_printConstants {declarations : List Declaration}
    (legible : ∀ declaration ∈ declarations, declaration.Legible) :
    ∃ start feed body final,
      tokens (printConstants declarations) = start :: feed :: (body ++ [final]) ∧
        start.kind = .keyword (.block .con) ∧ feed.kind = .newline ∧ final.kind = .eof ∧
        body.map (·.word) = declarations.flatMap (·.words) := by
  let lexer := Lexer.ofString (printConstants declarations)
  have next : lexer.reader.rest = _ := toList_printConstants declarations
  have ready : lexer.layout.Ready 'C' .initial := rfl
  have stepped := Lexer.step_reads next (Lexeme.reads_con _) ready
  have calm : lexer.step.after.Calm := by
    rw [stepped]
    exact ⟨rfl, rfl, Region.noConfusion⟩
  have spells := Spells.cons .newline (Declaration.spells_lines legible)
  have plain : ∀ word ∈ (Kind.newline, "\n") :: declarations.flatMap (·.words),
      word.1.isBlockKeyword = false := by
    refine List.forall_mem_cons.mpr ⟨rfl, fun word member => ?_⟩
    obtain ⟨declaration, _, spelled⟩ := List.mem_flatMap.mp member
    exact declaration.isBlockKeyword_words word spelled
  obtain ⟨run, final, steps, atEnd, words⟩ := calm.steps spells (by rw [stepped]; rfl) plain
  obtain ⟨feed, body, rfl, fed, words⟩ := List.map_eq_cons_iff.mp words
  have opens : lexer.step.token.kind = .keyword (.block .con) := by rw [stepped]; rfl
  have unfinished : lexer.step.token.kind ≠ .eof := by rw [opens]; exact Kind.noConfusion
  refine ⟨lexer.step.token, feed.token, body.map (·.token), final.token, ?_, opens,
    congrArg Prod.fst fed, atEnd, ?_⟩
  · change lexer.steps.map (·.token) = _
    rw [Lexer.steps_eq, if_neg unfinished, steps]
    simp
  · rw [List.map_map]
    exact words

theorem Object.outline_constants (object : Object) :
    object.constants.map (·.outline) = (object.blocks.map (·.outline)).flatMap (·.constants) := by
  rw [constants, List.map_flatMap, List.flatMap_map]
  rfl

theorem Object.outline_find? (object : Object) (name : String) :
    (object.find? name).map (·.outline) =
      (object.constants.map (·.outline)).find? fun constant => sameName constant.1 name := by
  rw [List.find?_map]
  rfl

/-- The constants of a text, printed as one block, are read back as they are, and
so is what is found under any name. -/
theorem printed_constants_parse {source : String} {object : Object}
    (parsed : Object.parse source = .ok object) :
    ∃ again, Object.parse (printConstants object.constants) = .ok again ∧
      again.blocks.map (·.outline) = [⟨.con, object.constants.map (·.outline)⟩] ∧
      ∀ name, (again.find? name).map (·.outline) = (object.find? name).map (·.outline) := by
  have legible := Object.legible parsed
  obtain ⟨start, feed, body, final, whole, opens, fed, atEnd, words⟩ :=
    tokens_printConstants legible
  have constants := Declaration.constants_of_words legible words
  have coming : significant (tokens (printConstants object.constants)) =
      start :: significant body ++ [final] := by
    rw [whole]
    simp [significant, opens, fed, atEnd, Kind.isTrivia]
  have derived : Blocks (start :: significant body) [⟨.con, object.constants.map (·.outline)⟩] := by
    have block := Blocks.constants opens constants .nil
    rwa [List.append_nil] at block
  have sound : ∀ token ∈ start :: significant body, token.kind.isFault = false := by
    obtain ⟨_, declares, _⟩ := constants.declares
    refine List.forall_mem_cons.mpr ⟨by rw [opens]; rfl, fun token member => ?_⟩
    exact (declares.plain token member).2
  have stream : Stream (Supply.ofString (printConstants object.constants)).coming :=
    Stream.of_source _
  obtain ⟨blocks, rest, read, same⟩ := Supply.blocks_complete derived stream coming atEnd sound
  refine ⟨⟨blocks⟩, by rw [Object.parse, read]; rfl, same, fun name => ?_⟩
  rw [Object.outline_find?, Object.outline_find?, Object.outline_constants ⟨blocks⟩, same,
    List.flatMap_singleton]

/-- A name like a keyword, a quaternary number that begins with a separator, and a
name that is given twice, in two blocks. -/
theorem printed_constants_parse_mixed :
    Object.parse "CON cons = %%_3 'x\nDAT CON x = $fF y=%1_0 X = 07" =
        .ok ⟨[.constants [⟨"cons", ⟨.quaternary, "_3", 3⟩, ⟨4, 15⟩⟩] ⟨0, 15⟩,
          .raw .dat (by decide) ⟨19, 22⟩,
          .constants [⟨"x", ⟨.hexadecimal, "fF", 255⟩, ⟨27, 34⟩⟩,
            ⟨"y", ⟨.binary, "1_0", 2⟩, ⟨35, 41⟩⟩, ⟨"X", ⟨.decimal, "07", 7⟩, ⟨42, 48⟩⟩]
            ⟨23, 48⟩]⟩ ∧
      ∃ again, Object.parse "CON\ncons = %%_3\nx = $fF\ny = %1_0\nX = 07\n" = .ok again ∧
        again.blocks.map (·.outline) =
          [⟨.con, [("cons", ⟨.quaternary, "_3", 3⟩), ("x", ⟨.hexadecimal, "fF", 255⟩),
            ("y", ⟨.binary, "1_0", 2⟩), ("X", ⟨.decimal, "07", 7⟩)]⟩] ∧
        (again.find? "X").map (·.outline) = some ("x", ⟨.hexadecimal, "fF", 255⟩) :=
  have parsed : Object.parse "CON cons = %%_3 'x\nDAT CON x = $fF y=%1_0 X = 07" =
      .ok ⟨[.constants [⟨"cons", ⟨.quaternary, "_3", 3⟩, ⟨4, 15⟩⟩] ⟨0, 15⟩,
        .raw .dat (by decide) ⟨19, 22⟩,
        .constants [⟨"x", ⟨.hexadecimal, "fF", 255⟩, ⟨27, 34⟩⟩,
          ⟨"y", ⟨.binary, "1_0", 2⟩, ⟨35, 41⟩⟩, ⟨"X", ⟨.decimal, "07", 7⟩, ⟨42, 48⟩⟩]
          ⟨23, 48⟩]⟩ := by
    decide +kernel
  have ⟨again, read, outlines, found⟩ := printed_constants_parse parsed
  ⟨parsed, again, read, outlines, found "X"⟩

end SpinBlocks
