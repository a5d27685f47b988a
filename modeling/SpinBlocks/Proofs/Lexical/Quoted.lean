import Mathlib.Data.List.TakeWhile
import SpinBlocks.Lexeme

namespace SpinBlocks.Lexeme

/-! Runs of characters, and the strings made of them.

A run is as long as its class of characters allows, so what stands behind it
matters only by its first character. What stands behind a closed string does
not matter at all.
-/

def Stops (within : Char → Bool) (tail : List Char) : Prop :=
  ∀ c ∈ tail.head?, within c = false

/-- A run of characters of one class that cannot be made longer. -/
structure Run (within : Char → Bool) (body tail : List Char) : Prop where
  inside : ∀ c ∈ body, within c = true
  stops : Stops within tail

theorem Run.takeWhile {within : Char → Bool} {body tail : List Char}
    (run : Run within body tail) : (body ++ tail).takeWhile within = body := by
  rw [List.takeWhile_append_of_pos run.inside]
  cases tail with
  | nil => simp
  | cons c rest =>
      have stopped : within c = false := run.stops c (by simp)
      simp [stopped]

theorem Run.of_takeWhile (within : Char → Bool) (rest : List Char) :
    Run within (rest.takeWhile within) (rest.dropWhile within) := by
  refine ⟨fun c member => List.mem_takeWhile_imp member, ?_⟩
  intro c front
  have first := List.head?_dropWhile_not within rest
  rw [Option.mem_def.mp front] at first
  simpa using first

theorem drop_takeWhile (within : Char → Bool) (rest : List Char) :
    rest.drop (rest.takeWhile within).length = rest.dropWhile within := by
  have parts := List.takeWhile_append_dropWhile (p := within) (l := rest)
  calc rest.drop (rest.takeWhile within).length
      = (rest.takeWhile within ++ rest.dropWhile within).drop (rest.takeWhile within).length := by
        rw [parts]
    _ = rest.dropWhile within := List.drop_left

theorem Stops.append {within : Char → Bool} {body : List Char} (stops : Stops within body)
    (nonempty : body ≠ []) (tail : List Char) : Stops within (body ++ tail) := by
  obtain ⟨first, rest, rfl⟩ := List.exists_cons_of_ne_nil nonempty
  exact stops

def isOnLine (c : Char) : Bool := !Character.isNewline c

theorem Stops.append_of {within : Char → Bool} {body tail : List Char}
    (front : Stops within body) (back : Stops within tail) : Stops within (body ++ tail) := by
  cases body with
  | nil => exact back
  | cons c rest => exact front.append (List.cons_ne_nil c rest) tail

/-- A line goes on up to its line feed, which is in no other class. -/
theorem Stops.of_onLine {within : Char → Bool} {tail : List Char} (stops : Stops isOnLine tail)
    (outside : within '\n' = false) : Stops within tail := by
  intro c front
  have newline : c = '\n' := by simpa [isOnLine, Character.isNewline] using stops c front
  rw [newline, outside]

namespace Quotation

theorem read_character {input : List Char} {decoded : Char} {length : Nat}
    (found : Item.read input = .character decoded length) :
    read input =
      ⟨decoded :: (read (input.drop length)).decoded, (read (input.drop length)).ending,
        length + (read (input.drop length)).length⟩ := by
  rw [read]
  split
  · rename_i same
    obtain ⟨rfl, rfl⟩ := Item.character.inj (found.symm.trans same)
    rfl
  · rename_i same
    cases found.symm.trans same

theorem read_ending {input : List Char} {ending : Ending} {length : Nat}
    (found : Item.read input = .ending ending length) : read input = ⟨[], ending, length⟩ := by
  rw [read]
  split
  · rename_i same
    cases found.symm.trans same
  · rename_i same
    obtain ⟨rfl, rfl⟩ := Item.ending.inj (found.symm.trans same)
    rfl

def shortEscapes : List (Char × Char) := [('n', '\n'), ('t', '\t'), ('"', '"')]

/-- What may follow an opening quote, up to the closing one, and its value. -/
inductive Quoted : List Char → List Char → Prop
  | close : Quoted ['"'] []
  | plain {c : Char} {body decoded : List Char} (unquoted : c ≠ '"') (unescaped : c ≠ '\\')
      (more : Quoted body decoded) : Quoted (c :: body) (c :: decoded)
  | escape {letter c : Char} {body decoded : List Char} (short : (letter, c) ∈ shortEscapes)
      (more : Quoted body decoded) : Quoted ('\\' :: letter :: body) (c :: decoded)
  | code {digit c : Char} {digits body decoded : List Char}
      (first : Character.isDecimalDigit digit = true)
      (run : Run Character.isDecimalDigit digits body)
      (value : decode? (digit :: digits) = some c) (more : Quoted body decoded) :
      Quoted ('\\' :: digit :: (digits ++ body)) (c :: decoded)

theorem Quoted.ne_nil {body decoded : List Char} (quoted : Quoted body decoded) : body ≠ [] := by
  cases quoted <;> simp

theorem Item.read_plain {c : Char} (rest : List Char) (unquoted : c ≠ '"')
    (unescaped : c ≠ '\\') : Item.read (c :: rest) = .character c 1 := by
  unfold Item.read
  split <;> simp_all

theorem Item.read_short {letter c : Char} (rest : List Char)
    (short : (letter, c) ∈ shortEscapes) :
    Item.read ('\\' :: letter :: rest) = .character c 2 := by
  simp only [shortEscapes, List.mem_cons, Prod.mk.injEq, List.not_mem_nil, or_false] at short
  rcases short with ⟨rfl, rfl⟩ | ⟨rfl, rfl⟩ | ⟨rfl, rfl⟩ <;> rfl

theorem Item.escape_digit {digit : Char} (rest : List Char)
    (first : Character.isDecimalDigit digit = true) :
    Item.escape (digit :: rest) =
      Item.ofCode (digit :: rest.takeWhile Character.isDecimalDigit) := by
  unfold Item.escape
  split
  · contradiction
  · rename_i same
    cases same
    exact absurd first (by decide)
  · rename_i same
    cases same
    exact absurd first (by decide)
  · rename_i same
    cases same
    exact absurd first (by decide)
  · rename_i same
    cases same
    rw [if_pos first]

theorem Item.read_code {digit c : Char} {digits tail : List Char}
    (first : Character.isDecimalDigit digit = true)
    (run : Run Character.isDecimalDigit digits tail)
    (value : decode? (digit :: digits) = some c) :
    Item.read ('\\' :: digit :: (digits ++ tail)) = .character c (digits.length + 2) := by
  change Item.escape (digit :: (digits ++ tail)) = _
  rw [Item.escape_digit _ first, run.takeWhile, Item.ofCode, value, List.length_cons]

/-- A quoted body reads as itself, whatever stands behind it. -/
theorem Quoted.read_append {body decoded : List Char} (quoted : Quoted body decoded)
    (tail : List Char) : read (body ++ tail) = ⟨decoded, .closed, body.length⟩ := by
  induction quoted with
  | close => exact read_ending rfl
  | @plain c body decoded unquoted unescaped more ih =>
      rw [List.cons_append, read_character (Item.read_plain _ unquoted unescaped),
        List.drop_one, List.tail_cons, ih, List.length_cons, Nat.add_comm]
  | @escape letter c body decoded short more ih =>
      rw [List.cons_append, List.cons_append, read_character (Item.read_short _ short)]
      simp only [List.drop_succ_cons, List.drop_zero, ih, List.length_cons, Nat.add_comm 2]
  | @code digit c digits body decoded first run value more ih =>
      have stops := run.stops.append more.ne_nil tail
      rw [List.cons_append, List.cons_append, List.append_assoc,
        read_character (Item.read_code first ⟨run.inside, stops⟩ value)]
      simp only [List.drop_succ_cons, List.drop_left, ih, List.length_cons, List.length_append]
      congr 1
      omega

theorem Item.read_cases {input : List Char} {c : Char} {length : Nat}
    (found : Item.read input = .character c length) :
    (∃ rest, input = c :: rest ∧ c ≠ '"' ∧ c ≠ '\\' ∧ length = 1) ∨
    (∃ letter rest, input = '\\' :: letter :: rest ∧ (letter, c) ∈ shortEscapes ∧ length = 2) ∨
    (∃ digit rest, input = '\\' :: digit :: rest ∧ Character.isDecimalDigit digit = true ∧
      decode? (digit :: rest.takeWhile Character.isDecimalDigit) = some c ∧
      length = (rest.takeWhile Character.isDecimalDigit).length + 2) := by
  unfold Item.read at found
  split at found
  · contradiction
  · contradiction
  · refine .inr ?_
    unfold Item.escape at found
    split at found
    · contradiction
    · cases found
      exact .inl ⟨_, _, rfl, by decide, rfl⟩
    · cases found
      exact .inl ⟨_, _, rfl, by decide, rfl⟩
    · cases found
      exact .inl ⟨_, _, rfl, by decide, rfl⟩
    · split at found
      · rename_i digit
        unfold Item.ofCode at found
        split at found
        · rename_i value
          cases found
          exact .inr ⟨_, _, rfl, digit, value, rfl⟩
        · contradiction
      · contradiction
  · rename_i unquoted unescaped
    cases found
    exact .inl ⟨_, rfl, unquoted, unescaped, rfl⟩

theorem Item.read_closed {input : List Char} {length : Nat}
    (found : Item.read input = .ending .closed length) : ∃ rest, input = '"' :: rest ∧ length = 1 := by
  unfold Item.read at found
  split at found
  · cases found
  · cases found
    exact ⟨_, rfl, rfl⟩
  · unfold Item.escape at found
    split at found
    · cases found
    · cases found
    · cases found
    · cases found
    · split at found
      · unfold Item.ofCode at found
        split at found <;> cases found
      · cases found
  · cases found

theorem read_quoted {input : List Char} (closed : (read input).ending = .closed) :
    ∃ body tail, input = body ++ tail ∧ (read input).length = body.length ∧
      Quoted body (read input).decoded := by
  fun_induction read input with
  | case1 input c length found rest ih =>
      obtain ⟨body, tail, parts, taken, quoted⟩ := ih closed
      dsimp only
      rcases Item.read_cases found with ⟨more, rfl, unquoted, unescaped, rfl⟩ |
        ⟨letter, more, rfl, short, rfl⟩ | ⟨digit, more, rfl, first, value, rfl⟩
      · have split : more = body ++ tail := parts
        exact ⟨c :: body, tail, by rw [split, List.cons_append],
          by rw [taken, List.length_cons, Nat.add_comm], .plain unquoted unescaped quoted⟩
      · have split : more = body ++ tail := parts
        exact ⟨'\\' :: letter :: body, tail, by rw [split]; rfl,
          by rw [taken, List.length_cons, List.length_cons, Nat.add_comm], .escape short quoted⟩
      · have run := Run.of_takeWhile Character.isDecimalDigit more
        simp only [List.drop_succ_cons, drop_takeWhile] at parts
        have stops : Stops Character.isDecimalDigit body := by
          obtain ⟨front, back, rfl⟩ := List.exists_cons_of_ne_nil quoted.ne_nil
          have := run.stops
          rw [parts] at this
          exact this
        refine ⟨'\\' :: digit :: (more.takeWhile Character.isDecimalDigit ++ body), tail, ?_, ?_,
          .code first ⟨run.inside, stops⟩ value quoted⟩
        · rw [List.cons_append, List.cons_append, List.append_assoc, ← parts,
            List.takeWhile_append_dropWhile]
        · rw [taken]
          simp only [List.length_cons, List.length_append]
          omega
  | case2 input ending length found =>
      dsimp only at closed ⊢
      subst closed
      obtain ⟨rest, rfl, rfl⟩ := Item.read_closed found
      exact ⟨['"'], rest, rfl, rfl, .close⟩

end Quotation

end SpinBlocks.Lexeme
