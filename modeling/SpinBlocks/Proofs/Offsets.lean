import Mathlib.Order.Bounds.Basic
import SpinBlocks.Proofs.Locating

namespace SpinBlocks

/-! Where any byte offset lies.

An offset past the end or inside a character is moved back to the last boundary.
The text before that boundary is a number of whole lines and the opening of one
more, and a location tells just these: how many lines, how long the opening is, and
the line that it opens. All offsets that the location is worked out with are sizes
of such parts, so every cut falls on a boundary.
-/

namespace Bytes

variable {characters front back : List Char} {offset : Nat}

theorem upTo_eq (fits : size front ≤ offset)
    (exceeds : ∀ c ∈ back.head?, offset < size front + c.utf8Size) :
    upTo (front ++ back) offset = front := by
  induction front generalizing offset with
  | nil =>
      cases back with
      | nil => rfl
      | cons c rest =>
          have wide := exceeds c rfl
          rw [size_nil, Nat.zero_add] at wide
          rw [List.nil_append, upTo, if_neg (Nat.not_le_of_lt wide)]
  | cons first rest ih =>
      rw [size_cons] at fits
      have within : upTo (rest ++ back) (offset - first.utf8Size) = rest := by
        refine ih (by omega) ?_
        intro c next
        have wide := exceeds c next
        rw [size_cons] at wide
        omega
      rw [List.cons_append, upTo, if_pos (by omega), within]

/-- What `upTo` leaves behind begins with a character that ends past the offset. -/
theorem exists_upTo (characters : List Char) (offset : Nat) :
    ∃ front back, characters = front ++ back ∧ upTo characters offset = front ∧
      size front ≤ offset ∧ ∀ c ∈ back.head?, offset < size front + c.utf8Size := by
  induction characters generalizing offset with
  | nil => exact ⟨[], [], rfl, rfl, Nat.zero_le _, by simp⟩
  | cons first rest ih =>
      by_cases fits : first.utf8Size ≤ offset
      · obtain ⟨front, back, parts, cut, short, exceeds⟩ := ih (offset - first.utf8Size)
        refine ⟨first :: front, back, by rw [parts, List.cons_append], ?_, ?_, ?_⟩
        · rw [upTo, if_pos fits, cut]
        · rw [size_cons]
          omega
        · intro c next
          have wide := exceeds c next
          rw [size_cons]
          omega
      · refine ⟨[], first :: rest, rfl, by rw [upTo, if_neg fits], Nat.zero_le _, ?_⟩
        intro c next
        obtain rfl : first = c := by simpa using next
        rw [size_nil]
        omega

theorem size_le_size_upTo (fits : size front ≤ offset) :
    size front ≤ size (upTo (front ++ back) offset) := by
  induction front generalizing offset with
  | nil => exact Nat.zero_le _
  | cons first rest ih =>
      rw [size_cons] at fits
      have longer : size rest ≤ size (upTo (rest ++ back) (offset - first.utf8Size)) :=
        ih (by omega)
      rw [List.cons_append, upTo, if_pos (by omega), size_cons, size_cons]
      omega

theorem drop?_eq_some (found : drop? characters offset = some back) :
    ∃ front, characters = front ++ back ∧ size front = offset := by
  fun_induction drop? characters offset with
  | case1 characters =>
      obtain rfl : characters = back := by simpa using found
      exact ⟨[], rfl, rfl⟩
  | case2 count => cases found
  | case3 first rest count fits ih =>
      obtain ⟨front, rfl, size⟩ := ih found
      refine ⟨first :: front, rfl, ?_⟩
      rw [size_cons, size]
      omega
  | case4 first rest count exceeds => cases found

theorem isBoundary_iff :
    isBoundary characters offset = true ↔
      ∃ front back, characters = front ++ back ∧ size front = offset := by
  rw [isBoundary, Option.isSome_iff_exists]
  constructor
  · rintro ⟨back, found⟩
    obtain ⟨front, parts, size⟩ := drop?_eq_some found
    exact ⟨front, back, parts, size⟩
  · rintro ⟨front, back, rfl, rfl⟩
    exact ⟨back, drop?_append front back⟩

theorem isBoundary_iff_isValid {source : String} :
    isBoundary source.toList offset = true ↔ (⟨offset⟩ : String.Pos.Raw).IsValid source := by
  rw [isBoundary_iff, String.Pos.Raw.isValid_iff_exists_append]
  constructor
  · rintro ⟨front, back, parts, rfl⟩
    exact String.Pos.Raw.isValid_iff_exists_append.mp (isValid_size parts)
  · rintro ⟨first, second, rfl, place⟩
    refine ⟨first.toList, second.toList, String.toList_append, ?_⟩
    rw [← utf8ByteSize_ofList, String.ofList_toList]
    exact (congrArg String.Pos.Raw.byteIdx place).symm

/-- Looking for a boundary byte by byte leads to the end of the last character that
fits. -/
theorem floor_eq (characters : List Char) (offset : Nat) :
    floor characters offset = size (upTo characters offset) := by
  fun_induction floor characters offset with
  | case1 =>
      obtain ⟨front, back, _, cut, short, _⟩ := exists_upTo characters 0
      rw [cut]
      exact (Nat.le_zero.mp short).symm
  | case2 offset boundary =>
      obtain ⟨front, back, rfl, total⟩ := isBoundary_iff.mp boundary
      rw [Nat.succ_eq_add_one, ← total, upTo_append]
  | case3 offset inside ih =>
      obtain ⟨front, back, rfl, cut, short, exceeds⟩ := exists_upTo characters offset
      have still : upTo (front ++ back) (offset + 1) = front := by
        refine upTo_eq (by omega) ?_
        intro c next
        have wide := exceeds c next
        -- if the next character ended at `offset + 1`, that would be a boundary
        by_contra reached
        obtain ⟨rest, rfl⟩ := List.head?_eq_some_iff.mp next
        refine inside (isBoundary_iff.mpr ⟨front ++ [c], rest, by simp, ?_⟩)
        rw [size_append, size_cons, size_nil]
        omega
      rw [ih, cut, still]

theorem upTo_min (characters : List Char) (offset : Nat) :
    upTo characters (min offset (size characters)) = upTo characters offset := by
  obtain ⟨front, back, rfl, cut, short, exceeds⟩ := exists_upTo characters offset
  rw [cut]
  refine upTo_eq (by rw [size_append]; omega) ?_
  intro c next
  have wide := exceeds c next
  omega

/-- `place` is the last boundary of `source` that lies at `offset` or before it. -/
def IsFloor (source : String) (offset place : Nat) : Prop :=
  IsGreatest {place | (⟨place⟩ : String.Pos.Raw).IsValid source ∧
    place ≤ min offset source.utf8ByteSize} place

theorem isFloor_upTo (source : String) (offset : Nat) :
    IsFloor source offset (size (upTo source.toList offset)) := by
  obtain ⟨front, back, parts, cut, short, _⟩ := exists_upTo source.toList offset
  have valid := isValid_size parts
  rw [cut]
  refine ⟨⟨valid, Nat.le_min.mpr ⟨short, valid.le_rawEndPos⟩⟩, ?_⟩
  rintro place ⟨valid, within⟩
  obtain ⟨other, back, parts, rfl⟩ := isBoundary_iff.mp (isBoundary_iff_isValid.mpr valid)
  rw [← cut, parts]
  exact size_le_size_upTo (Nat.le_min.mp within).1

theorem find?_elim (wanted : Char) (characters : List Char) (place : Nat) :
    (find? wanted characters).elim (place + size characters) (place + ·) =
      place + size (characters.takeWhile (· != wanted)) := by
  induction characters generalizing place with
  | nil => rfl
  | cons first rest ih =>
      by_cases found : first = wanted
      · simp [find?, found]
      · have other : (first != wanted) = true := by simpa using found
        rw [find?, if_neg found, List.takeWhile_cons, if_pos other, size_cons, size_cons,
          ← Nat.add_assoc, ← Nat.add_assoc, ← ih]
        cases find? wanted rest with
        | none => rfl
        | some offset => exact (Nat.add_assoc _ _ _).symm

theorem findLast?_eq_none {wanted : Char} (absent : wanted ∉ characters) :
    findLast? wanted characters = none := by
  induction characters with
  | nil => rfl
  | cons first rest ih =>
      have parts := List.ne_and_not_mem_of_not_mem_cons absent
      rw [findLast?, ih parts.2, if_neg (Ne.symm parts.1)]

theorem findLast?_append {wanted : Char} (absent : wanted ∉ back) :
    findLast? wanted (front ++ wanted :: back) = some (size front) := by
  induction front with
  | nil => rw [List.nil_append, findLast?, findLast?_eq_none absent, if_pos rfl, size_nil]
  | cons first rest ih => rw [List.cons_append, findLast?, ih, size_cons]

end Bytes

namespace Location

/-- The lines, each with a line feed behind it. -/
def unlines (lines : List (List Char)) : List Char :=
  lines.flatMap (· ++ ['\n'])

@[simp] theorem unlines_nil : unlines [] = [] := rfl

@[simp] theorem unlines_cons (line : List Char) (lines : List (List Char)) :
    unlines (line :: lines) = line ++ '\n' :: unlines lines := by
  simp [unlines]

@[simp] theorem unlines_append (first second : List (List Char)) :
    unlines (first ++ second) = unlines first ++ unlines second :=
  List.flatMap_append

/-- The text in front of the line with this number, which counts from one. -/
def above (source : List Char) (line : Nat) : List Char :=
  unlines ((source.splitOn '\n').take (line - 1))

/-- The location tells where `front` ends in `source`: on which line, what is on
that line, and how many characters of it stand before. -/
structure Tells (source front : List Char) (location : Location) : Prop where
  line : location.line = front.count '\n' + 1
  content : (source.splitOn '\n')[location.line - 1]? = some location.content
  column : ∃ opening, front = above source location.line ++ opening ∧
    opening <+: location.content ∧ location.column = opening.length + 1

/-- The parts of `source` at `offset`: the lines above, the opening of its own line,
and what stands behind. -/
structure Splits (source : List Char) (offset : Nat) (lines : List (List Char))
    (opening back : List Char) : Prop where
  parts : source = unlines lines ++ opening ++ back
  cut : Bytes.upTo source offset = unlines lines ++ opening
  whole : ∀ line ∈ lines, '\n' ∉ line
  inline : '\n' ∉ opening

variable {source opening back : List Char} {lines : List (List Char)} {offset : Nat}

theorem exists_lines (front : List Char) :
    ∃ lines opening, front = unlines lines ++ opening ∧ (∀ line ∈ lines, '\n' ∉ line) ∧
      '\n' ∉ opening := by
  induction front using List.reverseRecOn with
  | nil => exact ⟨[], [], rfl, by simp, by simp⟩
  | append_singleton front c ih =>
      obtain ⟨lines, opening, rfl, whole, inline⟩ := ih
      by_cases newline : c = '\n'
      · subst newline
        refine ⟨lines ++ [opening], [], by simp, ?_, by simp⟩
        intro line member
        rcases List.mem_append.mp member with member | member
        · exact whole line member
        · rwa [List.mem_singleton.mp member]
      · refine ⟨lines, opening ++ [c], by simp, whole, ?_⟩
        simp only [List.mem_append, List.mem_singleton, not_or]
        exact ⟨inline, Ne.symm newline⟩

theorem exists_splits (source : List Char) (offset : Nat) :
    ∃ lines opening back, Splits source offset lines opening back := by
  obtain ⟨front, back, parts, cut, _⟩ := Bytes.exists_upTo source offset
  obtain ⟨lines, opening, rfl, whole, inline⟩ := exists_lines front
  exact ⟨lines, opening, back, parts, cut, whole, inline⟩

theorem count_unlines (whole : ∀ line ∈ lines, '\n' ∉ line) :
    (unlines lines).count '\n' = lines.length := by
  induction lines with
  | nil => rfl
  | cons line rest ih =>
      obtain ⟨inline, others⟩ := List.forall_mem_cons.mp whole
      rw [unlines_cons, List.count_append, List.count_eq_zero_of_not_mem inline, Nat.zero_add,
        List.count_cons_self, ih others, List.length_cons]

theorem splitOn_unlines (whole : ∀ line ∈ lines, '\n' ∉ line) (rest : List Char) :
    (unlines lines ++ rest).splitOn '\n' = lines ++ rest.splitOn '\n' := by
  induction lines with
  | nil => rfl
  | cons line more ih =>
      obtain ⟨inline, others⟩ := List.forall_mem_cons.mp whole
      have inside : ∀ c ∈ line, (c == '\n') = false := by
        simpa using bne_of_inline inline
      rw [unlines_cons, List.append_assoc, List.cons_append, List.splitOn,
        List.splitOnP_append_cons_of_forall_mem inside '\n' rfl]
      exact congrArg (line :: ·) (ih others)

theorem exists_splitOn (characters : List Char) :
    ∃ more, characters.splitOn '\n' = characters.takeWhile (· != '\n') :: more := by
  induction characters with
  | nil => exact ⟨[], rfl⟩
  | cons c rest ih =>
      obtain ⟨more, split⟩ := ih
      by_cases newline : c = '\n'
      · subst newline
        exact ⟨rest.splitOn '\n', rfl⟩
      · refine ⟨more, ?_⟩
        rw [List.splitOn] at split ⊢
        simp [List.splitOnP_cons_eq_if_modifyHead, split, newline]

theorem getLast?_unlines (lines : List (List Char)) :
    ∀ c ∈ (unlines lines).getLast?, c = '\n' := by
  induction lines using List.reverseRecOn with
  | nil => simp
  | append_singleton front line => simp

theorem findLast?_elim (inline : '\n' ∉ opening) (lines : List (List Char)) :
    (Bytes.findLast? '\n' (unlines lines ++ opening)).elim 0 (· + 1) =
      Bytes.size (unlines lines) := by
  induction lines using List.reverseRecOn with
  | nil => rw [unlines_nil, List.nil_append, Bytes.findLast?_eq_none inline]; rfl
  | append_singleton front line =>
      have parts : unlines (front ++ [line]) ++ opening =
          (unlines front ++ line) ++ '\n' :: opening := by simp
      rw [parts, Bytes.findLast?_append inline]
      simp only [Option.elim_some, unlines_append, unlines_cons, unlines_nil, Bytes.size_append,
        Bytes.size_cons, Bytes.size_nil]
      rfl

namespace Splits

variable (splits : Splits source offset lines opening back)
include splits

theorem count : (unlines lines ++ opening).count '\n' = lines.length := by
  rw [List.count_append, count_unlines splits.whole,
    List.count_eq_zero_of_not_mem splits.inline, Nat.add_zero]

theorem location :
    ofOffset source offset =
      ⟨lines.length + 1, opening.length + 1, opening ++ back.takeWhile (· != '\n')⟩ := by
  rw [ofOffset_eq splits.parts splits.cut (getLast?_unlines lines) splits.inline,
    count_unlines splits.whole]

/-- Worked out by offsets, the location is the same, and no cut is refused. -/
theorem location? : ofOffset? source offset = some (ofOffset source offset) := by
  -- each offset on the way is the size of a front of `source`
  have place : Bytes.floor source (min offset (Bytes.size source)) =
      Bytes.size (unlines lines ++ opening) := by
    rw [Bytes.floor_eq, Bytes.upTo_min, splits.cut]
  have before : Bytes.take? source (Bytes.size (unlines lines ++ opening)) =
      some (unlines lines ++ opening) := by
    rw [splits.parts, Bytes.take?_append]
  have behind : Bytes.drop? source (Bytes.size (unlines lines ++ opening)) = some back := by
    rw [splits.parts, Bytes.drop?_append]
  have stop : (Bytes.find? '\n' back).elim (Bytes.size source)
      (Bytes.size (unlines lines ++ opening) + ·) =
        Bytes.size (unlines lines ++ (opening ++ back.takeWhile (· != '\n'))) := by
    rw [splits.parts, Bytes.size_append _ back, Bytes.find?_elim, ← List.append_assoc,
      Bytes.size_append _ (back.takeWhile _)]
  have content : Bytes.slice? source (Bytes.size (unlines lines))
      (Bytes.size (unlines lines ++ (opening ++ back.takeWhile (· != '\n')))) =
        some (opening ++ back.takeWhile (· != '\n')) := by
    have parts : source = unlines lines ++ ((opening ++ back.takeWhile (· != '\n')) ++
        back.dropWhile (· != '\n')) := by
      rw [List.append_assoc, List.takeWhile_append_dropWhile, ← List.append_assoc, splits.parts]
    conv_lhs => rw [parts]
    rw [Bytes.slice?_append]
  simp only [ofOffset?, place, before, findLast?_elim splits.inline, Bytes.drop?_append, behind,
    stop, content, Option.bind_eq_bind, Option.bind_some, splits.location, splits.count]
  rfl

theorem splitOn : ∃ below, source.splitOn '\n' =
    lines ++ (opening ++ back.takeWhile (· != '\n')) :: below := by
  obtain ⟨below, split⟩ := exists_splitOn (opening ++ back)
  refine ⟨below, ?_⟩
  rw [splits.parts, List.append_assoc, splitOn_unlines splits.whole, split,
    List.takeWhile_append_of_pos (bne_of_inline splits.inline)]

theorem tells : (ofOffset source offset).Tells source (unlines lines ++ opening) := by
  obtain ⟨below, split⟩ := splits.splitOn
  rw [splits.location]
  refine ⟨?_, ?_, opening, ?_, List.prefix_append _ _, rfl⟩
  · rw [splits.count]
  · simp [split]
  · simp [above, split]

end Splits

theorem Tells.one_le_column {front : List Char} {location : Location}
    (tells : location.Tells source front) : 1 ≤ location.column := by
  obtain ⟨opening, _, _, length⟩ := tells.column
  rw [length]
  exact Nat.le_add_left 1 _

theorem Tells.column_le {front : List Char} {location : Location}
    (tells : location.Tells source front) : location.column ≤ location.content.length + 1 := by
  obtain ⟨opening, _, within, length⟩ := tells.column
  rw [length]
  exact Nat.succ_le_succ within.length_le

/-- Line and column determine the place that a location tells. -/
theorem Tells.eq_of_same {front other : List Char} {location another : Location}
    (tells : location.Tells source front) (tellsToo : another.Tells source other)
    (line : another.line = location.line) (column : another.column = location.column) :
    other = front := by
  obtain ⟨opening, parts, within, length⟩ := tells.column
  obtain ⟨openingToo, partsToo, withinToo, lengthToo⟩ := tellsToo.column
  have content := tellsToo.content
  rw [line, tells.content] at content
  have contents : location.content = another.content := Option.some.inj content
  rw [← contents] at withinToo
  have openings : openingToo = opening :=
    (List.prefix_of_prefix_length_le withinToo within (by omega)).eq_of_length (by omega)
  rw [parts, partsToo, line, openings]

end Location

/-- The location of any offset is that of the last boundary at or before it: the
number and the text of the line there, and how many of its characters stand before
the boundary. It is found by cuts that are never refused, and no other boundary has
the same line and column. -/
theorem offsets_located (source : String) (offset : Nat) :
    ∃ location place front,
      Location.ofOffset source.toList offset = location ∧
      Location.ofOffset? source.toList offset = some location ∧
      Bytes.IsFloor source offset place ∧ Bytes.take? source.toList place = some front ∧
      location.Tells source.toList front ∧
      1 ≤ location.column ∧ location.column ≤ location.content.length + 1 ∧
      ∀ other, Bytes.IsFloor source other place ↔
        (Location.ofOffset source.toList other).line = location.line ∧
          (Location.ofOffset source.toList other).column = location.column := by
  obtain ⟨lines, opening, back, splits⟩ := Location.exists_splits source.toList offset
  have lowest := Bytes.isFloor_upTo source offset
  rw [splits.cut] at lowest
  have tells := splits.tells
  refine ⟨_, _, Location.unlines lines ++ opening, rfl, splits.location?, lowest, ?_, tells,
    tells.one_le_column, tells.column_le, ?_⟩
  · rw [splits.parts, Bytes.take?_append]
  · intro other
    obtain ⟨otherLines, otherOpening, otherBack, otherSplits⟩ :=
      Location.exists_splits source.toList other
    have otherLowest := Bytes.isFloor_upTo source other
    rw [otherSplits.cut] at otherLowest
    constructor
    · intro same
      have sizes := otherLowest.unique same
      have parts := splits.parts
      rw [otherSplits.parts] at parts
      have cuts := (Bytes.append_inj parts sizes).1
      simp only [Location.ofOffset, splits.cut, otherSplits.cut, cuts, and_self]
    · rintro ⟨line, column⟩
      have same := tells.eq_of_same otherSplits.tells line column
      rwa [same] at otherLowest

/-- The offset lies inside `ü`. -/
example : Location.ofOffset? "é\nü x".toList 4 = some ⟨2, 1, ['ü', ' ', 'x']⟩ := by
  decide +kernel

end SpinBlocks
