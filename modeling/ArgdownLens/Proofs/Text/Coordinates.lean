import ArgdownLens.Proofs.Text.Scan
import Mathlib.Data.List.DropRight
import Mathlib.Order.Bounds.Defs

/-!
# The index as an inverse of coordinates

Every byte between two characters has a position: the newlines in front of it and the code units
since the last one (`positionBehind_eq`). The index takes that position back to the byte, and every
other position of a line to the next such byte of the line, or to its end (`Marks`). Positions keep
their order, and no step of the search by line starts fails (`offset?_inverse`).
-/

namespace ArgdownLens

namespace Text

/-! ## Columns -/

/-- A later column has no fewer bytes in front of it. -/
theorem columnBytes_mono (cs : List Char) :
    ∀ {j k : Nat}, j ≤ k → columnBytes j cs ≤ columnBytes k cs := by
  induction cs with
  | nil =>
    intro j k _
    exact Nat.le_refl _
  | cons c cs ih =>
    intro j k h
    have hrest := ih (Nat.sub_le_sub_right h (units16 c))
    rw [columnBytes, columnBytes]
    split_ifs <;> omega

/-- The bytes in front of a column are those of a beginning of the line that reaches the column, or
of the whole line. -/
theorem exists_columnBytes (cs : List Char) :
    ∀ k : Nat, ∃ mid rest, cs = mid ++ rest ∧ columnBytes k cs = byteSize mid ∧
      (k ≤ units mid ∨ rest = []) := by
  induction cs with
  | nil =>
    intro k
    exact ⟨[], [], rfl, rfl, Or.inr rfl⟩
  | cons c cs ih =>
    intro k
    rw [columnBytes]
    by_cases hk : k = 0
    · rw [if_pos hk]
      exact ⟨[], c :: cs, rfl, rfl, Or.inl (Nat.le_of_eq hk)⟩
    · obtain ⟨mid, rest, hcs, hbytes, hreach⟩ := ih (k - units16 c)
      rw [if_neg hk, hbytes]
      refine ⟨c :: mid, rest, by rw [hcs, List.cons_append], rfl, hreach.imp ?_ id⟩
      intro hle
      rw [units]
      omega

/-- A column inside a character has this character in front of it. -/
theorem columnBytes_inside {c : Char} {k : Nat} (hpos : 0 < k) (hk : k ≤ units16 c)
    (as bs : List Char) :
    columnBytes (units as + k) (as ++ c :: bs) = byteSize (as ++ [c]) := by
  induction as with
  | nil =>
    have hrest : 0 + k - units16 c = units [] := by
      rw [units]
      omega
    rw [units, List.nil_append, columnBytes, if_neg (by omega), hrest]
    exact congrArg (c.utf8Size + ·) (columnBytes_units [] bs)
  | cons a as ih =>
    have hapos := units16_pos a
    rw [units, List.cons_append, columnBytes, if_neg (by omega),
      show units16 a + units as + k - units16 a = units as + k by omega, ih]
    rfl

/-! ## Positions of borders -/

/-- The position behind some characters has the newlines among them for its line, and what follows
the last one in front of its column. -/
theorem positionBehind_eq (as : List Char) :
    positionBehind as = ⟨as.count '\n', units (as.rtakeWhile (· ≠ '\n'))⟩ := by
  induction as using List.reverseRecOn with
  | nil => rfl
  | append_singleton as c ih =>
    rw [positionBehind_append, ih, List.foldl_cons, List.foldl_nil, advance,
      List.rtakeWhile_concat, List.count_append]
    by_cases hc : c = '\n'
    · subst hc
      rfl
    · rw [if_neg hc, if_pos (decide_eq_true hc), units_append, List.count_cons_of_ne hc]
      rfl

end Text

open Text

/-! ## Marks -/

/-- The byte `o` of the line with this range stands between two characters, and those of the line
in front of it have at least `character` code units. -/
def Reaches (cs : List Char) (range : ByteRange) (character o : Nat) : Prop :=
  ∃ before mid behind, cs = before ++ mid ++ behind ∧ byteSize before = range.start ∧
    byteSize (before ++ mid) = o ∧ o ≤ range.stop ∧ character ≤ units mid

/-- The byte `o` is the one for a column of the line with this range: the first that reaches the
column, or the end of the line if none does. -/
structure Marks (cs : List Char) (range : ByteRange) (character o : Nat) : Prop where
  between : ∃ as bs, cs = as ++ bs ∧ byteSize as = o
  start_le : range.start ≤ o
  le_stop : o ≤ range.stop
  least : IsLeast {b | Reaches cs range character b} o ∨
    (∀ b, ¬ Reaches cs range character b) ∧ o = range.stop

namespace Line.StandsIn

variable {cs : List Char} {i : Nat} {l : Line} {before behind : List Char}

/-- A byte that reaches a column has no fewer bytes of the line in front of it than the column. -/
theorem le_of_reaches (h : l.StandsIn cs i before behind) {character b : Nat}
    (hb : Reaches cs l.range character b) :
    l.start + columnBytes character l.chars ≤ b ∧ character ≤ units l.chars := by
  obtain ⟨before', mid, behind', htext, hstart, rfl, hstop, hreach⟩ := hb
  obtain ⟨rest, hchars⟩ := h.chars_of_isPrefix ⟨behind', htext.symm⟩ hstart hstop
  have hmono := columnBytes_mono (mid ++ rest) hreach
  rw [columnBytes_units] at hmono
  rw [hchars, byteSize_append, hstart, units_append]
  exact ⟨Nat.add_le_add_left hmono _, Nat.le_trans hreach (Nat.le_add_right _ _)⟩

/-- The bytes in front of a column of the line lead to the byte for this column. -/
theorem marks (h : l.StandsIn cs i before behind) (character : Nat) :
    Marks cs l.range character (l.start + columnBytes character l.chars) := by
  obtain ⟨mid, rest, hchars, hbytes, hreach⟩ := exists_columnBytes l.chars character
  have htext : cs = before ++ mid ++ (rest ++ behind) := by
    rw [h.text, hchars]
    simp only [List.append_assoc]
  have hsize : byteSize (before ++ mid) = l.start + columnBytes character l.chars := by
    rw [byteSize_append, ← h.start, hbytes]
  have hstop : l.start + columnBytes character l.chars ≤ l.range.stop := by
    rw [← hsize, h.stop_eq, hchars, ← List.append_assoc, byteSize_append (before ++ mid)]
    exact Nat.le_add_right _ _
  refine ⟨⟨before ++ mid, rest ++ behind, htext, hsize⟩, Nat.le_add_right _ _, hstop, ?_⟩
  rcases Nat.lt_or_ge (units l.chars) character with hshort | hlong
  · -- The line is too short for the column.
    refine Or.inr ⟨fun b hb => Nat.not_le.mpr hshort (h.le_of_reaches hb).2, ?_⟩
    have hrest : rest = [] := by
      refine hreach.resolve_left fun hle => ?_
      rw [hchars, units_append] at hshort
      omega
    rw [← hsize, h.stop_eq, hchars, hrest, List.append_nil]
  · refine Or.inl ⟨⟨before, mid, rest ++ behind, htext, h.start.symm, hsize, hstop, ?_⟩,
      fun b hb => (h.le_of_reaches hb).1⟩
    rcases hreach with hle | rfl
    · exact hle
    · rw [hchars, List.append_nil] at hlong
      exact hlong

/-- Within the line positions count the code units from its beginning. -/
theorem positionBehind_append (h : l.StandsIn cs i before behind) {mid : List Char}
    (hmid : '\n' ∉ mid) : positionBehind (before ++ mid) = ⟨i, units mid⟩ := by
  have hbefore : positionBehind before = ⟨i, 0⟩ := by
    rw [positionBehind_eq, h.index]
    rcases h.afterBreak with rfl | ⟨as, rfl⟩
    · rfl
    · rw [List.rtakeWhile_concat_neg]
      · rfl
      · simp
  rw [Text.positionBehind_append, hbefore, foldl_advance_of_notMem hmid, Nat.zero_add]

end Line.StandsIn

namespace LineIndex

/-! ## Answers of the index -/

/-- There is a byte exactly for the lines of the index. -/
theorem offset?_eq_none_iff (index : LineIndex) (p : Position) :
    index.offset? p = none ↔ index.lineCount ≤ p.line := by
  rw [offset?, Option.map_eq_none_iff, List.getElem?_eq_none_iff, lineCount]

/-- A line of the index of a text, with its range and the bytes for its columns. -/
theorem exists_line {text : String} {line : Nat} (h : line < (ofText text).lineCount) :
    ∃ (l : Line) (before behind : List Char), l.StandsIn text.toList line before behind ∧
      (ofText text).lineRange? line = some l.range ∧
      ∀ character, (ofText text).offset? ⟨line, character⟩ =
        some (l.start + columnBytes character l.chars) := by
  have hl := List.getElem?_eq_getElem h
  obtain ⟨before, behind, hstands⟩ := exists_standsIn _ hl
  refine ⟨_, before, behind, hstands, ?_, fun character => ?_⟩
  · rw [lineRange?, hl, Option.map_some]
  · rw [offset?, hl, Option.map_some]

/-- Positions of existing lines keep their order. -/
theorem offset?_mono {text : String} {p q : Position} (h : p ≤ q)
    (hq : q.line < (ofText text).lineCount) :
    ∃ a b, (ofText text).offset? p = some a ∧ (ofText text).offset? q = some b ∧ a ≤ b := by
  obtain ⟨m, before', behind', hm, -, hoffset'⟩ := exists_line hq
  rcases Position.le_iff.mp h with hline | ⟨hline, hcharacter⟩
  · obtain ⟨l, before, behind, hl, -, hoffset⟩ := exists_line (hline.trans hq)
    refine ⟨_, _, hoffset p.character, hoffset' q.character, ?_⟩
    calc l.start + columnBytes p.character l.chars
        ≤ l.range.stop := (hl.marks p.character).le_stop
      _ ≤ m.start := hl.stop_le_start hm hline
      _ ≤ m.start + columnBytes q.character m.chars := Nat.le_add_right _ _
  · have hp : (ofText text).offset? p = _ := hline ▸ hoffset' p.character
    exact ⟨_, _, hp, hoffset' q.character,
      Nat.add_le_add_left (columnBytes_mono m.chars hcharacter) _⟩

/-- A position inside the code units of a character leads behind this character. -/
theorem offset?_inside {text : String} {as bs : List Char} {c : Char} {k : Nat}
    (htext : text.toList = as ++ c :: bs) (hc : c ≠ '\n') (hpos : 0 < k) (hk : k ≤ units16 c) :
    (ofText text).offset? ⟨as.count '\n', units (as.rtakeWhile (· ≠ '\n')) + k⟩ =
      some (byteSize (as ++ [c])) := by
  have hline : as.count '\n' < (ofText text).lineCount := by
    rw [lineCount_ofText, htext, List.count_append]
    omega
  obtain ⟨l, before, behind, h, -, hoffset⟩ := exists_line hline
  obtain ⟨mid, rest, hchars, hbytes, -⟩ :=
    exists_columnBytes l.chars (units (as.rtakeWhile (· ≠ '\n')))
  have hpre : before ++ mid <+: text.toList := by
    refine List.IsPrefix.trans ?_ h.isPrefix
    rw [hchars, ← List.append_assoc]
    exact List.prefix_append _ _
  -- The line holds what stands between the last newline and the character.
  have has : before ++ mid = as := by
    refine eq_of_byteSize_eq hpre ⟨c :: bs, htext.symm⟩ ?_
    have hat := offset?_positionBehind htext
    rw [positionBehind_eq, hoffset, Option.some.injEq] at hat
    rw [byteSize_append, ← h.start, ← hbytes, hat]
  have hmid : '\n' ∉ mid := fun hmem =>
    h.unbroken (hchars ▸ List.mem_append_left rest hmem)
  have hunits : units (as.rtakeWhile (· ≠ '\n')) = units mid := by
    have hposition := h.positionBehind_append hmid
    rw [has, positionBehind_eq] at hposition
    exact congrArg Position.character hposition
  obtain ⟨more, rfl⟩ := h.exists_cons hchars (has ▸ htext) hc
  rw [hoffset, hunits, hchars, columnBytes_inside hpos hk, h.start, ← byteSize_append,
    ← List.append_assoc, has]

/-- For a text whose size is a word the index is the inverse of coordinates. A line that exists has
for each column the byte that `Marks` it, and no other line has any; the position behind a beginning
of the text has its bytes, and a position between the two code units of a character those up to
behind this character; the bytes are in the order of the positions; and the search by line starts
gives the same byte without a step that fails. -/
theorem offset?_inverse {text : String} (h : byteSize text.toList < 0x100000000) (p : Position) :
    ((ofText text).offset? p = none ↔ (ofText text).lineCount ≤ p.line) ∧
    (p.line < (ofText text).lineCount →
      ∃ range o, (ofText text).lineRange? p.line = some range ∧
        (ofText text).offset? p = some o ∧ Marks text.toList range p.character o) ∧
    (∀ as bs, text.toList = as ++ bs →
      (ofText text).offset? ⟨as.count '\n', units (as.rtakeWhile (· ≠ '\n'))⟩ =
        some (byteSize as)) ∧
    (∀ as c bs, text.toList = as ++ c :: bs → units16 c = 2 →
      (ofText text).offset? ⟨as.count '\n', units (as.rtakeWhile (· ≠ '\n')) + 1⟩ =
        some (byteSize (as ++ [c]))) ∧
    (∀ q, p ≤ q → q.line < (ofText text).lineCount →
      ∃ a b, (ofText text).offset? p = some a ∧ (ofText text).offset? q = some b ∧ a ≤ b) ∧
    (do let index ← LineStarts.ofText text; index.offset? text p) =
      .ok ((ofText text).offset? p) := by
  refine ⟨offset?_eq_none_iff _ p, ?marks, ?border, ?inside, fun q => offset?_mono, ?search⟩
  case marks =>
    intro hline
    obtain ⟨l, before, behind, hl, hrange, hoffset⟩ := exists_line hline
    exact ⟨l.range, _, hrange, hoffset p.character, hl.marks p.character⟩
  case border =>
    intro as bs htext
    have hat := offset?_positionBehind htext
    rw [positionBehind_eq] at hat
    exact hat
  case inside =>
    intro as c bs htext hc
    have hbreak : c ≠ '\n' := by
      rintro rfl
      exact absurd hc (by decide)
    exact offset?_inside htext hbreak Nat.one_pos (by omega)
  case search =>
    have hindex := LineStarts.ofText_eq h
    rw [hindex, pure_bind, LineStarts.offset?_eq hindex h]
    rfl

/-- A text with characters of one, two and four bytes, the last one of two code units. -/
def faceText : String :=
  "ä[x\n😀b\n"

/-- A position between the two code units of the face leads behind it. -/
theorem faceText_inverse :
    byteSize faceText.toList < 0x100000000 ∧
      (ofText faceText).offset? ⟨1, 1⟩ = some 9 ∧
      Marks faceText.toList ⟨5, 10⟩ 1 9 ∧
      (do let index ← LineStarts.ofText faceText; index.offset? faceText ⟨1, 1⟩) =
        .ok (some 9) := by
  have hsize : byteSize faceText.toList < 0x100000000 := by decide +kernel
  obtain ⟨-, hmarks, -, hinside, -, hsearch⟩ := offset?_inverse hsize ⟨1, 1⟩
  have hline : 1 < (ofText faceText).lineCount := by decide +kernel
  have hrange : (ofText faceText).lineRange? 1 = some ⟨5, 10⟩ := by decide +kernel
  have hoffset : (ofText faceText).offset? ⟨1, 1⟩ = some 9 :=
    hinside ['ä', '[', 'x', '\n'] '😀' ['b', '\n'] rfl rfl
  obtain ⟨range, o, hrange', hoffset', ho⟩ := hmarks hline
  obtain rfl := Option.some.inj (hrange.symm.trans hrange')
  obtain rfl := Option.some.inj (hoffset.symm.trans hoffset')
  exact ⟨hsize, hoffset, ho, hsearch.trans (congrArg Except.ok hoffset)⟩

end LineIndex

end ArgdownLens
