import ArgdownLens.Proofs.Text.Offset
import Mathlib.Data.List.Infix

/-!
# Lines in their text

A line stands in its text between what ends with a newline or is empty and what begins with one or
is empty (`Line.StandsIn`). Every line of the index does (`exists_standsIn`), each one begins
behind the newline that ends the line in front of it (`start_of_getElem?_succ`), and the last one
ends with the text (`StandsIn.stop_of_last`). Beginnings of one text are told apart by their bytes
(`isPrefix_of_byteSize_le`).
-/

namespace ArgdownLens

namespace Text

/-! ## Beginnings of a text -/

/-- Characters without bytes are none. -/
theorem eq_nil_of_byteSize {cs : List Char} (h : byteSize cs = 0) : cs = [] := by
  cases cs with
  | nil => rfl
  | cons c cs =>
    have hpos := c.utf8Size_pos
    rw [byteSize] at h
    omega

/-- A beginning of some characters has no more bytes than they have. -/
theorem byteSize_le_of_isPrefix {as bs : List Char} (h : as <+: bs) :
    byteSize as ≤ byteSize bs := by
  obtain ⟨cs, rfl⟩ := h
  rw [byteSize_append]
  exact Nat.le_add_right _ _

/-- Of two beginnings of a text, the one with no more bytes is a beginning of the other. -/
theorem isPrefix_of_byteSize_le {as bs cs : List Char} (ha : as <+: cs) (hb : bs <+: cs)
    (h : byteSize as ≤ byteSize bs) : as <+: bs := by
  rcases List.prefix_or_prefix_of_prefix ha hb with hab | ⟨more, rfl⟩
  · exact hab
  · rw [byteSize_append] at h
    have hmore : more = [] := eq_nil_of_byteSize (by omega)
    rw [hmore, List.append_nil]

/-- Two beginnings of a text with the same bytes are the same. -/
theorem eq_of_byteSize_eq {as bs cs : List Char} (ha : as <+: cs) (hb : bs <+: cs)
    (h : byteSize as = byteSize bs) : as = bs :=
  (isPrefix_of_byteSize_le ha hb h.le).sublist.antisymm
    (isPrefix_of_byteSize_le hb ha h.ge).sublist

/-! ## The number of lines -/

/-- A character other than a newline goes to the first line. -/
theorem lines_cons {c : Char} {cs line : List Char} {rest : List (List Char)} (hc : c ≠ '\n')
    (h : lines cs = line :: rest) : lines (c :: cs) = (c :: line) :: rest := by
  rw [lines, if_neg hc, h]

/-- There is one line more than there are newlines. -/
theorem length_lines (cs : List Char) : (lines cs).length = cs.count '\n' + 1 := by
  induction cs with
  | nil => rfl
  | cons c cs ih =>
    by_cases hc : c = '\n'
    · rw [hc, lines_newline, List.length_cons, ih, List.count_cons_self]
    · obtain ⟨line, rest, hlines⟩ := List.exists_cons_of_ne_nil (lines_ne_nil cs)
      rw [lines_cons hc hlines, List.count_cons_of_ne hc, ← ih, hlines]
      rfl

/-- Lines that end with newlines, and a last one that does not, are cut where they were joined. -/
theorem lines_flatMap {ls : List (List Char)} {last : List Char} (hls : ∀ l ∈ ls, '\n' ∉ l)
    (hlast : '\n' ∉ last) : lines (ls.flatMap (· ++ ['\n']) ++ last) = ls ++ [last] := by
  induction ls with
  | nil =>
    have hlines : lines (last ++ []) = (last ++ []) :: [] := lines_append hlast rfl
    rwa [List.append_nil] at hlines
  | cons l ls ih =>
    obtain ⟨hl, hls⟩ := List.forall_mem_cons.mp hls
    have hrest := lines_newline (ls.flatMap (· ++ ['\n']) ++ last)
    rw [ih hls] at hrest
    have hlines := lines_append hl hrest
    rw [List.append_nil] at hlines
    rw [List.flatMap_cons, List.append_assoc, List.append_assoc]
    exact hlines

end Text

/-! ## A line in its text -/

open Text

/-- The line stands in the text behind `before` and in front of `behind`, as its `i`-th one. -/
structure Line.StandsIn (cs : List Char) (i : Nat) (l : Line) (before behind : List Char) :
    Prop where
  text : cs = before ++ l.chars ++ behind
  index : before.count '\n' = i
  start : l.start = byteSize before
  unbroken : '\n' ∉ l.chars
  afterBreak : before = [] ∨ ∃ as, before = as ++ ['\n']
  untilBreak : behind = [] ∨ ∃ bs, behind = '\n' :: bs

namespace Line.StandsIn

variable {cs : List Char} {i : Nat} {l : Line} {before behind : List Char}

/-- The line ends where its characters end. -/
theorem stop_eq (h : l.StandsIn cs i before behind) :
    l.range.stop = byteSize (before ++ l.chars) := by
  rw [byteSize_append, ← h.start]
  rfl

/-- The text up to the end of the line. -/
theorem isPrefix (h : l.StandsIn cs i before behind) : before ++ l.chars <+: cs :=
  ⟨behind, h.text.symm⟩

/-- The text up to the beginning of the line. -/
theorem isPrefix_before (h : l.StandsIn cs i before behind) : before <+: cs :=
  (List.prefix_append before l.chars).trans h.isPrefix

/-- The newlines of the text are those in front of the line and those behind it. -/
theorem count_eq (h : l.StandsIn cs i before behind) :
    cs.count '\n' = i + behind.count '\n' := by
  rw [h.text, List.count_append, List.count_append, h.index,
    List.count_eq_zero.mpr h.unbroken, Nat.add_zero]

/-- The line ends within the text. -/
theorem stop_le (h : l.StandsIn cs i before behind) : l.range.stop ≤ byteSize cs := by
  rw [h.stop_eq]
  exact byteSize_le_of_isPrefix h.isPrefix

/-- Behind the last newline the line goes on to the end of the text. -/
theorem stop_of_last (h : l.StandsIn cs i before behind) (hlast : cs.count '\n' = i) :
    l.range.stop = byteSize cs := by
  have hcount := h.count_eq
  have hbehind : behind = [] := by
    rcases h.untilBreak with hnil | ⟨bs, rfl⟩
    · exact hnil
    · rw [List.count_cons_self] at hcount
      omega
  rw [h.stop_eq, h.text, hbehind, List.append_nil]

/-- A later line begins behind the end of the line. -/
theorem stop_le_start (h : l.StandsIn cs i before behind) {j : Nat} {m : Line}
    {before' behind' : List Char} (hm : m.StandsIn cs j before' behind') (hij : i < j) :
    l.range.stop ≤ m.start := by
  rw [h.stop_eq, hm.start]
  rcases List.prefix_or_prefix_of_prefix h.isPrefix hm.isPrefix_before with hpre | hpre
  · exact byteSize_le_of_isPrefix hpre
  · -- Up to the end of the line there are too few newlines.
    have hcount := hpre.sublist.count_le '\n'
    rw [List.count_append, h.index, hm.index, List.count_eq_zero.mpr h.unbroken] at hcount
    omega

/-- What stands behind the beginning of the line, within its bytes, begins its characters. -/
theorem chars_of_isPrefix (h : l.StandsIn cs i before behind) {before' mid : List Char}
    (hpre : before' ++ mid <+: cs) (hstart : byteSize before' = l.range.start)
    (hstop : byteSize (before' ++ mid) ≤ l.range.stop) :
    ∃ rest, l.chars = mid ++ rest := by
  have hbefore : before' = before :=
    eq_of_byteSize_eq ((List.prefix_append before' mid).trans hpre) h.isPrefix_before
      (hstart.trans h.start)
  subst hbefore
  rw [h.stop_eq] at hstop
  obtain ⟨rest, hrest⟩ := isPrefix_of_byteSize_le hpre h.isPrefix hstop
  rw [List.append_assoc] at hrest
  exact ⟨rest, (List.append_cancel_left hrest).symm⟩

/-- A line goes on with the character that stands there in the text, unless it is a newline. -/
theorem exists_cons (h : l.StandsIn cs i before behind) {mid rest bs : List Char} {c : Char}
    (hchars : l.chars = mid ++ rest) (htext : cs = before ++ mid ++ c :: bs) (hc : c ≠ '\n') :
    ∃ more, rest = c :: more := by
  have hbehind : rest ++ behind = c :: bs := by
    have heq := h.text
    rw [htext, hchars] at heq
    simp only [List.append_assoc, List.append_cancel_left_eq] at heq
    exact heq.symm
  cases rest with
  | cons d more =>
    rw [List.cons_append, List.cons.injEq] at hbehind
    exact ⟨more, by rw [hbehind.1]⟩
  | nil =>
    -- Behind the line there is nothing or a newline.
    rw [List.nil_append] at hbehind
    rcases h.untilBreak with hnil | ⟨ds, hbreak⟩
    · rw [hnil] at hbehind
      cases hbehind
    · rw [hbreak, List.cons.injEq] at hbehind
      exact absurd hbehind.1.symm hc

/-- A newline in front of the text makes the line a later one. -/
theorem newline_cons (h : l.StandsIn cs i before behind) :
    Line.StandsIn ('\n' :: cs) (i + 1) ⟨l.start + 1, l.chars⟩ ('\n' :: before) behind where
  text := by rw [h.text]; rfl
  index := by rw [List.count_cons_self, h.index]
  start := by rw [byteSize, ← h.start, Nat.add_comm]; rfl
  unbroken := h.unbroken
  afterBreak := by
    rcases h.afterBreak with rfl | ⟨as, rfl⟩
    · exact Or.inr ⟨[], rfl⟩
    · exact Or.inr ⟨'\n' :: as, rfl⟩
  untilBreak := h.untilBreak

/-- A character in front of the text goes to its first line. -/
theorem cons_first (h : l.StandsIn cs 0 before behind) {c : Char} (hc : c ≠ '\n') :
    Line.StandsIn (c :: cs) 0 ⟨0, c :: l.chars⟩ [] behind where
  text := by
    rcases h.afterBreak with hnil | ⟨as, hbreak⟩
    · rw [h.text, hnil]
      rfl
    · have hindex := h.index
      rw [hbreak, List.count_append, List.count_singleton_self] at hindex
      omega
  index := rfl
  start := rfl
  unbroken := by
    rw [List.mem_cons, not_or]
    exact ⟨Ne.symm hc, h.unbroken⟩
  afterBreak := Or.inl rfl
  untilBreak := h.untilBreak

/-- A character in front of the text leaves the later lines as they are. -/
theorem cons_succ (h : l.StandsIn cs (i + 1) before behind) {c : Char} (hc : c ≠ '\n') :
    Line.StandsIn (c :: cs) (i + 1) ⟨l.start + c.utf8Size, l.chars⟩ (c :: before) behind where
  text := by rw [h.text]; rfl
  index := by rw [List.count_cons_of_ne hc, h.index]
  start := by rw [byteSize, ← h.start, Nat.add_comm]
  unbroken := h.unbroken
  afterBreak := by
    rcases h.afterBreak with rfl | ⟨as, rfl⟩
    · exact absurd h.index (Nat.succ_ne_zero i).symm
    · exact Or.inr ⟨c :: as, rfl⟩
  untilBreak := h.untilBreak

end Line.StandsIn

namespace LineIndex

/-! ## The lines of the index -/

/-- Placing the lines leaves their number. -/
theorem length_place (start : Nat) (ls : List (List Char)) :
    (place start ls).length = ls.length := by
  induction ls generalizing start with
  | nil => rfl
  | cons cs ls ih => rw [place, List.length_cons, List.length_cons, ih]

/-- The index has one line more than the text has newlines. -/
theorem lineCount_ofText (text : String) :
    (ofText text).lineCount = text.toList.count '\n' + 1 := by
  rw [ofText, lineCount, length_place, length_lines]

/-- Each line begins behind the newline that ends the line in front of it. -/
theorem start_of_getElem?_succ {ls : List (List Char)} {start i : Nat} {l m : Line}
    (hl : (place start ls)[i]? = some l) (hm : (place start ls)[i + 1]? = some m) :
    m.start = l.range.stop + 1 := by
  induction ls generalizing start i with
  | nil => simp [place] at hl
  | cons cs ls ih =>
    rw [place, List.getElem?_cons_succ] at hm
    cases i with
    | zero =>
      rw [place, List.getElem?_cons_zero, Option.some.injEq] at hl
      cases ls with
      | nil => simp [place] at hm
      | cons ds ls =>
        rw [place, List.getElem?_cons_zero, Option.some.injEq] at hm
        rw [← hm, ← hl]
        rfl
    | succ i =>
      rw [place, List.getElem?_cons_succ] at hl
      exact ih hl hm

/-- Moving the beginning of a text moves its lines. -/
theorem place_add (start more : Nat) (ls : List (List Char)) :
    place (start + more) ls = (place start ls).map fun l => ⟨l.start + more, l.chars⟩ := by
  induction ls generalizing start with
  | nil => rfl
  | cons cs ls ih =>
    rw [place, place, List.map_cons, ← ih]
    congr 2
    omega

/-- Every line of the index stands in the text. The induction is on the text; what is new with a
character in front of it is its first line, and with a newline the line in front of all others. -/
theorem exists_standsIn (cs : List Char) :
    ∀ {i : Nat} {l : Line}, (place 0 (Text.lines cs))[i]? = some l →
      ∃ before behind, l.StandsIn cs i before behind := by
  induction cs with
  | nil =>
    intro i l hl
    rw [Text.lines, place, place, List.getElem?_singleton] at hl
    split_ifs at hl with hi
    cases hl
    exact ⟨[], [], rfl, hi.symm, rfl, List.not_mem_nil, Or.inl rfl, Or.inl rfl⟩
  | cons c cs ih =>
    intro i l hl
    by_cases hc : c = '\n'
    · -- The newline is the whole first line, and the others move by one byte and one index.
      subst hc
      rw [lines_newline, place] at hl
      cases i with
      | zero =>
        cases hl
        exact ⟨[], '\n' :: cs, rfl, rfl, rfl, List.not_mem_nil, Or.inl rfl, Or.inr ⟨cs, rfl⟩⟩
      | succ i =>
        rw [List.getElem?_cons_succ, byteSize, place_add, List.getElem?_map,
          Option.map_eq_some_iff] at hl
        obtain ⟨m, hm, rfl⟩ := hl
        obtain ⟨before, behind, h⟩ := ih hm
        exact ⟨_, _, h.newline_cons⟩
    · -- Another character gets into the first line, and the others move by its bytes only.
      obtain ⟨line, rest, hlines⟩ := List.exists_cons_of_ne_nil (lines_ne_nil cs)
      rw [hlines, place] at ih
      rw [lines_cons hc hlines, place] at hl
      cases i with
      | zero =>
        cases hl
        obtain ⟨before, behind, h⟩ := ih (List.getElem?_cons_zero)
        exact ⟨_, _, h.cons_first hc⟩
      | succ i =>
        have hmove : 0 + byteSize (c :: line) + 1 = 0 + byteSize line + 1 + c.utf8Size := by
          rw [byteSize]
          omega
        rw [List.getElem?_cons_succ, hmove, place_add, List.getElem?_map,
          Option.map_eq_some_iff] at hl
        obtain ⟨m, hm, rfl⟩ := hl
        obtain ⟨before, behind, h⟩ := ih (i := i + 1) hm
        exact ⟨_, _, h.cons_succ hc⟩

end LineIndex

end ArgdownLens
