import ArgdownLens.Proofs.Text.Scan

/-!
# Lines tile their text

The lines of a text are what a split at its newlines gives (`Text.lines_eq_splitOn`), so they make
up the text with newlines between them. In the index each of them is a range of bytes of the text
that a reader can cut out: it stops no earlier than it starts, and both of its ends stand between
two characters, for an empty line as for any other. The next line starts one byte behind, since that
is the size of a newline (`LineIndex.lines_tile`).
-/

namespace ArgdownLens

namespace Text

/-- The byte `o` stands between two characters, or at an end of the text. -/
def Border (cs : List Char) (o : Nat) : Prop :=
  ∃ as bs, cs = as ++ bs ∧ byteSize as = o

/-- The lines are what stands between newlines. -/
theorem lines_eq_splitOn (cs : List Char) : lines cs = cs.splitOn '\n' := by
  induction cs with
  | nil => rfl
  | cons c cs ih =>
    rw [List.splitOn, List.splitOnP_cons_eq_if_modifyHead, ← List.splitOn, ← ih]
    by_cases hc : c = '\n'
    · rw [hc, lines_newline, if_pos (beq_self_eq_true _)]
    · obtain ⟨line, rest, hlines⟩ := List.exists_cons_of_ne_nil (lines_ne_nil cs)
      rw [lines_cons hc hlines, if_neg (by simpa using hc), hlines, List.modifyHead_cons]

/-- The lines with newlines between them are the text. -/
theorem intercalate_lines (cs : List Char) : ['\n'].intercalate (lines cs) = cs := by
  rw [lines_eq_splitOn, List.intercalate_splitOn]

end Text

open Text

namespace Line.StandsIn

variable {cs : List Char} {i : Nat} {l : Line} {before behind : List Char}

/-- A line starts between two characters. -/
theorem border_start (h : l.StandsIn cs i before behind) : Border cs l.range.start :=
  ⟨before, l.chars ++ behind, by rw [h.text, List.append_assoc], h.start.symm⟩

/-- A line stops between two characters. -/
theorem border_stop (h : l.StandsIn cs i before behind) : Border cs l.range.stop :=
  ⟨before ++ l.chars, behind, h.text, h.stop_eq.symm⟩

end Line.StandsIn

namespace LineIndex

/-- Placing the lines leaves their characters. -/
theorem map_chars_place (start : Nat) (ls : List (List Char)) :
    (place start ls).map Line.chars = ls := by
  induction ls generalizing start with
  | nil => rfl
  | cons cs ls ih => rw [place, List.map_cons, ih]

/-- The characters of a line of the index are those of the line of the text. -/
theorem getElem?_lines {text : String} {i : Nat} {l : Line}
    (h : (ofText text).lines[i]? = some l) : (Text.lines text.toList)[i]? = some l.chars := by
  have hchars : (ofText text).lines.map Line.chars = Text.lines text.toList := map_chars_place 0 _
  rw [← hchars, List.getElem?_map, h, Option.map_some]

/-- A range of the index is the range of a line that stands in the text. -/
theorem lineRange?_eq_some_iff {text : String} {i : Nat} {range : ByteRange} :
    (ofText text).lineRange? i = some range ↔
      ∃ l, (ofText text).lines[i]? = some l ∧ l.range = range := by
  rw [lineRange?, Option.map_eq_some_iff]

/-- A line has a range exactly if the index has the line. -/
theorem isSome_lineRange? (index : LineIndex) (i : Nat) :
    (index.lineRange? i).isSome ↔ i < index.lineCount := by
  rw [lineRange?, Option.isSome_map, isSome_getElem?, lineCount]

/-- For a text whose size is a word the lines of the index tile the text. There is one more than
there are newlines, and exactly these have a range. A range does not stop in front of its start or
behind the text, both ends stand between characters, and the next line starts one byte behind its
end. What is cut out at the ranges has no newlines, and with newlines between it is the text. The
search by line starts has as many lines and gives the same ranges without a step that fails. -/
theorem lines_tile {text : String} (h : byteSize text.toList < 0x100000000) :
    (ofText text).lineCount = text.toList.count '\n' + 1 ∧
    (∀ i, ((ofText text).lineRange? i).isSome ↔ i < (ofText text).lineCount) ∧
    (∀ i range, (ofText text).lineRange? i = some range →
      range.start ≤ range.stop ∧ range.stop ≤ byteSize text.toList ∧
        Border text.toList range.start ∧ Border text.toList range.stop) ∧
    (∀ i range next, (ofText text).lineRange? i = some range →
      (ofText text).lineRange? (i + 1) = some next → next.start = range.stop + 1) ∧
    (∃ slices : List (List Char), slices.length = (ofText text).lineCount ∧
      (∀ i range, (ofText text).lineRange? i = some range →
        ∃ line, slices[i]? = some line ∧ slice text.toList range = .ok line ∧ '\n' ∉ line) ∧
      ['\n'].intercalate slices = text.toList) ∧
    ∃ index, LineStarts.ofText text = .ok index ∧
      index.starts.length = (ofText text).lineCount ∧
      ∀ i, index.lineRange? i = .ok ((ofText text).lineRange? i) := by
  refine ⟨lineCount_ofText text, isSome_lineRange? _, ?bounds, ?next, ?slices, ?search⟩
  case bounds =>
    intro i range hrange
    obtain ⟨l, hl, rfl⟩ := lineRange?_eq_some_iff.mp hrange
    obtain ⟨before, behind, hstands⟩ := exists_standsIn _ hl
    exact ⟨Nat.le_add_right _ _, hstands.stop_le, hstands.border_start, hstands.border_stop⟩
  case next =>
    intro i range next hrange hnext
    obtain ⟨l, hl, rfl⟩ := lineRange?_eq_some_iff.mp hrange
    obtain ⟨m, hm, rfl⟩ := lineRange?_eq_some_iff.mp hnext
    exact start_of_getElem?_succ hl hm
  case slices =>
    refine ⟨Text.lines text.toList, ?_, fun i range hrange => ?_, intercalate_lines _⟩
    · rw [length_lines, lineCount_ofText]
    · obtain ⟨l, hl, rfl⟩ := lineRange?_eq_some_iff.mp hrange
      obtain ⟨before, behind, hstands⟩ := exists_standsIn _ hl
      exact ⟨l.chars, getElem?_lines hl, slice_range hstands, hstands.unbroken⟩
  case search =>
    have hindex := LineStarts.ofText_eq h
    exact ⟨_, hindex, List.length_map _, LineStarts.lineRange?_eq hindex h⟩

/-- A text with an empty line behind characters of two and four bytes, and one at its end. -/
def gapText : String :=
  "ä😀\n\nb\n"

/-- The empty line in the middle starts where it stops, and the next line one byte behind. -/
theorem gapText_tile :
    byteSize gapText.toList < 0x100000000 ∧
      (ofText gapText).lineCount = 4 ∧
      (ofText gapText).lineRange? 1 = some ⟨7, 7⟩ ∧
      Border gapText.toList 7 ∧
      (∃ next, (ofText gapText).lineRange? 2 = some next ∧ next.start = 8) ∧
      ∃ index, LineStarts.ofText gapText = .ok index ∧
        index.lineRange? 1 = .ok (some ⟨7, 7⟩) := by
  have hsize : byteSize gapText.toList < 0x100000000 := by decide +kernel
  obtain ⟨hcount, hsome, hbounds, hnext, -, index, hindex, -, hsearch⟩ := lines_tile hsize
  have hfour : (ofText gapText).lineCount = 4 := hcount.trans (by decide +kernel)
  have hrange : (ofText gapText).lineRange? 1 = some ⟨7, 7⟩ := by decide +kernel
  obtain ⟨-, -, hborder, -⟩ := hbounds 1 _ hrange
  obtain ⟨next, hthird⟩ := Option.isSome_iff_exists.mp ((hsome 2).mpr (by rw [hfour]; decide))
  exact ⟨hsize, hfour, hrange, hborder, ⟨next, hthird, hnext 1 _ next hrange hthird⟩, index,
    hindex, (hsearch 1).trans (congrArg Except.ok hrange)⟩

end LineIndex

end ArgdownLens
