import ArgdownLens.Proofs.Text.Lines

/-!
# Positions by line starts

An index need not hold its lines: the bytes at which they begin, found by one scan, and the size of
the text are enough (`LineStarts`). A line then has to be cut out of the text, and every number is a
word of 32 bits. Here each step that can fail does so with a `Trap`: a sum that no word holds, a
difference below zero, a range that stops in front of its start, and a cut through a character or
outside of the text.

For a text whose size is a word none of that happens, whatever the position, and the answers are
those of the index of lines (`lineRange?_eq`, `offset?_eq`).
-/

namespace ArgdownLens

open Text

/-- What a step on words and ranges can fail with. -/
inductive Trap where
  | overflow
  | underflow
  | inverted
  | torn
  deriving DecidableEq, Repr

/-! ## Checked steps -/

/-- A number as a word of 32 bits. -/
def word (n : Nat) : Except Trap Nat :=
  if n < 0x100000000 then pure n else throw .overflow

/-- The difference of two words. -/
def wordSub (m n : Nat) : Except Trap Nat :=
  if n ≤ m then pure (m - n) else throw .underflow

/-- The range between two bytes. -/
def ByteRange.between (start stop : Nat) : Except Trap ByteRange :=
  if start ≤ stop then pure ⟨start, stop⟩ else throw .inverted

/-- The characters of a text in a range, both ends of which must stand between two characters. -/
def slice (cs : List Char) (r : ByteRange) : Except Trap (List Char) :=
  match upTo? r.start cs, upTo? r.stop cs with
  | some before, some whole =>
    if r.start ≤ r.stop then pure (whole.drop before.length) else throw .inverted
  | _, _ => throw .torn

/-- What fits a word is one. -/
theorem word_eq {n : Nat} (h : n < 0x100000000) : word n = pure n := if_pos h

/-- A difference that is not below zero. -/
theorem wordSub_eq {m n : Nat} (h : n ≤ m) : wordSub m n = pure (m - n) := if_pos h

/-- A range that does not stop in front of its start. -/
theorem ByteRange.between_eq {start stop : Nat} (h : start ≤ stop) :
    ByteRange.between start stop = pure ⟨start, stop⟩ := if_pos h

/-- A line is cut out of its text whole. -/
theorem slice_range {cs : List Char} {i : Nat} {l : Line} {before behind : List Char}
    (h : l.StandsIn cs i before behind) : slice cs l.range = pure l.chars := by
  have hstart : upTo? l.range.start cs = some before := by
    rw [h.text, List.append_assoc, show l.range.start = byteSize before from h.start,
      upTo?_byteSize]
  have hstop : upTo? l.range.stop cs = some (before ++ l.chars) := by
    rw [h.stop_eq, h.text, upTo?_byteSize]
  have hle : l.range.start ≤ l.range.stop := Nat.le_add_right _ _
  rw [slice, hstart, hstop]
  dsimp only
  rw [if_pos hle, List.drop_left]

/-! ## The scan -/

/-- The bytes at which the lines of a text begin, and the size of the text. -/
structure LineStarts where
  starts : List Nat
  size : Nat
  deriving DecidableEq, Repr

namespace LineStarts

/-- The bytes behind the newlines of a text that begins at `offset`. -/
def behindNewlines (offset : Nat) : List Char → Except Trap (List Nat)
  | [] => pure []
  | c :: cs => do
    if c = '\n' then
      let start ← word (offset + 1)
      let starts ← behindNewlines (offset + c.utf8Size) cs
      pure (start :: starts)
    else behindNewlines (offset + c.utf8Size) cs

/-- The line starts of a text. -/
def ofText (text : String) : Except Trap LineStarts := do
  let starts ← behindNewlines 0 text.toList
  let size ← word (byteSize text.toList)
  pure ⟨0 :: starts, size⟩

/-- The bytes of a line without its newline. -/
def lineRange? (index : LineStarts) (line : Nat) : Except Trap (Option ByteRange) :=
  match index.starts[line]? with
  | none => pure none
  | some start => do
    let stop ← match index.starts[line + 1]? with
      | some next => wordSub next 1
      | none => pure index.size
    let range ← ByteRange.between start stop
    pure (some range)

/-- Counts code units in the rest of a line up to a column. `offset` bytes of the line are in front
of it, with `counted` code units. -/
def scan (range : ByteRange) (character counted offset : Nat) : List Char → Except Trap Nat
  | [] => pure range.stop
  | c :: cs => do
    if character ≤ counted then
      let offset ← word offset
      word (range.start + offset)
    else
      let counted ← word (counted + units16 c)
      scan range character counted (offset + c.utf8Size) cs

/-- The byte at a position. -/
def offset? (index : LineStarts) (text : String) (p : Position) : Except Trap (Option Nat) := do
  match ← index.lineRange? p.line with
  | none => pure none
  | some range =>
    let line ← slice text.toList range
    let byte ← scan range p.character 0 0 line
    pure (some byte)

/-! ## The starts are those of the lines -/

/-- Behind the newlines the lines begin that follow the first one. -/
theorem behindNewlines_eq (cs : List Char) :
    ∀ offset : Nat, offset + byteSize cs < 0x100000000 →
      behindNewlines offset cs =
        pure ((LineIndex.place offset (lines cs)).tail.map Line.start) := by
  induction cs with
  | nil =>
    intro offset _
    rfl
  | cons c cs ih =>
    intro offset h
    rw [byteSize] at h
    -- No sum leaves the words: the offset and all bytes behind it stay below `2 ^ 32`.
    have hrest := ih (offset + c.utf8Size) (by omega)
    obtain ⟨line, rest, hlines⟩ := List.exists_cons_of_ne_nil (lines_ne_nil cs)
    rw [hlines, LineIndex.place, List.tail_cons] at hrest
    rw [behindNewlines, hrest]
    by_cases hc : c = '\n'
    · subst hc
      have hword := word_eq (n := offset + 1)
        (by have hsize : '\n'.utf8Size = 1 := rfl; omega)
      rw [if_pos rfl, hword, pure_bind, pure_bind, lines_newline, hlines]
      rfl
    · have hmove : offset + byteSize (c :: line) + 1 = offset + c.utf8Size + byteSize line + 1 := by
        rw [byteSize]
        omega
      rw [if_neg hc, lines_cons hc hlines, LineIndex.place, List.tail_cons, hmove]

/-- The scan of a text whose size is a word. -/
theorem ofText_eq {text : String} (h : byteSize text.toList < 0x100000000) :
    ofText text =
      pure ⟨(LineIndex.ofText text).lines.map Line.start, byteSize text.toList⟩ := by
  have hstarts := behindNewlines_eq text.toList 0 (by omega)
  obtain ⟨line, rest, hlines⟩ := List.exists_cons_of_ne_nil (lines_ne_nil text.toList)
  rw [ofText, hstarts, pure_bind, word_eq h, pure_bind, LineIndex.ofText, hlines]
  rfl

/-! ## The answers are those of the lines -/

/-- What the starts say of a line is its range. -/
theorem lineRange?_eq {text : String} {index : LineStarts} (hindex : ofText text = pure index)
    (h : byteSize text.toList < 0x100000000) (line : Nat) :
    index.lineRange? line = pure ((LineIndex.ofText text).lineRange? line) := by
  rw [ofText_eq h] at hindex
  cases hindex
  rw [lineRange?, LineIndex.lineRange?, List.getElem?_map]
  cases hl : (LineIndex.ofText text).lines[line]? with
  | none => rfl
  | some l =>
    obtain ⟨before, behind, hstands⟩ := LineIndex.exists_standsIn _ hl
    have hrange := ByteRange.between_eq (Nat.le_add_right l.start (byteSize l.chars))
    dsimp only [Option.map_some]
    rw [List.getElem?_map]
    cases hnext : (LineIndex.ofText text).lines[line + 1]? with
    | some m =>
      have hstart : m.start = l.start + byteSize l.chars + 1 :=
        LineIndex.start_of_getElem?_succ hl hnext
      dsimp only [Option.map_some]
      rw [hstart, wordSub_eq (Nat.le_add_left 1 _), pure_bind, Nat.add_sub_cancel, hrange,
        pure_bind]
      rfl
    | none =>
      -- No line is left, so there is no newline behind the line.
      have hcount := LineIndex.lineCount_ofText text
      have hlast : text.toList.count '\n' = line := by
        have hlt := (List.getElem?_eq_some_iff.mp hl).1
        have hge := List.getElem?_eq_none_iff.mp hnext
        rw [LineIndex.lineCount] at hcount
        omega
      have hstop : l.start + byteSize l.chars = byteSize text.toList := hstands.stop_of_last hlast
      dsimp only [Option.map_none]
      rw [pure_bind, ← hstop, hrange, pure_bind]
      rfl

/-- A character has no more code units than bytes. -/
theorem units16_le_utf8Size (c : Char) : units16 c ≤ c.utf8Size := by
  have hpos := c.utf8Size_pos
  unfold units16
  split_ifs with hc
  · exact hpos
  · have hone : c.utf8Size ≠ 1 := by
      intro h
      have hval : c.toNat ≤ 127 := UInt32.le_iff_toNat_le.mp (Char.utf8Size_eq_one_iff.mp h)
      omega
    omega

/-- The count reaches the column where the line does. The induction is on the rest of the line; the
code units in front of it are no more than the bytes, so that both stay words. -/
theorem scan_eq {range : ByteRange} (hrange : range.stop < 0x100000000) (character : Nat)
    (cs : List Char) :
    ∀ counted offset : Nat, counted ≤ offset → range.start + offset + byteSize cs = range.stop →
      scan range character counted offset cs =
        pure (range.start + offset + columnBytes (character - counted) cs) := by
  induction cs with
  | nil =>
    intro counted offset _ hstop
    rw [scan, columnBytes, ← hstop, byteSize]
  | cons c cs ih =>
    intro counted offset hcounted hstop
    rw [byteSize] at hstop
    rw [scan, columnBytes]
    by_cases hc : character ≤ counted
    · rw [if_pos hc, if_pos (by omega), word_eq (by omega), pure_bind, word_eq (by omega),
        Nat.add_zero]
    · -- One character further, the count still is no more than the bytes.
      have hunits := units16_le_utf8Size c
      rw [if_neg hc, if_neg (by omega), word_eq (by omega), pure_bind,
        ih _ _ (by omega) (by omega), Nat.sub_add_eq]
      congr 1
      omega

/-- For a text whose size is a word every step succeeds, and the byte is that of the index of
lines. -/
theorem offset?_eq {text : String} {index : LineStarts} (hindex : ofText text = pure index)
    (h : byteSize text.toList < 0x100000000) (p : Position) :
    index.offset? text p = pure ((LineIndex.ofText text).offset? p) := by
  rw [offset?, lineRange?_eq hindex h, pure_bind, LineIndex.lineRange?, LineIndex.offset?]
  cases hl : (LineIndex.ofText text).lines[p.line]? with
  | none => rfl
  | some l =>
    obtain ⟨before, behind, hstands⟩ := LineIndex.exists_standsIn _ hl
    have hrange : l.range.stop < 0x100000000 := Nat.lt_of_le_of_lt hstands.stop_le h
    have hscan := scan_eq hrange p.character l.chars 0 0 (Nat.le_refl 0) rfl
    dsimp only [Option.map_some]
    rw [slice_range hstands, pure_bind, hscan, pure_bind]
    rfl

end LineStarts

end ArgdownLens
