import ArgdownLens.Text.LineIndex
import Mathlib.Tactic.SplitIfs

/-!
# Positions and bytes of a text

The position behind some characters counts the newlines among them and the UTF-16 code units since
the last one (`positionBehind`). The index of a text takes it back to the bytes of these characters
(`offset?_positionBehind`), whatever stands behind them.
-/

namespace ArgdownLens

namespace Text

/-- The number of code units of some characters in UTF-16. -/
def units : List Char → Nat
  | [] => 0
  | c :: cs => units16 c + units cs

/-- The position behind a character that stands at `p`. -/
def advance (p : Position) (c : Char) : Position :=
  if c = '\n' then ⟨p.line + 1, 0⟩ else ⟨p.line, p.character + units16 c⟩

/-- The position behind some characters at the beginning of a text. -/
def positionBehind (cs : List Char) : Position :=
  cs.foldl advance ⟨0, 0⟩

/-! ## Counting -/

/-- Bytes add up. -/
theorem byteSize_append (as bs : List Char) :
    byteSize (as ++ bs) = byteSize as + byteSize bs := by
  induction as with
  | nil => rw [List.nil_append, byteSize, Nat.zero_add]
  | cons c as ih => rw [List.cons_append, byteSize, byteSize, ih, Nat.add_assoc]

/-- Code units add up. -/
theorem units_append (as bs : List Char) : units (as ++ bs) = units as + units bs := by
  induction as with
  | nil => rw [List.nil_append, units, Nat.zero_add]
  | cons c as ih => rw [List.cons_append, units, units, ih, Nat.add_assoc]

/-- Every character takes a code unit. -/
theorem units16_pos (c : Char) : 0 < units16 c := by
  unfold units16
  split <;> decide

/-- The bytes in front of a column are those of the characters that take the column's units. -/
theorem columnBytes_units (as bs : List Char) :
    columnBytes (units as) (as ++ bs) = byteSize as := by
  induction as with
  | nil => cases bs <;> simp [units, byteSize, columnBytes]
  | cons c as ih =>
    have hpos := units16_pos c
    rw [units, List.cons_append, columnBytes, if_neg (by omega), Nat.add_sub_cancel_left, ih,
      byteSize]

/-- The characters that take the bytes of a beginning are this beginning. -/
theorem upTo?_byteSize (as bs : List Char) : upTo? (byteSize as) (as ++ bs) = some as := by
  induction as with
  | nil => cases bs <;> simp [byteSize, upTo?]
  | cons c as ih =>
    have hpos := c.utf8Size_pos
    rw [byteSize, List.cons_append, upTo?, if_neg (by omega), if_pos (by omega),
      Nat.add_sub_cancel_left, ih, Option.map_some]

/-- The characters that take some bytes of a text are its beginning of that size. -/
theorem upTo?_eq_some_iff {bytes : Nat} {cs before : List Char} :
    upTo? bytes cs = some before ↔ before <+: cs ∧ byteSize before = bytes := by
  constructor
  · intro h
    induction cs generalizing bytes before with
    | nil =>
      rw [upTo?] at h
      split_ifs at h with hzero
      obtain rfl := Option.some.inj h
      exact ⟨List.prefix_refl _, hzero.symm⟩
    | cons c cs ih =>
      rw [upTo?] at h
      split_ifs at h with hzero hsize
      · obtain rfl := Option.some.inj h
        exact ⟨List.nil_prefix, hzero.symm⟩
      · obtain ⟨more, hmore, rfl⟩ := Option.map_eq_some_iff.mp h
        obtain ⟨hbegins, hbytes⟩ := ih hmore
        refine ⟨(List.prefix_cons_inj c).mpr hbegins, ?_⟩
        rw [byteSize, hbytes, Nat.add_sub_cancel' hsize]
  · rintro ⟨⟨after, rfl⟩, rfl⟩
    exact upTo?_byteSize before after

/-! ## Lines -/

/-- A text has a first line. -/
theorem lines_ne_nil (cs : List Char) : lines cs ≠ [] := by
  cases cs with
  | nil => simp [lines]
  | cons c cs =>
    rw [lines]
    split_ifs
    · simp
    · split <;> simp

/-- Characters without a newline belong to the first line of what stands behind them. -/
theorem lines_append {pre cs line : List Char} {rest : List (List Char)} (hpre : '\n' ∉ pre)
    (h : lines cs = line :: rest) : lines (pre ++ cs) = (pre ++ line) :: rest := by
  induction pre with
  | nil => exact h
  | cons c pre ih =>
    obtain ⟨hc, hpre⟩ := not_or.mp (mt List.mem_cons.mpr hpre)
    rw [List.cons_append, lines, if_neg (Ne.symm hc), ih hpre]
    rfl

/-- A newline ends the line in front of it. -/
theorem lines_newline (cs : List Char) : lines ('\n' :: cs) = [] :: lines cs := by
  rw [lines, if_pos rfl]

/-! ## Positions -/

/-- Counting from a later line gives a later line. -/
theorem foldl_advance_succ (cs : List Char) (line character : Nat) :
    cs.foldl advance ⟨line + 1, character⟩ =
      ⟨(cs.foldl advance ⟨line, character⟩).line + 1,
        (cs.foldl advance ⟨line, character⟩).character⟩ := by
  induction cs generalizing line character with
  | nil => rfl
  | cons c cs ih =>
    rw [List.foldl_cons, List.foldl_cons]
    by_cases hc : c = '\n'
    · rw [advance, advance, if_pos hc, if_pos hc, ih]
    · rw [advance, advance, if_neg hc, if_neg hc, ih]

/-- Without a newline, characters only take code units of the line. -/
theorem foldl_advance_of_notMem {cs : List Char} (h : '\n' ∉ cs) (p : Position) :
    cs.foldl advance p = ⟨p.line, p.character + units cs⟩ := by
  induction cs generalizing p with
  | nil => rfl
  | cons c cs ih =>
    obtain ⟨hc, hcs⟩ := not_or.mp (mt List.mem_cons.mpr h)
    rw [List.foldl_cons, ih hcs, advance, if_neg (Ne.symm hc), units, Nat.add_assoc]

/-- The position behind two stretches is counted on from the first one. -/
theorem positionBehind_append (as bs : List Char) :
    positionBehind (as ++ bs) = bs.foldl advance (positionBehind as) := by
  rw [positionBehind, List.foldl_append]
  rfl

/-- No character leads back. -/
theorem le_foldl_advance (cs : List Char) (p : Position) : p ≤ cs.foldl advance p := by
  induction cs generalizing p with
  | nil => exact Or.inr ⟨rfl, Nat.le_refl _⟩
  | cons c cs ih =>
    refine Position.le_trans ?_ (ih (advance p c))
    unfold advance
    split_ifs
    · exact Or.inl (Nat.lt_succ_self _)
    · exact Or.inr ⟨rfl, Nat.le_add_right _ _⟩

end Text

namespace LineIndex

open Text

/-- In a text that begins with `pre`, a stretch without newlines, and goes on with `as`, the line
that holds the position behind `as` has, up to that position, the bytes in front of it. The
induction is on `as`: a newline begins a line anew, and every other character goes over to `pre`. -/
theorem place_lines_append (as : List Char) :
    ∀ {pre : List Char} (bs : List Char) (start : Nat), '\n' ∉ pre →
      ∃ l, (place start (Text.lines (pre ++ as ++ bs)))[(as.foldl advance ⟨0, units pre⟩).line]? =
          some l ∧
        l.start + columnBytes (as.foldl advance ⟨0, units pre⟩).character l.chars =
          start + byteSize (pre ++ as) := by
  induction as with
  | nil =>
    intro pre bs start hpre
    obtain ⟨line, rest, hlines⟩ := List.exists_cons_of_ne_nil (lines_ne_nil bs)
    rw [List.append_nil, lines_append hpre hlines, place]
    exact ⟨_, rfl, by rw [List.foldl_nil, columnBytes_units]⟩
  | cons c as ih =>
    intro pre bs start hpre
    by_cases hc : c = '\n'
    · -- The line is complete, and counting goes on behind it with an empty `pre`.
      subst hc
      have hnil : '\n' ∉ ([] : List Char) := List.not_mem_nil
      obtain ⟨l, hl, hbytes⟩ := ih bs (start + byteSize pre + 1) hnil
      refine ⟨l, ?_, ?_⟩
      · rw [List.append_assoc, List.cons_append, lines_append hpre (lines_newline _),
          List.append_nil, place, List.foldl_cons, advance, if_pos rfl, foldl_advance_succ,
          List.getElem?_cons_succ]
        exact hl
      · rw [List.foldl_cons, advance, if_pos rfl, foldl_advance_succ, byteSize_append,
          byteSize, show '\n'.utf8Size = 1 from rfl]
        rw [List.nil_append, show units [] = 0 from rfl] at hbytes
        dsimp only
        omega
    · -- The character still belongs to the line.
      have hpre' : '\n' ∉ pre ++ [c] := by
        simp [hpre, Ne.symm hc]
      obtain ⟨l, hl, hbytes⟩ := ih bs start hpre'
      have hunits : advance ⟨0, units pre⟩ c = ⟨0, units (pre ++ [c])⟩ := by
        rw [advance, if_neg hc, units_append, units]
        rfl
      rw [List.append_assoc pre [c], List.singleton_append] at hl hbytes
      rw [List.foldl_cons, hunits]
      exact ⟨l, hl, hbytes⟩

/-- The position behind the beginning of a text has the bytes of this beginning in front of it. -/
theorem offset?_positionBehind {text : String} {as bs : List Char}
    (h : text.toList = as ++ bs) :
    (ofText text).offset? (positionBehind as) = some (byteSize as) := by
  have hnil : '\n' ∉ ([] : List Char) := List.not_mem_nil
  obtain ⟨l, hl, hbytes⟩ := place_lines_append as bs 0 hnil
  unfold ofText offset?
  rw [h]
  have hl' : (place 0 (Text.lines (as ++ bs)))[(positionBehind as).line]? = some l := hl
  rw [hl', Option.map_some]
  congr 1
  rw [Nat.zero_add] at hbytes
  exact hbytes

end LineIndex

end ArgdownLens
