import ArgdownLens.Proofs.Text.Scan
import ArgdownLens.Span
import Mathlib.Data.Prod.Lex

/-!
# Spans as ranges

The engine counts from one, and the last character of a span belongs to it. An editor counts from
zero, and a range ends before its end. So the start goes down by one in both coordinates, and the
end only in its line, since the column behind the last character is that character's own column once
it is counted from one (`Span.start_le_iff`, `Span.lt_stop_iff`).

A difference stops at zero, so nothing is lost as long as neither coordinate of the start nor the
last line is zero (`Span.Counted`). The last column may be: then the span ends with the line in
front of its last one. Such a span is read back from its range (`Span.ofRange_toRange`), and every
range is that of exactly one such span (`Span.existsUnique_toRange`).
-/

namespace ArgdownLens

/-- A span of which neither coordinate of the first place nor the last line is zero. -/
structure Span.Counted (s : Span) : Prop where
  startLine : 1 ≤ s.startLine
  startColumn : 1 ≤ s.startColumn
  endLine : 1 ≤ s.endLine

/-! ## Positions -/

namespace Position

/-- The same place, counted from one in words of 32 bits. -/
def toOneBased? (p : Position) : Except Trap (Nat × Nat) := do
  let line ← word (p.line + 1)
  let character ← word (p.character + 1)
  pure (line, character)

/-- Below the greatest word there is a word for either coordinate. -/
theorem toOneBased?_eq {p : Position} (hline : p.line < 0xFFFFFFFF)
    (hcharacter : p.character < 0xFFFFFFFF) : p.toOneBased? = pure p.toOneBased := by
  rw [toOneBased?, word_eq (by omega), pure_bind, word_eq (by omega), pure_bind, toOneBased]

end Position

/-! ## The ends of a range -/

namespace Span

variable {s t : Span}

/-- A range starts no later than a position if the span does, both counted from one. -/
theorem start_le_iff (h : s.Counted) {p : Position} :
    s.toRange.start ≤ p ↔ toLex (s.startLine, s.startColumn) ≤ toLex p.toOneBased := by
  obtain ⟨hline, hcolumn, -⟩ := h
  rw [Prod.Lex.toLex_le_toLex, Position.le_iff]
  simp only [toRange, Position.toOneBased]
  omega

/-- A range ends behind a position if the last place of the span does not stand in front of it, both
counted from one. -/
theorem lt_stop_iff (h : s.Counted) {p : Position} :
    p < s.toRange.stop ↔ toLex p.toOneBased ≤ toLex (s.endLine, s.endColumn) := by
  have hline := h.endLine
  rw [Prod.Lex.toLex_le_toLex, Position.lt_iff]
  simp only [toRange, Position.toOneBased]
  omega

/-- Ranges start in the order in which their spans start. -/
theorem toRange_start_le_start_iff (hs : s.Counted) (ht : t.Counted) :
    s.toRange.start ≤ t.toRange.start ↔ s.first ≤ t.first := by
  obtain ⟨hsline, hscolumn, -⟩ := hs
  obtain ⟨htline, htcolumn, -⟩ := ht
  simp only [toRange, first, Position.le_iff]
  omega

/-- Ranges end in the order in which their spans end. -/
theorem toRange_stop_le_stop_iff (hs : s.Counted) (ht : t.Counted) :
    s.toRange.stop ≤ t.toRange.stop ↔ s.last ≤ t.last := by
  have hsline := hs.endLine
  have htline := ht.endLine
  simp only [toRange, last, Position.le_iff]
  omega

/-! ## From ranges to spans -/

/-- The span that an editor counts as the range. -/
def ofRange (r : Range) : Span :=
  ⟨r.start.line + 1, r.start.character + 1, r.stop.line + 1, r.stop.character⟩

/-- A span is read back from its range. -/
theorem ofRange_toRange (h : s.Counted) : ofRange s.toRange = s := by
  rw [ofRange, toRange, Nat.sub_add_cancel h.startLine, Nat.sub_add_cancel h.startColumn,
    Nat.sub_add_cancel h.endLine]

/-- Every range is that of exactly one span that is counted from one. -/
theorem existsUnique_toRange (r : Range) : ∃! s : Span, s.Counted ∧ s.toRange = r := by
  have hcounted : (ofRange r).Counted :=
    ⟨Nat.le_add_left 1 _, Nat.le_add_left 1 _, Nat.le_add_left 1 _⟩
  refine ⟨ofRange r, ⟨hcounted, rfl⟩, ?_⟩
  rintro s ⟨hs, rfl⟩
  exact (ofRange_toRange hs).symm

/-- For spans that are counted from one, ranges say just what the spans say. A position lies in the
range if, counted from one, it lies between the first place of the span and the last one; positions
below the greatest word can be counted so in words. A span encloses another one if its range starts
no later and ends no earlier, and no two spans have one range. -/
theorem toRange_exact {a b : Span} (ha : a.Counted) (hb : b.Counted) (p : Position) :
    (a.toRange.contains p ↔
      toLex (a.startLine, a.startColumn) ≤ toLex p.toOneBased ∧
        toLex p.toOneBased ≤ toLex (a.endLine, a.endColumn)) ∧
    (p.line < 0xFFFFFFFF → p.character < 0xFFFFFFFF → p.toOneBased? = .ok p.toOneBased) ∧
    (a.encloses b ↔
      a.toRange.start ≤ b.toRange.start ∧ b.toRange.stop ≤ a.toRange.stop) ∧
    (a.toRange = b.toRange → a = b) := by
  refine ⟨?contains, Position.toOneBased?_eq, ?encloses, ?injective⟩
  case contains => rw [Range.contains, decide_eq_true_eq, start_le_iff ha, lt_stop_iff ha]
  case encloses =>
    rw [encloses_iff, toRange_start_le_start_iff ha hb, toRange_stop_le_stop_iff hb ha]
  case injective =>
    intro h
    rw [← ofRange_toRange ha, h, ofRange_toRange hb]

/-- A span from the second line on whose last column is zero on the fourth: its range holds a place
far along the third line, but none on the fourth behind the first character. -/
theorem zeroColumn_exact :
    Span.Counted ⟨2, 3, 4, 0⟩ ∧ Span.Counted ⟨2, 5, 3, 9⟩ ∧
      (toRange ⟨2, 3, 4, 0⟩).contains ⟨2, 70⟩ ∧ ¬ (toRange ⟨2, 3, 4, 0⟩).contains ⟨3, 0⟩ ∧
      toLex (2, 3) ≤ toLex (Position.toOneBased ⟨2, 70⟩) ∧
      toLex (Position.toOneBased ⟨2, 70⟩) ≤ toLex (4, 0) ∧
      Position.toOneBased? ⟨2, 70⟩ = .ok (3, 71) ∧
      encloses ⟨2, 3, 4, 0⟩ ⟨2, 5, 3, 9⟩ := by
  have ha : Span.Counted ⟨2, 3, 4, 0⟩ := ⟨by decide, by decide, by decide⟩
  have hb : Span.Counted ⟨2, 5, 3, 9⟩ := ⟨by decide, by decide, by decide⟩
  obtain ⟨hcontains, hwords, hencloses, -⟩ := toRange_exact ha hb ⟨2, 70⟩
  obtain ⟨hfirst, hlast⟩ := hcontains.mp (by decide)
  exact ⟨ha, hb, by decide, by decide, hfirst, hlast, hwords (by decide) (by decide),
    hencloses.mpr (by decide)⟩

/-- Without counting from one, two spans can have one range. -/
example : toRange ⟨0, 0, 1, 4⟩ = toRange ⟨1, 1, 1, 4⟩ := rfl

end Span

end ArgdownLens
