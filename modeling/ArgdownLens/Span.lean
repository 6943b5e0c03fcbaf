import ArgdownLens.Position

/-!
# Spans of the engine

The language engine counts lines and columns from one, and the last character of a span belongs to
it.
-/

namespace ArgdownLens

/-- The stretch of a document that a node or an entity takes, as the engine counts it. -/
structure Span where
  startLine : Nat
  startColumn : Nat
  endLine : Nat
  endColumn : Nat
  deriving DecidableEq, Repr, Inhabited

namespace Span

/-- A span within one line. -/
def onLine (line startColumn endColumn : Nat) : Span :=
  ⟨line, startColumn, line, endColumn⟩

/-- Whether the span touches the line, whatever the columns. -/
def containsLine (s : Span) (line : Nat) : Bool :=
  s.startLine ≤ line ∧ line ≤ s.endLine

/-- The first place of the span, in the engine's coordinates. -/
def first (s : Span) : Position :=
  ⟨s.startLine, s.startColumn⟩

/-- The last place of the span, in the engine's coordinates. -/
def last (s : Span) : Position :=
  ⟨s.endLine, s.endColumn⟩

/-- Whether the span begins no later and ends no earlier than the other one. -/
def encloses (s other : Span) : Bool :=
  s.first ≤ other.first ∧ other.last ≤ s.last

/-- A span encloses another one if it begins no later and ends no earlier. -/
theorem encloses_iff {s other : Span} :
    s.encloses other ↔ s.first ≤ other.first ∧ other.last ≤ s.last := by
  simp [encloses]

/-- A span encloses itself. -/
theorem encloses_refl (s : Span) : s.encloses s :=
  encloses_iff.mpr ⟨Position.le_refl _, Position.le_refl _⟩

/-- Enclosing is transitive. -/
theorem encloses_trans {s t u : Span} (hst : s.encloses t) (htu : t.encloses u) :
    s.encloses u := by
  rw [encloses_iff] at *
  exact ⟨Position.le_trans hst.1 htu.1, Position.le_trans htu.2 hst.2⟩

/-- The span as an editor counts it. The end column stays, because there the end does not belong to
the range. A coordinate that is zero stays zero. -/
def toRange (s : Span) : Range :=
  ⟨⟨s.startLine - 1, s.startColumn - 1⟩, ⟨s.endLine - 1, s.endColumn⟩⟩

end Span

end ArgdownLens
