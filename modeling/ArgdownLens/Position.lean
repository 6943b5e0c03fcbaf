/-!
# Positions in a document

Editors count lines and characters from zero, and a range ends before its end position. Characters
are UTF-16 code units.
-/

namespace ArgdownLens

/-- A place between two characters of a document, as editors count it. -/
structure Position where
  line : Nat
  character : Nat
  deriving DecidableEq, Repr, Inhabited

namespace Position

/-- Positions are ordered by line, then by character. -/
protected def le (p q : Position) : Prop :=
  p.line < q.line ∨ (p.line = q.line ∧ p.character ≤ q.character)

/-- The strict order of positions. -/
protected def lt (p q : Position) : Prop :=
  p.line < q.line ∨ (p.line = q.line ∧ p.character < q.character)

instance : LE Position := ⟨Position.le⟩

instance : LT Position := ⟨Position.lt⟩

instance (p q : Position) : Decidable (p ≤ q) :=
  inferInstanceAs (Decidable (_ ∨ _))

instance (p q : Position) : Decidable (p < q) :=
  inferInstanceAs (Decidable (_ ∨ _))

/-- The order of positions, coordinate by coordinate. -/
theorem le_iff {p q : Position} :
    p ≤ q ↔ p.line < q.line ∨ p.line = q.line ∧ p.character ≤ q.character := Iff.rfl

/-- The strict order of positions, coordinate by coordinate. -/
theorem lt_iff {p q : Position} :
    p < q ↔ p.line < q.line ∨ p.line = q.line ∧ p.character < q.character := Iff.rfl

/-- No position lies both in front of another one and not in front of it. -/
theorem not_lt_of_le {p q : Position} (h : p ≤ q) : ¬ q < p := by
  simp only [le_iff, lt_iff] at *
  omega

/-- The order of positions is reflexive. -/
theorem le_refl (p : Position) : p ≤ p :=
  Or.inr ⟨rfl, Nat.le_refl _⟩

/-- The order of positions is transitive. -/
theorem le_trans {p q r : Position} (hpq : p ≤ q) (hqr : q ≤ r) : p ≤ r := by
  simp only [le_iff] at *
  omega

/-- What lies in front of a position lies in front of everything behind it. -/
theorem lt_of_lt_of_le {p q r : Position} (hpq : p < q) (hqr : q ≤ r) : p < r := by
  simp only [le_iff, lt_iff] at *
  omega

/-- What lies behind a position lies behind everything in front of it. -/
theorem lt_of_le_of_lt {p q r : Position} (hpq : p ≤ q) (hqr : q < r) : p < r := by
  simp only [le_iff, lt_iff] at *
  omega

/-- What lies in front of a position does not lie behind it. -/
theorem le_of_lt {p q : Position} (h : p < q) : p ≤ q := by
  simp only [le_iff, lt_iff] at *
  omega

/-- The same place, counted from one. -/
def toOneBased (p : Position) : Nat × Nat :=
  (p.line + 1, p.character + 1)

end Position

/-- A stretch of a document, from `start` up to but not including `stop`. -/
structure Range where
  start : Position
  stop : Position
  deriving DecidableEq, Repr, Inhabited

namespace Range

/-- The range from one pair of coordinates to another. -/
def ofCoordinates (startLine startCharacter stopLine stopCharacter : Nat) : Range :=
  ⟨⟨startLine, startCharacter⟩, ⟨stopLine, stopCharacter⟩⟩

/-- Whether the position lies in the range. -/
def contains (r : Range) (p : Position) : Bool :=
  r.start ≤ p ∧ p < r.stop

end Range

/-- A range of the document with the given URI. -/
structure Location where
  uri : String
  range : Range
  deriving DecidableEq, Repr, Inhabited

end ArgdownLens
