import Mathlib.Data.List.Basic
import Mathlib.Tactic.SplitIfs

/-!
# Patterns

A pattern matches the beginning of a text, perhaps in several ways, and `Pattern.ways` lists them
with the preferred one first. A search goes through the places of a text from left to right and
takes the preferred match at the first place that has one (`Pattern.search`): what is found matches
at some place (`Pattern.mem_ways_of_search`), and nothing is found only where no place has a match
(`Pattern.search_eq_none_iff`). A bracketed title at the end of a text is such a pattern, and it
matches in one way at most (`Pattern.mem_ways_bracketed`).
-/

namespace ArgdownLens.Text

/-- A pattern to look for in a text. -/
inductive Pattern where
  /-- One character that is accepted. -/
  | one (accepts : Char → Bool)
  /-- Accepted characters, at least one and as few as possible. -/
  | few (accepts : Char → Bool)
  /-- A pattern whose characters are noted. -/
  | noted (p : Pattern)
  /-- The end of the text. -/
  | atEnd
  /-- A pattern, and another one behind it. -/
  | next (p q : Pattern)

/-- A way in which a pattern matches the beginning of a text: the characters matched, the parts of
them that are noted, and the characters behind them. -/
structure PatternMatch where
  chars : List Char
  noted : List (List Char)
  rest : List Char
  deriving DecidableEq, Repr

namespace Pattern

/-- The ways to take accepted characters from the beginning of a text, the shortest first. -/
def fewWays (accepts : Char → Bool) : List Char → List PatternMatch
  | [] => []
  | c :: cs =>
    if accepts c then
      ⟨[c], [], cs⟩ :: (fewWays accepts cs).map fun m => { m with chars := c :: m.chars }
    else []

/-- The ways in which a pattern matches the beginning of a text, the preferred one first. -/
def ways : Pattern → List Char → List PatternMatch
  | one _, [] => []
  | one accepts, c :: cs => if accepts c then [⟨[c], [], cs⟩] else []
  | few accepts, cs => fewWays accepts cs
  | noted p, cs => (p.ways cs).map fun m => { m with noted := m.chars :: m.noted }
  | atEnd, [] => [⟨[], [], []⟩]
  | atEnd, _ :: _ => []
  | next p q, cs =>
    (p.ways cs).flatMap fun m =>
      (q.ways m.rest).map fun n => ⟨m.chars ++ n.chars, m.noted ++ n.noted, n.rest⟩

/-- The preferred match at the first place of a text at which the pattern matches. -/
def search (p : Pattern) : List Char → Option PatternMatch
  | [] => (p.ways []).head?
  | c :: cs => (p.ways (c :: cs)).head?.or (p.search cs)

/-! ## Searching -/

/-- What is found is a way to match at some place. -/
theorem mem_ways_of_search {p : Pattern} {cs : List Char} {m : PatternMatch}
    (h : p.search cs = some m) : ∃ place, place <:+ cs ∧ m ∈ p.ways place := by
  induction cs with
  | nil => exact ⟨[], List.suffix_refl _, List.mem_of_head? h⟩
  | cons c cs ih =>
    rw [search, Option.or_eq_some_iff] at h
    rcases h with h | ⟨-, h⟩
    · exact ⟨c :: cs, List.suffix_refl _, List.mem_of_head? h⟩
    · obtain ⟨place, hplace, hm⟩ := ih h
      exact ⟨place, hplace.trans (List.suffix_cons c cs), hm⟩

/-- Nothing is found exactly if there is no way to match at any place. -/
theorem search_eq_none_iff {p : Pattern} {cs : List Char} :
    p.search cs = none ↔ ∀ place, place <:+ cs → p.ways place = [] := by
  induction cs with
  | nil => simp [search, List.suffix_nil]
  | cons c cs ih =>
    simp only [search, Option.or_eq_none_iff, List.head?_eq_none_iff, ih, List.suffix_cons_iff,
      forall_eq_or_imp]

/-! ## The ways to match -/

/-- Accepted characters are taken in the ways in which the text begins with some of them. -/
theorem mem_fewWays {accepts : Char → Bool} {cs : List Char} {m : PatternMatch} :
    m ∈ fewWays accepts cs ↔
      cs = m.chars ++ m.rest ∧ m.noted = [] ∧ m.chars ≠ [] ∧ ∀ c ∈ m.chars, accepts c = true := by
  obtain ⟨chars, noted, rest⟩ := m
  induction cs generalizing chars with
  | nil =>
    simp only [fewWays, List.not_mem_nil, List.nil_eq_append_iff, false_iff]
    rintro ⟨⟨rfl, -⟩, -, hne, -⟩
    exact hne rfl
  | cons c cs ih =>
    rw [fewWays]
    cases chars with
    | nil => split_ifs <;> simp
    | cons d chars =>
      simp only at ih ⊢
      split_ifs with hc
      · -- Either the first character is all that is taken, or more of them are.
        simp only [List.mem_cons, List.mem_map, PatternMatch.mk.injEq, List.cons.injEq]
        constructor
        · rintro (⟨⟨rfl, rfl⟩, rfl, rfl⟩ | ⟨⟨chars', noted', rest'⟩, hm, ⟨rfl, rfl⟩, rfl, rfl⟩)
          · simpa using hc
          · obtain ⟨rfl, rfl, -, hall⟩ := (ih _).mp hm
            simpa [hc] using hall
        · rintro ⟨⟨rfl, rfl⟩, rfl, -, hall⟩
          cases chars with
          | nil => simp
          | cons e chars =>
            right
            refine ⟨⟨e :: chars, [], rest⟩, (ih _).mpr ⟨rfl, rfl, nofun, ?_⟩, by simp⟩
            exact fun x hx => hall x (Or.inr hx)
      · simp only [List.not_mem_nil, false_iff]
        rintro ⟨heq, -, -, hall⟩
        obtain ⟨rfl, -⟩ := List.cons.inj heq
        exact hc (hall c List.mem_cons_self)

/-- One character is matched where it is accepted. -/
theorem mem_ways_one {accepts : Char → Bool} {cs : List Char} {m : PatternMatch} :
    m ∈ (one accepts).ways cs ↔
      ∃ c rest, accepts c = true ∧ cs = c :: rest ∧ m = ⟨[c], [], rest⟩ := by
  cases cs with
  | nil => simp [ways]
  | cons c cs =>
    rw [ways]
    split_ifs with hc
    · simp [hc]
    · simp only [List.not_mem_nil, false_iff]
      rintro ⟨d, rest, hd, heq, -⟩
      exact hc ((List.cons.inj heq).1 ▸ hd)

/-- Characters that are taken and noted are noted as one part. -/
theorem mem_ways_noted_few {accepts : Char → Bool} {cs : List Char} {m : PatternMatch} :
    m ∈ (noted (few accepts)).ways cs ↔
      ∃ part rest, part ≠ [] ∧ (∀ c ∈ part, accepts c = true) ∧ cs = part ++ rest ∧
        m = ⟨part, [part], rest⟩ := by
  simp only [ways, List.mem_map]
  constructor
  · rintro ⟨⟨part, noted, rest⟩, hm, rfl⟩
    obtain ⟨hcs, rfl, hne, hall⟩ := mem_fewWays.mp hm
    exact ⟨part, rest, hne, hall, hcs, rfl⟩
  · rintro ⟨part, rest, hne, hall, hcs, rfl⟩
    exact ⟨⟨part, [], rest⟩, mem_fewWays.mpr ⟨hcs, rfl, hne, hall⟩, rfl⟩

/-- The end of the text is matched where nothing follows. -/
theorem mem_ways_atEnd {cs : List Char} {m : PatternMatch} :
    m ∈ atEnd.ways cs ↔ cs = [] ∧ m = ⟨[], [], []⟩ := by
  cases cs <;> simp [ways]

/-- Two patterns are matched one behind the other. -/
theorem mem_ways_next {p q : Pattern} {cs : List Char} {m : PatternMatch} :
    m ∈ (next p q).ways cs ↔
      ∃ a ∈ p.ways cs, ∃ b ∈ q.ways a.rest,
        m = ⟨a.chars ++ b.chars, a.noted ++ b.noted, b.rest⟩ := by
  simp only [ways, List.mem_flatMap, List.mem_map, eq_comm (a := m)]

/-! ## Bracketed titles -/

/-- The pattern of a title in brackets at the end of a text. The title, which is noted, is not empty
and holds no opening bracket. -/
def bracketed (opening closing : Char) : Pattern :=
  next (one (· == opening))
    (next (noted (few (· != opening))) (next (one (· == closing)) atEnd))

/-- A title in brackets is matched only as a whole, from its opening bracket to the end of the text.
-/
theorem mem_ways_bracketed {opening closing : Char} {cs : List Char} {m : PatternMatch} :
    m ∈ (bracketed opening closing).ways cs ↔
      ∃ title, title ≠ [] ∧ opening ∉ title ∧ cs = opening :: title ++ [closing] ∧
        m = ⟨cs, [title], []⟩ := by
  simp only [bracketed, mem_ways_next, mem_ways_one, mem_ways_noted_few, mem_ways_atEnd]
  constructor
  · rintro ⟨_, ⟨c, _, hc, rfl, rfl⟩, _, ⟨_, ⟨title, _, hne, hall, rfl, rfl⟩, _,
      ⟨_, ⟨d, _, hd, rfl, rfl⟩, _, ⟨rfl, rfl⟩, rfl⟩, rfl⟩, rfl⟩
    obtain rfl := beq_iff_eq.mp hc
    obtain rfl := beq_iff_eq.mp hd
    refine ⟨title, hne, fun hmem => ?_, rfl, rfl⟩
    exact bne_iff_ne.mp (hall _ hmem) rfl
  · rintro ⟨title, hne, hopening, rfl, rfl⟩
    have hall : ∀ c ∈ title, (c != opening) = true := by
      intro c hc
      exact bne_iff_ne.mpr fun he => hopening (he ▸ hc)
    exact ⟨_, ⟨opening, _, beq_self_eq_true _, rfl, rfl⟩, _,
      ⟨_, ⟨title, _, hne, hall, rfl, rfl⟩, _,
        ⟨_, ⟨closing, [], beq_self_eq_true _, rfl, rfl⟩, _, ⟨rfl, rfl⟩, rfl⟩, rfl⟩, rfl⟩

end Pattern

end ArgdownLens.Text
