import ArgdownLens.Tree.Node

/-!
# Well-formed trees

In a well-formed tree no span ends before it starts, children lie within their parents, and siblings
follow one another without touching. Indentation tokens have spans without meaning, so nothing is
asked of them or of what is below them. The main consequence is `eq_of_contains`: siblings that have
a place in common are one and the same.
-/

namespace ArgdownLens

mutual

/-- The span of the node does not end before it starts, it encloses the children, and they are well
formed. -/
def Node.WellFormed : Node → Prop
  | ⟨_, span, children⟩ =>
    span.first ≤ span.last ∧ (∀ c ∈ children, ¬ c.isStructural → span.encloses c.span) ∧
      Node.WellFormedAll children

/-- Each of the siblings is well formed and ends in front of the later ones. -/
def Node.WellFormedAll : List Node → Prop
  | [] => True
  | n :: ns =>
    (¬ n.isStructural →
      n.WellFormed ∧ ∀ m ∈ ns, ¬ m.isStructural → n.span.last < m.span.first) ∧
      Node.WellFormedAll ns

end

mutual

/-- Decides whether a node is well formed. -/
def Node.decideWellFormed : (n : Node) → Decidable n.WellFormed
  | ⟨_, span, children⟩ =>
    have := Node.decideWellFormedAll children
    inferInstanceAs (Decidable (span.first ≤ span.last ∧
      (∀ c ∈ children, ¬ c.isStructural → span.encloses c.span) ∧ Node.WellFormedAll children))

/-- Decides whether siblings are well formed. -/
def Node.decideWellFormedAll : (ns : List Node) → Decidable (Node.WellFormedAll ns)
  | [] => inferInstanceAs (Decidable True)
  | n :: ns =>
    have := n.decideWellFormed
    have := Node.decideWellFormedAll ns
    inferInstanceAs (Decidable ((¬ n.isStructural →
      n.WellFormed ∧ ∀ m ∈ ns, ¬ m.isStructural → n.span.last < m.span.first) ∧
      Node.WellFormedAll ns))

end

instance (n : Node) : Decidable n.WellFormed := n.decideWellFormed

instance (ns : List Node) : Decidable (Node.WellFormedAll ns) := Node.decideWellFormedAll ns

namespace Node

/-- What well-formedness says about a node. -/
theorem wellFormed_iff {n : Node} :
    n.WellFormed ↔ n.span.first ≤ n.span.last ∧
      (∀ c ∈ n.children, ¬ c.isStructural → n.span.encloses c.span) ∧
      WellFormedAll n.children := by
  cases n
  exact Iff.rfl

/-- Each of some well-formed siblings is well formed. -/
theorem WellFormedAll.mem {ns : List Node} (h : WellFormedAll ns) {n : Node} (hn : n ∈ ns)
    (hs : ¬ n.isStructural) : n.WellFormed := by
  induction ns with
  | nil => simp at hn
  | cons m ms ih =>
    obtain ⟨hm, hms⟩ := h
    rcases List.mem_cons.mp hn with rfl | hn
    · exact (hm hs).1
    · exact ih hms hn

/-- Well-formed siblings follow one another. -/
theorem WellFormedAll.pairwise {ns : List Node} (h : WellFormedAll ns) :
    ns.Pairwise fun a b => ¬ a.isStructural → ¬ b.isStructural → a.span.last < b.span.first := by
  induction ns with
  | nil => exact List.Pairwise.nil
  | cons m ms ih =>
    obtain ⟨hm, hms⟩ := h
    refine List.Pairwise.cons ?_ (ih hms)
    intro k hk hsm hsk
    exact (hm hsm).2 k hk hsk

/-- The siblings in front of a node end before it starts, and those behind it start after its end.
-/
theorem WellFormedAll.split {before after : List Node} {n : Node}
    (h : WellFormedAll (before ++ n :: after)) (hs : ¬ n.isStructural) :
    (∀ m ∈ before, ¬ m.isStructural → m.span.last < n.span.first) ∧
      ∀ m ∈ after, ¬ m.isStructural → n.span.last < m.span.first := by
  obtain ⟨-, hafter, hbefore⟩ := List.pairwise_append.mp h.pairwise
  constructor
  · intro m hm hsm
    exact hbefore m hm n (List.mem_cons_self ..) hsm hs
  · intro m hm hsm
    exact (List.pairwise_cons.mp hafter).1 m hm hs hsm

/-- No node stands at a later place once more: it would start behind its own end. -/
theorem WellFormedAll.getElem?_ne_of_lt {ns : List Node} (h : WellFormedAll ns) {i j : Nat}
    {n : Node} (hi : ns[i]? = some n) (hs : ¬ n.isStructural) (hij : i < j) :
    ns[j]? ≠ some n := by
  intro hj
  have hn := (wellFormed_iff.mp (h.mem (List.mem_of_getElem? hi) hs)).1
  obtain ⟨hilt, hi⟩ := List.getElem?_eq_some_iff.mp hi
  obtain ⟨hjlt, hj⟩ := List.getElem?_eq_some_iff.mp hj
  -- The later occurrence starts behind the end of the earlier one.
  have hlt := List.pairwise_iff_getElem.mp h.pairwise i j hilt hjlt hij
  rw [hi, hj] at hlt
  exact Position.not_lt_of_le hn (hlt hs hs)

/-- No node stands at two places. -/
theorem WellFormedAll.getElem?_inj {ns : List Node} (h : WellFormedAll ns) {i j : Nat} {n : Node}
    (hi : ns[i]? = some n) (hj : ns[j]? = some n) (hs : ¬ n.isStructural) : i = j := by
  rcases Nat.lt_trichotomy i j with hlt | heq | hgt
  · exact absurd hj (h.getElem?_ne_of_lt hi hs hlt)
  · exact heq
  · exact absurd hi (h.getElem?_ne_of_lt hj hs hgt)

/-- Siblings that have a place in common are one and the same. -/
theorem WellFormedAll.eq_of_contains {ns : List Node} (h : WellFormedAll ns) {a b : Node}
    {p : Position} (ha : a ∈ ns) (hb : b ∈ ns) (hsa : ¬ a.isStructural) (hsb : ¬ b.isStructural)
    (hpa : a.span.first ≤ p ∧ p ≤ a.span.last) (hpb : b.span.first ≤ p ∧ p ≤ b.span.last) :
    a = b := by
  obtain ⟨before, after, rfl⟩ := List.append_of_mem ha
  obtain ⟨hbefore, hafter⟩ := h.split hsa
  -- In front of the other sibling or behind it, a node has no place in common with it.
  rcases List.mem_append.mp hb with hb | hb
  · have hlt := hbefore b hb hsb
    exact absurd hlt (Position.not_lt_of_le (Position.le_trans hpa.1 hpb.2))
  · rcases List.mem_cons.mp hb with rfl | hb
    · rfl
    · have hlt := hafter b hb hsb
      exact absurd hlt (Position.not_lt_of_le (Position.le_trans hpb.1 hpa.2))

end Node

end ArgdownLens
