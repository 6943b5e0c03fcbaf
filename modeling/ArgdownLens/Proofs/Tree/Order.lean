import ArgdownLens.Proofs.Tree.Path
import ArgdownLens.Proofs.Tree.Preorder

/-!
# The order of a well-formed document

In the preorder of a well-formed tree no node starts in front of an earlier one, and what has
nothing below it ends before the next node starts (`Node.WellFormed.pairwise_preorder`). Indentation
tokens stand between the other nodes with spans that say nothing, so they are left out, and nothing
may stand below them. A document is well formed if its tree is and its places are counted from one.
-/

namespace ArgdownLens

namespace Node

/-! ## Nothing stands below an indentation token -/

/-- The indentation tokens of the tree have nothing below them. -/
def IndentsAreLeaves (n : Node) : Prop :=
  ∀ m ∈ n.preorder, m.isStructural → m.children = []

/-- The indentation tokens below a child are among those of the tree. -/
theorem IndentsAreLeaves.child {c n : Node} (h : n.IndentsAreLeaves) (hc : c ∈ n.children) :
    c.IndentsAreLeaves :=
  fun m hm => h m (mem_preorder_of_child hc hm)

/-- Only an indentation token stands in the tree of an indentation token. -/
theorem IndentsAreLeaves.not_structural {m n : Node} (h : n.IndentsAreLeaves)
    (hm : m ∈ n.preorder) (hs : ¬ m.isStructural) : ¬ n.isStructural := by
  intro hn
  have hnil := h n (mem_preorder_self n) hn
  rw [preorder_eq, hnil, preorderAll, List.mem_singleton] at hm
  exact hs (hm ▸ hn)

/-! ## Places along the preorder -/

/-- Every node of a well-formed tree is well formed. -/
theorem WellFormed.of_mem_preorder {m n : Node} (h : n.WellFormed) (hleaves : n.IndentsAreLeaves)
    (hm : m ∈ n.preorder) (hs : ¬ m.isStructural) : m.WellFormed := by
  induction n using induction_children with
  | h n ih =>
    rcases mem_preorder.mp hm with rfl | ⟨c, hc, hm⟩
    · exact h
    · have hcleaves := hleaves.child hc
      have hsc := hcleaves.not_structural hm hs
      exact ih c hc ((wellFormed_iff.mp h).2.2.mem hc hsc) hcleaves hm

/-- A well-formed tree encloses all its nodes. -/
theorem WellFormed.encloses_of_mem_preorder {m n : Node} (h : n.WellFormed)
    (hleaves : n.IndentsAreLeaves) (hm : m ∈ n.preorder) (hs : ¬ m.isStructural) :
    n.span.encloses m.span := by
  induction n using induction_children with
  | h n ih =>
    rcases mem_preorder.mp hm with rfl | ⟨c, hc, hm⟩
    · exact Span.encloses_refl _
    · -- The child encloses the node, and the parent encloses the child.
      obtain ⟨-, hencloses, hchildren⟩ := wellFormed_iff.mp h
      have hcleaves := hleaves.child hc
      have hsc := hcleaves.not_structural hm hs
      exact Span.encloses_trans (hencloses c hc hsc) (ih c hc (hchildren.mem hc hsc) hcleaves hm)

/-- The second node does not start in front of the first one, and it starts behind the end of the
first one if nothing stands below that. Nothing is asked of indentation tokens. -/
def Precedes (a b : Node) : Prop :=
  ¬ a.isStructural → ¬ b.isStructural →
    a.span.first ≤ b.span.first ∧ (a.children = [] → a.span.last < b.span.first)

/-- If the nodes of each tree follow one another, then those of well-formed siblings do. -/
theorem WellFormedAll.pairwise_preorderAll {ns : List Node} (h : WellFormedAll ns)
    (hleaves : ∀ n ∈ ns, n.IndentsAreLeaves)
    (heach : ∀ n ∈ ns, ¬ n.isStructural → n.preorder.Pairwise Precedes) :
    (preorderAll ns).Pairwise Precedes := by
  induction ns with
  | nil => exact List.Pairwise.nil
  | cons n ns ih =>
    have hnleaves := hleaves n (List.mem_cons_self ..)
    have hrest := ih h.2 (fun m hm => hleaves m (List.mem_cons_of_mem _ hm))
      (fun m hm => heach m (List.mem_cons_of_mem _ hm))
    rw [preorderAll, List.pairwise_append]
    refine ⟨?_, hrest, ?_⟩
    · by_cases hs : n.isStructural
      · rw [preorder_eq, hnleaves n (mem_preorder_self n) hs, preorderAll]
        exact List.pairwise_singleton ..
      · exact heach n (List.mem_cons_self ..) hs
    · -- The first tree ends in front of the one that the later node stands in.
      intro a ha b hb hsa hsb
      have hsn := hnleaves.not_structural ha hsa
      obtain ⟨hn, hafter⟩ := h.1 hsn
      obtain ⟨m, hm, hb⟩ := mem_preorderAll.mp hb
      have hmleaves := hleaves m (List.mem_cons_of_mem _ hm)
      have hsm := hmleaves.not_structural hb hsb
      have hna := Span.encloses_iff.mp (hn.encloses_of_mem_preorder hnleaves ha hsa)
      have hmb := Span.encloses_iff.mp
        ((h.2.mem hm hsm).encloses_of_mem_preorder hmleaves hb hsb)
      have hlt : a.span.last < b.span.first :=
        Position.lt_of_le_of_lt hna.2 (Position.lt_of_lt_of_le (hafter m hm hsm) hmb.1)
      have ha := (wellFormed_iff.mp (hn.of_mem_preorder hnleaves ha hsa)).1
      exact ⟨Position.le_of_lt (Position.lt_of_le_of_lt ha hlt), fun _ => hlt⟩

/-- The nodes of a well-formed tree follow one another in its preorder. -/
theorem WellFormed.pairwise_preorder {n : Node} (h : n.WellFormed)
    (hleaves : n.IndentsAreLeaves) : n.preorder.Pairwise Precedes := by
  induction n using induction_children with
  | h n ih =>
    have hchildren := (wellFormed_iff.mp h).2.2
    rw [preorder_eq]
    refine List.Pairwise.cons ?_ ?_
    · -- The root starts no later than what it encloses. It has children if anything is below it.
      intro m hm hsn hsm
      have hmem : m ∈ n.preorder := by
        rw [preorder_eq]
        exact List.mem_cons_of_mem _ hm
      refine ⟨(Span.encloses_iff.mp (h.encloses_of_mem_preorder hleaves hmem hsm)).1, ?_⟩
      intro hnil
      rw [hnil] at hm
      simp [preorderAll] at hm
    · exact hchildren.pairwise_preorderAll (fun c hc => hleaves.child hc)
        fun c hc hsc => ih c hc (hchildren.mem hc hsc) (hleaves.child hc)

end Node

/-! ## Documents -/

/-- A span of which neither coordinate of the first place is zero. -/
def Span.IsCounted (s : Span) : Prop :=
  1 ≤ s.startLine ∧ 1 ≤ s.startColumn

instance (s : Span) : Decidable s.IsCounted :=
  inferInstanceAs (Decidable (_ ∧ _))

/-- What the engine promises of the tree of a document: spans are nested and in order, places are
counted from one, and nothing stands below indentation tokens and tokens that name a symbol. -/
structure Response.WellFormed (r : Response) : Prop where
  nested : ¬ r.ast.isStructural → r.ast.WellFormed
  counted : ∀ n ∈ r.ast.preorder, ¬ n.isStructural → n.span.IsCounted
  leaves : ∀ n ∈ r.ast.preorder, n.isStructural ∨ n.occurrence?.isSome → n.children = []

instance (r : Response) : Decidable r.WellFormed :=
  decidable_of_iff ((¬ r.ast.isStructural → r.ast.WellFormed) ∧
      (∀ n ∈ r.ast.preorder, ¬ n.isStructural → n.span.IsCounted) ∧
      ∀ n ∈ r.ast.preorder, n.isStructural ∨ n.occurrence?.isSome → n.children = [])
    ⟨fun ⟨nested, counted, leaves⟩ => ⟨nested, counted, leaves⟩,
      fun h => ⟨h.nested, h.counted, h.leaves⟩⟩

namespace Response.WellFormed

variable {r : Response}

/-- Nothing stands below the indentation tokens of a well-formed document. -/
theorem indentsAreLeaves (h : r.WellFormed) : r.ast.IndentsAreLeaves :=
  fun n hn hs => h.leaves n hn (Or.inl hs)

/-- What stands below the root of a well-formed document is well formed. -/
theorem children (h : r.WellFormed) : Node.WellFormedAll r.ast.children := by
  by_cases hs : r.ast.isStructural
  · rw [h.indentsAreLeaves r.ast (Node.mem_preorder_self _) hs]
    trivial
  · exact (Node.wellFormed_iff.mp (h.nested hs)).2.2

/-- Every node of a well-formed document is well formed. -/
theorem wellFormed_of_mem (h : r.WellFormed) {n : Node} (hn : n ∈ r.ast.preorder)
    (hs : ¬ n.isStructural) : n.WellFormed :=
  (h.nested (h.indentsAreLeaves.not_structural hn hs)).of_mem_preorder h.indentsAreLeaves hn hs

/-- The nodes of a well-formed document follow one another in its preorder. -/
theorem pairwise_preorder (h : r.WellFormed) : r.ast.preorder.Pairwise Node.Precedes := by
  by_cases hs : r.ast.isStructural
  · rw [Node.preorder_eq, h.indentsAreLeaves r.ast (Node.mem_preorder_self _) hs, Node.preorderAll]
    exact List.pairwise_singleton ..
  · exact (h.nested hs).pairwise_preorder h.indentsAreLeaves

/-- The occurrences of a well-formed document stand one behind the other. -/
theorem pairwise_occurrences (h : r.WellFormed) :
    r.occurrences.Pairwise fun a b => a.node.span.last < b.node.span.first := by
  unfold Response.occurrences
  rw [List.pairwise_filterMap]
  refine h.pairwise_preorder.imp_of_mem ?_
  intro m n hm hn hmn a ha b hb
  obtain rfl := Node.node_of_occurrence? ha
  obtain rfl := Node.node_of_occurrence? hb
  -- Nothing stands below a node that names a symbol, so it ends before the next node starts.
  have hleaf := h.leaves a.node hm (Or.inr (by rw [ha]; rfl))
  exact (hmn (Node.not_structural_of_occurrence? ha)
    (Node.not_structural_of_occurrence? hb)).2 hleaf

end Response.WellFormed

/-- The mention `@[S1]` in the second line of the document below. -/
def mentionNode : Node :=
  ⟨.statement ⟨.mention, none, some "S1"⟩, .onLine 2 13 17, []⟩

/-- The statement `[S2]: Other @[S1].` -/
def mentioningStatement : Node :=
  ⟨.rule "statement", .onLine 2 1 18,
    [⟨.statement ⟨.definition, some "S2", none⟩, .onLine 2 1 5, []⟩, mentionNode]⟩

/-- The document
```
[S1]: Text.
[S2]: Other @[S1].
<A1>: Desc. #(t)
  + [S1]
```
whose argument goes over two lines, with an indentation token between them. -/
def relationDocument : Response where
  ast := ⟨.rule "argdown", ⟨1, 1, 4, 8⟩, [
    ⟨.rule "statement", .onLine 1 1 11,
      [⟨.statement ⟨.definition, some "S1", none⟩, .onLine 1 1 5, []⟩]⟩,
    mentioningStatement,
    ⟨.rule "argument", ⟨3, 1, 4, 8⟩,
      [⟨.argument ⟨.definition, some "A1", none⟩, .onLine 3 1 5, []⟩,
        ⟨.tag (some "t"), .onLine 3 13 16, []⟩,
        ⟨.indent, ⟨0, 0, 0, 0⟩, []⟩,
        ⟨.statement ⟨.reference, some "S1", none⟩, .onLine 4 5 8, []⟩]⟩]⟩

example : relationDocument.WellFormed := by decide

end ArgdownLens
