import ArgdownLens.Query.Occurrence

/-!
# Nodes in the order of the document

The preorder of a tree holds the tree itself and what its children hold (`Node.mem_preorder`), so
also everything that the search for a place can find in it (`Node.mem_preorderAll_of_mem_locate`).
The occurrences of a document are read off the nodes in this order.
-/

namespace ArgdownLens

namespace Node

/-- What holds of a node if it holds of its children holds of every node. -/
@[elab_as_elim]
theorem induction_children {P : Node → Prop} (h : ∀ n, (∀ c ∈ n.children, P c) → P n) (n : Node) :
    P n := by
  induction hsize : sizeOf n using Nat.strongRecOn generalizing n with
  | ind size ih =>
    apply h
    intro c hc
    have hlt := List.sizeOf_lt_of_mem hc
    cases n
    simp only [Node.mk.sizeOf_spec] at hsize hlt
    exact ih (sizeOf c) (by omega) c rfl

/-- A node comes first, and then everything below it. -/
theorem preorder_eq (n : Node) : n.preorder = n :: preorderAll n.children := by
  cases n
  rw [preorder]

/-- The preorder of a forest holds what the trees hold. -/
theorem mem_preorderAll {m : Node} {ns : List Node} :
    m ∈ preorderAll ns ↔ ∃ n ∈ ns, m ∈ n.preorder := by
  induction ns with
  | nil => simp [preorderAll]
  | cons k ks ih => simp [preorderAll, ih]

/-- A tree holds its root and what its children hold. -/
theorem mem_preorder {m n : Node} : m ∈ n.preorder ↔ m = n ∨ ∃ c ∈ n.children, m ∈ c.preorder := by
  rw [preorder_eq, List.mem_cons, mem_preorderAll]

/-- A tree is the first node of its preorder. -/
theorem mem_preorder_self (n : Node) : n ∈ n.preorder :=
  mem_preorder.mpr (Or.inl rfl)

/-- What stands in the tree of a child stands in that of its parent. -/
theorem mem_preorder_of_child {m c n : Node} (hc : c ∈ n.children) (hm : m ∈ c.preorder) :
    m ∈ n.preorder :=
  mem_preorder.mpr (Or.inr ⟨c, hc, hm⟩)

/-- What holds in a tree holds of its root and in its children. -/
theorem forall_mem_preorder {P : Node → Prop} {kind : NodeKind} {span : Span}
    {children : List Node} :
    (∀ m ∈ preorder ⟨kind, span, children⟩, P m) ↔
      P ⟨kind, span, children⟩ ∧ ∀ m ∈ preorderAll children, P m := by
  rw [preorder, List.forall_mem_cons]

/-- What holds in a forest holds in its first tree and in the others. -/
theorem forall_mem_preorderAll_cons {P : Node → Prop} {n : Node} {ns : List Node} :
    (∀ m ∈ preorderAll (n :: ns), P m) ↔
      (∀ m ∈ n.preorder, P m) ∧ ∀ m ∈ preorderAll ns, P m := by
  rw [preorderAll, List.forall_mem_append]

/-- The nodes around a place stand in the preorder of the forest. -/
theorem mem_preorderAll_of_mem_locate {nodes : List Node} {line character : Nat} {n : Node}
    (h : n ∈ locate nodes line character) : n ∈ preorderAll nodes := by
  fun_induction locate nodes line character with
  | case1 => simp at h
  | case2 nodes winner hwinner hmem ih =>
    rw [mem_preorderAll]
    refine ⟨winner, hmem, ?_⟩
    rw [preorder_eq]
    -- What is found below the winner stands in the preorder of its children.
    rcases List.mem_cons.mp h with rfl | h
    · exact List.mem_cons_self ..
    · exact List.mem_cons_of_mem _ (ih h)

end Node

/-- An occurrence keeps the node that it was read off. -/
theorem Node.node_of_occurrence? {n : Node} {o : Occurrence} (h : n.occurrence? = some o) :
    o.node = n := by
  obtain ⟨symbol, -, rfl⟩ := Option.map_eq_some_iff.mp h
  rfl

/-- Indentation tokens name nothing. -/
theorem Node.not_structural_of_occurrence? {n : Node} {o : Occurrence}
    (h : n.occurrence? = some o) : ¬ n.isStructural := by
  intro hs
  unfold occurrence? NodeKind.symbol? at h
  simp only [isStructural, decide_eq_true_eq] at hs
  rcases hs with hs | hs <;> simp [hs] at h

/-- The occurrences of all symbols in the order of the document. -/
def Response.occurrences (r : Response) : List Occurrence :=
  r.ast.preorder.filterMap Node.occurrence?

/-- An occurrence of the document stands at a node of the tree, which is read as that occurrence. -/
theorem Response.mem_occurrences_iff {r : Response} {o : Occurrence} :
    o ∈ r.occurrences ↔ o.node ∈ r.ast.preorder ∧ o.node.occurrence? = some o := by
  rw [occurrences, List.mem_filterMap]
  constructor
  · rintro ⟨n, hn, ho⟩
    rw [Node.node_of_occurrence? ho]
    exact ⟨hn, ho⟩
  · rintro ⟨hn, ho⟩
    exact ⟨o.node, hn, ho⟩

/-- The occurrence at a place is one of the document. -/
theorem Response.mem_occurrences {r : Response} {line character : Nat} {o : Occurrence}
    (h : r.occurrenceAt? line character = some o) : o ∈ r.occurrences := by
  obtain ⟨n, hn, ho⟩ := List.exists_of_findSome?_eq_some h
  rw [occurrences, List.mem_filterMap]
  refine ⟨n, ?_, ho⟩
  rw [Node.preorder_eq]
  exact List.mem_cons_of_mem _ (Node.mem_preorderAll_of_mem_locate (List.mem_reverse.mp hn))

end ArgdownLens
