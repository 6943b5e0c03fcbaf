import ArgdownLens.Proofs.Tree.WellFormed

/-!
# Paths into a forest

A path tells nodes apart that look the same: it says of each node on the way which of its siblings
it is. The nodes along a path get smaller, and in a well-formed forest their spans do, too.
-/

namespace ArgdownLens

/-- The nodes along a path into a forest, the outermost first. -/
def nodesAlong? : List Node → List Nat → Option (List Node)
  | _, [] => some []
  | nodes, i :: path =>
    match nodes[i]? with
    | none => none
    | some n => (nodesAlong? n.children path).map (n :: ·)

/-- The first step of a path leads to one of the nodes, and the others into its children. -/
theorem nodesAlong?_cons {nodes : List Node} {i : Nat} {path : List Nat} {way : List Node}
    (h : nodesAlong? nodes (i :: path) = some way) :
    ∃ n below, nodes[i]? = some n ∧ nodesAlong? n.children path = some below ∧
      way = n :: below := by
  rw [nodesAlong?] at h
  cases hn : nodes[i]? with
  | none => simp [hn] at h
  | some n =>
    simp only [hn, Option.map_eq_some_iff] at h
    obtain ⟨below, hbelow, hway⟩ := h
    exact ⟨n, below, rfl, hbelow, hway.symm⟩

/-- A forest around one of its nodes. -/
theorem eq_take_cons_drop {nodes : List Node} {i : Nat} {n : Node} (h : nodes[i]? = some n) :
    nodes = nodes.take i ++ n :: nodes.drop (i + 1) := by
  obtain ⟨hi, rfl⟩ := List.getElem?_eq_some_iff.mp h
  rw [List.getElem_cons_drop, List.take_append_drop]

/-- In a well-formed forest no other path leads along the same nodes. -/
theorem path_unique {path : List Nat} :
    ∀ {nodes way : List Node} {path' : List Nat}, Node.WellFormedAll nodes →
      nodesAlong? nodes path = some way → nodesAlong? nodes path' = some way →
      (∀ m ∈ way, ¬ m.isStructural) → path' = path := by
  induction path with
  | nil =>
    intro nodes way path' _ h h' _
    simp only [nodesAlong?, Option.some.injEq] at h
    cases path' with
    | nil => rfl
    | cons j path' =>
      obtain ⟨_, _, _, _, rfl⟩ := nodesAlong?_cons h'
      cases h
  | cons i path ih =>
    intro nodes way path' hwf h h' hs
    obtain ⟨n, below, hi, hbelow, rfl⟩ := nodesAlong?_cons h
    cases path' with
    | nil => simp [nodesAlong?] at h'
    | cons j path' =>
      obtain ⟨m, below', hj, hbelow', heq⟩ := nodesAlong?_cons h'
      obtain ⟨rfl, rfl⟩ := List.cons.inj heq
      -- The first steps lead to the same node, which stands at one place only.
      have hsn := hs n (List.mem_cons_self ..)
      have hn := Node.wellFormed_iff.mp (hwf.mem (List.mem_of_getElem? hi) hsn)
      rw [hwf.getElem?_inj hj hi hsn,
        ih hn.2.2 hbelow hbelow' fun k hk => hs k (List.mem_cons_of_mem _ hk)]

/-- What stands below a node is smaller than the nodes among which it stands. -/
theorem Node.sizeOf_lt_of_mem {nodes : List Node} {n : Node} (h : n ∈ nodes) :
    sizeOf n.children < sizeOf nodes := by
  have hlt := List.sizeOf_lt_of_mem h
  cases n
  simp only [Node.mk.sizeOf_spec] at hlt
  dsimp only
  omega

/-- A node along a path is smaller than the forest. -/
theorem sizeOf_lt_of_mem_nodesAlong? {path : List Nat} :
    ∀ {nodes way : List Node} {m : Node}, nodesAlong? nodes path = some way → m ∈ way →
      sizeOf m < sizeOf nodes := by
  induction path with
  | nil =>
    intro nodes way m h hm
    simp only [nodesAlong?, Option.some.injEq] at h
    simp [← h] at hm
  | cons i path ih =>
    intro nodes way m h hm
    obtain ⟨n, below, hn, hbelow, rfl⟩ := nodesAlong?_cons h
    have hlt := List.sizeOf_lt_of_mem (List.mem_of_getElem? hn)
    rcases List.mem_cons.mp hm with rfl | hm
    · exact hlt
    · have hm := ih hbelow hm
      have hchildren := Node.sizeOf_lt_of_mem (List.mem_of_getElem? hn)
      omega

/-- A well-formed node encloses the nodes along every path below it. -/
theorem encloses_of_mem_nodesAlong? {path : List Nat} :
    ∀ {n : Node} {way : List Node} {m : Node}, n.WellFormed →
      nodesAlong? n.children path = some way → (∀ k ∈ way, ¬ k.isStructural) → m ∈ way →
      n.span.encloses m.span := by
  induction path with
  | nil =>
    intro n way m _ h _ hm
    simp only [nodesAlong?, Option.some.injEq] at h
    simp [← h] at hm
  | cons i path ih =>
    intro n way m hwf h hs hm
    obtain ⟨c, below, hc, hbelow, rfl⟩ := nodesAlong?_cons h
    obtain ⟨-, hencloses, hchildren⟩ := Node.wellFormed_iff.mp hwf
    have hmem := List.mem_of_getElem? hc
    have hsc := hs c (List.mem_cons_self ..)
    have hnc := hencloses c hmem hsc
    -- The first node lies within the parent, and the others lie within the first node.
    rcases List.mem_cons.mp hm with rfl | hm
    · exact hnc
    · have hcm := ih (hchildren.mem hmem hsc) hbelow
        (fun k hk => hs k (List.mem_cons_of_mem _ hk)) hm
      exact Span.encloses_trans hnc hcm

end ArgdownLens
