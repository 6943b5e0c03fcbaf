import ArgdownLens.Proofs.Tree.Preorder

/-!
# Places in a tree

Nodes that look the same stand at different places, and a place is the path that leads there from
the root. The preorder visits every place of the tree exactly once, in the order of the paths: the
root before everything below it, and each child with all below it before the next one
(`Node.mem_places`, `Node.pairwise_places`, `Node.map_snd_places`).
-/

namespace ArgdownLens

namespace Node

/-- The node to which a path leads, if it leads to one. -/
def at? : Node → List Nat → Option Node
  | n, [] => some n
  | n, i :: path =>
    match n.children[i]? with
    | none => none
    | some c => c.at? path

mutual

/-- The nodes of a tree in preorder, each with the path to it. -/
def places : Node → List (List Nat × Node)
  | ⟨kind, span, children⟩ => ([], ⟨kind, span, children⟩) :: placesAll 0 children

/-- The nodes of a forest in preorder, each with the path to it. The trees are children of one node,
behind `i` others. -/
def placesAll (i : Nat) : List Node → List (List Nat × Node)
  | [] => []
  | n :: ns => n.places.map (fun (path, m) => (i :: path, m)) ++ placesAll (i + 1) ns

end

/-- The root is the first place, and then come those in its children. -/
theorem places_eq (n : Node) : n.places = ([], n) :: placesAll 0 n.children := by
  cases n
  rw [places]

/-- A path goes to the root, or to a child and further on below it. -/
theorem at?_cons {n m : Node} {i : Nat} {path : List Nat} :
    n.at? (i :: path) = some m ↔ ∃ c, n.children[i]? = some c ∧ c.at? path = some m := by
  rw [at?]
  cases n.children[i]? with
  | none => simp
  | some c => simp

/-- A place in a forest is a place in one of its trees. -/
theorem mem_placesAll {i : Nat} {ns : List Node} {path : List Nat} {m : Node} :
    (path, m) ∈ placesAll i ns ↔
      ∃ j n rest, ns[j]? = some n ∧ (rest, m) ∈ n.places ∧ path = (i + j) :: rest := by
  induction ns generalizing i with
  | nil => simp [placesAll]
  | cons n ns ih =>
    rw [placesAll, List.mem_append, ih]
    constructor
    · rintro (hn | ⟨j, k, rest, hj, hk, rfl⟩)
      · obtain ⟨⟨rest, k⟩, hk, heq⟩ := List.mem_map.mp hn
        obtain ⟨rfl, rfl⟩ := Prod.mk.inj heq
        exact ⟨0, n, rest, rfl, hk, rfl⟩
      · exact ⟨j + 1, k, rest, hj, hk, by rw [Nat.add_assoc, Nat.add_comm 1 j]⟩
    · rintro ⟨j, k, rest, hj, hk, rfl⟩
      cases j with
      | zero =>
        obtain rfl := Option.some.inj hj
        exact Or.inl (List.mem_map.mpr ⟨(rest, m), hk, rfl⟩)
      | succ j =>
        exact Or.inr ⟨j, k, rest, hj, hk, by rw [Nat.add_assoc, Nat.add_comm 1 j]⟩

/-- The places of a tree are those to which a path leads, each with the node there. -/
theorem mem_places {n m : Node} {path : List Nat} :
    (path, m) ∈ n.places ↔ n.at? path = some m := by
  induction path generalizing n with
  | nil =>
    rw [places_eq, List.mem_cons, at?, mem_placesAll, Option.some.injEq]
    simp [eq_comm]
  | cons i path ih =>
    rw [places_eq, List.mem_cons, mem_placesAll, at?_cons]
    constructor
    · rintro (h | ⟨j, c, rest, hj, hc, heq⟩)
      · simp at h
      · rw [Nat.zero_add] at heq
        obtain ⟨rfl, rfl⟩ := List.cons.inj heq
        exact ⟨c, hj, ih.mp hc⟩
    · rintro ⟨c, hi, hc⟩
      exact Or.inr ⟨i, c, path, hi, ih.mpr hc, by rw [Nat.zero_add]⟩

/-- If the places of each tree are sorted by their paths, then those of the forest are. -/
theorem pairwise_placesAll {i : Nat} {ns : List Node}
    (heach : ∀ n ∈ ns, n.places.Pairwise fun a b => a.1 < b.1) :
    (placesAll i ns).Pairwise fun a b => a.1 < b.1 := by
  induction ns generalizing i with
  | nil => exact List.Pairwise.nil
  | cons n ns ih =>
    rw [placesAll, List.pairwise_append, List.pairwise_map]
    refine ⟨?_, ih fun m hm => heach m (List.mem_cons_of_mem _ hm), ?_⟩
    · refine (heach n (List.mem_cons_self ..)).imp ?_
      intro a b hab
      exact List.cons_lt_cons_iff.mpr (Or.inr ⟨rfl, hab⟩)
    · -- The path into a later tree begins with a greater number.
      intro a ha b hb
      obtain ⟨⟨rest, m⟩, -, rfl⟩ := List.mem_map.mp ha
      obtain ⟨j, k, rest', -, -, hpath⟩ := mem_placesAll.mp (show (b.1, b.2) ∈ _ from hb)
      rw [hpath]
      exact List.cons_lt_cons_iff.mpr (Or.inl (by omega))

/-- The places of a tree are sorted by their paths, so that none occurs twice. -/
theorem pairwise_places (n : Node) : n.places.Pairwise fun a b => a.1 < b.1 := by
  induction n using induction_children with
  | h n ih =>
    rw [places_eq]
    refine List.Pairwise.cons ?_ (pairwise_placesAll ih)
    intro a ha
    obtain ⟨j, k, rest, -, -, hpath⟩ := mem_placesAll.mp (show (a.1, a.2) ∈ _ from ha)
    rw [hpath]
    exact List.nil_lt_cons ..

/-- If the places of each tree hold the nodes of its preorder, then so it is in the forest. -/
theorem map_snd_placesAll {i : Nat} {ns : List Node}
    (heach : ∀ n ∈ ns, n.places.map Prod.snd = n.preorder) :
    (placesAll i ns).map Prod.snd = preorderAll ns := by
  induction ns generalizing i with
  | nil => rfl
  | cons n ns ih =>
    rw [placesAll, preorderAll, List.map_append, List.map_map,
      ih fun m hm => heach m (List.mem_cons_of_mem _ hm), ← heach n (List.mem_cons_self ..)]
    rfl

/-- The nodes at the places of a tree are those of its preorder, in the same order. -/
theorem map_snd_places (n : Node) : n.places.map Prod.snd = n.preorder := by
  induction n using induction_children with
  | h n ih => rw [places_eq, preorder_eq, List.map_cons, map_snd_placesAll ih]

/-- The preorder holds the nodes to which paths lead. -/
theorem mem_preorder_iff_at? {n m : Node} : m ∈ n.preorder ↔ ∃ path, n.at? path = some m := by
  rw [← map_snd_places, List.mem_map]
  constructor
  · rintro ⟨⟨path, _⟩, hmem, rfl⟩
    exact ⟨path, mem_places.mp hmem⟩
  · rintro ⟨path, hpath⟩
    exact ⟨(path, m), mem_places.mpr hpath, rfl⟩

end Node

end ArgdownLens
