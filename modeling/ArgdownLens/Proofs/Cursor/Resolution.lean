import ArgdownLens.Proofs.Cursor.Closest
import ArgdownLens.Proofs.Tree.Path
import ArgdownLens.Query.Occurrence

/-!
# Which node the cursor is resolved to

In a well-formed forest a node whose span contains the cursor is found, with one exception: a node
on the way to it that starts above the line of the cursor gives way to a later sibling that starts
on that line, even if the sibling starts behind the cursor (`GivesWay`). On each level the node that
contains the cursor wins exactly if it does not give way, since the siblings in front of it rank
lower and those behind it take part only if they start on the line
(`closest?_eq_of_contains`, `closest?_ne_of_givesWay`). The induction along the path carries this to
the whole chain.
-/

namespace ArgdownLens

/-- A place lies within a span, whose last character belongs to it. -/
def Span.Contains (s : Span) (p : Position) : Prop :=
  s.first ≤ p ∧ p ≤ s.last

instance (s : Span) (p : Position) : Decidable (s.Contains p) :=
  inferInstanceAs (Decidable (_ ∧ _))

/-- What lies within a span lies within every span around it. -/
theorem Span.Contains.of_encloses {s t : Span} {p : Position} (h : t.Contains p)
    (hst : s.encloses t) : s.Contains p := by
  obtain ⟨hfirst, hlast⟩ := Span.encloses_iff.mp hst
  exact ⟨Position.le_trans hfirst h.1, Position.le_trans h.2 hlast⟩

/-- For a cursor on the line, a node that starts further up gives way to a later sibling that starts
on the line. -/
def Node.GivesWay (line : Nat) (n : Node) (later : List Node) : Prop :=
  n.span.startLine < line ∧ ∃ s ∈ later, ¬ s.isStructural ∧ s.span.startLine = line

instance (line : Nat) (n : Node) (later : List Node) : Decidable (n.GivesWay line later) :=
  inferInstanceAs (Decidable (_ ∧ _))

/-- Whether a node along the path, the last one included, gives way to a later sibling. -/
def Overtaken (line : Nat) : List Node → List Nat → Prop
  | _, [] => False
  | nodes, i :: path =>
    match nodes[i]? with
    | none => False
    | some n => n.GivesWay line (nodes.drop (i + 1)) ∨ Overtaken line n.children path

/-- Every node on the way to one that contains a place contains it, too. -/
theorem contains_of_mem_nodesAlong? {path : List Nat} {n : Node} {p : Position} :
    ∀ {nodes way : List Node}, Node.WellFormedAll nodes → nodesAlong? nodes path = some way →
      (∀ m ∈ way, ¬ m.isStructural) → way.getLast? = some n → n.span.Contains p →
      ∀ m ∈ way, m.span.Contains p := by
  induction path with
  | nil =>
    intro nodes way _ h _ _ _ m hm
    simp only [nodesAlong?, Option.some.injEq] at h
    simp [← h] at hm
  | cons i path ih =>
    intro nodes way hwf h hs hlast hp
    obtain ⟨c, below, hc, hbelow, rfl⟩ := nodesAlong?_cons h
    have hcwf := hwf.mem (List.mem_of_getElem? hc) (hs c (List.mem_cons_self ..))
    have hsbelow : ∀ k ∈ below, ¬ k.isStructural := fun k hk => hs k (List.mem_cons_of_mem _ hk)
    -- Either the first node is the last one, or it encloses the last one.
    cases below with
    | nil =>
      simp only [List.getLast?_singleton, Option.some.injEq] at hlast
      simpa [hlast] using hp
    | cons d below =>
      rw [List.getLast?_cons_cons] at hlast
      have hencloses := encloses_of_mem_nodesAlong? hcwf hbelow hsbelow
        (List.mem_of_getLast? hlast)
      intro m hm
      rcases List.mem_cons.mp hm with rfl | hm
      · exact hp.of_encloses hencloses
      · exact ih (Node.wellFormed_iff.mp hcwf).2.2 hbelow hsbelow hlast hp m hm

/-- A path is overtaken where its first node gives way, or further down. -/
theorem overtaken_cons {line : Nat} {nodes : List Node} {i : Nat} {path : List Nat} {n : Node}
    (h : nodes[i]? = some n) :
    Overtaken line nodes (i :: path) ↔
      n.GivesWay line (nodes.drop (i + 1)) ∨ Overtaken line n.children path := by
  rw [Overtaken, h]

/-- Decides whether a node along the path gives way. -/
def decideOvertaken (line : Nat) : (nodes : List Node) → (path : List Nat) →
    Decidable (Overtaken line nodes path)
  | _, [] => inferInstanceAs (Decidable False)
  | nodes, i :: path =>
    match h : nodes[i]? with
    | none => .isFalse (by simp [Overtaken, h])
    | some n =>
      have := decideOvertaken line n.children path
      decidable_of_iff _ (overtaken_cons h).symm

instance (line : Nat) (nodes : List Node) (path : List Nat) :
    Decidable (Overtaken line nodes path) := decideOvertaken line nodes path

variable {line character : Nat}

/-- A node that contains a place takes part in the search there. -/
theorem isCandidate_of_contains {n : Node} (hs : ¬ n.isStructural)
    (hp : n.span.Contains ⟨line, character⟩) : isCandidate line n := by
  obtain ⟨hfirst, hlast⟩ := hp
  simp only [Span.first, Span.last, Position.le_iff] at hfirst hlast
  rw [isCandidate_iff]
  exact ⟨hs, by omega, by omega⟩

/-! ## One level -/

/-- Of well-formed siblings the one that contains the cursor wins, unless it gives way. -/
theorem closest?_eq_of_contains {nodes : List Node} {i : Nat} {n : Node}
    (h : Node.WellFormedAll nodes) (hi : nodes[i]? = some n) (hs : ¬ n.isStructural)
    (hp : n.span.Contains ⟨line, character⟩) (hway : ¬ n.GivesWay line (nodes.drop (i + 1))) :
    closest? nodes line character = some n := by
  have hn := h.mem (List.mem_of_getElem? hi) hs
  rw [eq_take_cons_drop hi] at h ⊢
  obtain ⟨hbefore, hafter⟩ := h.split hs
  obtain ⟨hfirst, hlast⟩ := hp
  simp only [Span.first, Span.last, Position.le_iff] at hfirst hlast
  refine closest?_eq_some (isCandidate_of_contains hs ⟨hfirst, hlast⟩) ?_ ?_
  · -- A sibling in front ends, and so starts, in front of the node.
    intro m hm hc
    obtain ⟨hsm, -, -⟩ := isCandidate_iff.mp hc
    have hlt := hbefore m hm hsm
    have hmwf := h.mem (List.mem_append_left _ hm) hsm
    have hstart := (Node.wellFormed_iff.mp hmwf).1
    simp only [Span.first, Span.last, Position.le_iff, Position.lt_iff] at hlt hstart
    rw [Node.rank_lt_iff]
    unfold Node.reached
    split_ifs <;> omega
  · -- A sibling behind starts behind the cursor, so it takes part only if it starts on the line.
    intro m hm hc
    obtain ⟨hsm, hstarts, -⟩ := isCandidate_iff.mp hc
    have hlt := hafter m hm hsm
    simp only [Span.first, Span.last, Position.lt_iff] at hlt
    have hline : m.span.startLine = line := by omega
    -- If the node started further up, it would give way to the sibling.
    have hnline : n.span.startLine = line := by
      by_contra hne
      exact hway ⟨by omega, m, hm, hsm, hline⟩
    apply le_of_lt
    rw [Node.rank_lt_iff]
    unfold Node.reached
    rw [if_pos ⟨hline, by omega⟩, if_neg (by omega)]
    omega

/-- A node that gives way does not win. -/
theorem closest?_ne_of_givesWay {nodes : List Node} {i : Nat} {n : Node}
    (h : Node.WellFormedAll nodes) (hway : n.GivesWay line (nodes.drop (i + 1))) :
    closest? nodes line character ≠ some n := by
  intro hn
  obtain ⟨hstart, s, hs, hss, hline⟩ := hway
  have hmem := List.mem_of_mem_drop hs
  have hswf := (Node.wellFormed_iff.mp (h.mem hmem hss)).1
  simp only [Span.first, Span.last, Position.le_iff] at hswf
  -- The sibling takes part, and it starts on a later line than the node.
  have hcandidate : isCandidate line s := by
    rw [isCandidate_iff]
    exact ⟨hss, by omega, by omega⟩
  have hle := (rank_le_of_closest? hn).2 s hmem hcandidate
  have hlt : n.rank line character < s.rank line character := by
    rw [Node.rank_lt_iff]
    omega
  exact absurd hlt (not_lt.mpr hle)

/-! ## The whole chain -/

/-- The chain begins with the winner and goes on among its children. -/
theorem locate_eq_cons {nodes : List Node} {w : Node}
    (h : closest? nodes line character = some w) :
    locate nodes line character = w :: locate w.children line character := by
  rw [locate]
  split
  · next hnone => rw [h] at hnone; cases hnone
  · next winner hwinner =>
    rw [h, Option.some.injEq] at hwinner
    rw [hwinner]

/-- The chain is empty where no node wins. -/
theorem locate_eq_nil {nodes : List Node} (h : closest? nodes line character = none) :
    locate nodes line character = [] := by
  rw [locate]
  split
  · rfl
  · next winner hwinner => rw [h] at hwinner; cases hwinner

/-- Whoever stands on the chain won among the nodes, or stands on the chain below the winner. -/
theorem mem_locate {nodes : List Node} {n : Node} (h : n ∈ locate nodes line character) :
    ∃ w, closest? nodes line character = some w ∧
      (n = w ∨ n ∈ locate w.children line character) := by
  cases hw : closest? nodes line character with
  | none =>
    rw [locate_eq_nil hw] at h
    cases h
  | some w =>
    rw [locate_eq_cons hw] at h
    exact ⟨w, rfl, List.mem_cons.mp h⟩

/-- The winner is one of the nodes and no indentation token. -/
theorem closest?_spec {nodes : List Node} {w : Node}
    (h : closest? nodes line character = some w) : w ∈ nodes ∧ ¬ w.isStructural := by
  have hcandidate := isCandidate_iff.mp (rank_le_of_closest? h).1
  exact ⟨mem_of_closest? h, hcandidate.1⟩

/-- What encloses some well-formed nodes encloses the chain among them. -/
theorem encloses_of_mem_locate {s : Span} {n : Node} :
    ∀ {nodes : List Node}, Node.WellFormedAll nodes →
      (∀ m ∈ nodes, ¬ m.isStructural → s.encloses m.span) → n ∈ locate nodes line character →
      s.encloses n.span := by
  intro nodes
  induction hsize : sizeOf nodes using Nat.strongRecOn generalizing nodes with
  | ind size ih =>
    intro hwf hs hn
    -- The winner is enclosed, and the winner encloses whatever is found among its children.
    obtain ⟨w, hw, hn⟩ := mem_locate hn
    obtain ⟨hmem, hsw⟩ := closest?_spec hw
    obtain ⟨-, hencloses, hchildren⟩ := Node.wellFormed_iff.mp (hwf.mem hmem hsw)
    rcases hn with rfl | hn
    · exact hs _ hmem hsw
    · have hlt : sizeOf w.children < size := hsize ▸ Node.sizeOf_lt_of_mem hmem
      exact ih _ hlt rfl hchildren
        (fun m hm hsm => Span.encloses_trans (hs w hmem hsw) (hencloses m hm hsm)) hn

/-- The chain follows a path whose nodes contain the cursor, unless the path is overtaken. -/
theorem isPrefix_locate {path : List Nat} :
    ∀ {nodes way : List Node}, Node.WellFormedAll nodes →
      nodesAlong? nodes path = some way → (∀ m ∈ way, ¬ m.isStructural) →
      (∀ m ∈ way, m.span.Contains ⟨line, character⟩) → ¬ Overtaken line nodes path →
      way <+: locate nodes line character := by
  induction path with
  | nil =>
    intro nodes way _ h _ _ _
    simp only [nodesAlong?, Option.some.injEq] at h
    simp [← h]
  | cons i path ih =>
    intro nodes way hwf h hs hp hover
    obtain ⟨c, below, hc, hbelow, rfl⟩ := nodesAlong?_cons h
    rw [overtaken_cons hc, not_or] at hover
    have hsc := hs c (List.mem_cons_self ..)
    -- The first node of the path wins among its siblings, and the rest of the path is not overtaken
    -- below it.
    have hwinner := closest?_eq_of_contains hwf hc hsc (hp c (List.mem_cons_self ..)) hover.1
    have hcwf := hwf.mem (List.mem_of_getElem? hc) hsc
    have hrest := ih (Node.wellFormed_iff.mp hcwf).2.2 hbelow
      (fun k hk => hs k (List.mem_cons_of_mem _ hk))
      (fun k hk => hp k (List.mem_cons_of_mem _ hk)) hover.2
    rw [locate_eq_cons hwinner]
    exact (List.prefix_cons_inj c).mpr hrest

/-- The chain meets a node around the cursor only if no path to it is overtaken. -/
theorem not_overtaken_of_mem_locate {path : List Nat} {n : Node}
    (hp : n.span.Contains ⟨line, character⟩) :
    ∀ {nodes way : List Node}, Node.WellFormedAll nodes →
      nodesAlong? nodes path = some way → (∀ m ∈ way, ¬ m.isStructural) →
      way.getLast? = some n → n ∈ locate nodes line character →
      ¬ Overtaken line nodes path := by
  induction path with
  | nil => intro nodes way _ _ _ _ _; exact id
  | cons i path ih =>
    intro nodes way hwf h hs hlast hn
    obtain ⟨c, below, hc, hbelow, rfl⟩ := nodesAlong?_cons h
    have hmem := List.mem_of_getElem? hc
    have hsc := hs c (List.mem_cons_self ..)
    have hcwf := hwf.mem hmem hsc
    have hcp := contains_of_mem_nodesAlong? hwf h hs hlast hp c (List.mem_cons_self ..)
    -- The winner contains the cursor, too, so it is the first node of the path.
    obtain ⟨w, hw, hnw⟩ := mem_locate hn
    obtain ⟨hwmem, hsw⟩ := closest?_spec hw
    have hwwf := Node.wellFormed_iff.mp (hwf.mem hwmem hsw)
    have hwp : w.span.Contains ⟨line, character⟩ := by
      rcases hnw with rfl | hnw
      · exact hp
      · exact hp.of_encloses (encloses_of_mem_locate hwwf.2.2 hwwf.2.1 hnw)
    obtain rfl := hwf.eq_of_contains hwmem hmem hsw hsc hwp hcp
    rw [overtaken_cons hc, not_or]
    refine ⟨fun hway => closest?_ne_of_givesWay hwf hway hw, ?_⟩
    -- Further down the path either ends here, or the chain meets the node below the winner.
    cases below with
    | nil =>
      cases path with
      | nil => exact id
      | cons j path => obtain ⟨_, _, _, _, hnil⟩ := nodesAlong?_cons hbelow; cases hnil
    | cons d below =>
      rw [List.getLast?_cons_cons] at hlast
      have hnbelow := List.mem_of_getLast? hlast
      -- No node stands below itself.
      have hne : n ≠ w := by
        rintro rfl
        have hlt := sizeOf_lt_of_mem_nodesAlong? hbelow hnbelow
        cases n
        simp only [Node.mk.sizeOf_spec] at hlt
        omega
      exact ih hwwf.2.2 hbelow (fun k hk => hs k (List.mem_cons_of_mem _ hk)) hlast
        (hnw.resolve_left hne)

/-- Behind a node the chain goes on among its children. -/
theorem eq_locate_of_locate_eq {before after : List Node} {n : Node} :
    ∀ {nodes : List Node}, locate nodes line character = before ++ n :: after →
      after = locate n.children line character := by
  induction before with
  | nil =>
    intro nodes h
    obtain ⟨w, hw, -⟩ := mem_locate (n := n) (by rw [h]; exact List.mem_cons_self ..)
    rw [locate_eq_cons hw, List.nil_append] at h
    obtain ⟨rfl, rfl⟩ := List.cons.inj h
    rfl
  | cons m before ih =>
    intro nodes h
    obtain ⟨w, hw, -⟩ := mem_locate (n := m) (by rw [h]; exact List.mem_cons_self ..)
    rw [locate_eq_cons hw, List.cons_append] at h
    exact ih (List.cons.inj h).2

/-- Nothing is found below a node without children. -/
theorem locate_nil : locate [] line character = [] :=
  locate_eq_nil rfl

/-! ## The cursor -/

/-- Let a path of a well-formed tree lead to a node whose span contains the cursor. The chain passes
through the node exactly if no node of the path, itself included, gives way to a later sibling. In
that case the chain begins with the nodes of the path, which no other path has, and the occurrence
under the cursor is the node itself if it names a symbol and has no children. Nothing is asked of
the root of the tree. -/
theorem mem_locate_iff_not_overtaken (r : Response) (hr : Node.WellFormedAll r.ast.children)
    (line character : Nat) (path : List Nat) (way : List Node) (n : Node)
    (hway : nodesAlong? r.ast.children path = some (way ++ [n]))
    (hs : ∀ m ∈ way ++ [n], ¬ m.isStructural) (hp : n.span.Contains ⟨line, character⟩) :
    (n ∈ locate r.ast.children line character ↔ ¬ Overtaken line r.ast.children path) ∧
      (¬ Overtaken line r.ast.children path →
        way ++ [n] <+: locate r.ast.children line character ∧
        (∀ o, n.occurrence? = some o → n.children = [] →
          r.occurrenceAt? line character = some o)) ∧
      ∀ path', nodesAlong? r.ast.children path' = some (way ++ [n]) → path' = path := by
  have hlast : (way ++ [n]).getLast? = some n := by simp
  have hbegins : ¬ Overtaken line r.ast.children path →
      way ++ [n] <+: locate r.ast.children line character :=
    isPrefix_locate hr hway hs (contains_of_mem_nodesAlong? hr hway hs hlast hp)
  refine ⟨⟨not_overtaken_of_mem_locate hp hr hway hs hlast, ?_⟩, ?_, ?_⟩
  · intro hover
    exact (hbegins hover).subset (by simp)
  · intro hover
    refine ⟨hbegins hover, ?_⟩
    intro o ho hchildren
    -- Nothing stands behind the node on the chain, so that the search from the end begins with it.
    obtain ⟨after, hafter⟩ := hbegins hover
    rw [List.append_assoc, List.singleton_append] at hafter
    have hnil := eq_locate_of_locate_eq hafter.symm
    rw [hchildren, locate_nil] at hnil
    unfold Response.occurrenceAt?
    rw [← hafter, hnil, List.reverse_append, List.reverse_singleton, List.singleton_append,
      List.findSome?_cons, ho]
  · intro path' hpath'
    exact path_unique hr hway hpath' hs

/-- The definition `[S1]:` at the beginning of a document. -/
def definitionNode : Node := ⟨.statement ⟨.definition, some "S1", none⟩, .onLine 1 1 5, []⟩

/-- The reference `<A1>` at the beginning of the second line. -/
def referenceNode : Node := ⟨.argument ⟨.reference, some "A1", none⟩, .onLine 2 1 4, []⟩

/-- A statement over two lines, which holds the two nodes and an indentation token. -/
def twoLineStatement : Node :=
  ⟨.rule "statement", ⟨1, 1, 2, 4⟩, [definitionNode, ⟨.indent, ⟨0, 0, 0, 0⟩, []⟩, referenceNode]⟩

/-- A document in which another statement starts on the line where the first one ends. -/
def sharedLine : Response where
  ast := ⟨.rule "argdown", ⟨1, 1, 2, 11⟩,
    [twoLineStatement, ⟨.rule "statement", .onLine 2 8 11, []⟩]⟩

/-- The definition is found under the cursor, and the reference is not: on its line the second
statement takes the cursor. -/
theorem sharedLine_resolution :
    sharedLine.occurrenceAt? 1 3 = some ⟨.statementDefinition, "S1", definitionNode⟩ ∧
      referenceNode ∉ locate sharedLine.ast.children 2 3 := by
  have hwf : Node.WellFormedAll sharedLine.ast.children := by decide
  have hfound := mem_locate_iff_not_overtaken sharedLine hwf 1 3 [0, 0] [twoLineStatement]
    definitionNode rfl (by decide) (by decide)
  have hlost := mem_locate_iff_not_overtaken sharedLine hwf 2 3 [0, 2] [twoLineStatement]
    referenceNode rfl (by decide) (by decide)
  constructor
  · exact (hfound.2.1 (by decide)).2 _ rfl rfl
  · intro hmem
    exact hlost.1.mp hmem (by decide)

end ArgdownLens
