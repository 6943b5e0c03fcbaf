import ArgdownLens.Proofs.Cursor.Resolution
import Mathlib.Data.List.Pairwise

/-!
# The search goes down along leftmost maxima

On each level the search picks one of the nodes that compete for the line: the leftmost one of the
greatest rank, by its number among its siblings (`Wins`). A path that takes the winner of each level
and ends where nobody competes is a descent (`Descends`). There is exactly one, and the chain of the
search is made of the nodes along it (`exists_descent`). Two consequences: the order of the nodes
given does not matter where their starts tell them apart (`locate_perm`), and a search that compares
how far above the line the nodes start never subtracts below zero (`locateByDistance?_eq`).
-/

namespace ArgdownLens

variable {line character : Nat}

/-- Whether a node competes for a line: it is no indentation token, and the line is among those from
the first to the last one of its span. -/
def Node.Competes (line : Nat) (n : Node) : Prop :=
  ¬ n.isStructural ∧ n.span.startLine ≤ line ∧ line ≤ n.span.endLine

instance (line : Nat) (n : Node) : Decidable (n.Competes line) :=
  inferInstanceAs (Decidable (_ ∧ _))

/-! ## One level -/

/-- The node `w`, number `i` of its siblings, is the leftmost of the greatest rank among those that
compete. -/
structure Wins (line character : Nat) (nodes : List Node) (i : Nat) (w : Node) : Prop where
  getElem? : nodes[i]? = some w
  competes : w.Competes line
  greatest : ∀ m ∈ nodes, m.Competes line → m.rank line character ≤ w.rank line character
  leftmost : ∀ m ∈ nodes.take i, m.Competes line → m.rank line character < w.rank line character

/-- The winner is the closest node. -/
theorem Wins.closest? {nodes : List Node} {i : Nat} {w : Node}
    (h : Wins line character nodes i w) : closest? nodes line character = some w := by
  have hnodes := eq_take_cons_drop h.getElem?
  rw [hnodes]
  apply closest?_eq_some (isCandidate_iff.mpr h.competes)
  · intro m hm hc
    exact h.leftmost m hm (isCandidate_iff.mp hc)
  · intro m hm hc
    exact h.greatest m (List.mem_of_mem_drop hm) (isCandidate_iff.mp hc)

/-- The closest node wins under some number. It is the first of those that compete and that it does
not outrank. -/
theorem exists_wins {nodes : List Node} {w : Node} (h : closest? nodes line character = some w) :
    ∃ i, Wins line character nodes i w := by
  obtain ⟨hcandidate, hgreatest⟩ := rank_le_of_closest? h
  have hsome : (nodes.find? fun n =>
      isCandidate line n && decide (w.rank line character ≤ n.rank line character)).isSome := by
    rw [List.find?_isSome]
    exact ⟨w, mem_of_closest? h, by simp [hcandidate]⟩
  obtain ⟨n, hn⟩ := Option.isSome_iff_exists.mp hsome
  obtain ⟨hrank, before, after, rfl, hbefore⟩ := List.find?_eq_some_iff_append.mp hn
  rw [Bool.and_eq_true, decide_eq_true_eq] at hrank
  have hleftmost : ∀ m ∈ before, isCandidate line m →
      m.rank line character < n.rank line character := by
    intro m hm hc
    have hout := hbefore m hm
    rw [hc, Bool.true_and, Bool.not_eq_true', decide_eq_false_iff_not, not_le] at hout
    exact hout.trans_le hrank.2
  have hgreatest' : ∀ m ∈ before ++ n :: after, isCandidate line m →
      m.rank line character ≤ n.rank line character :=
    fun m hm hc => (hgreatest m hm hc).trans hrank.2
  -- The first of these nodes is the closest one, so it is `w`.
  obtain rfl : n = w := by
    have hclosest := closest?_eq_some hrank.1 hleftmost fun m hm hc =>
      hgreatest' m (List.mem_append_right _ (List.mem_cons_of_mem _ hm)) hc
    rw [h, Option.some.injEq] at hclosest
    exact hclosest.symm
  refine ⟨before.length, by simp, isCandidate_iff.mp hcandidate, ?_, ?_⟩
  · intro m hm hc
    exact hgreatest' m hm (isCandidate_iff.mpr hc)
  · intro m hm hc
    rw [List.take_left] at hm
    exact hleftmost m hm (isCandidate_iff.mpr hc)

/-- A level has one winner. -/
theorem Wins.unique {nodes : List Node} {i j : Nat} {v w : Node}
    (hv : Wins line character nodes i v) (hw : Wins line character nodes j w) :
    i = j ∧ v = w := by
  -- The one further left would be outranked by the other one, and outranks it.
  have hnot : ∀ {i j : Nat} {v w : Node}, Wins line character nodes i v →
      Wins line character nodes j w → ¬ i < j := by
    intro i j v w hv hw hlt
    have hmem : v ∈ nodes.take j := by
      apply List.mem_of_getElem? (i := i)
      rw [List.getElem?_take_of_lt hlt, hv.getElem?]
    have hbelow := hw.leftmost v hmem hv.competes
    have habove := hv.greatest w (List.mem_of_getElem? hw.getElem?) hw.competes
    exact absurd hbelow (not_lt.mpr habove)
  obtain rfl : i = j := le_antisymm (not_lt.mp (hnot hw hv)) (not_lt.mp (hnot hv hw))
  have hsame := hv.getElem?
  rw [hw.getElem?, Option.some.injEq] at hsame
  exact ⟨rfl, hsame.symm⟩

/-- No node is the closest one exactly if nobody competes. -/
theorem closest?_eq_none_iff {nodes : List Node} :
    closest? nodes line character = none ↔ ∀ n ∈ nodes, ¬ n.Competes line := by
  have hnil : closest? nodes line character = none ↔ nodes.filter (isCandidate line) = [] := by
    unfold closest?
    cases nodes.filter (isCandidate line) <;> simp [closestOf?]
  rw [hnil, List.filter_eq_nil_iff]
  exact forall₂_congr fun n _ => not_congr isCandidate_iff

/-! ## The whole descent -/

/-- A path into a forest takes the winner of each level and ends where nobody competes. -/
inductive Descends (line character : Nat) : List Node → List Nat → Prop where
  | stop {nodes : List Node} (h : ∀ n ∈ nodes, ¬ n.Competes line) :
    Descends line character nodes []
  | step {nodes : List Node} {i : Nat} {w : Node} {path : List Nat}
    (hw : Wins line character nodes i w) (h : Descends line character w.children path) :
    Descends line character nodes (i :: path)

/-- There is one descent, and the chain of the search is made of the nodes along it. -/
theorem exists_descent (nodes : List Node) (line character : Nat) :
    ∃ path, nodesAlong? nodes path = some (locate nodes line character) ∧
      ∀ path', Descends line character nodes path' ↔ path' = path := by
  fun_induction locate nodes line character with
  | case1 nodes hnone =>
    have hnobody := closest?_eq_none_iff.mp hnone
    refine ⟨[], rfl, fun path' => ⟨fun hpath' => ?_, fun hpath' => hpath' ▸ .stop hnobody⟩⟩
    cases hpath' with
    | stop => rfl
    | step hw =>
      rw [hw.closest?] at hnone
      cases hnone
  | case2 nodes winner hwinner _ ih =>
    -- The winner stands at one index only, and the rest of the path is unique below it.
    obtain ⟨path, hpath, hunique⟩ := ih
    obtain ⟨i, hi⟩ := exists_wins hwinner
    refine ⟨i :: path, ?_, fun path' => ⟨fun hpath' => ?_, ?_⟩⟩
    · rw [nodesAlong?, hi.getElem?]
      dsimp only
      rw [hpath, Option.map_some]
    · cases hpath' with
      | stop hnobody => exact absurd hi.competes (hnobody winner (mem_of_closest? hwinner))
      | step hw hbelow =>
        obtain ⟨rfl, rfl⟩ := hi.unique hw
        rw [(hunique _).mp hbelow]
    · rintro rfl
      exact .step hi ((hunique path).mpr rfl)

/-! ## The order of the nodes -/

/-- Nodes of the same rank start at the same place. -/
theorem Node.first_eq_of_rank_eq {a b : Node} (h : a.rank line character = b.rank line character) :
    a.span.first = b.span.first := by
  unfold Node.rank at h
  simp only [toLex_inj, Prod.mk.injEq] at h
  unfold Span.first
  rw [h.1, h.2.2]

/-- Where the starts of those that compete tell them apart, the same node wins in any order. -/
theorem closest?_perm {nodes nodes' : List Node} (hperm : nodes.Perm nodes')
    (hstarts : nodes.Pairwise fun a b =>
      a.Competes line → b.Competes line → a.span.first ≠ b.span.first) :
    closest? nodes' line character = closest? nodes line character := by
  cases h : closest? nodes line character with
  | none =>
    rw [closest?_eq_none_iff] at h ⊢
    exact fun n hn => h n (hperm.mem_iff.mpr hn)
  | some w =>
    obtain ⟨i, hi⟩ := exists_wins h
    have hw := List.mem_of_getElem? hi.getElem?
    cases h' : closest? nodes' line character with
    | none => exact absurd hi.competes (closest?_eq_none_iff.mp h' w (hperm.mem_iff.mp hw))
    | some w' =>
      obtain ⟨j, hj⟩ := exists_wins h'
      have hw' := hperm.mem_iff.mpr (List.mem_of_getElem? hj.getElem?)
      -- Both have the greatest rank, so they start at one place.
      have hrank : w.rank line character = w'.rank line character :=
        le_antisymm (hj.greatest w (hperm.mem_iff.mp hw) hi.competes)
          (hi.greatest w' hw' hj.competes)
      have hsymm : Std.Symm fun a b : Node =>
          a.Competes line → b.Competes line → a.span.first ≠ b.span.first :=
        ⟨fun a b hab hb ha => (hab ha hb).symm⟩
      by_contra hne
      refine hstarts.forall hw hw' ?_ hi.competes hj.competes (Node.first_eq_of_rank_eq hrank)
      rintro rfl
      exact hne rfl

/-- Where the starts of those that compete tell them apart, the order of the nodes does not matter.
-/
theorem locate_perm {nodes nodes' : List Node} (hperm : nodes.Perm nodes')
    (hstarts : nodes.Pairwise fun a b =>
      a.Competes line → b.Competes line → a.span.first ≠ b.span.first) :
    locate nodes' line character = locate nodes line character := by
  have hclosest : closest? nodes' line character = closest? nodes line character :=
    closest?_perm hperm hstarts
  cases h : closest? nodes line character with
  | none => rw [locate_eq_nil h, locate_eq_nil (hclosest.trans h)]
  | some w => rw [locate_eq_cons h, locate_eq_cons (hclosest.trans h)]

/-! ## Lines above the cursor -/

/-- How many lines above the line a node starts, if it does not start below it. -/
def Node.linesAbove? (line : Nat) (n : Node) : Option Nat :=
  if n.span.startLine ≤ line then some (line - n.span.startLine) else none

/-- The closer of two nodes, by how many lines above the line they start. -/
def closerByDistance? (line character : Nat) (a b : Node) : Option Node := do
  let x ← a.linesAbove? line
  let y ← b.linesAbove? line
  if y < x then return b
  else if x < y then return a
  else if a.span.startLine = line then
    match columnDistance? a character, columnDistance? b character with
    | some u, some v => return if v < u then b else if u < v then a else laterColumn a b
    | some _, none => return a
    | none, some _ => return b
    | none, none => return laterColumn a b
  else return laterColumn a b

/-- The closest of the nodes that take part, by distances; `none` if one of these does not exist. -/
def closestByDistance? (nodes : List Node) (line character : Nat) : Option (Option Node) :=
  match nodes.filter (isCandidate line) with
  | [] => some none
  | n :: ns => (ns.foldlM (closerByDistance? line character) n).map some

/-- Two nodes that start no later than on the line have their distances, and these decide as the
start lines do. -/
theorem closerByDistance?_eq {a b : Node} (ha : a.span.startLine ≤ line)
    (hb : b.span.startLine ≤ line) :
    closerByDistance? line character a b = some (closer line character a b) := by
  have hlt : line - b.span.startLine < line - a.span.startLine ↔
      a.span.startLine < b.span.startLine := by omega
  have hgt : line - a.span.startLine < line - b.span.startLine ↔
      b.span.startLine < a.span.startLine := by omega
  unfold closerByDistance? Node.linesAbove? closer
  rw [if_pos ha, if_pos hb]
  simp only [Option.bind_eq_bind, Option.bind_some, hlt, hgt]
  split_ifs
  · rfl
  · rfl
  · cases columnDistance? a character <;> cases columnDistance? b character <;> rfl
  · rfl

/-- Among nodes that start no later than on the line the choice by distances is never without one.
The induction is on the nodes; the winner so far is one of them. -/
theorem foldlM_closerByDistance? (ns : List Node) :
    ∀ n : Node, (∀ m ∈ n :: ns, m.span.startLine ≤ line) →
      ns.foldlM (closerByDistance? line character) n =
        some (ns.foldl (closer line character) n) := by
  induction ns with
  | nil =>
    intro n _
    rfl
  | cons m ms ih =>
    intro n h
    have hn := h n (List.mem_cons_self ..)
    have hm := h m (List.mem_cons_of_mem _ (List.mem_cons_self ..))
    rw [List.foldlM_cons, List.foldl_cons, closerByDistance?_eq hn hm, Option.bind_eq_bind,
      Option.bind_some]
    apply ih
    intro k hk
    rcases List.mem_cons.mp hk with rfl | hk
    · rcases closer_eq_or line character n m with he | he <;> rw [he] <;> assumption
    · exact h k (List.mem_cons_of_mem _ (List.mem_cons_of_mem _ hk))

/-- The distances of all nodes that take part exist, and they lead to the same winner. -/
theorem closestByDistance?_eq (nodes : List Node) (line character : Nat) :
    closestByDistance? nodes line character = some (closest? nodes line character) := by
  unfold closestByDistance? closest?
  cases hcandidates : nodes.filter (isCandidate line) with
  | nil => rfl
  | cons n ns =>
    have hstarts : ∀ m ∈ n :: ns, m.span.startLine ≤ line := by
      intro m hm
      rw [← hcandidates] at hm
      exact (isCandidate_iff.mp (List.mem_filter.mp hm).2).2.1
    dsimp only
    rw [foldlM_closerByDistance? ns n hstarts, Option.map_some, closestOf?]

/-- The search by distances; `none` if on some level one of these does not exist. -/
def locateByDistance? (nodes : List Node) (line character : Nat) : Option (List Node) :=
  match h : closestByDistance? nodes line character with
  | none => none
  | some none => some []
  | some (some winner) =>
    have : winner ∈ nodes := by
      rw [closestByDistance?_eq, Option.some.injEq] at h
      exact mem_of_closest? h
    (locateByDistance? winner.children line character).map (winner :: ·)
termination_by sizeOf nodes
decreasing_by exact Node.sizeOf_lt_of_mem this

/-- The distances exist on every level, and the search by distances meets the same nodes. -/
theorem locateByDistance?_eq (nodes : List Node) (line character : Nat) :
    locateByDistance? nodes line character = some (locate nodes line character) := by
  fun_induction locateByDistance? nodes line character with
  | case1 nodes h =>
    rw [closestByDistance?_eq] at h
    cases h
  | case2 nodes h =>
    rw [closestByDistance?_eq, Option.some.injEq] at h
    rw [locate_eq_nil h]
  | case3 nodes winner h _ ih =>
    rw [closestByDistance?_eq, Option.some.injEq] at h
    rw [ih, Option.map_some, locate_eq_cons h]

/-! ## The search -/

/-- The search in any forest, with whatever spans. Exactly one path takes, level by level, the
leftmost node of the greatest rank among those that compete, and ends where nobody competes; the
chain of the search is made of the nodes along it. A search that compares by how many lines above
the line the nodes start always has these distances, and meets the same nodes. If no two of the
nodes given that compete start at one place, their order does not matter. -/
theorem locate_leftmost_greatest (nodes : List Node) (line character : Nat) :
    (∃ path, nodesAlong? nodes path = some (locate nodes line character) ∧
      ∀ path', Descends line character nodes path' ↔ path' = path) ∧
    locateByDistance? nodes line character = some (locate nodes line character) ∧
    ∀ nodes', nodes.Perm nodes' →
      (nodes.Pairwise fun a b =>
        a.Competes line → b.Competes line → a.span.first ≠ b.span.first) →
      locate nodes' line character = locate nodes line character :=
  ⟨exists_descent nodes line character, locateByDistance?_eq nodes line character,
    fun _ hperm hstarts => locate_perm hperm hstarts⟩

/-- Two rules that start on the first line and overlap, and one with its ends the wrong way around.
-/
def overlappingRules : List Node :=
  [⟨.rule "early", ⟨1, 1, 2, 5⟩, []⟩, ⟨.rule "late", ⟨1, 8, 2, 9⟩, []⟩,
    ⟨.rule "inverted", ⟨2, 3, 1, 1⟩, []⟩]

/-- On the second line the rule that starts further right is found, also from right to left. -/
theorem overlappingRules_locate :
    locate overlappingRules.reverse 2 1 = [⟨.rule "late", ⟨1, 8, 2, 9⟩, []⟩] := by
  have hwinner : closest? overlappingRules 2 1 = some ⟨.rule "late", ⟨1, 8, 2, 9⟩, []⟩ := rfl
  have hreverse := (locate_leftmost_greatest overlappingRules 2 1).2.2 overlappingRules.reverse
    (List.reverse_perm _).symm (by decide)
  rw [hreverse, locate_eq_cons hwinner, locate_nil]

end ArgdownLens
