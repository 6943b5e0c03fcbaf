import ArgdownLens.Query.Locate
import Mathlib.Data.Prod.Lex

/-!
# The closest node as a maximum

`closer` decides between two nodes case by case. Its decision is the comparison of a rank
(`closer_eq_ite`), which is linearly ordered. The winner among the nodes that take part is therefore
the leftmost one of the greatest rank: `closest?_eq_some` finds it, and `rank_le_of_closest?` bounds
the others by it.
-/

namespace ArgdownLens

variable {line character : Nat}

/-- Whether a node takes the place into account: it does not if it starts on the line, behind the
column. -/
def Node.reached (line character : Nat) (n : Node) : Nat :=
  if n.span.startLine = line ∧ character < n.span.startColumn then 0 else 1

/-- How close a node comes to a place. The start line counts first, then whether the node is
reached, then the start column. -/
def Node.rank (line character : Nat) (n : Node) : Nat ×ₗ Nat ×ₗ Nat :=
  toLex (n.span.startLine, toLex (n.reached line character, n.span.startColumn))

/-- The order of ranks, field by field. -/
theorem Node.rank_lt_iff {a b : Node} :
    a.rank line character < b.rank line character ↔
      a.span.startLine < b.span.startLine ∨ a.span.startLine = b.span.startLine ∧
        (a.reached line character < b.reached line character ∨
          a.reached line character = b.reached line character ∧
            a.span.startColumn < b.span.startColumn) := by
  unfold Node.rank
  rw [Prod.Lex.toLex_lt_toLex, Prod.Lex.toLex_lt_toLex]

/-- Of two nodes the one of the higher rank is closer, and the first one if the ranks agree. -/
theorem closer_eq_ite (a b : Node) :
    closer line character a b =
      if a.rank line character < b.rank line character then b else a := by
  simp only [Node.rank_lt_iff]
  unfold closer
  rcases lt_trichotomy a.span.startLine b.span.startLine with hlt | heq | hgt
  · rw [if_pos hlt, if_pos (Or.inl hlt)]
  · -- The start lines leave it open, so both sides look at the columns.
    have ha : ¬ a.span.startLine < b.span.startLine := by omega
    have hb : ¬ b.span.startLine < a.span.startLine := by omega
    rw [if_neg ha, if_neg hb]
    unfold Node.reached laterColumn columnDistance?
    by_cases hline : a.span.startLine = line
    · -- Both start on the line: the columns decide, each against the place first.
      have hline' : b.span.startLine = line := by omega
      rw [if_pos hline]
      by_cases hac : a.span.startColumn ≤ character
      · by_cases hbc : b.span.startColumn ≤ character
        · have ha' : ¬ character < a.span.startColumn := by omega
          have hb' : ¬ character < b.span.startColumn := by omega
          simp only [hac, hbc, hline, hline', ha', hb', if_true, if_false, and_false, lt_irrefl,
            false_or, true_and]
          split_ifs <;> first | rfl | omega
        · have hb' : character < b.span.startColumn := by omega
          simp [hac, hbc, hline, hline', hb']
      · have ha' : character < a.span.startColumn := by omega
        by_cases hbc : b.span.startColumn ≤ character
        · simp [hac, hbc, hline, hline', ha']
        · have hb' : character < b.span.startColumn := by omega
          simp [hac, hbc, hline, hline', ha', hb']
    · -- Both start above the line: they are reached, and the later column is closer.
      have hline' : ¬ b.span.startLine = line := by omega
      rw [if_neg hline]
      simp only [hline', heq, false_and, if_false, lt_irrefl, false_or, true_and]
  · have hlt : ¬ a.span.startLine < b.span.startLine := by omega
    rw [if_neg hlt, if_pos hgt, if_neg]
    omega

/-- A node is a candidate if the line is among those from the first to the last one of its span and
it is no indentation token. -/
theorem isCandidate_iff {n : Node} :
    isCandidate line n ↔ ¬ n.isStructural ∧ n.span.startLine ≤ line ∧ line ≤ n.span.endLine := by
  unfold isCandidate Span.containsLine
  rw [Bool.and_eq_true, Bool.not_eq_true', decide_eq_true_eq, Bool.not_eq_true]

/-- A node that no other one outranks stays the closest. -/
theorem foldl_closer_of_le {n : Node} {ns : List Node}
    (h : ∀ m ∈ ns, m.rank line character ≤ n.rank line character) :
    ns.foldl (closer line character) n = n := by
  induction ns with
  | nil => rfl
  | cons m ms ih =>
    have hm : closer line character n m = n := by
      rw [closer_eq_ite, if_neg (not_lt.mpr (h m (List.mem_cons_self ..)))]
    rw [List.foldl_cons, hm]
    exact ih fun k hk => h k (List.mem_cons_of_mem _ hk)

/-- No node outranks the winner. -/
theorem rank_le_foldl_closer (n : Node) (ns : List Node) :
    ∀ m ∈ n :: ns, m.rank line character ≤
      (ns.foldl (closer line character) n).rank line character := by
  induction ns generalizing n with
  | nil => simp
  | cons k ks ih =>
    -- The winner of the first two has the greater of their ranks.
    have hn : n.rank line character ≤ (closer line character n k).rank line character := by
      rw [closer_eq_ite]
      split_ifs with h
      · exact h.le
      · exact le_rfl
    have hk : k.rank line character ≤ (closer line character n k).rank line character := by
      rw [closer_eq_ite]
      split_ifs with h
      · exact le_rfl
      · exact not_lt.mp h
    have hwinner := ih (closer line character n k) _ (List.mem_cons_self ..)
    intro m hm
    rw [List.foldl_cons]
    rcases List.mem_cons.mp hm with rfl | hm
    · exact hn.trans hwinner
    · rcases List.mem_cons.mp hm with rfl | hm
      · exact hk.trans hwinner
      · exact ih _ m (List.mem_cons_of_mem _ hm)

/-- The leftmost node of the greatest rank wins. -/
theorem closestOf?_append_cons {before after : List Node} {w : Node}
    (hbefore : ∀ m ∈ before, m.rank line character < w.rank line character)
    (hafter : ∀ m ∈ after, m.rank line character ≤ w.rank line character) :
    closestOf? line character (before ++ w :: after) = some w := by
  cases before with
  | nil => rw [List.nil_append, closestOf?, foldl_closer_of_le hafter]
  | cons n ns =>
    -- Whoever wins among the nodes in front of `w` loses against `w`.
    have hmem := foldl_closer_mem line character ns n
    have hlt := hbefore _ hmem
    rw [List.cons_append, closestOf?, List.foldl_append, List.foldl_cons, closer_eq_ite,
      if_pos hlt, foldl_closer_of_le hafter]

/-- Among some nodes the leftmost candidate of the greatest rank is the closest. -/
theorem closest?_eq_some {before after : List Node} {w : Node} (hw : isCandidate line w)
    (hbefore : ∀ m ∈ before, isCandidate line m → m.rank line character < w.rank line character)
    (hafter : ∀ m ∈ after, isCandidate line m → m.rank line character ≤ w.rank line character) :
    closest? (before ++ w :: after) line character = some w := by
  unfold closest?
  rw [List.filter_append, List.filter_cons_of_pos hw]
  apply closestOf?_append_cons
  · intro m hm
    obtain ⟨hm, hc⟩ := List.mem_filter.mp hm
    exact hbefore m hm hc
  · intro m hm
    obtain ⟨hm, hc⟩ := List.mem_filter.mp hm
    exact hafter m hm hc

/-- The closest node takes part, and no other candidate outranks it. -/
theorem rank_le_of_closest? {nodes : List Node} {w : Node}
    (h : closest? nodes line character = some w) :
    isCandidate line w ∧
      ∀ m ∈ nodes, isCandidate line m → m.rank line character ≤ w.rank line character := by
  unfold closest? at h
  cases hcandidates : nodes.filter (isCandidate line) with
  | nil => rw [hcandidates] at h; simp [closestOf?] at h
  | cons n ns =>
    rw [hcandidates, closestOf?, Option.some.injEq] at h
    subst h
    constructor
    · have hmem := foldl_closer_mem line character ns n
      rw [← hcandidates] at hmem
      exact (List.mem_filter.mp hmem).2
    · intro m hm hc
      apply rank_le_foldl_closer
      rw [← hcandidates]
      exact List.mem_filter.mpr ⟨hm, hc⟩

end ArgdownLens
