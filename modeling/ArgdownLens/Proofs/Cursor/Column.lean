import ArgdownLens.Proofs.Cursor.Descent
import ArgdownLens.Proofs.Cursor.Return

/-!
# The column counts only where something starts

The column enters the search only through the question which nodes start behind it
(`Node.reached`). Between two columns of a line with no start between them, that question has the
same answer for every node, so the ranks agree (`Node.rank_congr`), the same nodes win
(`closest?_congr`), and the search meets the same nodes (`locate_congr`). All answers at a position
are answers about the occurrence there (`Response.sameAnswers_of_occurrence`).
-/

namespace ArgdownLens

variable {line c c' : Nat}

/-- A node starts on the line, behind the first column and not behind the second one. -/
def Node.StartsBetween (line c c' : Nat) (n : Node) : Prop :=
  ¬ n.isStructural ∧ n.span.startLine = line ∧ c < n.span.startColumn ∧ n.span.startColumn ≤ c'

instance (line c c' : Nat) (n : Node) : Decidable (n.StartsBetween line c c') :=
  inferInstanceAs (Decidable (_ ∧ _))

/-! ## The search -/

/-- A node that does not start between two columns has the same rank for both. -/
theorem Node.rank_congr {n : Node} (hle : c ≤ c') (hs : ¬ n.isStructural)
    (h : ¬ n.StartsBetween line c c') : n.rank line c = n.rank line c' := by
  have hreached : n.reached line c = n.reached line c' := by
    have hbehind : n.span.startLine = line ∧ c < n.span.startColumn ↔
        n.span.startLine = line ∧ c' < n.span.startColumn := by
      constructor
      · rintro ⟨hline, hc⟩
        refine ⟨hline, ?_⟩
        by_contra hc'
        exact h ⟨hs, hline, hc, not_lt.mp hc'⟩
      · rintro ⟨hline, hc'⟩
        exact ⟨hline, hle.trans_lt hc'⟩
    unfold Node.reached
    simp only [hbehind]
  unfold Node.rank
  rw [hreached]

/-- Who wins depends on the ranks of those that compete only. -/
theorem Wins.congr {nodes : List Node} {i : Nat} {w : Node} (h : Wins line c nodes i w)
    (hrank : ∀ n ∈ nodes, n.Competes line → n.rank line c = n.rank line c') :
    Wins line c' nodes i w := by
  have hw := hrank w (List.mem_of_getElem? h.getElem?) h.competes
  refine ⟨h.getElem?, h.competes, ?_, ?_⟩
  · intro m hm hc
    rw [← hrank m hm hc, ← hw]
    exact h.greatest m hm hc
  · intro m hm hc
    rw [← hrank m (List.mem_of_mem_take hm) hc, ← hw]
    exact h.leftmost m hm hc

/-- Where the ranks agree the same node is the closest. -/
theorem closest?_congr {nodes : List Node}
    (hrank : ∀ n ∈ nodes, n.Competes line → n.rank line c = n.rank line c') :
    closest? nodes line c' = closest? nodes line c := by
  cases h : closest? nodes line c with
  | none => exact closest?_eq_none_iff.mpr (closest?_eq_none_iff.mp h)
  | some w =>
    obtain ⟨i, hi⟩ := exists_wins h
    exact (hi.congr hrank).closest?

/-- Between two columns of a line with no start between them, the search meets the same nodes. -/
theorem locate_congr {nodes : List Node} (hle : c ≤ c')
    (h : ∀ n ∈ Node.preorderAll nodes, ¬ n.StartsBetween line c c') :
    locate nodes line c' = locate nodes line c := by
  -- The rank of a node changes only where the node starts between the columns.
  have hclosest (nodes : List Node)
      (h : ∀ n ∈ Node.preorderAll nodes, ¬ n.StartsBetween line c c') :
      closest? nodes line c' = closest? nodes line c := by
    apply closest?_congr
    intro n hn hc
    exact n.rank_congr hle hc.1 (h n (Node.mem_preorderAll.mpr ⟨n, hn, n.mem_preorder_self⟩))
  fun_induction locate nodes line c with
  | case1 nodes hnone => exact locate_eq_nil ((hclosest nodes h).trans hnone)
  | case2 nodes winner hwinner hmem ih =>
    have hchildren : ∀ n ∈ Node.preorderAll winner.children, ¬ n.StartsBetween line c c' := by
      intro n hn
      apply h n
      rw [Node.mem_preorderAll]
      refine ⟨winner, hmem, ?_⟩
      rw [Node.preorder_eq]
      exact List.mem_cons_of_mem _ hn
    rw [locate_eq_cons ((hclosest nodes h).trans hwinner), ih hchildren]

/-! ## The answers -/

namespace Response

/-- All questions have the same answers at two positions. -/
structure SameAnswers (r : Response) (p p' : Position) : Prop where
  hover : r.hoverAt? p' = r.hoverAt? p
  definitions : ∀ uri, r.definitionsAt uri p' = r.definitionsAt uri p
  references : ∀ uri includeDeclaration,
    r.referencesAt uri p' includeDeclaration = r.referencesAt uri p includeDeclaration
  highlights : r.highlightsAt p' = r.highlightsAt p
  rename : ∀ uri newName, r.renameAt uri p' newName = r.renameAt uri p newName
  prepareRename : r.prepareRenameAt? p' = r.prepareRenameAt? p

/-- The answers at a position are those about the occurrence there. -/
theorem sameAnswers_of_occurrence {r : Response} {p p' : Position}
    (h : r.occurrenceAtPosition? p' = r.occurrenceAtPosition? p) : r.SameAnswers p p' where
  hover := by rw [hoverAt?, hoverAt?, h]
  definitions uri := by rw [definitionsAt, definitionsAt, h]
  references uri includeDeclaration := by rw [referencesAt, referencesAt, h]
  highlights := by rw [highlightsAt, highlightsAt, h]
  rename uri newName := by rw [renameAt, renameAt, h]
  prepareRename := by rw [prepareRenameAt?, prepareRenameAt?, h]

/-- At two positions of a line with no start between them all answers are the same. -/
theorem sameAnswers_of_columns {r : Response} (hle : c ≤ c')
    (h : ∀ n ∈ Node.preorderAll r.ast.children, ¬ n.StartsBetween (line + 1) (c + 1) (c' + 1)) :
    r.SameAnswers ⟨line, c⟩ ⟨line, c'⟩ := by
  apply sameAnswers_of_occurrence
  unfold occurrenceAtPosition? occurrenceAt? Position.toOneBased
  rw [locate_congr (Nat.succ_le_succ hle) h]

/-- The positions with the same answers may be swapped. -/
theorem SameAnswers.symm {r : Response} {p p' : Position} (h : r.SameAnswers p p') :
    r.SameAnswers p' p :=
  ⟨h.hover.symm, fun uri => (h.definitions uri).symm,
    fun uri includeDeclaration => (h.references uri includeDeclaration).symm, h.highlights.symm,
    fun uri newName => (h.rename uri newName).symm, h.prepareRename.symm⟩

end Response

/-- A document with one tag, which goes over three lines. -/
def spreadTag : Response where
  ast := ⟨.rule "argdown", ⟨3, 7, 5, 2⟩, [⟨.tag (some "t"), ⟨3, 7, 5, 2⟩, []⟩]⟩

end ArgdownLens
