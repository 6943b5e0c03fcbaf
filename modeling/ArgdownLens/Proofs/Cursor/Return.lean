import ArgdownLens.Proofs.Cursor.Agreement
import ArgdownLens.Proofs.Cursor.Resolution
import ArgdownLens.Proofs.Tree.Order

/-!
# From a reference back to its symbol

An editor that jumps to a reference asks its next question there. In a well-formed document in which
nothing starts on the last line of an earlier sibling of several lines, the search that begins where
an occurrence starts ends at that occurrence (`Response.WellFormed.occurrenceAt?_start`). It meets
the occurrence on every level, since no node around it gives way to a later sibling. The answers
there are those of the symbol, whichever of its occurrences was asked about
(`Response.WellFormed.referencesAt_start`).
-/

namespace ArgdownLens

/-- No sibling behind a node of several lines starts on the last line of that node. -/
def Node.LastLinesFree (ns : List Node) : Prop :=
  ns.Pairwise fun a b => ¬ a.isStructural → ¬ b.isStructural →
    a.span.startLine < a.span.endLine → b.span.startLine ≠ a.span.endLine

instance (ns : List Node) : Decidable (Node.LastLinesFree ns) :=
  inferInstanceAs (Decidable (List.Pairwise _ ns))

/-- Around a place on the line, a node gives way only to a sibling that starts on its last line. -/
theorem Node.LastLinesFree.not_givesWay {ns : List Node} {i : Nat} {n : Node} {p : Position}
    (h : Node.LastLinesFree ns) (hwf : Node.WellFormedAll ns) (hi : ns[i]? = some n)
    (hs : ¬ n.isStructural) (hp : n.span.Contains p) :
    ¬ n.GivesWay p.line (ns.drop (i + 1)) := by
  rintro ⟨hstart, later, hlater, hslater, hline⟩
  have hafter := hwf
  rw [eq_take_cons_drop hi] at h hafter
  -- The sibling starts behind the end of the node, but no further down than the place is.
  have hlt := (hafter.split hs).2 later hlater hslater
  have hlast := hp.2
  simp only [Span.first, Span.last, Position.le_iff, Position.lt_iff] at hlt hlast
  have hfree := (List.pairwise_cons.mp (List.pairwise_append.mp h).2.1).1 later hlater
  exact hfree hs hslater (by omega) (by omega)

/-- In a well-formed tree without siblings on last lines, the search for the start of a node that
has nothing below it ends there. Nothing is asked of the span of the root. -/
theorem locate_start {n root : Node} (hn : n ∈ root.preorder) (hs : ¬ n.isStructural)
    (hnil : n.children = []) (hwf : Node.WellFormedAll root.children)
    (hleaves : root.IndentsAreLeaves)
    (hfree : ∀ m ∈ root.preorder, Node.LastLinesFree m.children) :
    ∃ before, root :: locate root.children n.span.startLine n.span.startColumn =
      before ++ [n] := by
  induction root using Node.induction_children with
  | h root ih =>
    rcases Node.mem_preorder.mp hn with rfl | ⟨c, hc, hn⟩
    · exact ⟨[], by rw [hnil, locate_nil, List.nil_append]⟩
    · have hcleaves := hleaves.child hc
      have hsc := hcleaves.not_structural hn hs
      have hcwf := hwf.mem hc hsc
      -- The child contains the start of the node, so it wins among its siblings.
      have hcontains : c.span.Contains n.span.first := by
        have hself := (Node.wellFormed_iff.mp (hcwf.of_mem_preorder hcleaves hn hs)).1
        exact Span.Contains.of_encloses ⟨Position.le_refl _, hself⟩
          (hcwf.encloses_of_mem_preorder hcleaves hn hs)
      obtain ⟨i, hi⟩ := List.mem_iff_getElem?.mp hc
      have hway := (hfree root (Node.mem_preorder_self _)).not_givesWay hwf hi hsc hcontains
      have hwinner : closest? root.children n.span.startLine n.span.startColumn = some c :=
        closest?_eq_of_contains hwf hi hsc hcontains hway
      obtain ⟨before, hbefore⟩ := ih c hc hn (Node.wellFormed_iff.mp hcwf).2.2 hcleaves
        fun m hm => hfree m (Node.mem_preorder_of_child hc hm)
      exact ⟨root :: before, by rw [locate_eq_cons hwinner, hbefore, List.cons_append]⟩

namespace Response.WellFormed

variable {r : Response}

/-- The search for the start of an occurrence ends at the occurrence. -/
theorem occurrenceAt?_start (h : r.WellFormed) (hroot : r.ast.occurrence? = none)
    (hfree : ∀ n ∈ r.ast.preorder, Node.LastLinesFree n.children) {o : Occurrence}
    (ho : o ∈ r.occurrences) :
    r.occurrenceAt? o.node.span.startLine o.node.span.startColumn = some o := by
  obtain ⟨hmem, hnode⟩ := mem_occurrences_iff.mp ho
  have hnil := h.leaves o.node hmem (Or.inr (by rw [hnode]; rfl))
  obtain ⟨before, hbefore⟩ := locate_start hmem (Node.not_structural_of_occurrence? hnode) hnil
    h.children h.indentsAreLeaves hfree
  -- The root names nothing, so the chain below it is not empty and ends with the occurrence.
  cases before with
  | nil =>
    obtain ⟨hast, -⟩ := List.cons.inj hbefore
    rw [hast, hnode] at hroot
    cases hroot
  | cons m before =>
    have hchain : locate r.ast.children o.node.span.startLine o.node.span.startColumn =
        before ++ [o.node] := (List.cons.inj hbefore).2
    unfold occurrenceAt?
    rw [hchain, List.reverse_append, List.reverse_singleton, List.singleton_append,
      List.findSome?_cons, hnode]

/-- An editor that goes where an occurrence starts finds the occurrence. -/
theorem occurrenceAtPosition?_start (h : r.WellFormed) (hroot : r.ast.occurrence? = none)
    (hfree : ∀ n ∈ r.ast.preorder, Node.LastLinesFree n.children) {o : Occurrence}
    (ho : o ∈ r.occurrences) : r.occurrenceAtPosition? o.range.start = some o := by
  obtain ⟨hmem, hnode⟩ := mem_occurrences_iff.mp ho
  obtain ⟨hline, hcolumn⟩ := h.counted o.node hmem (Node.not_structural_of_occurrence? hnode)
  have hstart : o.range.start.toOneBased = (o.node.span.startLine, o.node.span.startColumn) := by
    simp only [Occurrence.range, Span.toRange, Position.toOneBased, Prod.mk.injEq]
    omega
  unfold occurrenceAtPosition?
  rw [hstart]
  exact h.occurrenceAt?_start hroot hfree ho

/-- In a well-formed document whose root names no symbol, let no node start on the last line of an
earlier sibling of several lines. Then the place where a reference starts is as good as the place
that was asked about: a rename there would replace the reference, and its references are the same,
with the definitions and without. -/
theorem referencesAt_start (r : Response) (h : r.WellFormed) (hroot : r.ast.occurrence? = none)
    (hfree : ∀ n ∈ r.ast.preorder, Node.LastLinesFree n.children) (uri : String) (p : Position)
    (includeDeclaration : Bool) (x : Reference)
    (hx : x ∈ (r.referencesAt uri p true).references) :
    r.prepareRenameAt? x.location.range.start = some x.location.range ∧
      r.referencesAt uri x.location.range.start includeDeclaration =
        r.referencesAt uri p includeDeclaration := by
  cases hp : r.occurrenceAtPosition? p with
  | none =>
    rw [(answers_of_none hp "").2.2.2.1 true] at hx
    cases hx
  | some o =>
    rw [references_of_some hp] at hx
    obtain ⟨found, hfound, rfl⟩ := List.mem_map.mp hx
    rw [occurrencesOf_eq, List.mem_filter] at hfound
    -- The start of a reference is a place where the same symbol is found.
    have hat := h.occurrenceAtPosition?_start hroot hfree hfound.1
    have hsame : found.sameSymbol o := by simpa using hfound.2
    constructor
    · unfold prepareRenameAt?
      rw [Reference.ofOccurrence, hat, Option.map_some]
    · unfold referencesAt
      rw [Reference.ofOccurrence, hat, hp]
      dsimp only
      rw [occurrencesOf_congr hsame]

end Response.WellFormed

/-- In the document of `relationDocument`, the search in the mention `@[S1]` goes through the
statement of the second line to the mention. -/
theorem occurrenceAtPosition?_mention : relationDocument.occurrenceAtPosition? ⟨1, 14⟩ =
    some ⟨.statementMention, "S1", mentionNode⟩ := by
  have houter : closest? relationDocument.ast.children 2 15 = some mentioningStatement := rfl
  have hinner : closest? mentioningStatement.children 2 15 = some mentionNode := rfl
  have hchain : locate relationDocument.ast.children 2 15 =
      [mentioningStatement, mentionNode] := by
    rw [locate_eq_cons houter, locate_eq_cons hinner]
    exact congrArg (fun below => [mentioningStatement, mentionNode] ++ below) locate_nil
  unfold Response.occurrenceAtPosition? Response.occurrenceAt?
  dsimp only [Position.toOneBased]
  rw [hchain]
  rfl

/-- There, the mention `@[S1]` leads to the reference `[S1]` in the last line, and the start of that
one leads to the same answer. -/
theorem relationDocument_return :
    relationDocument.WellFormed ∧ relationDocument.ast.occurrence? = none ∧
      (∀ n ∈ relationDocument.ast.preorder, Node.LastLinesFree n.children) ∧
      ⟨⟨"file:///a", ⟨⟨3, 4⟩, ⟨3, 8⟩⟩⟩, .statementReference, false⟩ ∈
        (relationDocument.referencesAt "file:///a" ⟨1, 14⟩ true).references ∧
      relationDocument.prepareRenameAt? ⟨3, 4⟩ = some ⟨⟨3, 4⟩, ⟨3, 8⟩⟩ ∧
      relationDocument.referencesAt "file:///a" ⟨3, 4⟩ false =
        relationDocument.referencesAt "file:///a" ⟨1, 14⟩ false := by
  have hwf : relationDocument.WellFormed := by decide
  have hfree : ∀ n ∈ relationDocument.ast.preorder, Node.LastLinesFree n.children := by decide
  have hx : ⟨⟨"file:///a", ⟨⟨3, 4⟩, ⟨3, 8⟩⟩⟩, .statementReference, false⟩ ∈
      (relationDocument.referencesAt "file:///a" ⟨1, 14⟩ true).references := by
    rw [Response.references_of_some occurrenceAtPosition?_mention]
    decide
  exact ⟨hwf, rfl, hfree, hx, Response.WellFormed.referencesAt_start relationDocument hwf rfl hfree
    "file:///a" ⟨1, 14⟩ false _ hx⟩

end ArgdownLens
