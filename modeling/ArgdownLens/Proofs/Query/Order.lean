import ArgdownLens.Proofs.Tree.Order
import ArgdownLens.Query.Outline
import ArgdownLens.Query.Rename

/-!
# The answers stand in the order of the document

In a well-formed document the occurrences of a symbol stand one behind the other, and they still do
once their places are counted as an editor counts them: the start of a span goes down by one and its
end stays, so a span that ends in front of another one becomes a range that ends where the other one
may start. Edits of a rename therefore never overlap (`Response.WellFormed.answers_in_order`), and
references, highlights and the outline are sorted by where they start.
-/

namespace ArgdownLens

/-! ## From spans to ranges -/

namespace Span

/-- Counted from zero, a span still starts no later than those that it precedes. -/
theorem toRange_start_le {s t : Span} (hs : s.IsCounted) (h : s.first ≤ t.first) :
    s.toRange.start ≤ t.toRange.start := by
  obtain ⟨hline, -⟩ := hs
  simp only [first, Position.le_iff] at h
  simp only [toRange, Position.le_iff]
  omega

/-- What ends in front of a span is a range that ends no later than the span starts. -/
theorem toRange_stop_le_start {s t : Span} (hs : s.IsCounted) (hself : s.first ≤ s.last)
    (h : s.last < t.first) : s.toRange.stop ≤ t.toRange.start := by
  obtain ⟨hline, -⟩ := hs
  simp only [first, last, Position.le_iff, Position.lt_iff] at hself h
  simp only [toRange, Position.le_iff]
  omega

/-- The last character of a span belongs to it, so its range is not empty. -/
theorem toRange_start_lt_stop {s : Span} (hs : s.IsCounted) (hself : s.first ≤ s.last) :
    s.toRange.start < s.toRange.stop := by
  obtain ⟨hline, hcolumn⟩ := hs
  simp only [first, last, Position.le_iff] at hself
  simp only [toRange, Position.lt_iff]
  omega

end Span

/-- Ranges in the order in which they start. -/
def Ascending (ranges : List Range) : Prop :=
  ranges.Pairwise fun a b => a.start ≤ b.start

/-- Ranges that are not empty, each of which ends before the later ones start. -/
def Apart (ranges : List Range) : Prop :=
  (∀ a ∈ ranges, a.start < a.stop) ∧ ranges.Pairwise fun a b => a.stop ≤ b.start

/-- Ranges that stand apart start in order. -/
theorem Apart.ascending {ranges : List Range} (h : Apart ranges) : Ascending ranges := by
  refine h.2.imp_of_mem ?_
  intro a b ha _ hab
  exact Position.le_trans (Position.le_of_lt (h.1 a ha)) hab

/-- Some of the ranges that stand apart do so, too. -/
theorem Apart.sublist {ranges others : List Range} (h : Apart ranges)
    (hsub : others.Sublist ranges) : Apart others :=
  ⟨fun a ha => h.1 a (hsub.subset ha), h.2.sublist hsub⟩

/-! ## The answers -/

/-- The outline has no entries for indentation tokens. -/
theorem Node.not_structural_of_outline? {n : Node} {entry : String × OutlineKind × String}
    (h : n.outline? = some entry) : ¬ n.isStructural := by
  intro hs
  unfold outline? at h
  simp only [isStructural, decide_eq_true_eq] at hs
  rcases hs with hs | hs <;> simp [hs] at h

namespace Response.WellFormed

variable {r : Response}

/-- The occurrences of a well-formed document stand apart. -/
theorem apart_occurrences (h : r.WellFormed) : Apart (r.occurrences.map Occurrence.range) := by
  have hspan : ∀ o ∈ r.occurrences,
      o.node.span.IsCounted ∧ o.node.span.first ≤ o.node.span.last := by
    intro o ho
    obtain ⟨hmem, hnode⟩ := mem_occurrences_iff.mp ho
    have hs := Node.not_structural_of_occurrence? hnode
    exact ⟨h.counted o.node hmem hs, (Node.wellFormed_iff.mp (h.wellFormed_of_mem hmem hs)).1⟩
  constructor
  · intro range hrange
    obtain ⟨o, ho, rfl⟩ := List.mem_map.mp hrange
    exact Span.toRange_start_lt_stop (hspan o ho).1 (hspan o ho).2
  · rw [List.pairwise_map]
    refine h.pairwise_occurrences.imp_of_mem ?_
    intro a b ha _ hab
    exact Span.toRange_stop_le_start (hspan a ha).1 (hspan a ha).2 hab

/-- The occurrences of one symbol stand apart. -/
theorem apart_occurrencesOf (h : r.WellFormed) (o : Occurrence) (includeDeclaration : Bool) :
    Apart ((r.occurrencesOf o includeDeclaration).map Occurrence.range) :=
  h.apart_occurrences.sublist (List.filter_sublist.map _)

/-- The entries of the outline start in order. One may lie within another. -/
theorem ascending_outline (h : r.WellFormed) (uri : String) :
    Ascending ((r.outline uri).map fun entry => entry.location.range) := by
  unfold Ascending outline
  rw [List.pairwise_map, List.pairwise_filterMap]
  refine h.pairwise_preorder.imp_of_mem ?_
  intro m n hm hn hmn a ha b hb
  obtain ⟨⟨_, _, _⟩, hma, rfl⟩ := Option.map_eq_some_iff.mp ha
  obtain ⟨⟨_, _, _⟩, hnb, rfl⟩ := Option.map_eq_some_iff.mp hb
  have hsm := Node.not_structural_of_outline? hma
  have hsn := Node.not_structural_of_outline? hnb
  exact Span.toRange_start_le (h.counted m hm hsm) (hmn hsm hsn).1

/-- In a well-formed document the edits of every rename are for ranges that are not empty, and each
of them ends before the later ones start. The occurrences and the references of a symbol, its
highlights and the entries of the outline start in order. -/
theorem answers_in_order (r : Response) (h : r.WellFormed) :
    (∀ uri o newName, ∀ entry ∈ (r.planRename uri o newName).changes.entries,
      Apart (entry.2.map TextEdit.range)) ∧
    (∀ o includeDeclaration,
      Ascending ((r.occurrencesOf o includeDeclaration).map Occurrence.range)) ∧
    (∀ uri p includeDeclaration,
      Ascending ((r.referencesAt uri p includeDeclaration).locations.map Location.range)) ∧
    (∀ p, Ascending ((r.highlightsAt p).map DocumentHighlight.range)) ∧
    ∀ uri, Ascending ((r.outline uri).map fun entry => entry.location.range) := by
  refine ⟨?_, fun o includeDeclaration => (h.apart_occurrencesOf o includeDeclaration).ascending,
    ?_, ?_, h.ascending_outline⟩
  · -- The edits are all for one document, and they stand where the occurrences stand.
    intro uri o newName entry hentry
    have hentries : (r.planRename uri o newName).changes.entries =
        [(uri, (r.occurrencesOf o true).map (·.renameEdit newName))] := rfl
    rw [hentries, List.mem_singleton] at hentry
    rw [hentry, List.map_map]
    exact h.apart_occurrencesOf o true
  · intro uri p includeDeclaration
    unfold referencesAt ReferenceResult.locations
    cases r.occurrenceAtPosition? p with
    | none => exact List.Pairwise.nil
    | some o =>
      simp only [List.map_map]
      exact (h.apart_occurrencesOf o includeDeclaration).ascending
  · intro p
    unfold highlightsAt
    cases r.occurrenceAtPosition? p with
    | none => exact List.Pairwise.nil
    | some o =>
      simp only [List.map_map]
      exact (h.apart_occurrencesOf o true).ascending

end Response.WellFormed

/-- Renaming `S1` there edits its definition, its mention and its reference in this order. -/
theorem relationDocument_in_order :
    relationDocument.WellFormed ∧
      (relationDocument.planRename "file:///a"
        ⟨.statementReference, "S1", default⟩ "S9").changes.entries =
        [("file:///a", [⟨⟨⟨0, 0⟩, ⟨0, 5⟩⟩, "[S9]:"⟩, ⟨⟨⟨1, 12⟩, ⟨1, 17⟩⟩, "@[S9]"⟩,
          ⟨⟨⟨3, 4⟩, ⟨3, 8⟩⟩, "[S9]"⟩])] ∧
      Apart [⟨⟨0, 0⟩, ⟨0, 5⟩⟩, ⟨⟨1, 12⟩, ⟨1, 17⟩⟩, ⟨⟨3, 4⟩, ⟨3, 8⟩⟩] := by
  have hwf : relationDocument.WellFormed := by decide
  have hentries : (relationDocument.planRename "file:///a"
      ⟨.statementReference, "S1", default⟩ "S9").changes.entries =
        [("file:///a", [⟨⟨⟨0, 0⟩, ⟨0, 5⟩⟩, "[S9]:"⟩, ⟨⟨⟨1, 12⟩, ⟨1, 17⟩⟩, "@[S9]"⟩,
          ⟨⟨⟨3, 4⟩, ⟨3, 8⟩⟩, "[S9]"⟩])] := by decide
  have hordered := (Response.WellFormed.answers_in_order relationDocument hwf).1 "file:///a"
    ⟨.statementReference, "S1", default⟩ "S9"
  rw [hentries] at hordered
  exact ⟨hwf, hentries, hordered _ (List.mem_singleton_self _)⟩

end ArgdownLens
