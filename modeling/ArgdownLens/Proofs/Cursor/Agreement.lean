import ArgdownLens.Proofs.Tree.Preorder
import ArgdownLens.Query.Definition
import ArgdownLens.Query.Hover
import ArgdownLens.Query.Rename

/-!
# The answers at one position agree

Every question about a position is first a question about the occurrence there. Where there is none,
all answers are empty. Where there is one, it is among its own references
(`mem_occurrencesOf_self`), and the other answers are read off the list of its references.
-/

namespace ArgdownLens

namespace Response

variable {r : Response} {uri : String} {p : Position} {o : Occurrence}

/-- The occurrences of a symbol are those of the document with its family and key, without the
definitions unless they are asked for. -/
theorem occurrencesOf_eq (r : Response) (o : Occurrence) (includeDeclaration : Bool) :
    r.occurrencesOf o includeDeclaration = r.occurrences.filter fun candidate =>
      candidate.sameSymbol o && (includeDeclaration || !candidate.isDefinition) := rfl

/-- An occurrence of the document is among the occurrences of its symbol. -/
theorem mem_occurrencesOf_self (h : o ∈ r.occurrences) : o ∈ r.occurrencesOf o true := by
  rw [occurrencesOf_eq, List.mem_filter]
  exact ⟨h, by simp [Occurrence.sameSymbol]⟩

/-- Leaving the definitions out changes nothing else. -/
theorem occurrencesOf_false (r : Response) (o : Occurrence) :
    r.occurrencesOf o false = (r.occurrencesOf o true).filter (!·.isDefinition) := by
  rw [occurrencesOf_eq, occurrencesOf_eq, List.filter_filter]
  apply List.filter_congr
  intro candidate _
  cases candidate.isDefinition <;> simp

/-- The occurrences of a symbol do not depend on the occurrence by which it was named. -/
theorem occurrencesOf_congr {o' : Occurrence} (h : o'.sameSymbol o) (includeDeclaration : Bool) :
    r.occurrencesOf o' includeDeclaration = r.occurrencesOf o includeDeclaration := by
  simp only [Occurrence.sameSymbol, decide_eq_true_eq] at h
  rw [occurrencesOf_eq, occurrencesOf_eq]
  simp only [Occurrence.sameSymbol, h.1, h.2]

/-- An entity that cannot be shown is not known, so nothing explains it. -/
theorem definitionsOf_eq_nil (h : r.hoverOf? o = none) : r.definitionsOf uri o = [] := by
  -- Both look the key up in the same map. A tag can always be shown, and nothing explains it.
  unfold hoverOf? markdown? at h
  unfold definitionsOf
  cases hfamily : o.family with
  | statement =>
    have hnone : r.statement? o.key = none := by simpa [hfamily] using h
    simp only [hnone]
  | argument =>
    have hnone : r.argument? o.key = none := by simpa [hfamily] using h
    simp only [hnone]
  | tag => rfl

/-- What is shown for an occurrence stands at it. -/
theorem range_of_hoverOf? {shown : HoverResult} (h : r.hoverOf? o = some shown) :
    shown.range = o.range := by
  unfold hoverOf? at h
  obtain ⟨text, -, rfl⟩ := Option.map_eq_some_iff.mp h
  rfl

/-! ## Where no symbol is -/

/-- Where no symbol is, no question has an answer. -/
theorem answers_of_none (h : r.occurrenceAtPosition? p = none) (newName : String) :
    r.prepareRenameAt? p = none ∧ r.hoverAt? p = none ∧ r.definitionsAt uri p = [] ∧
      (∀ includeDeclaration, (r.referencesAt uri p includeDeclaration).references = []) ∧
      r.highlightsAt p = [] ∧ (r.renameAt uri p newName).changes.entries = [] := by
  refine ⟨?_, ?_, ?_, fun includeDeclaration => ?_, ?_, ?_⟩
  · rw [prepareRenameAt?, h, Option.map_none]
  · rw [hoverAt?, h, Option.bind_none]
  · rw [definitionsAt, h]
  · rw [referencesAt, h]
  · rw [highlightsAt, h]
  · rw [renameAt, h]
    rfl

/-! ## Where a symbol is -/

section

variable (h : r.occurrenceAtPosition? p = some o)

include h

/-- The references at an occurrence are its own. -/
theorem references_of_some (uri : String) (includeDeclaration : Bool) :
    (r.referencesAt uri p includeDeclaration).references =
      (r.occurrencesOf o includeDeclaration).map (.ofOccurrence uri) := by
  unfold referencesAt
  rw [h]

/-- The highlights stand at the references, and definitions are writes. -/
theorem highlights_of_some (uri : String) :
    r.highlightsAt p = (r.referencesAt uri p true).references.map fun x =>
      ⟨x.location.range, if x.isDefinition then .write else .read⟩ := by
  rw [references_of_some h, List.map_map]
  unfold highlightsAt
  rw [h]
  rfl

/-- A rename edits the document only, and writes each reference anew in its own form. -/
theorem rename_of_some (uri newName : String) :
    (r.renameAt uri p newName).changes.entries =
      [(uri, (r.referencesAt uri p true).references.map fun x =>
        ⟨x.location.range, x.kind.render newName⟩)] := by
  rw [references_of_some h, List.map_map]
  unfold renameAt
  rw [h]
  rfl

/-- The references without definitions are the others, in the same order. -/
theorem references_false_of_some (uri : String) :
    (r.referencesAt uri p false).references =
      (r.referencesAt uri p true).references.filter (!·.isDefinition) := by
  rw [references_of_some h, references_of_some h, occurrencesOf_false, List.filter_map]
  rfl

end

/-- All questions about a position agree, in whatever shape the tree is. Either none of them has an
answer, or there is a range that a rename would replace and the following holds of the references at
the position. One of them stands at that range. The highlights stand where the references stand, as
writes where these are definitions. A rename edits this document only and writes every reference
anew in the form of its kind. Without definitions, the references are the same less the definitions.
What is shown stands at the range, and where nothing is shown there is no definition to go to. -/
theorem answers_agree (r : Response) (uri : String) (p : Position) (newName : String) :
    (r.prepareRenameAt? p = none ∧ r.hoverAt? p = none ∧ r.definitionsAt uri p = [] ∧
      (∀ includeDeclaration, (r.referencesAt uri p includeDeclaration).references = []) ∧
      r.highlightsAt p = [] ∧ (r.renameAt uri p newName).changes.entries = []) ∨
    ∃ range found, r.prepareRenameAt? p = some range ∧
      (r.referencesAt uri p true).references = found ∧
      range ∈ found.map (·.location.range) ∧
      r.highlightsAt p =
        found.map (fun x => ⟨x.location.range, if x.isDefinition then .write else .read⟩) ∧
      (r.renameAt uri p newName).changes.entries =
        [(uri, found.map fun x => ⟨x.location.range, x.kind.render newName⟩)] ∧
      (r.referencesAt uri p false).references = found.filter (!·.isDefinition) ∧
      (∀ shown, r.hoverAt? p = some shown → shown.range = range) ∧
      (r.hoverAt? p = none → r.definitionsAt uri p = []) := by
  -- Every question looks up the same occurrence.
  cases h : r.occurrenceAtPosition? p with
  | none => exact Or.inl (answers_of_none h newName)
  | some o =>
    right
    refine ⟨o.range, _, ?_, rfl, ?_, highlights_of_some h uri, rename_of_some h uri newName,
      references_false_of_some h uri, ?_, ?_⟩
    · unfold prepareRenameAt?
      rw [h, Option.map_some]
    · -- An occurrence is among its own references.
      have hself := mem_occurrencesOf_self (mem_occurrences h)
      rw [references_of_some h, List.map_map]
      exact List.mem_map_of_mem hself
    · intro shown hshown
      unfold hoverAt? at hshown
      rw [h, Option.bind_some] at hshown
      exact range_of_hoverOf? hshown
    · -- Only an entity that is not known is not shown.
      intro hnone
      unfold hoverAt? at hnone
      rw [h, Option.bind_some] at hnone
      unfold definitionsAt
      rw [h]
      exact definitionsOf_eq_nil hnone

end Response

end ArgdownLens
