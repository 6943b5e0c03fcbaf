import ArgdownLens.Proofs.Cursor.Agreement
import ArgdownLens.Proofs.Tree.Place
import ArgdownLens.Query.Outline
import Mathlib.Data.List.Basic

/-!
# The outline lists what the references call definitions

The outline and the references are read off the nodes of the tree independently of each other. At a
node that names a symbol they agree (`Node.listed?_of_occurrence?`): the outline has an entry for it
exactly if the references count it as a definition, under the key of the symbol, and it has none for
a token without a key. Its other entries are headings and reconstructions, which name no symbol. So
the entries for a symbol stand where its definitions stand, in the order of the document
(`Response.outline_definitions`).
-/

namespace ArgdownLens

/-- How the definitions of a family of symbols are listed in the outline: the kind of their entries,
and the kind of occurrence that their names are written as. Tags are not defined. -/
inductive SymbolFamily.ListedAs : SymbolFamily → OutlineKind → OccurrenceKind → Prop where
  | statement : ListedAs .statement .statementDefinition .statementReference
  | argument : ListedAs .argument .argumentDefinition .argumentReference

/-- Whether a node of this kind is there to name a symbol, be it with a key or without one. -/
def NodeKind.IsSymbol : NodeKind → Prop
  | .statement _ | .argument _ | .tag _ => True
  | _ => False

/-! ## One node -/

/-- The entry of the outline that lists an occurrence, if it is a definition. -/
def Occurrence.listed? (uri : String) (o : Occurrence) : Option OutlineEntry :=
  match o.kind with
  | .statementDefinition =>
    some ⟨OccurrenceKind.statementReference.render o.key, .statementDefinition, o.key,
      ⟨uri, o.range⟩⟩
  | .argumentDefinition =>
    some ⟨OccurrenceKind.argumentReference.render o.key, .argumentDefinition, o.key,
      ⟨uri, o.range⟩⟩
  | _ => none

namespace SymbolFamily.ListedAs

variable {family family' : SymbolFamily} {kind kind' : OutlineKind}
  {reference reference' : OccurrenceKind}

/-- The kinds of entries are those of the families. -/
theorem kind_eq_iff (h : family.ListedAs kind reference) (h' : family'.ListedAs kind' reference') :
    kind = kind' ↔ family = family' := by
  cases h <;> cases h' <;> simp

/-- Entries of one kind are named in one way. -/
theorem reference_eq (h : family.ListedAs kind reference) (h' : family'.ListedAs kind reference') :
    reference = reference' := by
  cases h <;> cases h' <;> rfl

/-- Definitions are neither reconstructions nor headings. -/
theorem kind_ne (h : family.ListedAs kind reference) :
    kind ≠ .reconstruction ∧ kind ≠ .heading := by
  cases h <;> simp

end SymbolFamily.ListedAs

namespace Occurrence

variable {uri : String} {o found : Occurrence} {entry : OutlineEntry}

/-- An occurrence is listed exactly if it is a definition. -/
theorem isSome_listed? (uri : String) (o : Occurrence) :
    (o.listed? uri).isSome = o.isDefinition := by
  unfold listed? isDefinition
  cases o.kind <;> rfl

/-- A definition is listed under its key, where it stands, and in the way of its family. -/
theorem of_listed? (h : o.listed? uri = some entry) :
    entry.id = o.key ∧ entry.location = ⟨uri, o.range⟩ ∧
      ∃ reference, o.family.ListedAs entry.kind reference ∧
        entry.name = reference.render entry.id := by
  unfold listed? at h
  unfold family
  split at h
  case h_1 hkind =>
    obtain rfl := Option.some.inj h
    rw [hkind]
    exact ⟨rfl, rfl, _, .statement, rfl⟩
  case h_2 hkind =>
    obtain rfl := Option.some.inj h
    rw [hkind]
    exact ⟨rfl, rfl, _, .argument, rfl⟩
  case h_3 => cases h

/-- The entry for an occurrence is one for a symbol exactly if the occurrence is of the symbol. -/
theorem entry_iff_sameSymbol {kind : OutlineKind} {reference : OccurrenceKind}
    (ho : o.family.ListedAs kind reference) (h : found.listed? uri = some entry) :
    entry.kind = kind ∧ entry.id = o.key ↔ found.sameSymbol o := by
  obtain ⟨hid, -, _, hfound, -⟩ := of_listed? h
  rw [sameSymbol, decide_eq_true_eq, hid, hfound.kind_eq_iff ho]

end Occurrence

namespace Node

variable {uri : String} {n : Node} {o : Occurrence}

/-- The entry of the outline for a node, if there is one. -/
def listed? (uri : String) (n : Node) : Option OutlineEntry :=
  n.outline?.map fun (name, kind, id) => ⟨name, kind, id, ⟨uri, n.span.toRange⟩⟩

/-- What names a symbol is listed in the outline as the occurrence that it is. -/
theorem listed?_of_occurrence? (h : n.occurrence? = some o) : n.listed? uri = o.listed? uri := by
  obtain ⟨⟨kind, key⟩, hsymbol, rfl⟩ := Option.map_eq_some_iff.mp h
  unfold listed? outline? Occurrence.listed?
  rw [h]
  -- The family and the role of the occurrence come from the kind of the node.
  cases hkind : n.kind with
  | statement t =>
    rw [hkind] at hsymbol
    obtain ⟨_, -, heq⟩ := Option.map_eq_some_iff.mp hsymbol
    obtain ⟨rfl, rfl⟩ := Prod.mk.inj heq
    cases t.role <;> rfl
  | argument t =>
    rw [hkind] at hsymbol
    obtain ⟨_, -, heq⟩ := Option.map_eq_some_iff.mp hsymbol
    obtain ⟨rfl, rfl⟩ := Prod.mk.inj heq
    cases t.role <;> rfl
  | tag name =>
    rw [hkind] at hsymbol
    obtain ⟨_, -, heq⟩ := Option.map_eq_some_iff.mp hsymbol
    obtain ⟨rfl, rfl⟩ := Prod.mk.inj heq
    rfl
  | _ =>
    rw [hkind] at hsymbol
    cases hsymbol

/-- What names no symbol although it is there to do so is not listed. -/
theorem listed?_of_keyless (hkind : n.kind.IsSymbol) (h : n.occurrence? = none) :
    n.listed? uri = none := by
  unfold listed? outline?
  rw [h]
  cases hn : n.kind <;> first | rfl | exact (hn ▸ hkind).elim

/-- What is there to name a symbol is listed exactly if it defines one. -/
theorem isSome_outline? (hkind : n.kind.IsSymbol) :
    n.outline?.isSome ↔ ∃ o, n.occurrence? = some o ∧ o.isDefinition := by
  have hentry : n.outline?.isSome = (n.listed? "").isSome := (Option.isSome_map ..).symm
  rw [hentry]
  cases hn : n.occurrence? with
  | none => simp [listed?_of_keyless hkind hn]
  | some o => simp [listed?_of_occurrence? hn, o.isSome_listed?]

/-- What names no symbol is listed as a heading or as a reconstruction. -/
theorem kind_of_listed? {entry : OutlineEntry} (h : n.occurrence? = none)
    (hentry : n.listed? uri = some entry) :
    entry.kind = .reconstruction ∨ entry.kind = .heading := by
  unfold listed? outline? at hentry
  rw [h] at hentry
  cases hn : n.kind <;> rw [hn] at hentry <;> cases hentry
  · exact .inr rfl
  · exact .inl rfl

end Node

/-- A node is listed as a definition of a symbol exactly if the references of the symbol count it as
one, and at the same place. -/
theorem Node.filter_listed? (uri : String) {o : Occurrence} {kind : OutlineKind}
    {reference : OccurrenceKind} (ho : o.family.ListedAs kind reference) (n : Node) :
    ((n.listed? uri).filter fun e => e.kind = kind ∧ e.id = o.key).map OutlineEntry.location =
      (n.occurrence?.filter fun found => found.isDefinition && found.sameSymbol o).map
        fun found => ⟨uri, found.range⟩ := by
  cases hn : n.occurrence? with
  | none =>
    cases hentry : n.listed? uri with
    | none => rfl
    | some entry =>
      -- What names no symbol is of another kind.
      have hother : entry.kind ≠ kind := by
        rintro rfl
        exact (kind_of_listed? hn hentry).elim ho.kind_ne.1 ho.kind_ne.2
      simp [hother]
  | some found =>
    rw [listed?_of_occurrence? hn]
    have hdefinition := found.isSome_listed? uri
    cases hentry : found.listed? uri with
    | none =>
      rw [hentry, Option.isSome_none] at hdefinition
      simp [Option.filter_some, ← hdefinition]
    | some entry =>
      rw [hentry, Option.isSome_some] at hdefinition
      have hsame := Occurrence.entry_iff_sameSymbol ho hentry
      have hlocation := (Occurrence.of_listed? hentry).2.1
      simp only [Option.filter_some, hsame, ← hdefinition, Bool.true_and, decide_eq_true_eq]
      split <;> simp [hlocation]

/-! ## The outline -/

namespace Response

variable {r : Response} {uri : String}

/-- The outline lists the nodes of the tree one after the other. -/
theorem outline_eq (r : Response) (uri : String) :
    r.outline uri = r.ast.preorder.filterMap (Node.listed? uri) := rfl

/-- The places of a document that its outline lists, with the nodes there, in order. -/
def listedPlaces (r : Response) : List (List Nat × Node) :=
  r.ast.places.filter fun place => place.2.outline?.isSome

/-- Each entry of the outline is for one of the places, in the same order. -/
theorem map_listed?_listedPlaces (r : Response) (uri : String) :
    (r.listedPlaces.map fun place => place.2.listed? uri) = (r.outline uri).map some := by
  have hisSome (n : Node) : n.outline?.isSome = (n.listed? uri).isSome :=
    (Option.isSome_map ..).symm
  rw [outline_eq, ← Node.map_snd_places, listedPlaces]
  induction r.ast.places with
  | nil => rfl
  | cons place places ih =>
    rw [List.filter_cons, List.map_cons, List.filterMap_cons, hisSome]
    cases hentry : place.2.listed? uri with
    | none => exact ih
    | some entry => exact (congrArg₂ List.cons hentry ih)

/-- The places are sorted by their paths, so that none is listed twice. -/
theorem pairwise_listedPlaces (r : Response) :
    (r.listedPlaces.map Prod.fst).Pairwise (· < ·) := by
  rw [List.pairwise_map]
  exact (Node.pairwise_places r.ast).filter _

/-- Of the nodes that are there to name a symbol, those that define one are listed. -/
theorem mem_listedPlaces {path : List Nat} {n : Node} (hkind : n.kind.IsSymbol) :
    (path, n) ∈ r.listedPlaces ↔
      r.ast.at? path = some n ∧ ∃ o, n.occurrence? = some o ∧ o.isDefinition := by
  rw [listedPlaces, List.mem_filter, Node.mem_places, Node.isSome_outline? hkind]

/-- The entries for a symbol stand where its definitions stand, in the same order. -/
theorem map_location_outline (r : Response) (uri : String) {o : Occurrence} {kind : OutlineKind}
    {reference : OccurrenceKind} (ho : o.family.ListedAs kind reference) :
    ((r.outline uri).filter fun e => e.kind = kind ∧ e.id = o.key).map OutlineEntry.location =
      ((r.occurrencesOf o true).filter (·.isDefinition)).map fun found =>
        (Reference.ofOccurrence uri found).location := by
  have hdefinitions : (r.occurrencesOf o true).filter (·.isDefinition) =
      r.occurrences.filter fun found => found.isDefinition && found.sameSymbol o := by
    simp only [occurrencesOf_eq, List.filter_filter, Bool.true_or, Bool.and_true]
  rw [hdefinitions, outline_eq, occurrences, List.filter_filterMap, List.filter_filterMap,
    List.map_filterMap, List.map_filterMap]
  exact List.filterMap_congr fun n _ => Node.filter_listed? uri ho n

/-- An entry that lists a definition is named like a reference to what it defines. -/
theorem name_of_mem_outline {family : SymbolFamily} {kind : OutlineKind}
    {reference : OccurrenceKind} (h : family.ListedAs kind reference) {entry : OutlineEntry}
    (hmem : entry ∈ r.outline uri) (hkind : entry.kind = kind) :
    entry.name = reference.render entry.id := by
  subst hkind
  rw [outline_eq, List.mem_filterMap] at hmem
  obtain ⟨n, -, hentry⟩ := hmem
  cases hn : n.occurrence? with
  | none => exact ((Node.kind_of_listed? hn hentry).elim h.kind_ne.1 h.kind_ne.2).elim
  | some o =>
    rw [Node.listed?_of_occurrence? hn] at hentry
    obtain ⟨-, -, _, hlisted, hname⟩ := Occurrence.of_listed? hentry
    rw [hname, hlisted.reference_eq h]

/-- The outline and the references of a document agree on its definitions, in a tree of any shape.
The entries for a statement or an argument stand where those of its references stand that are
definitions, which are the ones that are left out on request, and they are named like references to
it. All entries are for places of the tree, each for one, in the order of the document, and of the
tokens that are there to name a symbol those are listed that define one under a key. -/
theorem outline_definitions (r : Response) (uri : String) :
    (∀ o kind reference, o.family.ListedAs kind reference →
      ((r.outline uri).filter fun e => e.kind = kind ∧ e.id = o.key).map OutlineEntry.location =
          ((r.occurrencesOf o true).filter (·.isDefinition)).map
            (fun found => (Reference.ofOccurrence uri found).location) ∧
        r.occurrencesOf o false = (r.occurrencesOf o true).filter (!·.isDefinition) ∧
        ∀ entry ∈ r.outline uri, entry.kind = kind → entry.name = reference.render entry.id) ∧
    (r.listedPlaces.map fun place => place.2.listed? uri) = (r.outline uri).map some ∧
    (r.listedPlaces.map Prod.fst).Pairwise (· < ·) ∧
    ∀ path n, n.kind.IsSymbol →
      ((path, n) ∈ r.listedPlaces ↔
        r.ast.at? path = some n ∧ ∃ o, n.occurrence? = some o ∧ o.isDefinition) := by
  refine ⟨fun o kind reference ho => ?_, map_listed?_listedPlaces r uri, pairwise_listedPlaces r,
    fun _ _ => mem_listedPlaces⟩
  exact ⟨map_location_outline r uri ho, occurrencesOf_false r o,
    fun _ => name_of_mem_outline ho⟩

end Response

/-- A statement and an argument with one title. The statement is defined in a heading, by the title
of the owner, and in an argument; then come a tag and a token without a key. -/
def sharedTitleDocument : Response where
  ast := ⟨.rule "argdown", ⟨1, 1, 4, 12⟩, [
    ⟨.heading "Intro" none, .onLine 1 1 12, [
      ⟨.token "HeadingStart" "# ", .onLine 1 1 2, []⟩,
      ⟨.statement ⟨.definition, none, some "S"⟩, .onLine 1 8 12, []⟩]⟩,
    ⟨.argument ⟨.definition, some "S", none⟩, .onLine 2 1 4, []⟩,
    ⟨.argumentBlock "S", ⟨3, 1, 4, 12⟩, [
      ⟨.statement ⟨.definition, some "S", some "T"⟩, .onLine 3 5 8, []⟩,
      ⟨.statement ⟨.mention, some "S", none⟩, .onLine 3 10 14, []⟩,
      ⟨.tag (some "S"), .onLine 4 1 4, []⟩,
      ⟨.statement ⟨.definition, none, none⟩, .onLine 4 6 12, []⟩]⟩]⟩

/-- The outline has five entries, of which two define the statement. -/
theorem sharedTitleDocument_outline :
    SymbolFamily.statement.ListedAs .statementDefinition .statementReference ∧
      (sharedTitleDocument.outline "file:///a").map OutlineEntry.name =
        ["# Intro", "[S]", "<S>", "PCS <S>", "[S]"] ∧
      ((sharedTitleDocument.outline "file:///a").filter fun e =>
        e.kind = .statementDefinition ∧ e.id = "S").map OutlineEntry.location =
          [⟨"file:///a", ⟨⟨0, 7⟩, ⟨0, 12⟩⟩⟩, ⟨"file:///a", ⟨⟨2, 4⟩, ⟨2, 8⟩⟩⟩] ∧
      (NodeKind.statement ⟨.definition, none, none⟩).IsSymbol ∧
      ([2, 3], ⟨.statement ⟨.definition, none, none⟩, .onLine 4 6 12, []⟩) ∉
        sharedTitleDocument.listedPlaces := by
  obtain ⟨hdefinitions, -, -, hlisted⟩ :=
    Response.outline_definitions sharedTitleDocument "file:///a"
  have hlocations := (hdefinitions ⟨.statementMention, "S", default⟩ _ _ .statement).1
  refine ⟨.statement, by decide, hlocations.trans (by decide), trivial, fun hmem => ?_⟩
  obtain ⟨-, o, ho, -⟩ := (hlisted [2, 3]
    ⟨.statement ⟨.definition, none, none⟩, .onLine 4 6 12, []⟩ trivial).mp hmem
  cases ho

end ArgdownLens
