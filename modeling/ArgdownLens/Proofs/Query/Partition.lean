import ArgdownLens.Proofs.Cursor.Agreement
import ArgdownLens.Proofs.Tree.Place
import Mathlib.Data.List.Dedup

/-!
# References partition the symbols of a document

A node names a symbol by its own title, else by the title of its owner, or it is a tag
(`Node.Names`). The places at which a symbol is named are its class. The classes share no place and
together hold every place at which something is named; the references of an occurrence are its class
in the order of the document, whichever member of the class they are asked of
(`Response.references_partition`). Places are told apart by their paths, since nodes may look the
same.
-/

namespace ArgdownLens

/-! ## Symbols -/

/-- What tells symbols apart: the family, and the key in the family. -/
abbrev SymbolName := SymbolFamily × String

/-- The name of the symbol that an occurrence is of. -/
def Occurrence.symbol (o : Occurrence) : SymbolName :=
  (o.family, o.key)

/-- Two occurrences are of the same symbol if their symbols have one name. -/
theorem Occurrence.sameSymbol_iff {o o' : Occurrence} :
    o.sameSymbol o' ↔ o.symbol = o'.symbol := by
  simp [sameSymbol, symbol]

/-- The key of a token is its own title, else that of its owner. -/
theorem SymbolToken.key?_eq_some_iff {t : SymbolToken} {key : String} :
    t.key? = some key ↔ t.title = some key ∨ t.title = none ∧ t.owner = some key := by
  unfold key?
  cases t.title <;> simp

namespace Node

/-- A token names a statement or an argument by its own title, or by that of its owner if it has
none. A tag names itself. -/
def Names (n : Node) (s : SymbolName) : Prop :=
  match n.kind, s.1 with
  | .statement t, .statement | .argument t, .argument =>
    t.title = some s.2 ∨ t.title = none ∧ t.owner = some s.2
  | .tag name, .tag => name = some s.2
  | _, _ => False

/-- A node names a symbol if it is read as an occurrence of it. -/
theorem names_iff {n : Node} {s : SymbolName} :
    n.Names s ↔ n.occurrence?.map Occurrence.symbol = some s := by
  obtain ⟨family, key⟩ := s
  unfold Names occurrence? NodeKind.symbol?
  cases n.kind with
  | statement t =>
    have hfamily : (OccurrenceKind.ofStatementRole t.role).family = .statement := by
      cases t.role <;> rfl
    cases family <;>
      simp [← SymbolToken.key?_eq_some_iff, Occurrence.symbol, Occurrence.family, hfamily]
  | argument t =>
    have hfamily : (OccurrenceKind.ofArgumentRole t.role).family = .argument := by
      cases t.role <;> rfl
    cases family <;>
      simp [← SymbolToken.key?_eq_some_iff, Occurrence.symbol, Occurrence.family, hfamily]
  | tag name => cases family <;> simp [Occurrence.symbol, Occurrence.family, OccurrenceKind.family]
  | _ => simp

instance (n : Node) (s : SymbolName) : Decidable (n.Names s) :=
  decidable_of_iff _ names_iff.symm

/-- No node names two symbols. -/
theorem Names.unique {n : Node} {s s' : SymbolName} (h : n.Names s) (h' : n.Names s') : s = s' := by
  rw [names_iff] at h h'
  exact Option.some.inj (h.symm.trans h')

/-- What is read as an occurrence names the symbol of the occurrence. -/
theorem names_symbol {n : Node} {o : Occurrence} (h : n.occurrence? = some o) :
    n.Names o.symbol := by
  rw [names_iff, h, Option.map_some]

/-- A node names a symbol exactly if it is read as an occurrence. -/
theorem exists_names_iff {n : Node} : (∃ s, n.Names s) ↔ n.occurrence?.isSome := by
  cases h : n.occurrence? with
  | none => simp [names_iff, h]
  | some o => exact iff_of_true ⟨o.symbol, names_symbol h⟩ rfl

/-- Of the occurrences among some nodes, those of a symbol stand at the nodes that name it. -/
theorem map_node_filter (ns : List Node) (o : Occurrence) :
    ((ns.filterMap occurrence?).filter (·.sameSymbol o)).map Occurrence.node =
      ns.filter fun n => n.Names o.symbol := by
  induction ns with
  | nil => rfl
  | cons n ns ih =>
    cases h : n.occurrence? with
    | none =>
      have hnames : ¬ n.Names o.symbol := by simp [names_iff, h]
      rw [List.filterMap_cons_none h, List.filter_cons_of_neg (by simpa using hnames), ih]
    | some found =>
      -- The node names the symbol of its occurrence and no other one.
      have hnames : n.Names o.symbol ↔ found.sameSymbol o := by
        rw [names_iff, h, Option.map_some, Option.some.injEq, Occurrence.sameSymbol_iff]
      rw [List.filterMap_cons_some h, List.filter_cons, List.filter_cons]
      simp only [hnames, decide_eq_true_eq]
      split
      · rw [List.map_cons, ih, node_of_occurrence? h]
      · exact ih

end Node

/-! ## Classes -/

namespace Response

variable {r : Response}

/-- The places of a document at which a symbol is named, with the nodes there, in order. -/
def placesOf (r : Response) (s : SymbolName) : List (List Nat × Node) :=
  r.ast.places.filter fun place => place.2.Names s

/-- The symbols that a document names, each of them once. -/
def symbols (r : Response) : List SymbolName :=
  (r.occurrences.map Occurrence.symbol).dedup

/-- The places of a symbol are those with a node that names it. -/
theorem mem_placesOf {s : SymbolName} {path : List Nat} {n : Node} :
    (path, n) ∈ r.placesOf s ↔ r.ast.at? path = some n ∧ n.Names s := by
  rw [placesOf, List.mem_filter, Node.mem_places, decide_eq_true_eq]

/-- The places of a symbol are sorted by their paths, so that none occurs twice. -/
theorem pairwise_placesOf (r : Response) (s : SymbolName) :
    ((r.placesOf s).map Prod.fst).Pairwise (· < ·) := by
  rw [List.pairwise_map]
  exact (Node.pairwise_places r.ast).filter _

/-- A place with a node that names something belongs to exactly one symbol. -/
theorem existsUnique_mem_placesOf {path : List Nat} {n : Node} (hat : r.ast.at? path = some n)
    (hn : n.occurrence?.isSome) : ∃! s, (path, n) ∈ r.placesOf s := by
  obtain ⟨s, hs⟩ := Node.exists_names_iff.mpr hn
  refine ⟨s, mem_placesOf.mpr ⟨hat, hs⟩, ?_⟩
  intro s' hs'
  exact (mem_placesOf.mp hs').2.unique hs

/-- The symbols of a document are those that a node somewhere names. -/
theorem mem_symbols {s : SymbolName} :
    s ∈ r.symbols ↔ ∃ path n, r.ast.at? path = some n ∧ n.Names s := by
  rw [symbols, List.mem_dedup, List.mem_map]
  constructor
  · rintro ⟨o, ho, rfl⟩
    obtain ⟨hmem, hnode⟩ := mem_occurrences_iff.mp ho
    obtain ⟨path, hpath⟩ := Node.mem_preorder_iff_at?.mp hmem
    exact ⟨path, o.node, hpath, Node.names_symbol hnode⟩
  · rintro ⟨path, n, hat, hn⟩
    obtain ⟨o, ho, rfl⟩ := Option.map_eq_some_iff.mp (Node.names_iff.mp hn)
    obtain rfl := Node.node_of_occurrence? ho
    exact ⟨o, mem_occurrences_iff.mpr ⟨Node.mem_preorder_iff_at?.mpr ⟨path, hat⟩, ho⟩, rfl⟩

/-- The classes of all symbols together hold the places at which something is named. -/
theorem mem_flatMap_placesOf {path : List Nat} {n : Node} :
    (path, n) ∈ r.symbols.flatMap r.placesOf ↔
      r.ast.at? path = some n ∧ n.occurrence?.isSome := by
  rw [List.mem_flatMap]
  constructor
  · rintro ⟨s, -, hs⟩
    obtain ⟨hat, hn⟩ := mem_placesOf.mp hs
    exact ⟨hat, Node.exists_names_iff.mp ⟨s, hn⟩⟩
  · rintro ⟨hat, hn⟩
    obtain ⟨s, hs⟩ := Node.exists_names_iff.mpr hn
    exact ⟨s, mem_symbols.mpr ⟨path, n, hat, hs⟩, mem_placesOf.mpr ⟨hat, hs⟩⟩

/-- The classes of all symbols together hold no place twice. -/
theorem nodup_flatMap_placesOf (r : Response) :
    ((r.symbols.flatMap r.placesOf).map Prod.fst).Nodup := by
  rw [List.map_flatMap, List.nodup_flatMap]
  constructor
  · intro s _
    refine (pairwise_placesOf r s).imp ?_
    intro path path' hlt heq
    exact List.lt_irrefl path (heq ▸ hlt)
  · -- A place in two classes has a node that names two symbols.
    refine (List.nodup_dedup _).imp ?_
    intro s s' hne path hs hs'
    obtain ⟨⟨_, n⟩, hn, rfl⟩ := List.mem_map.mp hs
    obtain ⟨⟨_, n'⟩, hn', rfl⟩ := List.mem_map.mp hs'
    obtain ⟨hat, hnames⟩ := mem_placesOf.mp hn
    obtain ⟨hat', hnames'⟩ := mem_placesOf.mp hn'
    obtain rfl := Option.some.inj (hat.symm.trans hat')
    exact hne (hnames.unique hnames')

/-! ## References -/

/-- The references of a symbol stand at its places, in the same order. -/
theorem map_node_occurrencesOf (r : Response) (o : Occurrence) :
    (r.occurrencesOf o true).map Occurrence.node = (r.placesOf o.symbol).map Prod.snd := by
  have hreferences : r.occurrencesOf o true = r.occurrences.filter (·.sameSymbol o) := by
    simp only [occurrencesOf_eq, Bool.true_or, Bool.and_true]
  calc (r.occurrencesOf o true).map Occurrence.node
      = r.ast.preorder.filter fun n => n.Names o.symbol := by
        rw [hreferences, occurrences, Node.map_node_filter]
    _ = (r.placesOf o.symbol).map Prod.snd := by
        rw [← Node.map_snd_places, List.filter_map]
        rfl

/-- A reference of a symbol is what its node is read as, and of the symbol. -/
theorem spec_of_mem_occurrencesOf {o found : Occurrence} (h : found ∈ r.occurrencesOf o true) :
    found ∈ r.occurrences ∧ found.sameSymbol o := by
  rw [occurrencesOf_eq, List.mem_filter, Bool.true_or, Bool.and_true] at h
  exact h

/-- An occurrence of the document that is not among the references of a symbol shares none of them.
-/
theorem disjoint_occurrencesOf {o o' : Occurrence} (ho' : o' ∈ r.occurrences)
    (h : o' ∉ r.occurrencesOf o true) :
    (r.occurrencesOf o true).Disjoint (r.occurrencesOf o' true) := by
  intro found hfound hfound'
  have hsame := Occurrence.sameSymbol_iff.mp (spec_of_mem_occurrencesOf hfound).2
  have hsame' := Occurrence.sameSymbol_iff.mp (spec_of_mem_occurrencesOf hfound').2
  have hoo' := Occurrence.sameSymbol_iff.mpr (hsame'.symm.trans hsame)
  exact h (occurrencesOf_congr hoo' true ▸ mem_occurrencesOf_self ho')

/-- At two places whose occurrences are of one symbol all questions have the same answers, except
that what is shown stands at the occurrence itself. -/
theorem answers_congr {p p' : Position} {o o' : Occurrence}
    (h : r.occurrenceAtPosition? p = some o) (h' : r.occurrenceAtPosition? p' = some o')
    (hsame : o'.sameSymbol o) (uri newName : String) :
    (∀ includeDeclaration,
        r.referencesAt uri p' includeDeclaration = r.referencesAt uri p includeDeclaration) ∧
      r.highlightsAt p' = r.highlightsAt p ∧ r.definitionsAt uri p' = r.definitionsAt uri p ∧
      r.renameAt uri p' newName = r.renameAt uri p newName ∧
      (r.hoverAt? p').map HoverResult.contents = (r.hoverAt? p).map HoverResult.contents := by
  obtain ⟨hfamily, hkey⟩ := Prod.mk.inj (Occurrence.sameSymbol_iff.mp hsame)
  refine ⟨fun includeDeclaration => ?_, ?_, ?_, ?_, ?_⟩
  · simp only [referencesAt, h, h', occurrencesOf_congr hsame]
  · simp only [highlightsAt, h, h', occurrencesOf_congr hsame]
  · simp only [definitionsAt, h, h', definitionsOf, hfamily, hkey]
  · simp only [renameAt, h, h', planRename, occurrencesOf_congr hsame]
  · simp only [hoverAt?, h, h', Option.bind_some, hoverOf?, hfamily, hkey, Option.map_map,
      Function.comp_def]

/-- In a tree of any shape the references of the symbols are a partition. The places of the tree
hold the nodes of its preorder. The places of a symbol are those with a node that names it, sorted
by their paths. Each place with a node that names something belongs to exactly one symbol, and the
places of all symbols together are these, each of them once. The references of an occurrence stand
at the places of its symbol, in the same order; they are the same for all of them, and those of an
occurrence that is not among them are others. Positions with occurrences of one symbol have the same
answers. -/
theorem references_partition (r : Response) :
    r.ast.preorder = r.ast.places.map Prod.snd ∧
    (∀ s path n, (path, n) ∈ r.placesOf s ↔ r.ast.at? path = some n ∧ n.Names s) ∧
    (∀ s, ((r.placesOf s).map Prod.fst).Pairwise (· < ·)) ∧
    (∀ path n, r.ast.at? path = some n → n.occurrence?.isSome →
      ∃! s, (path, n) ∈ r.placesOf s) ∧
    (∀ path n, (path, n) ∈ r.symbols.flatMap r.placesOf ↔
      r.ast.at? path = some n ∧ n.occurrence?.isSome) ∧
    ((r.symbols.flatMap r.placesOf).map Prod.fst).Nodup ∧
    (∀ o, (r.occurrencesOf o true).map Occurrence.node = (r.placesOf o.symbol).map Prod.snd ∧
      ∀ found ∈ r.occurrencesOf o true, found.node.occurrence? = some found) ∧
    (∀ o, ∀ found ∈ r.occurrencesOf o true, ∀ includeDeclaration,
      r.occurrencesOf found includeDeclaration = r.occurrencesOf o includeDeclaration) ∧
    (∀ o, ∀ o' ∈ r.occurrences, o' ∉ r.occurrencesOf o true →
      (r.occurrencesOf o true).Disjoint (r.occurrencesOf o' true)) ∧
    ∀ uri newName p p' o o', r.occurrenceAtPosition? p = some o →
      r.occurrenceAtPosition? p' = some o' → o'.symbol = o.symbol →
      (∀ includeDeclaration,
          r.referencesAt uri p' includeDeclaration = r.referencesAt uri p includeDeclaration) ∧
        r.highlightsAt p' = r.highlightsAt p ∧ r.definitionsAt uri p' = r.definitionsAt uri p ∧
        r.renameAt uri p' newName = r.renameAt uri p newName ∧
        (r.hoverAt? p').map HoverResult.contents = (r.hoverAt? p).map HoverResult.contents := by
  refine ⟨(Node.map_snd_places r.ast).symm, fun _ _ _ => mem_placesOf, pairwise_placesOf r,
    fun _ _ => existsUnique_mem_placesOf, fun _ _ => mem_flatMap_placesOf,
    nodup_flatMap_placesOf r, fun o => ⟨map_node_occurrencesOf r o, ?_⟩, ?_,
    fun _ _ => disjoint_occurrencesOf, ?_⟩
  · -- A reference is an occurrence of the answer.
    intro found hfound
    exact (mem_occurrences_iff.mp (spec_of_mem_occurrencesOf hfound).1).2
  · intro o found hfound
    exact occurrencesOf_congr (spec_of_mem_occurrencesOf hfound).2
  · intro uri newName p p' o o' h h' hsame
    exact answers_congr h h' (Occurrence.sameSymbol_iff.mpr hsame) uri newName

end Response

end ArgdownLens
