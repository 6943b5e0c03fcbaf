import ArgdownLens.Proofs.Cursor.Return

/-!
# Indentation tokens do not count

Two documents may differ in their indentation tokens only: in how many there are, where they stand
among their siblings, what spans they claim and what stands below them. What is under the cursor is
the same in both (`Response.answers_eq_of_bareAll_eq`). The search in a forest without its
indentation tokens goes the same way as in the forest itself (`locate_bareAll`), since on each level
the tokens take no part and the order of the others stays.
-/

namespace ArgdownLens

mutual

/-- The tree without the indentation tokens below its root, and without what stands below these. -/
def Node.bare : Node → Node
  | ⟨kind, span, children⟩ => ⟨kind, span, Node.bareAll children⟩

/-- The forest without indentation tokens, at any depth, and without what stands below these. -/
def Node.bareAll : List Node → List Node
  | [] => []
  | n :: ns => if n.isStructural then Node.bareAll ns else n.bare :: Node.bareAll ns

end

namespace Node

/-- The root keeps its kind. -/
@[simp] theorem bare_kind (n : Node) : n.bare.kind = n.kind := by
  cases n
  rfl

/-- The root keeps its span. -/
@[simp] theorem bare_span (n : Node) : n.bare.span = n.span := by
  cases n
  rfl

/-- Below the root stand the children without indentation tokens. -/
theorem bare_children (n : Node) : n.bare.children = bareAll n.children := by
  cases n
  rfl

/-- The indentation tokens of a level are left out, and the other trees keep their order. -/
theorem bareAll_eq (ns : List Node) :
    bareAll ns = (ns.filter fun n => !n.isStructural).map bare := by
  induction ns with
  | nil => rfl
  | cons n ns ih =>
    rw [bareAll, ih]
    cases h : n.isStructural with
    | true => rw [if_pos rfl, List.filter_cons_of_neg (by simp [h])]
    | false =>
      rw [if_neg Bool.false_ne_true, List.filter_cons_of_pos (by simp [h]), List.map_cons]

end Node

variable {line character : Nat}

/-! ## The search -/

/-- The rank of a node does not depend on what stands below it. -/
theorem rank_bare (n : Node) : n.bare.rank line character = n.rank line character := by
  unfold Node.rank Node.reached
  rw [Node.bare_span]

/-- The closer of two nodes does not depend on what stands below them. -/
theorem closer_bare (a b : Node) :
    closer line character a.bare b.bare = (closer line character a b).bare := by
  rw [closer_eq_ite, closer_eq_ite, rank_bare, rank_bare]
  split_ifs <;> rfl

/-- Without indentation tokens, the same nodes take part on a level. -/
theorem filter_isCandidate_bareAll (ns : List Node) :
    (Node.bareAll ns).filter (isCandidate line) =
      (ns.filter (isCandidate line)).map Node.bare := by
  -- A candidate is no indentation token, so none is lost when those are left out.
  have hcandidate (n : Node) : (isCandidate line n.bare && !n.isStructural) =
      isCandidate line n := by
    unfold isCandidate Node.isStructural
    rw [Node.bare_kind, Node.bare_span, Bool.and_comm, ← Bool.and_assoc, Bool.and_self]
  rw [Node.bareAll_eq, List.filter_map, List.filter_filter]
  simp only [Function.comp_apply, hcandidate]

/-- Without indentation tokens, the same node wins on a level. -/
theorem closest?_bareAll (ns : List Node) :
    closest? (Node.bareAll ns) line character =
      (closest? ns line character).map Node.bare := by
  unfold closest?
  rw [filter_isCandidate_bareAll]
  cases ns.filter (isCandidate line) with
  | nil => rfl
  | cons n candidates =>
    rw [List.map_cons, closestOf?, closestOf?, Option.map_some, List.foldl_map,
      List.foldl_hom Node.bare closer_bare]

/-- Without indentation tokens, the search meets the same nodes. -/
theorem locate_bareAll (ns : List Node) :
    locate (Node.bareAll ns) line character = (locate ns line character).map Node.bare := by
  fun_induction locate ns line character with
  | case1 ns hnone =>
    have hbare : closest? (Node.bareAll ns) line character = none := by
      rw [closest?_bareAll, hnone, Option.map_none]
    exact locate_eq_nil hbare
  | case2 ns winner hwinner _ ih =>
    have hbare : closest? (Node.bareAll ns) line character = some winner.bare := by
      rw [closest?_bareAll, hwinner, Option.map_some]
    rw [locate_eq_cons hbare, Node.bare_children, ih, List.map_cons]

/-- No indentation token is ever found. -/
theorem not_structural_of_mem_locate {ns : List Node} {n : Node}
    (h : n ∈ locate ns line character) : ¬ n.isStructural := by
  fun_induction locate ns line character with
  | case1 => cases h
  | case2 ns winner hwinner _ ih =>
    rcases List.mem_cons.mp h with rfl | h
    · exact (closest?_spec hwinner).2
    · exact ih h

/-! ## What is under the cursor -/

/-- The occurrence, with its node taken without indentation tokens. -/
def Occurrence.bare (o : Occurrence) : Occurrence :=
  { o with node := o.node.bare }

/-- An occurrence stands at the same range with and without indentation tokens. -/
@[simp] theorem Occurrence.bare_range (o : Occurrence) : o.bare.range = o.range := by
  unfold range bare
  rw [Node.bare_span]

/-- A node names the same symbol with and without the indentation tokens below it. -/
theorem Node.occurrence?_bare (n : Node) :
    n.bare.occurrence? = n.occurrence?.map Occurrence.bare := by
  unfold occurrence?
  rw [bare_kind, Option.map_map]
  rfl

namespace Response

variable {r r' : Response}

/-- The occurrence at a place is the one found without indentation tokens. -/
theorem map_bare_occurrenceAt? (r : Response) (line character : Nat) :
    (r.occurrenceAt? line character).map Occurrence.bare =
      (locate (Node.bareAll r.ast.children) line character).reverse.findSome?
        Node.occurrence? := by
  have hnode : Node.occurrence? ∘ Node.bare = Option.map Occurrence.bare ∘ Node.occurrence? :=
    funext Node.occurrence?_bare
  unfold occurrenceAt?
  rw [locate_bareAll, ← List.map_reverse, List.findSome?_map, hnode, ← List.map_findSome?]

/-- What is shown for an occurrence is known from the entities, the symbol and the range. -/
theorem hoverOf?_bare (hstatements : r.statements = r'.statements)
    (harguments : r.arguments = r'.arguments) (o : Occurrence) :
    r.hoverOf? o = r'.hoverOf? o.bare := by
  unfold hoverOf? markdown? statement? argument? tagMarkdown
  rw [hstatements, harguments, Occurrence.bare_range]
  rfl

/-- What explains an occurrence is known from the entities and the symbol. -/
theorem definitionsOf_bare (hstatements : r.statements = r'.statements)
    (harguments : r.arguments = r'.arguments) (uri : String) (o : Occurrence) :
    r.definitionsOf uri o = r'.definitionsOf uri o.bare := by
  unfold definitionsOf statement? argument?
  rw [hstatements, harguments]
  rfl

/-- Let two answers of the engine say the same about statements and arguments, and let their trees
agree once the indentation tokens below the roots are left out, at every depth and with everything
below them. At every place the search meets the same nodes in both, up to indentation tokens below
these, and never meets such a token. At every position a rename would replace the same range, the
same is shown, and the same places explain the symbol. -/
theorem answers_eq_of_bareAll_eq (r r' : Response) (hstatements : r.statements = r'.statements)
    (harguments : r.arguments = r'.arguments)
    (hchildren : Node.bareAll r.ast.children = Node.bareAll r'.ast.children)
    (line character : Nat) (uri : String) (p : Position) :
    ((locate r.ast.children line character).map Node.bare =
        (locate r'.ast.children line character).map Node.bare ∧
      (∀ n ∈ locate r.ast.children line character, ¬ n.isStructural) ∧
      ∀ n ∈ locate r'.ast.children line character, ¬ n.isStructural) ∧
    r.prepareRenameAt? p = r'.prepareRenameAt? p ∧ r.hoverAt? p = r'.hoverAt? p ∧
      r.definitionsAt uri p = r'.definitionsAt uri p := by
  refine ⟨⟨?_, fun n => not_structural_of_mem_locate, fun n => not_structural_of_mem_locate⟩, ?_⟩
  · rw [← locate_bareAll, hchildren, locate_bareAll]
  · have hfound : (r.occurrenceAtPosition? p).map Occurrence.bare =
        (r'.occurrenceAtPosition? p).map Occurrence.bare := by
      unfold occurrenceAtPosition?
      rw [map_bare_occurrenceAt?, hchildren, map_bare_occurrenceAt?]
    unfold prepareRenameAt? hoverAt? definitionsAt
    -- Either both find nothing, or their occurrences agree up to what stands below the nodes.
    cases h : r.occurrenceAtPosition? p with
    | none =>
      rw [h, Option.map_none, eq_comm, Option.map_eq_none_iff] at hfound
      rw [hfound]
      exact ⟨rfl, rfl, rfl⟩
    | some o =>
      rw [h, Option.map_some, eq_comm, Option.map_eq_some_iff] at hfound
      obtain ⟨o', ho', hbare⟩ := hfound
      rw [ho']
      refine ⟨?_, ?_, ?_⟩
      · rw [Option.map_some, Option.map_some, ← o.bare_range, ← hbare, o'.bare_range]
      · rw [Option.bind_some, Option.bind_some, hoverOf?_bare hstatements harguments, ← hbare,
          ← hoverOf?_bare rfl rfl]
      · dsimp only
        rw [definitionsOf_bare hstatements harguments, ← hbare, ← definitionsOf_bare rfl rfl]

end Response

/-- The document of `relationDocument` with indentation tokens that claim the whole document, stand
between the others and have symbols below them, and without the one that it has. -/
def indentedDocument : Response where
  ast := ⟨.rule "indented", ⟨0, 0, 0, 0⟩, [
    ⟨.dedent, ⟨1, 1, 4, 8⟩, [mentionNode]⟩,
    ⟨.rule "statement", .onLine 1 1 11,
      [⟨.statement ⟨.definition, some "S1", none⟩, .onLine 1 1 5, []⟩]⟩,
    ⟨.rule "statement", .onLine 2 1 18,
      [⟨.statement ⟨.definition, some "S2", none⟩, .onLine 2 1 5, []⟩,
        ⟨.indent, .onLine 2 13 17, []⟩,
        { mentionNode with children := [⟨.indent, .onLine 2 13 17, [definitionNode]⟩] }]⟩,
    ⟨.rule "argument", ⟨3, 1, 4, 8⟩,
      [⟨.argument ⟨.definition, some "A1", none⟩, .onLine 3 1 5, []⟩,
        ⟨.tag (some "t"), .onLine 3 13 16, []⟩,
        ⟨.statement ⟨.reference, some "S1", none⟩, .onLine 4 5 8, []⟩]⟩,
    ⟨.indent, .onLine 2 14 14, []⟩]⟩

/-- On the mention `@[S1]`, both documents lead to the same symbol. -/
theorem indentedDocument_answers :
    relationDocument.statements = indentedDocument.statements ∧
      relationDocument.arguments = indentedDocument.arguments ∧
      Node.bareAll relationDocument.ast.children = Node.bareAll indentedDocument.ast.children ∧
      relationDocument.prepareRenameAt? ⟨1, 14⟩ = some ⟨⟨1, 12⟩, ⟨1, 17⟩⟩ ∧
      indentedDocument.prepareRenameAt? ⟨1, 14⟩ = some ⟨⟨1, 12⟩, ⟨1, 17⟩⟩ := by
  have hchildren : Node.bareAll relationDocument.ast.children =
      Node.bareAll indentedDocument.ast.children := rfl
  have hrange : relationDocument.prepareRenameAt? ⟨1, 14⟩ = some ⟨⟨1, 12⟩, ⟨1, 17⟩⟩ := by
    unfold Response.prepareRenameAt?
    rw [occurrenceAtPosition?_mention]
    rfl
  have hsame := Response.answers_eq_of_bareAll_eq relationDocument indentedDocument rfl rfl
    hchildren 2 15 "file:///a" ⟨1, 14⟩
  exact ⟨rfl, rfl, hchildren, hrange, hsame.2.1 ▸ hrange⟩

end ArgdownLens
