import ArgdownLens.Proofs.Query.ClosedTitle
import ArgdownLens.Proofs.Text.Lines
import ArgdownLens.Query.Hover

/-!
# The lines of a hover can be read back

A statement or an argument is shown as a block of lines, one for each of its relations
(`Text.lines_argdownBlock`). Whatever stands in the titles, the line of a relation tells what the
entity can see of it from its end (`Relation.SeenFrom`): the first two characters are the mark, and
behind the mark stands the entity at the other end, in the brackets of its kind
(`RelationView.ofLine?_line`). Nothing else of the relation goes into the line, so two relations
have one line exactly if they look the same from there (`Response.hover_relations`).
-/

namespace ArgdownLens

/-! ## Marks -/

/-- How a relation with a direction bears on its target, as far as it is written. An entailment is
written like a support, and a contrary like an attack. -/
inductive Bearing where
  | support | attack | undercut
  deriving DecidableEq, Repr

/-- What is written of the type of a relation at one of its ends. -/
inductive RelationMark where
  /-- A contradiction has no direction. -/
  | contradiction
  /-- All other relations come in at their targets and go out at their sources. -/
  | directed (bearing : Bearing) (incoming : Bool)
  deriving DecidableEq, Repr

/-- The mark of a type of relations at the target, or else at the source. -/
def RelationType.mark (t : RelationType) (incoming : Bool) : RelationMark :=
  match t with
  | .support | .entails => .directed .support incoming
  | .attack | .contrary => .directed .attack incoming
  | .undercut => .directed .undercut incoming
  | .contradictory => .contradiction

namespace RelationMark

/-- The mark that two characters are. -/
def ofChars? : Char → Char → Option RelationMark
  | '>', '<' => some .contradiction
  | '<', '+' => some (.directed .support true)
  | '<', '-' => some (.directed .attack true)
  | '<', '_' => some (.directed .undercut true)
  | '+', '>' => some (.directed .support false)
  | '-', '>' => some (.directed .attack false)
  | '_', '>' => some (.directed .undercut false)
  | _, _ => none

/-- A mark as it is written. -/
def symbol : RelationMark → String
  | .contradiction => "><"
  | .directed .support true => "<+"
  | .directed .attack true => "<-"
  | .directed .undercut true => "<_"
  | .directed .support false => "+>"
  | .directed .attack false => "->"
  | .directed .undercut false => "_>"

/-- Types of relations with one mark are written in one way. -/
theorem symbol_mark (t : RelationType) (incoming : Bool) :
    (t.mark incoming).symbol = t.directedSymbol incoming := by
  cases t <;> cases incoming <;> rfl

/-- A mark is two characters, from which it is read back. -/
theorem ofChars?_symbol (m : RelationMark) :
    ∃ first second, m.symbol.toList = [first, second] ∧ ofChars? first second = some m := by
  cases m with
  | contradiction => exact ⟨_, _, rfl, rfl⟩
  | directed bearing incoming =>
    cases bearing <;> cases incoming <;> exact ⟨_, _, rfl, rfl⟩

/-- A mark stands within a line. -/
theorem newline_notMem_symbol (m : RelationMark) : '\n' ∉ m.symbol.toList := by
  cases m with
  | contradiction => decide
  | directed bearing incoming => cases bearing <;> cases incoming <;> decide

end RelationMark

/-! ## Lines -/

/-- The entity that Argdown refers to in this way: what stands between the first bracket and the
last one is its title, whatever that holds. -/
def EntityRef.ofArgdown? : List Char → Option EntityRef
  | '[' :: rest =>
    if rest.getLast? = some ']' then some (.statement (String.ofList rest.dropLast)) else none
  | '<' :: rest =>
    if rest.getLast? = some '>' then some (.argument (String.ofList rest.dropLast)) else none
  | _ => none

/-- An entity is read back from how Argdown refers to it. -/
theorem EntityRef.ofArgdown?_toArgdown (e : EntityRef) :
    ofArgdown? e.toArgdown.toList = some e := by
  rw [toList_toArgdown]
  cases e <;> simp [ofArgdown?, opening, closing, title]

/-- What one end of a relation can see of it: the mark, and the entity at the other end. -/
structure RelationView where
  mark : RelationMark
  partner : EntityRef
  deriving DecidableEq, Repr

namespace RelationView

/-- The line for the view. -/
def line (v : RelationView) : String :=
  "  " ++ v.mark.symbol ++ " " ++ v.partner.toArgdown

/-- The view that a line tells. -/
def ofLine? : List Char → Option RelationView
  | ' ' :: ' ' :: first :: second :: ' ' :: partner => do
    let mark ← RelationMark.ofChars? first second
    let partner ← EntityRef.ofArgdown? partner
    return ⟨mark, partner⟩
  | _ => none

/-- A view is read back from its line. -/
theorem ofLine?_line (v : RelationView) : ofLine? v.line.toList = some v := by
  obtain ⟨first, second, hsymbol, hmark⟩ := v.mark.ofChars?_symbol
  have hline : v.line.toList =
      ' ' :: ' ' :: first :: second :: ' ' :: v.partner.toArgdown.toList := by
    simp [line, hsymbol]
  rw [hline, ofLine?, hmark, EntityRef.ofArgdown?_toArgdown]
  rfl

end RelationView

/-- What an entity at one of its ends can see of a relation. One that leads from the entity to
itself is seen from its target. -/
inductive Relation.SeenFrom (x : Relation) (e : EntityRef) : RelationView → Prop where
  | incoming (h : x.target = e) : SeenFrom x e ⟨x.type.mark true, x.source⟩
  | outgoing (h : x.source = e) (hne : x.target ≠ e) : SeenFrom x e ⟨x.type.mark false, x.target⟩

namespace Relation

variable {x y : Relation} {e : EntityRef} {v : RelationView}

/-- An entity at one of its ends sees something of a relation. -/
theorem exists_seenFrom (h : x.source = e ∨ x.target = e) : ∃ v, x.SeenFrom e v := by
  by_cases htarget : x.target = e
  · exact ⟨_, .incoming htarget⟩
  · exact ⟨_, .outgoing (h.resolve_right htarget) htarget⟩

/-- The line of a relation is the one for what the entity sees. -/
theorem SeenFrom.line_eq (h : x.SeenFrom e v) : x.line e = v.line := by
  cases h with
  | incoming h => simp [line, RelationView.line, RelationMark.symbol_mark, h]
  | outgoing h hne => simp [line, RelationView.line, RelationMark.symbol_mark, hne]

/-- What the entity sees of a relation is read back from its line. -/
theorem SeenFrom.ofLine? (h : x.SeenFrom e v) :
    RelationView.ofLine? (x.line e).toList = some v := by
  rw [h.line_eq, RelationView.ofLine?_line]

/-- Two relations of an entity have one line exactly if they look the same from there. -/
theorem line_eq_iff (hx : x.source = e ∨ x.target = e) (hy : y.source = e ∨ y.target = e) :
    x.line e = y.line e ↔ ∃ v, x.SeenFrom e v ∧ y.SeenFrom e v := by
  obtain ⟨v, hv⟩ := exists_seenFrom hx
  obtain ⟨w, hw⟩ := exists_seenFrom hy
  constructor
  · intro hline
    have hvw : some v = some w := by rw [← hv.ofLine?, hline, hw.ofLine?]
    obtain rfl := Option.some.inj hvw
    exact ⟨v, hv, hw⟩
  · rintro ⟨v, hv, hw⟩
    rw [hv.line_eq, hw.line_eq]

end Relation

/-! ## Blocks -/

/-- An entity whose title has no newline stands within a line. -/
theorem EntityRef.newline_notMem_toArgdown {e : EntityRef} (h : '\n' ∉ e.title.toList) :
    '\n' ∉ e.toArgdown.toList := by
  rw [toList_toArgdown]
  cases e <;> simpa [opening, closing] using h

/-- What is shown of a statement or an argument: what it is called, its text, and its relations. -/
structure Shown where
  entity : EntityRef
  text : Option String
  relations : List Relation
  deriving DecidableEq, Repr

/-- What is shown of a class of statements. -/
def EquivalenceClass.shown (c : EquivalenceClass) : Shown :=
  ⟨.statement c.title, c.canonicalText?, c.relations⟩

/-- What is shown of an argument. -/
def Argument.shown (a : Argument) : Shown :=
  ⟨.argument a.title, a.canonicalDescription?.map Member.text, a.relations⟩

/-- The statement or the argument that is shown for an occurrence. -/
def Response.shown? (r : Response) (o : Occurrence) : Option Shown :=
  match o.family with
  | .statement => (r.statement? o.key).map EquivalenceClass.shown
  | .argument => (r.argument? o.key).map Argument.shown
  | .tag => none

/-- A statement or an argument is shown as its block. -/
theorem Response.hoverOf?_of_shown {r : Response} {o : Occurrence} {s : Shown}
    (h : r.shown? o = some s) :
    r.hoverOf? o = some ⟨argdownBlock s.entity s.text s.relations, o.range⟩ := by
  unfold shown? at h
  unfold hoverOf? markdown?
  cases hfamily : o.family with
  | tag =>
    rw [hfamily] at h
    cases h
  | statement =>
    rw [hfamily] at h
    obtain ⟨c, hc, rfl⟩ := Option.map_eq_some_iff.mp h
    simp [hc, EquivalenceClass.shown]
  | argument =>
    rw [hfamily] at h
    obtain ⟨a, ha, rfl⟩ := Option.map_eq_some_iff.mp h
    simp [ha, Argument.shown]

namespace Shown

/-- All that is shown stands within lines, and the relations are those of the entity: it is at one
of their ends, and its title, its text and the titles at the other ends have no newline. -/
structure Legible (s : Shown) : Prop where
  title : '\n' ∉ s.entity.title.toList
  text : ∀ t ∈ s.text, '\n' ∉ t.toList
  ends : ∀ x ∈ s.relations, x.source = s.entity ∨ x.target = s.entity
  partners : ∀ x ∈ s.relations, ∀ v, x.SeenFrom s.entity v → '\n' ∉ v.partner.title.toList

variable {s : Shown}

/-- The first line for the entity is one line. -/
theorem Legible.newline_notMem_headline (h : s.Legible) :
    '\n' ∉ (s.entity.headline s.text).toList := by
  have hentity := EntityRef.newline_notMem_toArgdown h.title
  unfold EntityRef.headline
  cases htext : s.text with
  | none => exact hentity
  | some t =>
    have ht := h.text t htext
    simp [hentity, ht]

/-- The line for a relation is one line. -/
theorem Legible.newline_notMem_line (h : s.Legible) {x : Relation} (hx : x ∈ s.relations) :
    '\n' ∉ (x.line s.entity).toList := by
  obtain ⟨v, hv⟩ := Relation.exists_seenFrom (h.ends x hx)
  have hpartner := EntityRef.newline_notMem_toArgdown (h.partners x hx v hv)
  have hmark := v.mark.newline_notMem_symbol
  rw [hv.line_eq]
  simp [RelationView.line, hmark, hpartner]

/-- The block is a fence, the first line for the entity, the lines of its relations in order, and a
fence. -/
theorem Legible.lines_argdownBlock (h : s.Legible) :
    Text.lines (argdownBlock s.entity s.text s.relations).toList =
      "```argdown".toList :: (s.entity.headline s.text).toList ::
        s.relations.map (fun x => (x.line s.entity).toList) ++ ["```".toList] := by
  have hblock : (argdownBlock s.entity s.text s.relations).toList =
      ("```argdown".toList :: (s.entity.headline s.text).toList ::
        s.relations.map (fun x => (x.line s.entity).toList)).flatMap (· ++ ['\n']) ++
          "```".toList := by
    simp [argdownBlock, String.toList_join, List.flatMap_map]
  rw [hblock]
  refine Text.lines_flatMap ?_ (by decide)
  refine List.forall_mem_cons.mpr ⟨by decide, List.forall_mem_cons.mpr
    ⟨h.newline_notMem_headline, ?_⟩⟩
  intro l hl
  obtain ⟨x, hx, rfl⟩ := List.mem_map.mp hl
  exact h.newline_notMem_line hx

end Shown

/-- A statement or an argument is shown as a block of three lines and one more for each of its
relations, in their order. Of each relation, its line tells what the entity can see of it: the mark,
which is a direction and a bearing unless the relation is a contradiction, and the entity at the
other end. Two of its relations have the same line exactly if this is the same. A relation between
two entities goes out to its target where its source is shown, and comes in from its source where
its target is shown. -/
theorem Response.hover_relations (r : Response) (o : Occurrence) (s : Shown)
    (hs : r.shown? o = some s) (h : s.Legible) :
    ∃ shown, r.hoverOf? o = some shown ∧
      Text.lines shown.contents.toList =
        "```argdown".toList :: (s.entity.headline s.text).toList ::
          s.relations.map (fun x => (x.line s.entity).toList) ++ ["```".toList] ∧
      (Text.lines shown.contents.toList).length = s.relations.length + 3 ∧
      (∀ i x, s.relations[i]? = some x →
        ∃ line v, (Text.lines shown.contents.toList)[i + 2]? = some line ∧
          RelationView.ofLine? line = some v ∧ x.SeenFrom s.entity v) ∧
      (∀ x ∈ s.relations, ∀ y ∈ s.relations,
        x.line s.entity = y.line s.entity ↔
          ∃ v, x.SeenFrom s.entity v ∧ y.SeenFrom s.entity v) ∧
      ∀ x : Relation, x.source ≠ x.target →
        RelationView.ofLine? (x.line x.source).toList = some ⟨x.type.mark false, x.target⟩ ∧
          RelationView.ofLine? (x.line x.target).toList = some ⟨x.type.mark true, x.source⟩ := by
  have hlines := h.lines_argdownBlock
  refine ⟨_, hoverOf?_of_shown hs, hlines, by simp [hlines], fun i x hx => ?_,
    fun x hx y hy => Relation.line_eq_iff (h.ends x hx) (h.ends y hy), fun x hne => ?_⟩
  · obtain ⟨v, hv⟩ := Relation.exists_seenFrom (h.ends x (List.mem_of_getElem? hx))
    have hlength : i < s.relations.length := (List.getElem?_eq_some_iff.mp hx).1
    refine ⟨_, v, ?_, hv.ofLine?, hv⟩
    -- Two lines stand in front of those for the relations.
    rw [hlines, List.cons_append, List.cons_append, List.getElem?_cons_succ,
      List.getElem?_cons_succ, List.getElem?_append_left (by simpa using hlength),
      List.getElem?_map, hx, Option.map_some]
  · exact ⟨(Relation.SeenFrom.outgoing rfl (Ne.symm hne)).ofLine?,
      (Relation.SeenFrom.incoming rfl).ofLine?⟩

/-- A statement with an odd title and relations to itself, to a statement with an odd title, and
twice from an argument with its own title. -/
def oddRelations : EquivalenceClass where
  title := "> [S"
  relations := [
    ⟨.attack, .statement "> [S", .statement "> [S"⟩,
    ⟨.contradictory, .statement "> [S", .statement "] >< <T>"⟩,
    ⟨.support, .argument "> [S", .statement "> [S"⟩,
    ⟨.entails, .argument "> [S", .statement "> [S"⟩]

/-- The statement is shown in seven lines, and the last two relations have the same one. -/
theorem oddRelations_hover :
    ∃ r : Response, ∃ o : Occurrence, r.shown? o = some oddRelations.shown ∧
      oddRelations.shown.Legible ∧
      (∃ shown, r.hoverOf? o = some shown ∧
        Text.lines shown.contents.toList =
          ["```argdown".toList, "[> [S]".toList, "  <- [> [S]".toList, "  >< [] >< <T>]".toList,
            "  <+ <> [S>".toList, "  <+ <> [S>".toList, "```".toList]) ∧
      ∃ v, (⟨.support, .argument "> [S", .statement "> [S"⟩ : Relation).SeenFrom
          (.statement "> [S") v ∧
        (⟨.entails, .argument "> [S", .statement "> [S"⟩ : Relation).SeenFrom
          (.statement "> [S") v := by
  have hshown : (Response.withStatement ⟨default, .empty, .empty, none, []⟩ oddRelations).shown?
      ⟨.statementReference, "> [S", default⟩ = some oddRelations.shown := by decide
  have htitles : ∀ x ∈ oddRelations.relations,
      '\n' ∉ x.source.title.toList ∧ '\n' ∉ x.target.title.toList := by decide
  have hlegible : oddRelations.shown.Legible := by
    refine ⟨by decide, nofun, by decide, fun x hx v hv => ?_⟩
    cases hv with
    | incoming => exact (htitles x hx).1
    | outgoing => exact (htitles x hx).2
  obtain ⟨shown, hhover, hlines, -, -, hsame, -⟩ :=
    Response.hover_relations _ _ _ hshown hlegible
  exact ⟨_, _, hshown, hlegible, ⟨shown, hhover, hlines⟩,
    (hsame _ (by decide) _ (by decide)).mp rfl⟩

end ArgdownLens
