import ArgdownLens.Proofs.Wire.Inset

/-!
# Texts in nodes and entities

A node names something by its title, its tag or the title of its owner (`NodeText`), and an entity
has the texts of its members and its tags (`EntityText`). Each of these texts is taken, whatever the
pieces at its place are (`NodeText.InNode.takes`, `takes_class`, `takes_argument`): the value of the
pieces is the text that they mean. A node is closed with any text if it is with one
(`NodeText.close_set`).
-/

namespace ArgdownLens.Wire

open Json
open Record (slot_of_getElem?)

/-! ## Slots -/

section

variable (children : Decoder (List LooseNode))

/-- A node reads its title on its own. -/
theorem slot_title :
    (nodeRecord children).Slot "title" (optional string) fun s n => { n with title := s } :=
  slot_of_getElem? (nodeRecord children) 7 (nodup_nodeRecord children) rfl rfl
    (by simp [nodeRecord])

/-- A node reads its tag on its own. -/
theorem slot_tag :
    (nodeRecord children).Slot "tag" (optional string) fun s n => { n with tag := s } :=
  slot_of_getElem? (nodeRecord children) 8 (nodup_nodeRecord children) rfl rfl
    (by simp [nodeRecord])

/-- A node reads the statement that owns it on its own. -/
theorem slot_statement :
    (nodeRecord children).Slot "statement" (optional (soleText "struct WireTitled" "title"))
      fun s n => { n with statement := s } :=
  slot_of_getElem? (nodeRecord children) 10 (nodup_nodeRecord children) rfl rfl
    (by simp [nodeRecord])

/-- A node reads the argument that owns it on its own. -/
theorem slot_argument :
    (nodeRecord children).Slot "argument" (optional (soleText "struct WireTitled" "title"))
      fun s n => { n with argument := s } :=
  slot_of_getElem? (nodeRecord children) 11 (nodup_nodeRecord children) rfl rfl
    (by simp [nodeRecord])

end

/-- A record of one text reads it on its own. -/
theorem slot_soleText (title field : String) :
    (soleTextRecord title field).Slot field string fun s _ => s :=
  slot_of_getElem? (soleTextRecord title field) 0 (by simp [soleTextRecord]) rfl rfl
    (by simp [soleTextRecord])

/-- A member reads its text on its own. -/
theorem slot_text : memberRecord.Slot "text" string fun s m => { m with text := s } :=
  slot_of_getElem? memberRecord 0 (by decide) rfl rfl (by simp [memberRecord])

/-- A class of statements reads its tags on their own. -/
theorem slot_classTags :
    equivalenceClassRecord.Slot "tags" (list string) fun ts c => { c with tags := ts } :=
  slot_of_getElem? equivalenceClassRecord 3 (by decide) rfl rfl
    (by simp [equivalenceClassRecord])

/-- An argument reads its tags on their own. -/
theorem slot_argumentTags :
    argumentRecord.Slot "tags" (list string) fun ts a => { a with tags := ts } :=
  slot_of_getElem? argumentRecord 4 (by decide) rfl rfl (by simp [argumentRecord])

/-- An answer reads its dictionary of tags on its own. -/
theorem slot_tagsDictionary :
    responseRecord.Slot "tagsDictionary" (optional (map ignored)) fun m r => { r with tags := m } :=
  slot_of_getElem? responseRecord 3 (by decide) rfl rfl (by simp [responseRecord])

/-- The text that the pieces of a string mean is taken where the string stands itself. -/
theorem takes_string : Takes textOf string .string fun put => ∀ s, put s = s :=
  fun _ _ _ _ => ⟨id, fun ps => (id_map (textOf ps)).symm, fun _ => rfl⟩

/-! ## Texts of nodes -/

/-- The texts by which a node names something: its title, its tag, and the titles of the statement
and of the argument that own it. -/
inductive NodeText where
  | title | statement | argument | tag
  deriving DecidableEq, Repr

namespace NodeText

/-- The loose node with the text. -/
def set : NodeText → String → LooseNode → LooseNode
  | title, s, n => { n with title := some s }
  | statement, s, n => { n with statement := some s }
  | argument, s, n => { n with argument := some s }
  | tag, s, n => { n with tag := some s }

/-- The kind of a node with the text, if nodes of this kind have it. -/
def setKind : NodeText → String → NodeKind → NodeKind
  | title, s, .statement t => .statement { t with title := some s }
  | title, s, .argument t => .argument { t with title := some s }
  | statement, s, .statement t => .statement { t with owner := some s }
  | argument, s, .argument t => .argument { t with owner := some s }
  | argument, s, .argumentBlock _ => .argumentBlock s
  | tag, s, .tag _ => .tag (some s)
  | _, _, kind => kind

/-- The kind that is told from a token name has the text of the node, if it has it at all. -/
theorem tokenKind_set (x : NodeText) (s₀ s : String) (n : LooseNode) (name : String) :
    (x.set s n).tokenKind name = x.setKind s ((x.set s₀ n).tokenKind name) := by
  unfold LooseNode.tokenKind
  cases x <;> split <;> rfl

/-- The kind that is told from a rule name has the text of the node, if it has it at all. -/
theorem ruleKind_set (x : NodeText) (s₀ s : String) (n : LooseNode) (name : String) :
    (x.set s n).ruleKind name = x.setKind s ((x.set s₀ n).ruleKind name) := by
  by_cases hheading : name = "heading"
  · subst hheading
    cases x <;> rfl
  by_cases hargument : name = "argument"
  · subst hargument
    obtain ⟨_, _, _, _, _, _, _, _, owner, _, _⟩ := n
    cases x <;> cases owner <;> rfl
  have hother (n : LooseNode) : n.ruleKind name = .rule name := by
    unfold LooseNode.ruleKind
    split <;> first | rfl | contradiction
  rw [hother, hother]
  cases x <;> rfl

/-- The kind of a node has the text of the node, if it has it at all, and is the same apart from
that. -/
theorem kind_set (x : NodeText) (s₀ s : String) (n : LooseNode) :
    (x.set s n).kind = (x.set s₀ n).kind.map (x.setKind s) := by
  have htokenName (s : String) : (x.set s n).tokenName = n.tokenName := by cases x <;> rfl
  have hname (s : String) : (x.set s n).name = n.name := by cases x <;> rfl
  have hspan (s : String) : (x.set s n).span = n.span := by cases x <;> rfl
  unfold LooseNode.kind
  rw [htokenName, htokenName, hname, hname, hspan, hspan]
  cases n.tokenName with
  | some tokenName => exact congrArg Except.ok (x.tokenKind_set s₀ s n tokenName)
  | none =>
    cases n.name with
    | some name => exact congrArg Except.ok (x.ruleKind_set s₀ s n name)
    | none => rfl

/-- A node that is closed with one text is closed with any other one, and is the same apart from
that. -/
theorem close_set (x : NodeText) {s₀ : String} {n : LooseNode} {t₀ : Node}
    (h : (x.set s₀ n).close = .ok t₀) :
    ∀ s, (x.set s n).close = .ok { t₀ with kind := x.setKind s t₀.kind } := by
  intro s
  have hset (s : String) : { x.set s n with children := [] } =
      x.set s { n with children := [] } := by cases x <;> rfl
  have hspan (s : String) : (x.set s n).span = n.span := by cases x <;> rfl
  have hchildren (s : String) : (x.set s n).children = n.children := by cases x <;> rfl
  rw [close_eq, hset, hspan, hchildren] at h
  obtain ⟨kind, hkind, h⟩ := bind_eq_ok.mp h
  obtain ⟨ts, hts, h⟩ := bind_eq_ok.mp h
  obtain rfl := Except.ok.inj h
  rw [close_eq, hset, hspan, hchildren, kind_set x s₀, hkind, hts]
  rfl

/-- The brackets around a text of a node. An owner is a record of its title. -/
inductive InNode : NodeText → List Bracket → Prop where
  | title {b : Bracket} (hb : b.IsField nodeNames "title") : InNode title [b]
  | tag {b : Bracket} (hb : b.IsField nodeNames "tag") : InNode tag [b]
  | statement {b inner : Bracket} (hb : b.IsField nodeNames "statement")
    (hinner : inner.IsField ["title"] "title") : InNode statement [b, inner]
  | argument {b inner : Bracket} (hb : b.IsField nodeNames "argument")
    (hinner : inner.IsField ["title"] "title") : InNode argument [b, inner]

end NodeText

/-- A string that may be `null` is taken if it is there. -/
theorem takes_optionalString :
    Takes textOf (optional string) .string fun put => ∀ s, put s = some s :=
  takes_string.optional (fun _ => nofun) fun _ hput s => congrArg some (hput s)

/-- An owner takes its title. -/
theorem takes_owner {inner : Bracket} (hinner : inner.IsField ["title"] "title") :
    Takes textOf (optional (soleText "struct WireTitled" "title"))
      (fun ps => inner.fill (.string ps)) fun put => ∀ s, put s = some s := by
  have htitle : Takes textOf (soleText "struct WireTitled" "title")
      (fun ps => inner.fill (.string ps)) fun put => ∀ s, put s = s :=
    takes_string.field (slot_soleText "struct WireTitled" "title") hinner fun _ _ hput => hput
  exact htitle.optional (fun _ => inner.fill_ne_null _) fun _ hput s => congrArg some (hput s)

namespace NodeText

/-- A loose node into which a text is put is closed with any text if it is with one, and the node
that it is closed to is the same for all texts apart from the text. -/
theorem settles {x : NodeText} {put : String → LooseNode} {n : LooseNode}
    (h : ∀ s, put s = x.set s n) :
    Settles LooseNode.close put
      fun t => ∃ n : Node, ∀ s, t s = { n with kind := x.setKind s n.kind } := by
  intro s₀ t₀ hclose
  rw [h] at hclose
  refine ⟨_, fun s => ?_, t₀, fun s => rfl⟩
  rw [h]
  exact x.close_set hclose s

/-- A node takes a text that one of its fields takes. -/
theorem takes_field {x : NodeText} {room : Nat} {name : String} {d : Decoder (Option String)}
    {set : Option String → LooseNode → LooseNode} {place : List Piece → Raw} {b : Bracket}
    (h : Takes textOf d place fun put => ∀ s, put s = some s)
    (hslot : (nodeRecord (list (childDecoder room))).Slot name d set)
    (hset : ∀ s n, set (some s) n = x.set s n) (hb : b.IsField nodeNames name) :
    Takes textOf (fun _ => node room) (fun ps => b.fill (place ps))
      fun put => Settles LooseNode.close put
        fun t => ∃ n : Node, ∀ s, t s = { n with kind := x.setKind s n.kind } := by
  intro _
  rw [node_eq]
  refine h.field hslot hb (fun put n hput => ?_) room
  exact settles fun s => (congrArg (set · n) (hput s)).trans (hset s n)

/-- A node takes each of its texts. -/
theorem InNode.takes {x : NodeText} {bs : List Bracket} (h : x.InNode bs) :
    Takes textOf node (fun ps => fill bs (.string ps))
      fun put => Settles LooseNode.close put
        fun t => ∃ n : Node, ∀ s, t s = { n with kind := x.setKind s n.kind } := by
  intro room
  let children := list (childDecoder room)
  cases h with
  | title hb =>
    exact takes_field takes_optionalString (slot_title children) (fun _ _ => rfl) hb room
  | tag hb =>
    exact takes_field takes_optionalString (slot_tag children) (fun _ _ => rfl) hb room
  | statement hb hinner =>
    exact takes_field (takes_owner hinner) (slot_statement children) (fun _ _ => rfl) hb room
  | argument hb hinner =>
    exact takes_field (takes_owner hinner) (slot_argument children) (fun _ _ => rfl) hb room

end NodeText

/-! ## Texts of entities -/

/-- The texts of a class of statements or of an argument: those of its members, and its tags. -/
inductive EntityText where
  | member (i : Nat)
  | tag (i : Nat)
  deriving DecidableEq, Repr

namespace EntityText

/-- The text of a class of statements. -/
def inClass? (c : EquivalenceClass) : EntityText → Option String
  | member i => c.members[i]?.map Member.text
  | tag i => c.tags[i]?

/-- The text of an argument, whose members are its descriptions. -/
def inArgument? (a : Argument) : EntityText → Option String
  | member i => a.descriptions[i]?.map Member.text
  | tag i => a.tags[i]?

/-- The brackets around a text of an entity, given the names of its fields and the one of its
members. A member is read of objects only. -/
inductive InEntity (names : List String) (members : String) : EntityText → List Bracket → Prop where
  | member {b item last : Bracket} {i : Nat} (hb : b.IsField names members) (hi : item.IsItem i)
    (hlast : last.IsField [] "text") : InEntity names members (member i) [b, item, last]
  | tag {b item : Bracket} {i : Nat} (hb : b.IsField names "tags") (hi : item.IsItem i) :
    InEntity names members (tag i) [b, item]

end EntityText

/-- A member takes its text. -/
theorem takes_memberText {last : Bracket} (hlast : last.IsField [] "text") :
    Takes textOf member (fun ps => last.fill (.string ps)) fun put => ∀ s, (put s).text = s := by
  intro room ps₀ m₀ hok
  obtain ⟨_, hflattened, -⟩ := bind_eq_ok.mp hok
  obtain ⟨m, span, hrest⟩ := slot_text.outer_fill hlast hflattened
  refine ⟨fun s => { m with text := s, span }, fun ps => ?_, fun s => rfl⟩
  rw [member, hrest]
  change ((textOf ps).map _ >>= _) = _
  cases textOf ps <;> rfl

/-- A record with lists of members and of tags takes the texts of both. -/
theorem takes_entity {α : Type} {r : Record α} {name : String}
    {setMembers : List Member → α → α} {setTags : List String → α → α} (members : α → List Member)
    (tags : α → List String) (hmembers : r.Slot name (list member) setMembers)
    (htags : r.Slot "tags" (list string) setTags)
    (hsetMembers : ∀ ms a, members (setMembers ms a) = ms)
    (hsetTags : ∀ ts a, tags (setTags ts a) = ts) {get? : α → EntityText → Option String}
    (hmember : ∀ a i, get? a (.member i) = (members a)[i]?.map Member.text)
    (htag : ∀ a i, get? a (.tag i) = (tags a)[i]?) {x : EntityText} {bs : List Bracket}
    (h : x.InEntity r.names name bs) :
    Takes textOf r.decoder (fun ps => fill bs (.string ps))
      fun put => ∀ s, get? (put s) x = some s := by
  cases h with
  | member hb hi hlast =>
    refine ((takes_memberText hlast).listed hmembers members hsetMembers hb hi).imp ?_
    rintro put ⟨inner, htext, hput⟩ s
    rw [hmember, hput, Option.map_some, htext]
  | tag hb hi =>
    refine (takes_string.listed htags tags hsetTags hb hi).imp ?_
    rintro put ⟨inner, htext, hput⟩ s
    rw [htag, hput, htext]

/-- A class of statements takes the texts of its members and its tags. -/
theorem takes_class {x : EntityText} {bs : List Bracket}
    (h : x.InEntity equivalenceClassRecord.names "members" bs) :
    Takes textOf equivalenceClass (fun ps => fill bs (.string ps))
      fun put => ∀ s, x.inClass? (put s) = some s :=
  takes_entity EquivalenceClass.members EquivalenceClass.tags slot_members slot_classTags
    (fun _ _ => rfl) (fun _ _ => rfl) (fun _ _ => rfl) (fun _ _ => rfl) h

/-- An argument takes the texts of its descriptions and its tags. -/
theorem takes_argument {x : EntityText} {bs : List Bracket}
    (h : x.InEntity argumentRecord.names "descriptions" bs) :
    Takes textOf argument (fun ps => fill bs (.string ps))
      fun put => ∀ s, x.inArgument? (put s) = some s :=
  takes_entity Argument.descriptions Argument.tags slot_descriptions slot_argumentTags
    (fun _ _ => rfl) (fun _ _ => rfl) (fun _ _ => rfl) (fun _ _ => rfl) h

end ArgdownLens.Wire
