import ArgdownLens.Proofs.Wire.Closing
import ArgdownLens.Proofs.Wire.Slot

/-!
# Nodes in their trees

A path leads to a node through the brackets of its ancestors and of the lists of their children
(`NodePath`). What is read of the tree is what is read of the node, grafted into the rest
(`NodePath.reads`), and so it is with what the tree is closed to: if the tree can be closed with one
node at the end of the path, it can be with every node that can be closed itself, and the path leads
to it (`Grafts`).
-/

namespace ArgdownLens.Wire

open Json

/-- The names of the fields of a record. -/
def Record.names {α : Type} (r : Record α) : List String :=
  r.fields.map Field.name

/-- The names of the fields of a node. -/
def nodeNames : List String :=
  (nodeRecord (list node)).names

/-- The decoder of the children of a node. -/
def childDecoder : Nat → Decoder LooseNode
  | room + 2, _, v => node room v
  | _, _, _ => .error .malformed

/-- A node is a record with a list of children. -/
theorem node_eq (room : Nat) :
    node room = (nodeRecord (list (childDecoder room))).decoder room := by
  funext v
  match room with
  | 0 | 1 | room + 2 => rfl

/-- A node reads its children on their own. -/
theorem slot_children (children : Decoder (List LooseNode)) :
    (nodeRecord children).Slot "children" children fun ns n => { n with children := ns } :=
  Record.slot_of_getElem? (nodeRecord children) 13 (nodup_nodeRecord children) rfl rfl
    (by simp [nodeRecord])

/-- The brackets around a node of a tree, from those of the root on, with the path to the node. -/
inductive NodePath : List Bracket → List Nat → Prop where
  | root : NodePath [] []
  | child {b item : Bracket} {bs : List Bracket} {i : Nat} {path : List Nat}
    (hb : b.IsField nodeNames "children") (hi : item.IsItem i) (h : NodePath bs path) :
    NodePath (b :: item :: bs) (i :: path)

/-- A loose tree is closed around a node at the end of a path, whatever node is put there: it
becomes a fixed tree with the closed node at the end of the path. -/
def Grafts (put : LooseNode → LooseNode) (path : List Nat) : Prop :=
  ∀ {n₀ : LooseNode} {t₀ : Node}, (put n₀).close = .ok t₀ →
    ∃ graft : Node → Node, (∀ n, (put n).close = n.close.map graft) ∧
      ∀ t, (graft t).at? path = some t

/-- Among trees that are closed, one is closed on its own. -/
theorem LooseNode.closeAll_append {before after : List LooseNode} {n₀ : LooseNode}
    {ts₀ : List Node} (h : closeAll (before ++ n₀ :: after) = .ok ts₀) :
    ∃ ts us, ts.length = before.length ∧ (∃ t₀, n₀.close = .ok t₀) ∧
      ∀ n, closeAll (before ++ n :: after) = n.close.map fun t => ts ++ t :: us := by
  -- The trees in front are closed first, and none of them looks at the others.
  induction before generalizing ts₀ with
  | nil =>
    obtain ⟨t₀, ht₀, h⟩ := bind_eq_ok.mp h
    obtain ⟨us, hus, -⟩ := bind_eq_ok.mp h
    refine ⟨[], us, rfl, ⟨t₀, ht₀⟩, fun n => ?_⟩
    rw [List.nil_append, closeAll, hus]
    cases n.close <;> rfl
  | cons m before ih =>
    obtain ⟨t, ht, h⟩ := bind_eq_ok.mp h
    obtain ⟨ts₁, hts₁, -⟩ := bind_eq_ok.mp h
    obtain ⟨ts, us, hlength, hn₀, hclose⟩ := ih hts₁
    refine ⟨t :: ts, us, congrArg (· + 1) hlength, hn₀, fun n => ?_⟩
    rw [List.cons_append, closeAll, ht, ok_bind, hclose]
    cases n.close <;> rfl

/-- A node is closed around one of its children. -/
theorem Grafts.child {put : LooseNode → LooseNode} {path : List Nat} (h : Grafts put path)
    (parent : LooseNode) (before after : List LooseNode) :
    Grafts (fun n => { parent with children := before ++ put n :: after })
      (before.length :: path) := by
  intro n₀ t₀ hclose
  rw [close_eq] at hclose
  obtain ⟨kind, hkind, hclose⟩ := bind_eq_ok.mp hclose
  obtain ⟨ts₀, hts₀, -⟩ := bind_eq_ok.mp hclose
  obtain ⟨ts, us, hlength, ⟨t₁, ht₁⟩, hothers⟩ := LooseNode.closeAll_append hts₀
  obtain ⟨graft, hgraft, hat⟩ := h ht₁
  refine ⟨fun t => ⟨kind, parent.span, ts ++ graft t :: us⟩, fun n => ?_, fun t => ?_⟩
  · rw [close_eq, hkind, ok_bind, hothers, hgraft]
    cases n.close <;> rfl
  · rw [Node.at?_cons]
    refine ⟨graft t, ?_, hat t⟩
    rw [← hlength, getElem?_item]

/-- A tree reads the node at the end of a path on its own, and is closed around it. -/
theorem NodePath.reads {bs : List Bracket} {path : List Nat} (h : NodePath bs path) {room : Nat}
    {v₀ : Raw} {n₀ : LooseNode} (hok : node room (fill bs v₀) = .ok n₀) :
    ∃ (inner : Nat) (put : LooseNode → LooseNode),
      (∀ v, node room (fill bs v) = (node inner v).map put) ∧ Grafts put path := by
  induction h generalizing room n₀ with
  | root =>
    refine ⟨room, id, fun v => ?_, fun {n₀ t₀} _ => ⟨id, fun n => ?_, fun t => rfl⟩⟩
    · exact (id_map (node room v)).symm
    · exact (id_map n.close).symm
  | @child b item bs i path hb hi h ih =>
    rw [fill_cons, node_eq] at hok
    obtain ⟨parent, hparent⟩ := (slot_children (list (childDecoder room))).decoder_fill hb hok
    rw [hparent] at hok
    obtain ⟨ns₀, hns₀, -⟩ := map_eq_ok.mp hok
    rw [fill_cons] at hns₀
    obtain ⟨before, after, rfl, hlist⟩ := list_fill hi hns₀
    rw [hlist] at hns₀
    obtain ⟨m₀, hm₀, -⟩ := map_eq_ok.mp hns₀
    -- A node has room for children only if it has room for their list and for them.
    match room with
    | 0 | 1 => cases hm₀
    | room + 2 =>
      obtain ⟨inner, put, hput, hgrafts⟩ := ih hm₀
      refine ⟨inner, _, fun v => ?_, hgrafts.child parent before after⟩
      have hchild : childDecoder (room + 2) (room + 2 - 1 - 1) (fill bs v) =
          (node inner v).map put := hput v
      rw [fill_cons, node_eq, hparent, fill_cons, hlist, hchild]
      cases node inner v <;> rfl

end ArgdownLens.Wire
