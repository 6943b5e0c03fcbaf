import ArgdownLens.Proofs.Wire.Core
import ArgdownLens.Proofs.Wire.Graft

/-!
# Values at places

A place is given by the tree with an input in it, for any input: the literal of a number, or the
pieces of a string. An input has a value if it can be read at all. A reader takes the inputs at a
place if it treats all of them like one that it reads: it puts the value of each into a fixed result
(`Takes`). Then so does a record with the place in one of its fields, a list with it in one of its
items, and a map with it in one of its entries (`Takes.field`, `Takes.item`, `Takes.entry`), and so
on up to the answer.

An answer is closed once it is read. If it is closed with one value in it, it must be closed with
any other one (`Settles`), be the value in the tree or elsewhere (`Takes.tree`,
`Settles.of_ast_eq`). Then what is decoded is a fixed answer with the value put into it, and an
input without a value is refused as JSON (`Takes.decodeTree_eq`, `Takes.decodeTree_refused`).
-/

namespace ArgdownLens.Wire

open Json

variable {ι γ : Type} {value : ι → Except Fault γ}

/-- A decoder takes the inputs at a place: once it reads one of them, it puts the values of all of
them into a fixed result, in a way of this form. -/
def Takes {α : Type} (value : ι → Except Fault γ) (d : Decoder α) (place : ι → Raw)
    (form : (γ → α) → Prop) : Prop :=
  ∀ room i₀ a₀, d room (place i₀) = .ok a₀ →
    ∃ put, (∀ i, d room (place i) = (value i).map put) ∧ form put

/-- A value that is put in a way of one form may be put in a way of a wider one. -/
theorem Takes.imp {α : Type} {d : Decoder α} {place : ι → Raw} {form form' : (γ → α) → Prop}
    (h : Takes value d place form) (himp : ∀ put, form put → form' put) :
    Takes value d place form' := by
  intro room i₀ a₀ hok
  obtain ⟨put, hput, hform⟩ := h room i₀ a₀ hok
  exact ⟨put, hput, himp put hform⟩

/-! ## Decoders around decoders -/

section

variable {α β : Type} {d : Decoder β} {place : ι → Raw} {form : (γ → β) → Prop} {b : Bracket}

/-- A decoder takes what is taken by another one that it reads on its own. -/
theorem Takes.around {outer : Decoder α} {surround : Raw → Raw} {form' : (γ → α) → Prop}
    (h : Takes value d place form)
    (houter : ∀ {room v₀ a₀}, outer room (surround v₀) = .ok a₀ →
      ∃ inner set, (∀ v, outer room (surround v) = (d inner v).map set) ∧
        ∀ put, form put → form' fun c => set (put c)) :
    Takes value outer (fun i => surround (place i)) form' := by
  intro room i₀ a₀ hok
  obtain ⟨inner, set, hset, hform⟩ := houter hok
  rw [hset] at hok
  obtain ⟨b₀, hb₀, -⟩ := map_eq_ok.mp hok
  obtain ⟨put, hput, hinner⟩ := h inner i₀ b₀ hb₀
  refine ⟨_, fun i => ?_, hform put hinner⟩
  rw [hset, hput]
  cases value i <;> rfl

/-- A record takes what is taken by the decoder of one of its fields. -/
theorem Takes.field {r : Record α} {name : String} {set : β → α → α} {form' : (γ → α) → Prop}
    (h : Takes value d place form) (hslot : r.Slot name d set) (hb : b.IsField r.names name)
    (hform : ∀ put a, form put → form' fun c => set (put c) a) :
    Takes value r.decoder (fun i => b.fill (place i)) form' := by
  refine h.around fun hok => ?_
  obtain ⟨a, ha⟩ := hslot.decoder_fill hb hok
  exact ⟨_, _, ha, fun put => hform put a⟩

/-- What may be `null` is taken like anything else if it is there. -/
theorem Takes.optional {form' : (γ → Option β) → Prop} (h : Takes value d place form)
    (hnull : ∀ i, place i ≠ .null) (hform : ∀ put, form put → form' fun c => some (put c)) :
    Takes value (optional d) place form' := by
  have hthere (room : Nat) (i : ι) :
      Wire.optional d room (place i) = (d room (place i)).map some := by
    have hne := hnull i
    cases hplace : place i with
    | null => exact absurd hplace hne
    | _ => exact bind_pure_eq_map _ _
  intro room i₀ a₀ hok
  rw [hthere] at hok
  obtain ⟨b₀, hb₀, -⟩ := map_eq_ok.mp hok
  obtain ⟨put, hput, hinner⟩ := h room i₀ b₀ hb₀
  refine ⟨_, fun i => ?_, hform put hinner⟩
  rw [hthere, hput]
  cases value i <;> rfl

/-- A list takes what is taken by the decoder of its items, and has it at the index of the item. -/
theorem Takes.item (h : Takes value d place form) {i : Nat} (hb : b.IsItem i) :
    Takes value (list d) (fun i => b.fill (place i))
      fun put => ∃ inner, form inner ∧ ∀ c, (put c)[i]? = some (inner c) := by
  refine h.around fun hok => ?_
  obtain ⟨before, after, rfl, hlist⟩ := list_fill hb hok
  exact ⟨_, _, hlist, fun put hput => ⟨put, hput, fun c => getElem?_item ..⟩⟩

/-- A record with a list in one of its fields takes what is taken by the decoder of the items. -/
theorem Takes.listed {r : Record α} {name : String} {set : List β → α → α}
    (h : Takes value d place form) (hslot : r.Slot name (list d) set) (items : α → List β)
    (hset : ∀ bs a, items (set bs a) = bs) (hb : b.IsField r.names name) {item : Bracket} {i : Nat}
    (hitem : item.IsItem i) :
    Takes value r.decoder (fun i => fill [b, item] (place i))
      fun put => ∃ inner, form inner ∧ ∀ c, (items (put c))[i]? = some (inner c) := by
  refine (h.item hitem).field hslot hb fun put a ⟨inner, hinner, hput⟩ => ⟨inner, hinner, ?_⟩
  intro c
  rw [hset]
  exact hput c

/-- A map takes what is taken by the decoder of its values, and has it under the name of the entry,
unless a later one replaces this. -/
theorem Takes.entry (h : Takes value d place form) {name? : Option String} (hb : b.IsEntry name?) :
    Takes value (map d) (fun i => b.fill (place i))
      fun put => ∃ inner, form inner ∧ ∀ name ∈ name?, ∀ c, (put c).get? name = some (inner c) := by
  refine h.around fun hok => ?_
  obtain ⟨insert, hinsert, hfound⟩ := map_fill hb hok
  exact ⟨_, _, hinsert, fun put hput => ⟨put, hput, fun name hname c => hfound name hname (put c)⟩⟩

end

/-! ## Fields of answers and entities -/

section

open Record (slot_of_getElem?)

/-- An answer reads its tree on its own. -/
theorem slot_ast : responseRecord.Slot "ast" node fun n r => { r with ast := n } :=
  slot_of_getElem? responseRecord 0 (by decide) rfl rfl (by simp [responseRecord])

/-- An answer reads its statements on their own. -/
theorem slot_statements :
    responseRecord.Slot "statements" (map equivalenceClass) fun m r => { r with statements := m } :=
  slot_of_getElem? responseRecord 1 (by decide) rfl rfl (by simp [responseRecord])

/-- An answer reads its arguments on their own. -/
theorem slot_arguments :
    responseRecord.Slot "arguments" (map argument) fun m r => { r with arguments := m } :=
  slot_of_getElem? responseRecord 2 (by decide) rfl rfl (by simp [responseRecord])

/-- A class of statements reads its members on their own. -/
theorem slot_members :
    equivalenceClassRecord.Slot "members" (list member) fun ms c => { c with members := ms } :=
  slot_of_getElem? equivalenceClassRecord 1 (by decide) rfl rfl
    (by simp [equivalenceClassRecord])

/-- An argument reads its descriptions on their own. -/
theorem slot_descriptions :
    argumentRecord.Slot "descriptions" (list member) fun ms a => { a with descriptions := ms } :=
  slot_of_getElem? argumentRecord 1 (by decide) rfl rfl (by simp [argumentRecord])

end

/-! ## Closing -/

/-- What is closed with one value in it is closed with any other one, to results of this form. -/
def Settles {α β ε : Type} (close : α → Except ε β) (put : γ → α) (form : (γ → β) → Prop) : Prop :=
  ∀ c₀ b₀, close (put c₀) = .ok b₀ →
    ∃ final : γ → β, (∀ c, close (put c) = .ok (final c)) ∧ form final

/-- A loose answer is closed if its tree is. -/
theorem LooseResponse.close_eq_ok {loose : LooseResponse} {r : Response} :
    loose.close = .ok r ↔ ∃ ast, loose.ast.close = .ok ast ∧
      r = ⟨ast, loose.statements, loose.arguments, loose.tags, loose.parserErrors⟩ := by
  unfold close
  cases loose.ast.close with
  | error e => simp
  | ok ast => simp [eq_comm]

variable {shows : (γ → Response) → Prop}

/-- A value that is put elsewhere than into the tree does not matter for closing it. -/
theorem Settles.of_ast_eq {put : γ → LooseResponse} {ast : LooseNode}
    (hast : ∀ c, (put c).ast = ast)
    (hshows : ∀ tree, shows fun c => ⟨tree, (put c).statements, (put c).arguments, (put c).tags,
      (put c).parserErrors⟩) : Settles LooseResponse.close put shows := by
  intro c₀ r₀ hclose
  obtain ⟨tree, htree, -⟩ := LooseResponse.close_eq_ok.mp hclose
  rw [hast] at htree
  refine ⟨_, fun c => LooseResponse.close_eq_ok.mpr ⟨tree, ?_, rfl⟩, hshows tree⟩
  rw [hast]
  exact htree

/-- A tree around a node is closed if the node is, and has the closed node in its place. -/
theorem Settles.graft {graft : LooseNode → LooseNode} {path : List Nat} {put : γ → LooseNode}
    {form : (γ → Node) → Prop} (h : Settles LooseNode.close put form) (hgraft : Grafts graft path)
    (hshows : ∀ nodes final, form nodes → (∀ c, (final c).ast.at? path = some (nodes c)) →
      shows final) (rest : LooseResponse) :
    Settles LooseResponse.close (fun c => { rest with ast := graft (put c) }) shows := by
  intro c₀ r₀ hclose
  obtain ⟨tree₀, htree₀, -⟩ := LooseResponse.close_eq_ok.mp hclose
  obtain ⟨around, haround, hat⟩ := hgraft htree₀
  rw [haround] at htree₀
  obtain ⟨n₀, hn₀, -⟩ := map_eq_ok.mp htree₀
  obtain ⟨nodes, hnodes, hform⟩ := h _ _ hn₀
  refine ⟨fun c => ⟨around (nodes c), rest.statements, rest.arguments, rest.tags,
    rest.parserErrors⟩, fun c => LooseResponse.close_eq_ok.mpr ⟨_, ?_, rfl⟩,
    hshows nodes _ hform fun c => hat (nodes c)⟩
  rw [haround, hnodes]
  rfl

/-- An answer takes what is taken by the decoder of a node, at the end of a path in its tree. -/
theorem Takes.tree {place : ι → Raw} {form : (γ → Node) → Prop} {b : Bracket} {bs : List Bracket}
    {path : List Nat}
    (h : Takes value node place fun put => Settles LooseNode.close put form)
    (hb : b.IsField responseRecord.names "ast") (hpath : NodePath bs path)
    (hshows : ∀ nodes final, form nodes → (∀ c, (final c).ast.at? path = some (nodes c)) →
      shows final) :
    Takes value responseRecord.decoder (fun i => fill (b :: bs) (place i))
      fun put => Settles LooseResponse.close put shows := by
  -- Within the tree the node is put into a graft, which is closed around it later.
  let form' (put : γ → LooseNode) : Prop := ∃ graft nodes, Grafts graft path ∧
    Settles LooseNode.close nodes form ∧ put = fun c => graft (nodes c)
  have htree : Takes value node (fun i => fill bs (place i)) form' := by
    refine h.around fun hok => ?_
    obtain ⟨inner, graft, hread, hgraft⟩ := hpath.reads hok
    exact ⟨inner, graft, hread, fun nodes hnodes => ⟨graft, nodes, hgraft, hnodes, rfl⟩⟩
  refine htree.field slot_ast hb fun put rest hput => ?_
  obtain ⟨graft, nodes, hgraft, hnodes, rfl⟩ := hput
  exact hnodes.graft hgraft hshows rest

/-! ## Decoding -/

section

variable {place : ι → Raw}

/-- Once one input at a place is decoded, what is decoded is a fixed answer with the value of the
input put into it. -/
theorem Takes.decodeTree_eq
    (h : Takes value responseRecord.decoder place fun put => Settles LooseResponse.close put shows)
    {i₀ : ι} {r₀ : Response} (h₀ : decodeTree (place i₀) = .ok r₀) :
    ∃ final, shows final ∧ ∀ {i c}, value i = .ok c → decodeTree (place i) = .ok (final c) := by
  unfold decodeTree at *
  cases hok : responseRecord.decoder maxDepth (place i₀) with
  | error fault =>
    rw [hok] at h₀
    cases h₀
  | ok loose₀ =>
    obtain ⟨put, hput, hsettles⟩ := h _ _ _ hok
    rw [hput] at hok
    obtain ⟨c₀, hc₀, -⟩ := map_eq_ok.mp hok
    rw [hput, hc₀] at h₀
    obtain ⟨final, hfinal, hshows⟩ := hsettles _ _ h₀
    refine ⟨final, hshows, fun {i c} hc => ?_⟩
    rw [hput, hc]
    exact hfinal c

/-- An input without a value is refused as JSON. -/
theorem Takes.decodeTree_refused {form : (γ → LooseResponse) → Prop}
    (h : Takes value responseRecord.decoder place form) {i : ι}
    (hi : ∀ c, value i ≠ .ok c) : ∃ fault, decodeTree (place i) = .error (.json fault) := by
  unfold decodeTree
  cases hok : responseRecord.decoder maxDepth (place i) with
  | error fault => exact ⟨fault, rfl⟩
  | ok loose =>
    obtain ⟨put, hput, -⟩ := h _ _ _ hok
    obtain ⟨c, hc, -⟩ := map_eq_ok.mp ((hput i).symm.trans hok)
    exact absurd hc (hi c)

end

end ArgdownLens.Wire
