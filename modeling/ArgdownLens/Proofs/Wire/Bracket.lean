import ArgdownLens.Proofs.Json.Grammar
import ArgdownLens.Proofs.Wire.Walk

/-!
# Values in brackets

A decoder that gives a result reads what stands in a bracket in one way, whatever value stands at
one place of it: it gives what another decoder makes of the value, put into a fixed result.
-/

namespace ArgdownLens.Wire

open Json

/-! ## Brackets -/

/-- A closed bracket with everything in it but one value. -/
inductive Bracket where
  | member (before : List (List Piece × Raw)) (key : List Piece) (after : List (List Piece × Raw))
  | item (before after : List Raw)

namespace Bracket

/-- The bracket with the value in its place. -/
def fill : Bracket → Raw → Raw
  | .member before key after, v => .object (before ++ (key, v) :: after) .closed
  | .item before after, v => .array (before ++ v :: after) .closed

/-- The value belongs to the field with this name, if the bracket is a record with fields of the
given names: it has the name as its key, or the index of the field. -/
def IsField (names : List String) (name : String) : Bracket → Prop
  | .member _ key _ => textOf key = .ok name
  | .item before _ => names[before.length]? = some name

/-- The value is the item of an array with this index. -/
def IsItem (i : Nat) : Bracket → Prop
  | .member _ _ _ => False
  | .item before _ => before.length = i

/-- The value is the entry of a map with this name. It has none if a later entry replaces it. -/
inductive IsEntry : Option String → Bracket → Prop where
  | last {before after : List (List Piece × Raw)} {key : List Piece} {name : String}
    (hkey : textOf key = .ok name) (hlast : ∀ m ∈ after, textOf m.1 ≠ .ok name) :
    IsEntry (some name) (.member before key after)
  | replaced {before after : List (List Piece × Raw)} {key : List Piece} {name : String}
    (hkey : textOf key = .ok name) (hlater : ∃ m ∈ after, textOf m.1 = .ok name) :
    IsEntry none (.member before key after)

/-- An entry of a map has a name, which no later entry has if it counts. -/
theorem IsEntry.exists_name {name? : Option String} {b : Bracket} (h : b.IsEntry name?) :
    ∃ before key after name, b = .member before key after ∧ textOf key = .ok name ∧
      ∀ name' ∈ name?, name' = name ∧ ∀ m ∈ after, textOf m.1 ≠ .ok name := by
  cases h with
  | last hkey hlast =>
    exact ⟨_, _, _, _, rfl, hkey, fun _ h => ⟨(Option.some.inj h).symm, hlast⟩⟩
  | replaced hkey => exact ⟨_, _, _, _, rfl, hkey, nofun⟩

end Bracket

/-- A value with brackets around it, the outermost one first. -/
def fill (bs : List Bracket) (v : Raw) : Raw :=
  bs.foldr Bracket.fill v

/-- The outermost bracket stands around the value with the other ones. -/
theorem fill_cons (b : Bracket) (bs : List Bracket) (v : Raw) :
    fill (b :: bs) v = b.fill (fill bs v) := rfl

/-- Some of the brackets stand around the value with the other ones. -/
theorem fill_append (bs cs : List Bracket) (v : Raw) : fill (bs ++ cs) v = fill bs (fill cs v) :=
  List.foldr_append

/-- What stands in a bracket is not `null`. -/
theorem Bracket.fill_ne_null (b : Bracket) (v : Raw) : b.fill v ≠ .null := by
  cases b <;> exact nofun

/-- A value in a bracket can be replaced by another unbroken one. -/
theorem Bracket.unbroken_fill (b : Bracket) {v w : Raw} (h : (b.fill v).Unbroken)
    (hw : v.Unbroken → w.Unbroken) : (b.fill w).Unbroken := by
  cases b with
  | member before key after =>
    have hms := unbrokenMembers_iff.mp h.2
    rw [List.forall_mem_append, List.forall_mem_cons] at hms
    refine ⟨rfl, unbrokenMembers_iff.mpr ?_⟩
    rw [List.forall_mem_append, List.forall_mem_cons]
    exact ⟨hms.1, hw hms.2.1, hms.2.2⟩
  | item before after =>
    have hvs := unbrokenItems_iff.mp h.2
    rw [List.forall_mem_append, List.forall_mem_cons] at hvs
    refine ⟨rfl, unbrokenItems_iff.mpr ?_⟩
    rw [List.forall_mem_append, List.forall_mem_cons]
    exact ⟨hvs.1, hw hvs.2.1, hvs.2.2⟩

/-- A value in brackets can be replaced by another unbroken one. -/
theorem unbroken_fill (bs : List Bracket) {v w : Raw} (h : (fill bs v).Unbroken) (hw : w.Unbroken) :
    (fill bs w).Unbroken := by
  induction bs with
  | nil => exact hw
  | cons b bs ih => exact b.unbroken_fill h ih

/-! ## Texts -/

/-- The texts in front of a place and behind it: they spell the tokens of the brackets on both sides
of the value, whatever this is. -/
structure Surrounds (bs : List Bracket) (front back : List Char) : Prop where
  unbroken : (fill bs .null).Unbroken
  tokens : ∃ before after, Spells before front ∧ Spells after back ∧
    ∀ v, (fill bs v).tokens = before ++ v.tokens ++ after

/-- A value that is written at a place makes a text of the brackets with this value in its place. -/
theorem Surrounds.spells {bs : List Bracket} {front back : List Char} (h : Surrounds bs front back)
    {v : Raw} {cs : List Char} (hv : Spells v.tokens cs) :
    Spells (fill bs v).tokens (front ++ cs ++ back) := by
  obtain ⟨before, after, hbefore, hafter, htokens⟩ := h.tokens
  rw [htokens]
  exact (hbefore.append hv).append hafter

/-- Nothing stands around a whole text. -/
theorem Surrounds.nil : Surrounds [] [] [] :=
  ⟨trivial, [], [], .nil, .nil, fun v => (List.append_nil v.tokens).symm⟩

/-- An object stands around the value of its first member. -/
theorem Surrounds.member {bs : List Bracket} {front back : List Char} (h : Surrounds bs front back)
    (key : String) {ms : List (String × Value)}
    (hms : Raw.UnbrokenMembers (Value.rawMembers ms)) :
    Surrounds (.member [] (escapePieces key) (Value.rawMembers ms) :: bs)
      ('\x7b' :: writeString key ++ ':' :: front) (back ++ Value.writeMembers ms) := by
  obtain ⟨before, after, hbefore, hafter, htokens⟩ := h.tokens
  have hmembers := Value.spells_writeMembers ms hms .nil
  rw [List.append_nil, List.append_nil] at hmembers
  refine ⟨⟨rfl, h.unbroken, hms⟩, .openObject :: .string (escapePieces key) :: .colon :: before,
    after ++ Raw.memberTokens (Value.rawMembers ms), .sign .openObject (.key key hbefore),
    hafter.append hmembers, fun v => ?_⟩
  rw [fill_cons, Bracket.fill, List.nil_append, Raw.tokens, htokens]
  simp

/-- An array stands around its first item. -/
theorem Surrounds.item {bs : List Bracket} {front back : List Char} (h : Surrounds bs front back)
    {vs : List Value} (hvs : Raw.UnbrokenItems (Value.rawItems vs)) :
    Surrounds (.item [] (Value.rawItems vs) :: bs) ('[' :: front)
      (back ++ Value.writeItems vs) := by
  obtain ⟨before, after, hbefore, hafter, htokens⟩ := h.tokens
  have hitems := Value.spells_writeItems vs hvs .nil
  rw [List.append_nil, List.append_nil] at hitems
  refine ⟨⟨rfl, h.unbroken, hvs⟩, .openArray :: before,
    after ++ Raw.itemTokens (Value.rawItems vs), .sign .openArray hbefore, hafter.append hitems,
    fun v => ?_⟩
  rw [fill_cons, Bracket.fill, List.nil_append, Raw.tokens, htokens]
  simp

/-! ## Lists and maps -/

/-- Behind some items stands the item with their number as its index. -/
theorem getElem?_item {α : Type} (as : List α) (a : α) (bs : List α) :
    (as ++ a :: bs)[as.length]? = some a := by
  rw [List.getElem?_append_right le_rfl, Nat.sub_self, List.getElem?_cons_zero]

section

variable {α : Type} {d : Decoder α} {room : Nat} {b : Bracket}

/-- Among items that are decoded, one is decoded on its own. -/
theorem items_append {before after : List Raw} {v₀ : Raw} {as₀ : List α}
    (h : items d room (before ++ v₀ :: after) = .ok as₀) :
    ∃ as bs, as.length = before.length ∧ ∀ v, items d room (before ++ v :: after) =
      (d room v).map fun a => as ++ a :: bs := by
  induction before generalizing as₀ with
  | nil =>
    obtain ⟨_, -, h⟩ := bind_eq_ok.mp h
    obtain ⟨bs, hbs, -⟩ := bind_eq_ok.mp h
    refine ⟨[], bs, rfl, fun v => ?_⟩
    rw [List.nil_append, items, hbs]
    cases d room v <;> rfl
  | cons w before ih =>
    obtain ⟨a, ha, h⟩ := bind_eq_ok.mp h
    obtain ⟨as₁, has₁, -⟩ := bind_eq_ok.mp h
    obtain ⟨as, bs, hlength, hitems⟩ := ih has₁
    refine ⟨a :: as, bs, congrArg (· + 1) hlength, fun v => ?_⟩
    rw [List.cons_append, items, ha, ok_bind, hitems]
    cases d room v <;> rfl

/-- Inside a bracket there is room for one less. -/
theorem openBracket_bind_eq_ok {β : Type} {next : Nat → Except Fault β} {result : β}
    (h : openBracket room >>= next = .ok result) :
    openBracket room = .ok (room - 1) ∧ next (room - 1) = .ok result := by
  cases room with
  | zero => cases h
  | succ room => exact ⟨rfl, h⟩

/-- An item of a list is decoded on its own. -/
theorem list_fill {i : Nat} (hb : b.IsItem i) {v₀ : Raw} {as₀ : List α}
    (h : list d room (b.fill v₀) = .ok as₀) :
    ∃ as bs, as.length = i ∧ ∀ v, list d room (b.fill v) =
      (d (room - 1) v).map fun a => as ++ a :: bs := by
  cases b with
  | member => exact hb.elim
  | item before after =>
    obtain ⟨hopen, h⟩ := openBracket_bind_eq_ok h
    obtain ⟨as₁, h, -⟩ := bind_eq_ok.mp h
    obtain ⟨as, bs, hlength, hitems⟩ := items_append h
    refine ⟨as, bs, hlength.trans hb, fun v => ?_⟩
    rw [Bracket.fill, list, hopen, ok_bind, hitems]
    cases d (room - 1) v <;> rfl

/-- Further entries of a map keep the value under a name, unless one of them has this name. -/
theorem get?_foldl_insert {entries : List (String × α)} {name : String} {a : α}
    (h : ∀ e ∈ entries, e.1 ≠ name) {m : OrderedMap α} (hm : m.get? name = some a) :
    (entries.foldl (fun m e => m.insert e.1 e.2) m).get? name = some a := by
  induction entries generalizing m with
  | nil => exact hm
  | cons e entries ih =>
    rw [List.forall_mem_cons] at h
    refine ih h.2 ?_
    rw [OrderedMap.get?_insert, if_neg h.1.symm]
    exact hm

/-- The members of a map are put into it one after the other. -/
theorem mapMembers_eq_ok {ms : List (List Piece × Raw)} {done result : OrderedMap α}
    (h : mapMembers d room done ms = .ok result) :
    ∃ entries : List (String × α), entries.length = ms.length ∧
      (∀ e ∈ entries, ∃ m ∈ ms, textOf m.1 = .ok e.1) ∧
      ∀ done', mapMembers d room done' ms =
        .ok (entries.foldl (fun m e => m.insert e.1 e.2) done') := by
  induction ms generalizing done with
  | nil => exact ⟨[], rfl, List.forall_mem_nil _, fun _ => rfl⟩
  | cons m ms ih =>
    obtain ⟨key, v⟩ := m
    obtain ⟨name, hkey, h⟩ := bind_eq_ok.mp h
    obtain ⟨a, ha, h⟩ := bind_eq_ok.mp h
    obtain ⟨entries, hlength, hnames, hentries⟩ := ih h
    refine ⟨(name, a) :: entries, congrArg (· + 1) hlength,
      List.forall_mem_cons.mpr ⟨?_, fun e he => ?_⟩, fun done' => ?_⟩
    · exact ⟨_, List.mem_cons_self, hkey⟩
    · obtain ⟨m, hm, hname⟩ := hnames e he
      exact ⟨m, List.mem_cons_of_mem _ hm, hname⟩
    · rw [mapMembers, hkey, ok_bind, ha, ok_bind, hentries, List.foldl_cons]

/-- Members in front of others are put into the map first. -/
theorem mapMembers_append (done : OrderedMap α) (before after : List (List Piece × Raw)) :
    mapMembers d room done (before ++ after) =
      mapMembers d room done before >>= fun m => mapMembers d room m after := by
  induction before generalizing done with
  | nil => rfl
  | cons m before ih =>
    obtain ⟨key, v⟩ := m
    rw [List.cons_append, mapMembers, mapMembers]
    cases textOf key with
    | error fault => rfl
    | ok name =>
      rw [ok_bind, ok_bind]
      cases d room v with
      | error fault => rfl
      | ok a => exact ih _

/-- An entry of a map is decoded on its own, and is found under its name. -/
theorem map_fill {name? : Option String} (hb : b.IsEntry name?) {v₀ : Raw} {m₀ : OrderedMap α}
    (h : map d room (b.fill v₀) = .ok m₀) :
    ∃ put : α → OrderedMap α, (∀ v, map d room (b.fill v) = (d (room - 1) v).map put) ∧
      ∀ name ∈ name?, ∀ a, (put a).get? name = some a := by
  obtain ⟨before, key, after, name, rfl, hkey, hlast⟩ := hb.exists_name
  obtain ⟨hopen, h⟩ := openBracket_bind_eq_ok h
  obtain ⟨m₁, h, -⟩ := bind_eq_ok.mp h
  rw [mapMembers_append] at h
  obtain ⟨done, hdone, h⟩ := bind_eq_ok.mp h
  rw [mapMembers, hkey, ok_bind] at h
  obtain ⟨_, -, h⟩ := bind_eq_ok.mp h
  obtain ⟨entries, -, hnames, hentries⟩ := mapMembers_eq_ok h
  refine ⟨fun a => entries.foldl (fun m e => m.insert e.1 e.2) (done.insert name a), ?_, ?_⟩
  · intro v
    rw [Bracket.fill, map, hopen, ok_bind, mapMembers_append, hdone, ok_bind, mapMembers, hkey,
      ok_bind]
    cases d (room - 1) v with
    | error fault => rfl
    | ok a =>
      rw [ok_bind, hentries]
      rfl
  · -- No later entry has the name, so what was inserted under it stays.
    intro name' hname' a
    obtain ⟨rfl, hlast⟩ := hlast name' hname'
    have hinsert : (done.insert name' a).get? name' = some a := by
      rw [OrderedMap.get?_insert, if_pos rfl]
    refine get?_foldl_insert (fun e he hname => ?_) hinsert
    obtain ⟨m, hm, hme⟩ := hnames e he
    exact hlast m hm (hname ▸ hme)

/-- The key of an entry of a map is read on its own, and is the name of the entry with its index
among those that are put into the map. -/
theorem map_key {before after : List (List Piece × Raw)} {v : Raw} {ps₀ : List Piece}
    {m₀ : OrderedMap α} (h : map d room (.object (before ++ (ps₀, v) :: after) .closed) = .ok m₀) :
    ∃ es a fs, es.length = before.length ∧
      ∀ ps, map d room (.object (before ++ (ps, v) :: after) .closed) =
        (textOf ps).map fun s => .ofList (es ++ (s, a) :: fs) := by
  obtain ⟨hopen, h⟩ := openBracket_bind_eq_ok h
  obtain ⟨m₁, h, -⟩ := bind_eq_ok.mp h
  rw [mapMembers_append] at h
  obtain ⟨done, hdone, h⟩ := bind_eq_ok.mp h
  obtain ⟨name, hkey, h⟩ := bind_eq_ok.mp h
  obtain ⟨a, ha, h⟩ := bind_eq_ok.mp h
  obtain ⟨es, hlength, -, hes⟩ := mapMembers_eq_ok hdone
  obtain ⟨fs, -, -, hfs⟩ := mapMembers_eq_ok h
  refine ⟨es, a, fs, hlength, fun ps => ?_⟩
  rw [map, hopen, ok_bind, mapMembers_append, hes, ok_bind, mapMembers]
  cases textOf ps with
  | error fault => rfl
  | ok s =>
    have hlist : OrderedMap.ofList (es ++ (s, a) :: fs) =
        fs.foldl (fun m e => m.insert e.1 e.2) ((OrderedMap.ofList es).insert s a) :=
      List.foldl_append
    rw [ok_bind, ha, ok_bind, hfs, ← OrderedMap.ofList, ← hlist]
    rfl

end

end ArgdownLens.Wire
