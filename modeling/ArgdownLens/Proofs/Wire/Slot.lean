import ArgdownLens.Proofs.Wire.Bracket

/-!
# Values in records

What a field of a record is given is put into the record by itself, whatever the other fields are
given, before or after it (`Record.Slot`). So a record reads what one of its brackets holds on its
own, be it an object or an array (`Record.Slot.decoder_fill`). Where a record is flattened into
another one, the fields of that one are given while the object is read (`Record.Slot.outer_fill`).
The other members are kept until the object has ended and are read in full before that, which makes
no difference to a coordinate (`Record.Slot.flattened_fill`).
-/

namespace ArgdownLens.Wire

open Json

/-- What a result is turned into comes of the result. -/
theorem map_eq_ok {ε α β : Type} {x : Except ε α} {f : α → β} {b : β} :
    x.map f = .ok b ↔ ∃ a, x = .ok a ∧ f a = b := by
  cases x with
  | error e => exact ⟨nofun, fun ⟨_, h, _⟩ => nomatch h⟩
  | ok a =>
    refine ⟨fun h => ⟨a, rfl, Except.ok.inj h⟩, fun ⟨a', ha, hf⟩ => ?_⟩
    obtain rfl := Except.ok.inj ha
    exact congrArg Except.ok hf

/-- A result on which nothing depends but what it is turned into. -/
theorem bind_pure_eq_map {ε α β : Type} (x : Except ε α) (f : α → β) :
    (do return f (← x)) = x.map f := by
  cases x <;> rfl

/-! ## Fields -/

/-- The name of a field that must be given. -/
@[simp] theorem Field.name_mandatory {α β : Type} (name : String) (d : Decoder β)
    (set : β → α → α) : (Field.mandatory name d set).name = name := rfl

/-- The name of a field that may be left out. -/
@[simp] theorem Field.name_standard {α β : Type} (name : String) (d : Decoder β)
    (set : β → α → α) : (Field.standard name d set).name = name := rfl

/-- What is given to a field leaves what another way to change the record has put into it. -/
def Field.Leaves {α β : Type} (f : Field α) (set : β → α → α) : Prop :=
  ∀ {room : Nat} {v : Raw} {change : α → α}, f.read room v = .ok change →
    ∀ b a, change (set b a) = set b (change a)

/-- A field leaves what is put into the record elsewhere. -/
@[simp] theorem Field.leaves_mandatory {α β γ : Type} {name : String} {d : Decoder γ}
    {set : β → α → α} {set' : γ → α → α} (h : ∀ c b a, set' c (set b a) = set b (set' c a)) :
    (Field.mandatory name d set').Leaves set := by
  intro room v change hread
  obtain ⟨c, -, rfl⟩ := map_eq_ok.mp ((bind_pure_eq_map _ _).symm.trans hread)
  exact h c

/-- A field that may be left out leaves what is put into the record elsewhere. -/
@[simp] theorem Field.leaves_standard {α β γ : Type} {name : String} {d : Decoder γ}
    {set : β → α → α} {set' : γ → α → α} (h : ∀ c b a, set' c (set b a) = set b (set' c a)) :
    (Field.standard name d set').Leaves set :=
  (leaves_mandatory h : (Field.mandatory name d set').Leaves set)

/-- The value of a record of which some fields have been given, changed. -/
def Filled.changed {α : Type} (change : α → α) (done : Filled α) : Filled α :=
  { done with value := change done.value }

namespace Record

variable {α β : Type}

/-- A record has a field with this name, which reads a value with a decoder and puts the result into
the record, and no other field touches that. -/
structure Slot (r : Record α) (name : String) (d : Decoder β) (set : β → α → α) : Prop where
  nodup : (r.fields.map Field.name).Nodup
  field : ∃ f ∈ r.fields, f.name = name ∧ ∀ room v, f.read room v = (d room v).map set
  others : ∀ f ∈ r.fields, f.name ≠ name → f.Leaves set

variable {r : Record α} {name : String} {d : Decoder β} {set : β → α → α} {room : Nat}

/-- A slot is given by the index of its field. -/
theorem slot_of_getElem? (r : Record α) (i : Nat) {f : Field α}
    (hnodup : (r.fields.map Field.name).Nodup) (hf : r.fields[i]? = some f)
    (hread : f.read = fun room v => return set (← d room v))
    (hothers : ∀ g ∈ r.fields, g.name ≠ f.name → g.Leaves set) : r.Slot f.name d set := by
  refine ⟨hnodup, ⟨f, List.mem_of_getElem? hf, rfl, fun room v => ?_⟩, hothers⟩
  rw [hread]
  exact bind_pure_eq_map (d room v) set

/-- The field of a slot is found under its name. -/
theorem Slot.field?_eq (h : r.Slot name d set) :
    ∃ f, r.field? name = some f ∧ f.name = name ∧ ∀ room v, f.read room v = (d room v).map set := by
  obtain ⟨f, hf, rfl, hread⟩ := h.field
  exact ⟨f, field?_of_mem h.nodup hf, rfl, hread⟩

/-- A field that is given keeps the fields given so far. -/
theorem mem_given_of_give {done result : Filled α} {f : Field α} {v : Raw}
    (h : give room done f v = .ok result) (hname : name ∈ done.given) : name ∈ result.given := by
  unfold give at h
  split_ifs at h
  obtain ⟨change, -, h⟩ := bind_eq_ok.mp h
  obtain rfl := Except.ok.inj h
  exact List.mem_cons_of_mem _ hname

/-- Once the field of a slot has been given, giving other fields leaves what it put there. -/
theorem Slot.give_changed (h : r.Slot name d set) {done : Filled α} (hname : name ∈ done.given)
    {f : Field α} (hf : f ∈ r.fields) (b : β) (v : Raw) :
    give room (done.changed (set b)) f v = (give room done f v).map (Filled.changed (set b)) := by
  unfold give
  by_cases hgiven : f.name ∈ done.given
  · rw [if_pos hgiven]
    exact if_pos hgiven
  · have hne : f.name ≠ name := fun hf => hgiven (hf ▸ hname)
    rw [if_neg hgiven]
    refine (if_neg hgiven).trans ?_
    cases hread : f.read room v with
    | error fault => rfl
    | ok change =>
      have hleaves := h.others f hf hne hread b done.value
      exact congrArg (fun a => Except.ok (Filled.mk (f.name :: done.given) a)) hleaves

/-! ## Objects -/

section

variable {ι κ : Type} {step : Filled α → ι → Except Fault (Filled α)}

/-- A way to give fields one after the other, once the field with the name has been given: what it
put into the record is left, and it stays given. -/
structure Passes (name : String) (set : β → α → α)
    (step : Filled α → ι → Except Fault (Filled α)) : Prop where
  changed : ∀ {done : Filled α}, name ∈ done.given → ∀ b i,
    step (done.changed (set b)) i = (step done i).map (Filled.changed (set b))
  given : ∀ {done result : Filled α} {i : ι}, step done i = .ok result → name ∈ done.given →
    name ∈ result.given

/-- Giving fields leaves what has been put into the record. -/
theorem Passes.foldlM_changed (h : Passes name set step) {done : Filled α}
    (hname : name ∈ done.given) (b : β) (is : List ι) :
    is.foldlM step (done.changed (set b)) = (is.foldlM step done).map (Filled.changed (set b)) := by
  induction is generalizing done with
  | nil => rfl
  | cons i is ih =>
    rw [List.foldlM_cons, List.foldlM_cons, h.changed hname]
    cases hstep : step done i with
    | error fault => rfl
    | ok next => exact ih (h.given hstep hname)

/-- What the field is given is put into what becomes of all the other fields. -/
theorem Passes.foldlM_append (h : Passes name set step) {item : κ → ι}
    {inner : κ → Except Fault β} {fault : Fault}
    (hitem : ∀ done k, step done (item k) =
      if name ∈ done.given then .error fault
      else (inner k).map fun b => Filled.changed (set b) ⟨name :: done.given, done.value⟩)
    {before after : List ι} {start result : Filled α} {k₀ : κ}
    (hok : (before ++ item k₀ :: after).foldlM step start = .ok result) :
    ∃ rest : Filled α, ∀ k, (before ++ item k :: after).foldlM step start =
      (inner k).map fun b => rest.changed (set b) := by
  rw [List.foldlM_append] at hok
  obtain ⟨done, hdone, hok⟩ := bind_eq_ok.mp hok
  rw [List.foldlM_cons, hitem] at hok
  -- The field has not been given before, since it would be given twice then.
  have hnew : name ∉ done.given := by
    intro hgiven
    rw [if_pos hgiven] at hok
    cases hok
  rw [if_neg hnew] at hok
  obtain ⟨next, hnext, hok⟩ := bind_eq_ok.mp hok
  obtain ⟨b₀, -, rfl⟩ := map_eq_ok.mp hnext
  have hname : name ∈ (Filled.mk (name :: done.given) done.value).given := List.mem_cons_self
  rw [h.foldlM_changed hname] at hok
  obtain ⟨rest, hrest, -⟩ := map_eq_ok.mp hok
  refine ⟨rest, fun k => ?_⟩
  rw [List.foldlM_append, hdone, ok_bind, List.foldlM_cons, hitem, if_neg hnew]
  cases inner k with
  | error fault => rfl
  | ok b =>
    refine (h.foldlM_changed hname b after).trans ?_
    rw [hrest]
    rfl

end

/-- Gives one member of an object that has been read, if it is a field. -/
def giveNamedOne (r : Record α) (room : Nat) (done : Filled α) (m : String × Raw) :
    Except Fault (Filled α) :=
  match r.field? m.1 with
  | some f => give room done f m.2
  | none => .ok done

/-- Gives one member of an object if it is a field, and skips it if not. -/
def giveMember (r : Record α) (room : Nat) (done : Filled α) (m : List Piece × Raw) :
    Except Fault (Filled α) := do
  let name ← textOf m.1
  match r.field? name with
  | some f => give room done f m.2
  | none =>
    m.2.skip
    return done

/-- Members that have been read are given one by one. -/
theorem giveNamed_eq_foldlM (done : Filled α) (ms : List (String × Raw)) :
    r.giveNamed room done ms = ms.foldlM (r.giveNamedOne room) done := by
  induction ms generalizing done with
  | nil => rfl
  | cons m ms ih =>
    obtain ⟨name, v⟩ := m
    rw [giveNamed, List.foldlM_cons, giveNamedOne]
    cases r.field? name with
    | none => exact ih done
    | some f => simp only [ih]

/-- The members of an object are given one by one. -/
theorem giveMembers_eq_foldlM (done : Filled α) (ms : List (List Piece × Raw)) :
    r.giveMembers room done ms = ms.foldlM (r.giveMember room) done := by
  induction ms generalizing done with
  | nil => rfl
  | cons m ms ih =>
    obtain ⟨key, v⟩ := m
    rw [giveMembers, List.foldlM_cons, giveMember]
    cases textOf key with
    | error fault => rfl
    | ok name =>
      rw [ok_bind, ok_bind]
      cases r.field? name with
      | none =>
        dsimp only
        cases v.skip with
        | error fault => rfl
        | ok _ => exact ih done
      | some f => simp only [ih]

/-- Members that have been read leave what the field of a slot put into the record. -/
theorem Slot.passes_giveNamedOne (h : r.Slot name d set) (room : Nat) :
    Passes name set (r.giveNamedOne room) where
  changed hname b m := by
    unfold giveNamedOne
    cases hf : r.field? m.1 with
    | none => rfl
    | some f => exact h.give_changed hname (List.mem_of_find?_eq_some hf) b m.2
  given {done result m} hok hname := by
    unfold giveNamedOne at hok
    cases hf : r.field? m.1 with
    | none =>
      rw [hf] at hok
      obtain rfl := Except.ok.inj hok
      exact hname
    | some f =>
      rw [hf] at hok
      exact mem_given_of_give hok hname

/-- Gives one member of an object if it is a field, and checks it if not. -/
def giveOr (check : Raw → Except Fault Unit) (r : Record α) (room : Nat) (done : Filled α)
    (m : List Piece × Raw) : Except Fault (Filled α) := do
  let name ← textOf m.1
  match r.field? name with
  | some f => give room done f m.2
  | none =>
    check m.2
    return done

/-- Members that are given or checked leave what the field of a slot put into the record. -/
theorem Slot.passes_giveOr (h : r.Slot name d set) (check : Raw → Except Fault Unit) (room : Nat) :
    Passes name set (r.giveOr check room) where
  changed {done} hname b m := by
    unfold giveOr
    cases textOf m.1 with
    | error fault => rfl
    | ok other =>
      rw [ok_bind, ok_bind]
      cases hf : r.field? other with
      | none =>
        dsimp only
        cases check m.2 <;> rfl
      | some f => exact h.give_changed hname (List.mem_of_find?_eq_some hf) b m.2
  given {done result m} hok hname := by
    obtain ⟨other, -, hok⟩ := bind_eq_ok.mp hok
    cases hf : r.field? other with
    | none =>
      rw [hf] at hok
      obtain ⟨_, -, hok⟩ := bind_eq_ok.mp hok
      obtain rfl := Except.ok.inj hok
      exact hname
    | some f =>
      rw [hf] at hok
      exact mem_given_of_give hok hname

/-- The members of an object leave what the field of a slot put into the record. -/
theorem Slot.passes_giveMember (h : r.Slot name d set) (room : Nat) :
    Passes name set (r.giveMember room) :=
  h.passes_giveOr Raw.skip room

/-- The field of a slot is given what its decoder makes of the value, but not twice. -/
theorem Slot.give_eq {f : Field α} (hname : f.name = name)
    (hread : ∀ room v, f.read room v = (d room v).map set) (done : Filled α) (v : Raw) :
    give room done f v =
      if name ∈ done.given then .error (.mismatch (.duplicateField name))
      else (d room v).map fun b => Filled.changed (set b) ⟨name :: done.given, done.value⟩ := by
  subst hname
  rw [give, hread]
  split_ifs
  · rfl
  · cases d room v <;> rfl

/-- The member for a slot is given what the decoder makes of its value, but not twice. -/
theorem Slot.giveOr_eq (h : r.Slot name d set) (check : Raw → Except Fault Unit) (room : Nat)
    {key : List Piece} (hkey : textOf key = .ok name) (done : Filled α) (v : Raw) :
    r.giveOr check room done (key, v) =
      if name ∈ done.given then .error (.mismatch (.duplicateField name))
      else (d room v).map fun b => Filled.changed (set b) ⟨name :: done.given, done.value⟩ := by
  obtain ⟨f, hf, hname, hread⟩ := h.field?_eq
  rw [giveOr, hkey, ok_bind, hf]
  exact Slot.give_eq hname hread done v

/-! ## Arrays -/

/-- The items behind the one for a slot leave what it put into the record. -/
theorem giveItems_changed {fs : List (Field α)} (h : ∀ f ∈ fs, f.Leaves set) (index : Nat) (b : β)
    (a : α) (vs : List Raw) :
    r.giveItems room .closed index (set b a) fs vs =
      (r.giveItems room .closed index a fs vs).map (set b) := by
  induction fs generalizing index a vs with
  | nil => cases vs <;> rfl
  | cons f fs ih =>
    rw [List.forall_mem_cons] at h
    cases vs with
    | nil =>
      -- A field without an item must not be a required one.
      rw [giveItems, giveItems]
      by_cases hrequired : f.required
      · rw [if_pos hrequired, if_pos hrequired]
        rfl
      · rw [if_neg hrequired, if_neg hrequired]
        exact ih h.2 (index + 1) a []
    | cons v vs =>
      rw [giveItems, giveItems]
      cases hread : f.read room v with
      | error fault => rfl
      | ok change =>
        rw [ok_bind, ok_bind, h.1 hread]
        exact ih h.2 (index + 1) (change a) vs

/-- What the field of a slot is given as an item is put into what becomes of all the other items. -/
theorem giveItems_append {f : Field α} (hread : ∀ room v, f.read room v = (d room v).map set)
    {fs : List (Field α)} (hnodup : (fs.map Field.name).Nodup)
    (hothers : ∀ g ∈ fs, g.name ≠ f.name → g.Leaves set) {before after : List Raw}
    (hf : fs[before.length]? = some f) {index : Nat} {a result : α} {v₀ : Raw}
    (hok : r.giveItems room .closed index a fs (before ++ v₀ :: after) = .ok result) :
    ∃ rest, ∀ v, r.giveItems room .closed index a fs (before ++ v :: after) =
      (d room v).map (set · rest) := by
  -- Items and fields are paired off, so the item behind `before` is for the field at that index.
  induction before generalizing index a fs with
  | nil =>
    obtain ⟨fs, rfl⟩ : ∃ rest, fs = f :: rest := by
      cases fs with
      | nil => cases hf
      | cons g fs => exact ⟨fs, congrArg (· :: fs) (Option.some.inj hf)⟩
    rw [List.map_cons, List.nodup_cons] at hnodup
    -- All fields behind this one have other names.
    have hleaves : ∀ g ∈ fs, g.Leaves set := fun g hg =>
      hothers g (List.mem_cons_of_mem _ hg) fun hne => hnodup.1 (hne ▸ List.mem_map_of_mem hg)
    rw [List.nil_append, giveItems, hread] at hok
    obtain ⟨change, hchange, hok⟩ := bind_eq_ok.mp hok
    obtain ⟨b₀, -, rfl⟩ := map_eq_ok.mp hchange
    rw [giveItems_changed hleaves] at hok
    obtain ⟨rest, hrest, -⟩ := map_eq_ok.mp hok
    refine ⟨rest, fun v => ?_⟩
    rw [List.nil_append, giveItems, hread]
    cases d room v with
    | error fault => rfl
    | ok b =>
      refine (giveItems_changed hleaves (index + 1) b a after).trans ?_
      rw [hrest]
      rfl
  | cons w before ih =>
    cases fs with
    | nil => cases hf
    | cons g fs =>
      rw [List.map_cons, List.nodup_cons] at hnodup
      obtain ⟨change, hchange, hok⟩ := bind_eq_ok.mp hok
      obtain ⟨rest, hrest⟩ := ih hnodup.2 (List.forall_mem_cons.mp hothers).2 hf hok
      refine ⟨rest, fun v => ?_⟩
      rw [List.cons_append, giveItems, hchange, ok_bind, hrest]

/-! ## Records -/

/-- Which fields of a record are missing does not depend on what has been given to the others. -/
theorem finish_changed (r : Record α) (change : α → α) (done : Filled α) :
    r.finish (done.changed change) = (r.finish done).map change := by
  unfold finish Filled.changed
  dsimp only
  cases r.fields.find? fun f => f.required && decide (f.name ∉ done.given) <;> rfl

/-- A record reads the value of a field on its own. -/
theorem Slot.decoder_fill (h : r.Slot name d set) {b : Bracket}
    (hb : b.IsField (r.fields.map Field.name) name) {v₀ : Raw} {result : α}
    (hok : r.decoder room (b.fill v₀) = .ok result) :
    ∃ rest, ∀ v, r.decoder room (b.fill v) = (d (room - 1) v).map (set · rest) := by
  obtain ⟨f, hf, hname, hread⟩ := h.field?_eq
  cases b with
  | member before key after =>
    obtain ⟨hopen, hok⟩ := openBracket_bind_eq_ok hok
    have hitem := h.giveOr_eq Raw.skip (room - 1) hb
    obtain ⟨filled, hfilled, hok⟩ := bind_eq_ok.mp hok
    rw [giveMembers_eq_foldlM] at hfilled
    obtain ⟨rest, hrest⟩ := (h.passes_giveMember (room - 1)).foldlM_append hitem hfilled
    rw [hrest] at hfilled
    obtain ⟨b₀, -, rfl⟩ := map_eq_ok.mp hfilled
    obtain ⟨_, -, hok⟩ := bind_eq_ok.mp hok
    rw [finish_changed] at hok
    obtain ⟨a, ha, -⟩ := map_eq_ok.mp hok
    refine ⟨a, fun v => ?_⟩
    rw [Bracket.fill, decoder, hopen, ok_bind, giveMembers_eq_foldlM, hrest]
    cases d (room - 1) v with
    | error fault => rfl
    | ok b =>
      have hfinish := finish_changed r (set b) rest
      rw [ha] at hfinish
      exact hfinish
  | item before after =>
    -- An item goes to the field with its index, and only the field of the slot has that name.
    obtain ⟨hopen, hok⟩ := openBracket_bind_eq_ok hok
    have hindex : (r.fields.map Field.name)[before.length]? = some name := hb
    rw [List.getElem?_map] at hindex
    obtain ⟨g, hg, hgname⟩ := Option.map_eq_some_iff.mp hindex
    have hfound := field?_of_mem h.nodup (List.mem_of_getElem? hg)
    rw [hgname, hf] at hfound
    obtain rfl := Option.some.inj hfound
    have hothers : ∀ g ∈ r.fields, g.name ≠ f.name → g.Leaves set := hname ▸ h.others
    obtain ⟨rest, hrest⟩ := giveItems_append hread h.nodup hothers hg hok
    refine ⟨rest, fun v => ?_⟩
    rw [Bracket.fill, decoder, hopen, ok_bind, hrest]

/-! ## Flattened records -/

/-- Among members that are split, one that is no field of the outer record is read in full and kept.
-/
theorem splitMembers_append {key : List Piece} (hkey : textOf key = .ok name)
    (hforeign : r.field? name = none) {before after : List (List Piece × Raw)} {done : Filled α}
    {v₀ : Raw} {result : Filled α × List (String × Raw)}
    (hok : splitMembers r room done (before ++ (key, v₀) :: after) = .ok result) :
    ∃ filled front behind, ∀ v, splitMembers r room done (before ++ (key, v) :: after) =
      (v.read room).map fun _ => (filled, front ++ (name, v) :: behind) := by
  induction before generalizing done result with
  | nil =>
    rw [List.nil_append, splitMembers, hkey, ok_bind, hforeign] at hok
    obtain ⟨_, -, hok⟩ := bind_eq_ok.mp hok
    obtain ⟨⟨filled, behind⟩, hbehind, -⟩ := bind_eq_ok.mp hok
    refine ⟨filled, [], behind, fun v => ?_⟩
    rw [List.nil_append, splitMembers, hkey, ok_bind, hforeign, hbehind]
    cases v.read room <;> rfl
  | cons m before ih =>
    -- What stands in front is filled in if it is a field, and kept in front if it is none.
    obtain ⟨key', w⟩ := m
    obtain ⟨name', hkey', hok⟩ := bind_eq_ok.mp hok
    cases hf : r.field? name' with
    | some f =>
      rw [hf] at hok
      obtain ⟨next, hnext, hok⟩ := bind_eq_ok.mp hok
      obtain ⟨filled, front, behind, hsplit⟩ := ih hok
      refine ⟨filled, front, behind, fun v => ?_⟩
      rw [List.cons_append, splitMembers, hkey', ok_bind, hf]
      dsimp only
      rw [hnext, ok_bind, hsplit]
    | none =>
      rw [hf] at hok
      obtain ⟨_, hw, hok⟩ := bind_eq_ok.mp hok
      obtain ⟨_, hsplit₀, -⟩ := bind_eq_ok.mp hok
      obtain ⟨filled, front, behind, hsplit⟩ := ih hsplit₀
      refine ⟨filled, (name', w) :: front, behind, fun v => ?_⟩
      rw [List.cons_append, splitMembers, hkey', ok_bind, hf]
      dsimp only
      rw [hw, ok_bind, hsplit]
      cases v.read room <;> rfl

/-- A record that is flattened into another one reads a coordinate on its own. -/
theorem Slot.flattened_fill {γ : Type} {outer : Record γ} {set : Nat → α → α}
    (h : r.Slot name coordinate set) (hforeign : outer.field? name = none) {b : Bracket}
    (hb : b.IsField [] name) {l₀ : Literal} {result : γ × α}
    (hok : flattened outer r room (b.fill (.number l₀)) = .ok result) :
    ∃ c rest, ∀ l, flattened outer r room (b.fill (.number l)) =
      (coordinate room (.number l)).map fun n => (c, set n rest) := by
  obtain ⟨f, hf, hname, hread⟩ := h.field?_eq
  cases b with
  | item before after => cases hb
  | member before key after =>
    -- First the members are split. The number is none of the outer record, so it is kept.
    obtain ⟨hopen, hok⟩ := openBracket_bind_eq_ok hok
    obtain ⟨split, hsplit₀, hok⟩ := bind_eq_ok.mp hok
    obtain ⟨filled, front, behind, hsplit⟩ := splitMembers_append hb hforeign hsplit₀
    rw [hsplit] at hsplit₀
    obtain ⟨_, -, rfl⟩ := map_eq_ok.mp hsplit₀
    obtain ⟨_, -, hok⟩ := bind_eq_ok.mp hok
    obtain ⟨c, hc, hok⟩ := bind_eq_ok.mp hok
    obtain ⟨given, hgiven, hok⟩ := bind_eq_ok.mp hok
    -- Then the members that were kept are given to the inner record, and the number is its field.
    have hitem (done : Filled α) (l : Literal) :
        r.giveNamedOne (room - 1) done (name, .number l) =
          if name ∈ done.given then .error (.mismatch (.duplicateField name))
          else (coordinate room (.number l)).map fun b =>
            Filled.changed (set b) ⟨name :: done.given, done.value⟩ := by
      rw [giveNamedOne, hf]
      exact Slot.give_eq hname hread done (.number l)
    rw [giveNamed_eq_foldlM] at hgiven
    obtain ⟨rest, hrest⟩ := (h.passes_giveNamedOne (room - 1)).foldlM_append hitem hgiven
    rw [hrest] at hgiven
    obtain ⟨n₀, -, rfl⟩ := map_eq_ok.mp hgiven
    obtain ⟨a₀, ha₀, -⟩ := bind_eq_ok.mp hok
    rw [finish_changed] at ha₀
    obtain ⟨a, ha, -⟩ := map_eq_ok.mp ha₀
    refine ⟨c, a, fun l => ?_⟩
    have hcoordinate : coordinate room (.number l) = l.value >>= coordinateOf := rfl
    have hnumber := hrest l
    rw [← giveNamed_eq_foldlM, hcoordinate] at hnumber
    rw [Bracket.fill, flattened, hopen, ok_bind, hsplit, Raw.read, hcoordinate]
    -- A literal that is out of range is refused when it is read in full, with the same fault.
    cases hvalue : l.value with
    | error fault => rfl
    | ok number =>
      rw [hvalue, ok_bind] at hnumber
      change (outer.finish filled >>= fun c => do
        let b ← r.finish (← r.giveNamed (room - 1) r.start (front ++ (name, .number l) :: behind))
        return (c, b)) = (coordinateOf number).map fun n => (c, set n a)
      rw [hc, ok_bind, hnumber]
      cases coordinateOf number with
      | error fault => rfl
      | ok n =>
        have hfinish := finish_changed r (set n) rest
        rw [ha] at hfinish
        exact congrArg (fun x => x >>= fun b => pure (c, b)) hfinish

/-- The members of an object that are no fields, under their names. -/
def foreignMembers (r : Record α) (ms : List (List Piece × Raw)) : List (String × Raw) :=
  ms.filterMap fun m =>
    match textOf m.1 with
    | .ok name => if (r.field? name).isNone then some (name, m.2) else none
    | .error _ => none

/-- Reads a value in full and forgets it. -/
def readInFull (room : Nat) (v : Raw) : Except Fault Unit := do
  let _ ← v.read room

/-- Members are split by giving the fields among them one by one, and by keeping the others. -/
theorem splitMembers_eq_foldlM (done : Filled α) (ms : List (List Piece × Raw)) :
    splitMembers r room done ms =
      (ms.foldlM (r.giveOr (readInFull room) room) done).map fun filled =>
        (filled, r.foreignMembers ms) := by
  induction ms generalizing done with
  | nil => rfl
  | cons m ms ih =>
    obtain ⟨key, v⟩ := m
    rw [splitMembers, List.foldlM_cons, giveOr, foreignMembers, List.filterMap_cons]
    cases textOf key with
    | error fault => rfl
    | ok name =>
      rw [ok_bind, ok_bind]
      dsimp only
      cases hf : r.field? name with
      | some f =>
        dsimp only
        cases give room done f v with
        | error fault => rfl
        | ok next => exact ih next
      | none =>
        -- A member that is no field is kept, and the record is filled in from the others.
        dsimp only [readInFull]
        cases v.read room with
        | error fault => rfl
        | ok value =>
          rw [ok_bind, ih done]
          change _ = Except.map _ (ms.foldlM (r.giveOr (readInFull room) room) done)
          cases ms.foldlM (r.giveOr (readInFull room) room) done <;> rfl

/-- A record that another one is flattened into reads the value of a field on its own. -/
theorem Slot.outer_fill {γ : Type} {inner : Record γ} (h : r.Slot name d set) {b : Bracket}
    (hb : b.IsField [] name) {v₀ : Raw} {result : α × γ}
    (hok : flattened r inner room (b.fill v₀) = .ok result) :
    ∃ a c, ∀ v, flattened r inner room (b.fill v) =
      (d (room - 1) v).map fun x => (set x a, c) := by
  cases b with
  | item before after => cases hb
  | member before key after =>
    obtain ⟨hopen, hok⟩ := openBracket_bind_eq_ok hok
    obtain ⟨split, hsplit, hok⟩ := bind_eq_ok.mp hok
    rw [splitMembers_eq_foldlM] at hsplit
    obtain ⟨filled, hfilled, rfl⟩ := map_eq_ok.mp hsplit
    -- The other members are the same, whatever the field is given.
    have hforeign (v : Raw) : r.foreignMembers (before ++ (key, v) :: after) =
        r.foreignMembers before ++ r.foreignMembers after := by
      obtain ⟨f, hf, -⟩ := h.field?_eq
      have hkey : textOf key = .ok name := hb
      rw [foreignMembers, List.filterMap_append, List.filterMap_cons, hkey]
      dsimp only
      rw [hf]
      rfl
    -- The field is filled in while the object is read.
    have hitem := h.giveOr_eq (readInFull (room - 1)) (room - 1) hb
    obtain ⟨rest, hrest⟩ :=
      (h.passes_giveOr (readInFull (room - 1)) (room - 1)).foldlM_append hitem hfilled
    rw [hrest] at hfilled
    obtain ⟨x₀, -, rfl⟩ := map_eq_ok.mp hfilled
    obtain ⟨_, -, hok⟩ := bind_eq_ok.mp hok
    obtain ⟨a₀, ha₀, hok⟩ := bind_eq_ok.mp hok
    rw [finish_changed] at ha₀
    obtain ⟨a, ha, -⟩ := map_eq_ok.mp ha₀
    obtain ⟨given, hgiven, hok⟩ := bind_eq_ok.mp hok
    obtain ⟨c, hc, -⟩ := bind_eq_ok.mp hok
    rw [hforeign] at hgiven
    refine ⟨a, c, fun v => ?_⟩
    rw [Bracket.fill, flattened, hopen, ok_bind, splitMembers_eq_foldlM, hrest, hforeign]
    cases d (room - 1) v with
    | error fault => rfl
    | ok x =>
      change (r.finish (rest.changed (set x)) >>= fun a => do
        let b ← inner.finish (← inner.giveNamed (room - 1) inner.start
          (r.foreignMembers before ++ r.foreignMembers after))
        return (a, b)) = Except.ok (set x a, c)
      have hfinish : r.finish (rest.changed (set x)) = .ok (set x a) := by
        rw [finish_changed, ha]
        rfl
      rw [hfinish, ok_bind, hgiven, ok_bind, hc]
      rfl

end Record

end ArgdownLens.Wire
