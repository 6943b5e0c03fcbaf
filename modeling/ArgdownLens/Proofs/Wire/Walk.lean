import ArgdownLens.Proofs.Wire.Part

/-!
# What decoders read of a value

A decoder walks a part of the values it is given (`Walks`) if it gives a result only where the
strings of the part have no stray bytes, and does not depend on stray bytes elsewhere. Decoders of
lists, maps and records walk what is made of the parts that the decoders inside of them walk
(`walks_list`, `walks_map`, `Record.walks_decoder`).
-/

namespace ArgdownLens.Wire

open Json

/-- A reader walks a part of the values it is given: it gives a result only where the value is
unbroken and the strings of the part have no stray bytes, and does not depend on stray bytes
elsewhere. -/
structure Walks {α : Type} (read : Raw → Except Fault α) (p : Part) : Prop where
  sound : ∀ {v a}, read v = .ok a → v.Unbroken ∧ p.Clean v
  mended : ∀ {v}, v.Unbroken → p.Clean v → read v.mended = read v

/-- A reader that gives results of strict values only walks all of them. -/
theorem walks_whole {α : Type} {read : Raw → Except Fault α}
    (h : ∀ v a, read v = .ok a → v.Unbroken ∧ Part.whole.Clean v) : Walks read .whole where
  sound := h _ _
  mended hu hc := by rw [mended_of_strict _ hu hc]

/-- What is refused is not read. -/
theorem refuse_ne_ok {α : Type} (expected : String) (v : Raw) (a : α) :
    refuse expected v ≠ .ok a := by
  intro h
  obtain ⟨_, -, h⟩ := bind_eq_ok.mp h
  cases h

/-- A value whose strings are read is refused in the same way when it is mended. -/
theorem refuse_mended {α : Type} (expected : String) {p : Part} (hp : p ≠ .nothing) {v : Raw}
    (hu : v.Unbroken) (hc : p.Clean v) :
    (refuse expected v.mended : Except Fault α) = refuse expected v := by
  cases v with
  | string pieces => rw [Raw.mended, mended_pieces (hc hp)]
  | broken found => exact hu.elim
  | _ => rfl

/-- What a result is turned into does not matter. -/
theorem Walks.map {α β : Type} {read : Raw → Except Fault α} {p : Part} (h : Walks read p)
    (f : α → β) : Walks (fun v => return f (← read v)) p where
  sound hread := by
    obtain ⟨_, hv, -⟩ := bind_eq_ok.mp hread
    exact h.sound hv
  mended hu hc := by rw [h.mended hu hc]

/-- A reader that gives no result walks anything. -/
theorem walks_error {α : Type} (fault : Fault) (p : Part) :
    Walks (fun _ => (.error fault : Except Fault α)) p where
  sound hread := by cases hread
  mended _ _ := rfl

/-! ## Simple values -/

/-- Where a string is read, all is read. -/
theorem walks_stringAs (expected : String) (room : Nat) :
    Walks (stringAs expected room) .whole := by
  apply walks_whole
  intro v a h
  cases v with
  | string pieces => exact ⟨trivial, fun _ => notMem_stray h⟩
  | _ => exact (refuse_ne_ok _ _ a h).elim

/-- Where a string is read, all is read. -/
theorem walks_string (room : Nat) : Walks (string room) .whole :=
  walks_stringAs "a string" room

/-- Where a truth value is read, all is read. -/
theorem walks_boolean (room : Nat) : Walks (boolean room) .whole := by
  apply walks_whole
  intro v a h
  cases v with
  | bool b => exact ⟨trivial, trivial⟩
  | _ => exact (refuse_ne_ok _ _ a h).elim

/-- Where a coordinate is read, all is read. -/
theorem walks_coordinate (room : Nat) : Walks (coordinate room) .whole := by
  apply walks_whole
  intro v a h
  cases v with
  | number l => exact ⟨trivial, trivial⟩
  | _ => exact (refuse_ne_ok _ _ a h).elim

/-- Of a value that may be `null`, what is read of the value is read. -/
theorem walks_optional {α : Type} {d : Decoder α} {room : Nat} {p : Part} (h : Walks (d room) p) :
    Walks (optional d room) p := by
  have hsome := h.map some
  refine ⟨fun {v a} hread => ?_, fun {v} hu hc => ?_⟩
  · cases v with
    | null => exact ⟨trivial, trivial⟩
    | _ => exact hsome.sound hread
  · cases v with
    | null => rfl
    | _ => exact hsome.mended hu hc

/-- Of a value that is passed over, nothing is read. -/
theorem walks_ignored (room : Nat) : Walks (ignored room) .nothing where
  sound hread := ⟨unbroken_of_skip _ hread, Part.clean_nothing _⟩
  mended _ _ := skip_mended _

/-! ## Lists and maps -/

/-- Items are unbroken one by one. -/
theorem unbrokenItems_iff {vs : List Raw} : Raw.UnbrokenItems vs ↔ ∀ v ∈ vs, v.Unbroken := by
  induction vs with
  | nil => simp [Raw.UnbrokenItems]
  | cons v vs ih => simp [Raw.UnbrokenItems, ih]

/-- Members are unbroken one by one. -/
theorem unbrokenMembers_iff {ms : List (List Piece × Raw)} :
    Raw.UnbrokenMembers ms ↔ ∀ m ∈ ms, m.2.Unbroken := by
  induction ms with
  | nil => simp [Raw.UnbrokenMembers]
  | cons m ms ih => simp [Raw.UnbrokenMembers, ih]

/-- An object is unbroken and clean if it is closed and its members are. -/
theorem object_sound {ms : List (List Piece × Raw)} {e : Ending} {p : Part} (he : e.check = .ok ())
    (h : ∀ m ∈ ms, m.2.Unbroken ∧ p.Clear m.1 ∧ (p.member m.1).Clean m.2) :
    (Raw.object ms e).Unbroken ∧ p.Clean (.object ms e) :=
  ⟨⟨closed_of_check he, unbrokenMembers_iff.mpr fun m hm => (h m hm).1⟩,
    Part.cleanMembers_iff.mpr fun m hm => (h m hm).2⟩

section

variable {α : Type} {d : Decoder α} {room : Nat} {p q : Part}

/-- Items that are decoded are unbroken and clean. -/
theorem items_ok (hd : Walks (d room) q) {vs : List Raw} {as : List α}
    (h : items d room vs = .ok as) : ∀ v ∈ vs, v.Unbroken ∧ q.Clean v := by
  induction vs generalizing as with
  | nil => exact List.forall_mem_nil _
  | cons v vs ih =>
    obtain ⟨a, hv, h⟩ := bind_eq_ok.mp h
    obtain ⟨as, hvs, -⟩ := bind_eq_ok.mp h
    exact List.forall_mem_cons.mpr ⟨hd.sound hv, ih hvs⟩

/-- Items are decoded in the same way when they are mended. -/
theorem items_mended (hd : Walks (d room) q) (hitem : ∀ i, p.item i = q) {vs : List Raw} {i : Nat}
    (hu : Raw.UnbrokenItems vs) (hc : p.CleanItems i vs) :
    items d room (Raw.mendedItems vs) = items d room vs := by
  induction vs generalizing i with
  | nil => rfl
  | cons v vs ih =>
    have hv := hd.mended hu.1 (hitem i ▸ hc.1)
    rw [Raw.mendedItems, items, items, hv, ih hu.2 hc.2]

/-- Of a list, what is read of its items is read. -/
theorem walks_list (hd : ∀ room, Walks (d room) q) (hp : p ≠ .nothing) (hitem : ∀ i, p.item i = q)
    (room : Nat) : Walks (list d room) p := by
  refine ⟨fun {v as} h => ?_, fun {v} hu hc => ?_⟩
  · cases v with
    | array vs e =>
      obtain ⟨inner, -, h⟩ := bind_eq_ok.mp h
      obtain ⟨_, hvs, h⟩ := bind_eq_ok.mp h
      obtain ⟨_, he, -⟩ := bind_eq_ok.mp h
      have hitems := items_ok (hd inner) hvs
      refine ⟨⟨closed_of_check he, unbrokenItems_iff.mpr fun w hw => (hitems w hw).1⟩,
        Part.cleanItems_iff.mpr fun j w hw => ?_⟩
      rw [hitem]
      exact (hitems w (List.mem_of_getElem? hw)).2
    | _ => exact (refuse_ne_ok _ _ as h).elim
  · cases v with
    | array vs e =>
      obtain ⟨rfl, hu⟩ := hu
      cases room with
      | zero => rfl
      | succ room =>
        rw [Raw.mended, list, list, openBracket, ok_bind, ok_bind,
          items_mended (hd room) hitem hu hc]
        rfl
    | _ => exact refuse_mended "a sequence" hp hu hc

/-- Of a list whose items are read in full, all is read. -/
theorem walks_wholeList (hd : ∀ room, Walks (d room) .whole) (room : Nat) :
    Walks (list d room) .whole := by
  have hwhole : Part.whole ≠ .nothing := by simp
  exact walks_list hd hwhole (fun _ => rfl) room

/-- Of a list, what is read of each item is read. -/
theorem walks_listEach (hd : ∀ room, Walks (d room) q) (room : Nat) :
    Walks (list d room) (.each q) := by
  have heach : Part.each q ≠ .nothing := by simp
  exact walks_list hd heach (fun _ => rfl) room

/-- Members that are decoded are unbroken and clean. -/
theorem mapMembers_ok (hd : Walks (d room) q) {done result : OrderedMap α}
    {ms : List (List Piece × Raw)} (h : mapMembers d room done ms = .ok result) :
    ∀ m ∈ ms, m.2.Unbroken ∧ (Part.each q).Clear m.1 ∧ q.Clean m.2 := by
  induction ms generalizing done with
  | nil => exact List.forall_mem_nil _
  | cons m ms ih =>
    obtain ⟨name, hkey, h⟩ := bind_eq_ok.mp h
    obtain ⟨a, hv, h⟩ := bind_eq_ok.mp h
    obtain ⟨hu, hc⟩ := hd.sound hv
    exact List.forall_mem_cons.mpr ⟨⟨hu, fun _ => notMem_stray hkey, hc⟩, ih h⟩

/-- Members are decoded in the same way when they are mended. -/
theorem mapMembers_mended (hd : Walks (d room) q) {ms : List (List Piece × Raw)}
    (hu : Raw.UnbrokenMembers ms) (hc : (Part.each q).CleanMembers ms) (done : OrderedMap α) :
    mapMembers d room done (Raw.mendedMembers ms) = mapMembers d room done ms := by
  induction ms generalizing done with
  | nil => rfl
  | cons m ms ih =>
    obtain ⟨key, v⟩ := m
    obtain ⟨hv, hms⟩ := hu
    obtain ⟨hkey, hcv, hcms⟩ := hc
    rw [Raw.mendedMembers, mapMembers, mapMembers, mended_pieces (hkey (by simp)), hd.mended hv hcv]
    simp only [ih hms hcms]

/-- Of a map, the names are read and what is read of its values. -/
theorem walks_map (hd : ∀ room, Walks (d room) q) (room : Nat) : Walks (map d room) (.each q) := by
  have hp : Part.each q ≠ .nothing := by simp
  refine ⟨fun {v result} h => ?_, fun {v} hu hc => ?_⟩
  · cases v with
    | object ms e =>
      obtain ⟨inner, -, h⟩ := bind_eq_ok.mp h
      obtain ⟨_, hms, h⟩ := bind_eq_ok.mp h
      obtain ⟨_, he, -⟩ := bind_eq_ok.mp h
      exact object_sound he (mapMembers_ok (hd inner) hms)
    | _ => exact (refuse_ne_ok _ _ result h).elim
  · cases v with
    | object ms e =>
      obtain ⟨rfl, hu⟩ := hu
      cases room with
      | zero => rfl
      | succ room =>
        rw [Raw.mended, map, map, openBracket, ok_bind, ok_bind, mapMembers_mended (hd room) hu hc]
        rfl
    | _ => exact refuse_mended "a map" hp hu hc

end

/-! ## Records -/

namespace Record

variable {α : Type} {r : Record α} {room : Nat} {p : Part}

/-- The decoders of some fields, the first of which has the index `i`, walk the parts that `p` has
for items. -/
def Ordered (room : Nat) (p : Part) (i : Nat) (fs : List (Field α)) : Prop :=
  ∀ {j f}, fs[j]? = some f → Walks (f.read room) (p.item (i + j))

/-- Behind the first field, the index is greater by one. -/
theorem Ordered.tail {i : Nat} {f : Field α} {fs : List (Field α)}
    (h : Ordered room p i (f :: fs)) : Ordered room p (i + 1) fs := by
  intro j g hg
  rw [Nat.add_right_comm, Nat.add_assoc]
  exact h (j := j + 1) hg

/-- The decoders of the fields of a record, by name and in order, walk the parts that `p` has for
them, and `p` has nothing for other members. -/
structure Laid (r : Record α) (room : Nat) (p : Part) : Prop where
  reads : p ≠ .nothing
  named : ∀ {key name f}, textOf key = .ok name → r.field? name = some f →
    Walks (f.read room) (p.member key)
  unnamed : ∀ {key name}, textOf key = .ok name → r.field? name = none → p.member key = .nothing
  ordered : Ordered room p 0 r.fields

/-- A value that is given to a field was read by it. -/
theorem give_ok {done result : Filled α} {f : Field α} {v : Raw}
    (h : give room done f v = .ok result) : ∃ set, f.read room v = .ok set := by
  unfold give at h
  split_ifs at h
  obtain ⟨set, hread, -⟩ := bind_eq_ok.mp h
  exact ⟨set, hread⟩

/-- The members of an object are given to the fields of their names or passed over. -/
theorem giveMembers_ok (hr : r.Laid room p) {done result : Filled α}
    {ms : List (List Piece × Raw)} (h : r.giveMembers room done ms = .ok result) :
    ∀ m ∈ ms, m.2.Unbroken ∧ p.Clear m.1 ∧ (p.member m.1).Clean m.2 := by
  induction ms generalizing done with
  | nil => exact List.forall_mem_nil _
  | cons m ms ih =>
    obtain ⟨key, v⟩ := m
    obtain ⟨name, hkey, h⟩ := bind_eq_ok.mp h
    have hclear : p.Clear key := fun _ => notMem_stray hkey
    rw [List.forall_mem_cons]
    cases hf : r.field? name with
    | none =>
      rw [hf] at h
      obtain ⟨_, hskip, h⟩ := bind_eq_ok.mp h
      rw [hr.unnamed hkey hf]
      exact ⟨⟨unbroken_of_skip v hskip, hclear, Part.clean_nothing v⟩, ih h⟩
    | some f =>
      rw [hf] at h
      obtain ⟨next, hgive, h⟩ := bind_eq_ok.mp h
      obtain ⟨set, hread⟩ := give_ok hgive
      obtain ⟨hu, hc⟩ := (hr.named hkey hf).sound hread
      exact ⟨⟨hu, hclear, hc⟩, ih h⟩

/-- The members of an object are given in the same way when they are mended. -/
theorem giveMembers_mended (hr : r.Laid room p) {ms : List (List Piece × Raw)}
    (hu : Raw.UnbrokenMembers ms) (hc : p.CleanMembers ms) (done : Filled α) :
    r.giveMembers room done (Raw.mendedMembers ms) = r.giveMembers room done ms := by
  induction ms generalizing done with
  | nil => rfl
  | cons m ms ih =>
    obtain ⟨key, v⟩ := m
    obtain ⟨hv, hms⟩ := hu
    obtain ⟨hkey, hcv, hcms⟩ := hc
    rw [Raw.mendedMembers, giveMembers, giveMembers, mended_pieces (hkey hr.reads), skip_mended]
    cases hname : textOf key with
    | error fault => rfl
    | ok name =>
      rw [ok_bind, ok_bind]
      cases hf : r.field? name with
      | none => simp only [ih hms hcms]
      | some f =>
        have hread := (hr.named hname hf).mended hv hcv
        simp only [give, hread, ih hms hcms]

/-- The items of an array are given to the fields in order, up to its end. -/
theorem giveItems_ok {ending : Ending} {index : Nat} {value result : α} {fs : List (Field α)}
    {vs : List Raw} (hr : Ordered room p index fs)
    (h : r.giveItems room ending index value fs vs = .ok result) :
    ending = .closed ∧ Raw.UnbrokenItems vs ∧ p.CleanItems index vs := by
  induction fs generalizing index value vs with
  | nil =>
    cases vs with
    | nil =>
      obtain ⟨_, he, -⟩ := bind_eq_ok.mp h
      exact ⟨closed_of_check he, trivial, trivial⟩
    | cons v vs => cases h
  | cons f fs ih =>
    cases vs with
    | nil =>
      -- The array is at its end, whether the fields without items may be missing or not.
      obtain ⟨_, he, -⟩ := bind_eq_ok.mp h
      exact ⟨closed_of_check he, trivial, trivial⟩
    | cons v vs =>
      obtain ⟨set, hread, h⟩ := bind_eq_ok.mp h
      obtain ⟨hu, hc⟩ := (hr (j := 0) rfl).sound hread
      obtain ⟨he, hus, hcs⟩ := ih hr.tail h
      exact ⟨he, ⟨hu, hus⟩, hc, hcs⟩

/-- The items of an array are given in the same way when they are mended. -/
theorem giveItems_mended {ending : Ending} {index : Nat} {fs : List (Field α)} {vs : List Raw}
    (hr : Ordered room p index fs) (hu : Raw.UnbrokenItems vs) (hc : p.CleanItems index vs)
    (value : α) :
    r.giveItems room ending index value fs (Raw.mendedItems vs) =
      r.giveItems room ending index value fs vs := by
  induction fs generalizing index value vs with
  | nil => cases vs <;> rfl
  | cons f fs ih =>
    cases vs with
    | nil => rfl
    | cons v vs =>
      have hread := (hr (j := 0) rfl).mended hu.1 hc.1
      rw [Raw.mendedItems, giveItems, giveItems, hread]
      simp only [ih hr.tail hu.2 hc.2]

/-- Of a record, the names are read, and of the fields what their decoders read. -/
theorem walks_decoder (hr : ∀ room, r.Laid room p) (room : Nat) : Walks (r.decoder room) p := by
  refine ⟨fun {v a} h => ?_, fun {v} hu hc => ?_⟩
  · cases v with
    | array vs e =>
      obtain ⟨inner, -, h⟩ := bind_eq_ok.mp h
      obtain ⟨he, hu, hc⟩ := giveItems_ok (hr inner).ordered h
      exact ⟨⟨he, hu⟩, hc⟩
    | object ms e =>
      obtain ⟨inner, -, h⟩ := bind_eq_ok.mp h
      obtain ⟨_, hms, h⟩ := bind_eq_ok.mp h
      obtain ⟨_, he, -⟩ := bind_eq_ok.mp h
      exact object_sound he (giveMembers_ok (hr inner) hms)
    | _ => exact (refuse_ne_ok _ _ a h).elim
  · -- Without room for the bracket the record and the mended one are refused alike.
    cases v with
    | array vs e =>
      obtain ⟨rfl, hu⟩ := hu
      cases room with
      | zero => rfl
      | succ room => exact giveItems_mended (hr room).ordered hu hc r.blank
    | object ms e =>
      obtain ⟨rfl, hu⟩ := hu
      cases room with
      | zero => rfl
      | succ room =>
        rw [Raw.mended, decoder, decoder, openBracket, ok_bind, ok_bind,
          giveMembers_mended (hr room) hu hc]
        rfl
    | _ => exact refuse_mended r.title (hr room).reads hu hc

/-- The fields have the names of the parts, in order, and their decoders walk these. -/
def WalkedBy (room : Nat) : List (Field α) → List (String × Part) → Prop
  | [], [] => True
  | f :: fs, (name, q) :: ps => f.name = name ∧ Walks (f.read room) q ∧ WalkedBy room fs ps
  | _, _ => False

section

variable {fs : List (Field α)} {ps : List (String × Part)} (h : WalkedBy room fs ps)

include h

/-- A field and its part are found under the same names. -/
theorem find?_of_walkedBy (name : String) : Option.Rel (fun f q => Walks (f.read room) q)
    (fs.find? fun f => f.name = name) (ps.lookup name) := by
  fun_induction WalkedBy room fs ps with
  | case1 => exact .none
  | case2 f fs other q ps ih =>
    obtain ⟨rfl, hwalks, hrest⟩ := h
    rw [OrderedMap.lookup_cons_eq, List.find?_cons]
    by_cases hname : name = f.name
    · rw [if_pos hname, hname]
      simpa using Option.Rel.some hwalks
    · rw [if_neg hname]
      simpa [Ne.symm hname] using ih hrest
  | case3 => exact h.elim

/-- A field and its part stand at the same index. -/
theorem getElem?_of_walkedBy {i : Nat} {f : Field α} (hf : fs[i]? = some f) :
    Walks (f.read room) ((ps[i]?.map Prod.snd).getD .nothing) := by
  fun_induction WalkedBy room fs ps generalizing i with
  | case1 => cases hf
  | case2 g fs name q ps ih =>
    cases i with
    | zero =>
      cases hf
      exact h.2.1
    | succ i => exact ih h.2.2 hf
  | case3 => exact h.elim

/-- Parts that the fields walk, by name and in order, lay out the record. -/
theorem laid_of_walkedBy {title : String} {blank : α} (hp : p ≠ .nothing)
    (hmember : ∀ key, p.member key = Part.ofKey ps key)
    (hitem : ∀ i, p.item i = (ps[i]?.map Prod.snd).getD .nothing) :
    Laid ⟨title, blank, fs⟩ room p := by
  -- A field and the part of its name are found together, or neither is.
  have hfind {key : List Piece} {name : String} (hname : textOf key = .ok name) :
      ∃ q?, Option.Rel (fun f q => Walks (f.read room) q) (fs.find? fun f => f.name = name) q? ∧
        p.member key = q?.getD .nothing := by
    refine ⟨ps.lookup name, find?_of_walkedBy h name, ?_⟩
    rw [hmember, Part.ofKey, hname]
  refine ⟨hp, fun {key name f} hname hf => ?_, fun {key name} hname hf => ?_, fun {i f} hf => ?_⟩
  · obtain ⟨q?, hrel, hq⟩ := hfind hname
    unfold field? at hf
    rw [hf] at hrel
    rw [hq]
    cases hrel with
    | some hwalks => exact hwalks
  · obtain ⟨q?, hrel, hq⟩ := hfind hname
    unfold field? at hf
    rw [hf] at hrel
    rw [hq]
    cases hrel
    rfl
  · rw [Nat.zero_add, hitem]
    exact getElem?_of_walkedBy h hf

end

/-- Of a record, the names are read, and of each field its part. -/
theorem walks_fields {ps : List (String × Part)} (h : ∀ room, WalkedBy room r.fields ps)
    (room : Nat) : Walks (r.decoder room) (.fields ps) := by
  have hreads : Part.fields ps ≠ .nothing := by simp
  exact walks_decoder
    (fun room => laid_of_walkedBy (h room) hreads (fun _ => rfl) fun _ => rfl) room

end Record

/-! ## Records with the fields of another one among theirs -/

section

variable {α β : Type} {room : Nat}

/-- The members of an object are given to the fields of a record or read in full. -/
theorem splitMembers_ok {r : Record α} (hr : ∀ f ∈ r.fields, Walks (f.read room) .whole)
    {done : Filled α} {result : Filled α × List (String × Raw)} {ms : List (List Piece × Raw)}
    (h : splitMembers r room done ms = .ok result) :
    Raw.UnbrokenMembers ms ∧ Part.whole.CleanMembers ms := by
  induction ms generalizing done result with
  | nil => exact ⟨trivial, trivial⟩
  | cons m ms ih =>
    obtain ⟨key, v⟩ := m
    obtain ⟨name, hkey, h⟩ := bind_eq_ok.mp h
    -- The name is read in either case, so no byte of the key is broken.
    have hclear : Part.whole.Clear key := fun _ => notMem_stray hkey
    cases hf : r.field? name with
    | none =>
      rw [hf] at h
      obtain ⟨_, hread, h⟩ := bind_eq_ok.mp h
      obtain ⟨_, hms, -⟩ := bind_eq_ok.mp h
      obtain ⟨hu, hc⟩ := strict_of_read room v hread
      exact ⟨⟨hu, (ih hms).1⟩, hclear, hc, (ih hms).2⟩
    | some f =>
      rw [hf] at h
      obtain ⟨next, hgive, hms⟩ := bind_eq_ok.mp h
      obtain ⟨set, hread⟩ := Record.give_ok hgive
      obtain ⟨hu, hc⟩ := (hr f (List.mem_of_find?_eq_some hf)).sound hread
      exact ⟨⟨hu, (ih hms).1⟩, hclear, hc, (ih hms).2⟩

/-- Of an object with the fields of two records, all is read. -/
theorem walks_flattened {outer : Record α} {inner : Record β}
    (hr : ∀ room, ∀ f ∈ outer.fields, Walks (f.read room) .whole) :
    Walks (flattened outer inner room) .whole := by
  apply walks_whole
  intro v a h
  cases v with
  | object ms e =>
    obtain ⟨inner, -, h⟩ := bind_eq_ok.mp h
    obtain ⟨_, hms, h⟩ := bind_eq_ok.mp h
    obtain ⟨_, he, -⟩ := bind_eq_ok.mp h
    obtain ⟨hu, hc⟩ := splitMembers_ok (hr inner) hms
    exact ⟨⟨closed_of_check he, hu⟩, hc⟩
  | _ => exact (refuse_ne_ok _ _ a h).elim

end

/-! ## Whole texts -/

/-- A whole text is read if its tree is, and nothing stands behind that. -/
theorem readWhole_eq_ok {α : Type} {read : Raw → Except Fault α} {text : List Symbol} {a : α} :
    readWhole read text = .ok a ↔
      read (Raw.ofSymbols text).1 = .ok a ∧ (Raw.ofSymbols text).2 = false := by
  unfold readWhole
  rw [bind_eq_ok]
  constructor
  · rintro ⟨b, hread, h⟩
    split_ifs at h with hmore
    cases h
    exact ⟨hread, Bool.eq_false_iff.mpr hmore⟩
  · rintro ⟨hread, hmore⟩
    refine ⟨a, hread, ?_⟩
    rw [hmore]
    rfl

/-- The first fault of a whole text is that of its tree. If the tree has none, it is that something
stands behind it. -/
theorem readWhole_eq_error {α : Type} {read : Raw → Except Fault α} {text : List Symbol}
    {fault : Fault} :
    readWhole read text = .error fault ↔
      read (Raw.ofSymbols text).1 = .error fault ∨
        fault = .malformed ∧ (Raw.ofSymbols text).2 ∧ ∃ a, read (Raw.ofSymbols text).1 = .ok a := by
  unfold readWhole
  obtain ⟨v, more⟩ := Raw.ofSymbols text
  dsimp only
  cases read v with
  | error other =>
    change Except.error other = .error fault ↔ _
    simp
  | ok a =>
    change (if more then Except.error Fault.malformed else .ok a) = .error fault ↔ _
    cases more <;> simp [eq_comm]

/-- A text is read exactly if the mended text is read and the strings that are read have no stray
bytes. -/
theorem Walks.readWhole_eq_ok_iff {α : Type} {read : Raw → Except Fault α} {p : Part}
    (h : Walks read p) (text : List Symbol) (a : α) :
    readWhole read text = .ok a ↔
      readWhole read (text.map Symbol.mended) = .ok a ∧ p.Clean (Raw.ofSymbols text).1 := by
  rw [readWhole_eq_ok, readWhole_eq_ok]
  rcases Raw.ofSymbols_mended text with htree | ⟨hbroken, hbroken'⟩
  · rw [htree]
    constructor
    · rintro ⟨hread, hmore⟩
      obtain ⟨hu, hc⟩ := h.sound hread
      exact ⟨⟨(h.mended hu hc).trans hread, hmore⟩, hc⟩
    · rintro ⟨⟨hread, hmore⟩, hc⟩
      have hu := Raw.unbroken_of_mended _ (h.sound hread).1
      exact ⟨(h.mended hu hc).symm.trans hread, hmore⟩
  · -- Neither text is read, since both trees are broken or have something behind them.
    constructor
    · rintro ⟨hread, hmore⟩
      exact absurd ⟨(h.sound hread).1, hmore⟩ hbroken
    · rintro ⟨⟨hread, hmore⟩, -⟩
      exact absurd ⟨(h.sound hread).1, hmore⟩ hbroken'

end ArgdownLens.Wire
