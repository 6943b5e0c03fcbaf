import ArgdownLens.Proofs.Json.Tree
import ArgdownLens.Wire.Encoder

/-!
# Decoders undo writers

Simple values, lists and maps are decoded to what they are written from (`coordinate_ofNat`,
`list_map`, `map_ofMap`), and an object in which names repeat to the map of its members
(`map_object`). An object that is written with the members of a record in the order of its fields is
decoded field by field (`Record.decoder_objectOf`), and so is an object with the members of two
records (`flattened_objectOf`). What comes of the fields is left open, so that a fault of a field is
a fault of the object.
-/

namespace ArgdownLens.Wire

open Json

/-- What follows a result gets it. -/
theorem ok_bind {ε α β : Type} (a : α) (f : α → Except ε β) : (Except.ok a >>= f) = f a := rfl

/-- What comes of two steps comes of the second one, behind the first one. -/
theorem bind_eq_ok {ε α β : Type} {x : Except ε α} {f : α → Except ε β} {b : β} :
    (x >>= f) = .ok b ↔ ∃ a, x = .ok a ∧ f a = .ok b := by
  cases x with
  | error e => exact ⟨nofun, fun ⟨_, h, _⟩ => nomatch h⟩
  | ok a => exact ⟨fun h => ⟨a, rfl, h⟩, fun ⟨_, ha, hf⟩ => Except.ok.inj ha ▸ hf⟩

/-! ## Simple values -/

/-- The literal of a coordinate is its value, since 64 bits are more than 32. -/
theorem value_coordinate {n : Nat} (h : n ≤ maxCoordinate) :
    (Literal.ofNat n).value = .ok (.natural n) := by
  have hle : maxCoordinate ≤ maxSignificand := by decide
  exact value_ofNat (Nat.le_trans h hle)

/-- A coordinate is read back. -/
theorem coordinate_ofNat (room : Nat) {n : Nat} (h : n ≤ maxCoordinate) :
    coordinate room (ofNat n).raw = .ok n := by
  unfold ofNat
  rw [Value.raw, coordinate, value_coordinate h, ok_bind, coordinateOf, if_pos h]

/-- A text is read back. -/
theorem string_string (room : Nat) (s : String) : string room (Value.string s).raw = .ok s :=
  textOf_escapePieces s

/-- A truth value is read back. -/
theorem boolean_bool (room : Nat) (b : Bool) : boolean room (Value.bool b).raw = .ok b := rfl

/-- A value that is there is read as it is. -/
theorem optional_of_ne_null {α : Type} (d : Decoder α) (room : Nat) {v : Value} (h : v ≠ .null) :
    optional d room v.raw = (d room v.raw).map some := by
  cases v with
  | null => exact absurd rfl h
  | number n => cases n <;> rfl
  | _ => rfl

/-! ## Lists and maps -/

section

variable {α : Type} {d : Decoder α} {write : α → Value} {room : Nat}

/-- Items are read back one by one. -/
theorem items_map {as : List α} (h : ∀ a ∈ as, d room (write a).raw = .ok a) :
    items d room (Value.rawItems (as.map write)) = .ok as := by
  induction as with
  | nil => rfl
  | cons a as ih =>
    have hitem := h a List.mem_cons_self
    have hrest := ih fun b hb => h b (List.mem_cons_of_mem a hb)
    rw [List.map_cons, Value.rawItems, items, hitem, ok_bind, hrest, ok_bind]
    rfl

/-- An array is decoded item by item. -/
theorem list_array (d : Decoder α) (room : Nat) (vs : List Value) :
    list d (room + 1) (Value.array vs).raw = items d room (Value.rawItems vs) := by
  rw [Value.raw, list, openBracket, ok_bind]
  exact bind_pure (items d room (Value.rawItems vs))

/-- A list is read back. -/
theorem list_map {as : List α} (h : ∀ a ∈ as, d room (write a).raw = .ok a) :
    list d (room + 1) (Value.array (as.map write)).raw = .ok as := by
  rw [list_array, items_map h]

/-- A list of texts is read back. -/
theorem list_ofStrings (room : Nat) (texts : List String) :
    list string (room + 1) (ofStrings texts).raw = .ok texts :=
  list_map fun s _ => string_string room s

/-- A name that is not there goes to the end. -/
theorem insertEntry_of_notMem {key : String} {value : α} {entries : List (String × α)}
    (h : key ∉ entryKeys entries) : insertEntry key value entries = entries ++ [(key, value)] := by
  induction entries with
  | nil => rfl
  | cons e entries ih =>
    obtain ⟨k, v⟩ := e
    simp only [entryKeys, List.map_cons, List.mem_cons, not_or] at h
    rw [insertEntry, if_neg fun he => h.1 he.symm, ih h.2, List.cons_append]

/-- Members are read back one by one and put in one after the other. -/
theorem mapMembers_map {ι : Type} {is : List ι} {name : ι → String} {value : ι → α}
    {written : ι → Value} (h : ∀ i ∈ is, d room (written i).raw = .ok (value i))
    (done : OrderedMap α) :
    mapMembers d room done (Value.rawMembers (is.map fun i => (name i, written i))) =
      .ok (is.foldl (fun m i => m.insert (name i) (value i)) done) := by
  induction is generalizing done with
  | nil => rfl
  | cons i is ih =>
    have hvalue := h i List.mem_cons_self
    have hrest := ih (fun j hj => h j (List.mem_cons_of_mem i hj)) (done.insert (name i) (value i))
    rw [List.map_cons, Value.rawMembers, mapMembers, textOf_escapePieces, ok_bind, hvalue, ok_bind,
      hrest, List.foldl_cons]

/-- An object is read back as the map of its members, put in one after the other. -/
theorem map_object {ι : Type} {is : List ι} (name : ι → String) {value : ι → α}
    {written : ι → Value} (h : ∀ i ∈ is, d room (written i).raw = .ok (value i)) :
    map d (room + 1) (Value.object (is.map fun i => (name i, written i))).raw =
      .ok (.ofList (is.map fun i => (name i, value i))) := by
  rw [Value.raw, map, openBracket, ok_bind, mapMembers_map h, ok_bind, OrderedMap.ofList,
    List.foldl_map]
  rfl

/-- Entries under new names are put behind those that are there. -/
theorem foldl_insert_of_nodup {entries : List (String × α)} (done result : OrderedMap α)
    (hresult : result.entries = done.entries ++ entries) :
    entries.foldl (fun m e => m.insert e.1 e.2) done = result := by
  induction entries generalizing done with
  | nil =>
    rw [List.append_nil] at hresult
    obtain ⟨entries, hnodup⟩ := done
    obtain ⟨entries', hnodup'⟩ := result
    cases hresult
    rfl
  | cons e entries ih =>
    obtain ⟨key, a⟩ := e
    -- The names of the result do not repeat, so this one is not among those in front of it.
    have hnew : key ∉ entryKeys done.entries := by
      have hnodup := result.nodup
      rw [hresult, entryKeys, List.map_append, List.nodup_append] at hnodup
      intro hkey
      exact hnodup.2.2 key hkey key List.mem_cons_self rfl
    have hinsert : (done.insert key a).entries = done.entries ++ [(key, a)] :=
      insertEntry_of_notMem hnew
    rw [List.foldl_cons]
    apply ih
    rw [hinsert, hresult, List.append_assoc, List.singleton_append]

/-- A map is read back with its entries in their order. -/
theorem map_ofMap {m : OrderedMap α} (h : ∀ e ∈ m.entries, d room (write e.2).raw = .ok e.2) :
    map d (room + 1) (ofMap write m).raw = .ok m := by
  have hentries : OrderedMap.ofList (m.entries.map fun e => (e.1, e.2)) = m := by
    rw [List.map_id']
    exact foldl_insert_of_nodup .empty m rfl
  have hread := map_object Prod.fst h
  rw [hentries] at hread
  exact hread

end

/-! ## Records -/

/-- The members that have a value. -/
def present (ms : List (String × Option Value)) : List (String × Value) :=
  ms.filterMap fun (name, v) => v.map (name, ·)

namespace Record

variable {α : Type}

/-- The members are named like the fields, in order, and those of the fields that must be given have
values. -/
def Aligned : List (Field α) → List (String × Option Value) → Prop
  | [], [] => True
  | f :: fs, (name, v) :: ms =>
    f.name = name ∧ (f.required = true → v.isSome = true) ∧ Aligned fs ms
  | _, _ => False

/-- Gives each field the member at its place, as far as that has a value. -/
def readFields (room : Nat) : List (Field α) → List (String × Option Value) → α → Except Fault α
  | f :: fs, (_, some v) :: ms, a => do
    let set ← f.read room v.raw
    readFields room fs ms (set a)
  | _ :: fs, (_, none) :: ms, a => readFields room fs ms a
  | _, _, a => .ok a

/-- Without repeated names, a field is found under its name. -/
theorem field?_of_mem {r : Record α} (hnodup : (r.fields.map Field.name).Nodup) {f : Field α}
    (hf : f ∈ r.fields) : r.field? f.name = some f := by
  unfold field?
  generalize r.fields = fs at hnodup hf
  induction fs with
  | nil => cases hf
  | cons g fs ih =>
    rw [List.map_cons, List.nodup_cons] at hnodup
    rcases List.mem_cons.mp hf with rfl | hf
    · rw [List.find?_cons_of_pos (by simp)]
    · have hne : g.name ≠ f.name := fun he => hnodup.1 (he ▸ List.mem_map_of_mem hf)
      rw [List.find?_cons_of_neg (by simpa using hne), ih hnodup.2 hf]

/-- A member of a field that is not given yet is given to it. -/
theorem giveMembers_cons {r : Record α} {f : Field α} (hfound : r.field? f.name = some f)
    (room : Nat) {done : Filled α} (hnew : f.name ∉ done.given) (v : Raw)
    (ms : List (List Piece × Raw)) :
    r.giveMembers room done ((escapePieces f.name, v) :: ms) =
      f.read room v >>= fun set =>
        r.giveMembers room ⟨f.name :: done.given, set done.value⟩ ms := by
  rw [giveMembers, textOf_escapePieces, ok_bind, hfound]
  dsimp only
  rw [give, if_neg hnew]
  cases f.read room v with
  | error fault => rfl
  | ok set => rfl

/-- The members of fields that are not given yet are given to them in order. -/
theorem giveMembers_present (r : Record α) (room : Nat) {fs : List (Field α)}
    {ms : List (String × Option Value)} (haligned : Aligned fs ms)
    (hnodup : (fs.map Field.name).Nodup) (hfound : ∀ f ∈ fs, r.field? f.name = some f)
    (done : Filled α) (hnew : ∀ f ∈ fs, f.name ∉ done.given) :
    r.giveMembers room done (Value.rawMembers (present ms)) =
      (readFields room fs ms done.value).map fun a =>
        ⟨(entryKeys (present ms)).reverse ++ done.given, a⟩ := by
  fun_induction Aligned fs ms generalizing done with
  | case1 => rfl
  | case2 f fs name v ms ih =>
    obtain ⟨rfl, -, haligned⟩ := haligned
    rw [List.map_cons, List.nodup_cons] at hnodup
    obtain ⟨hf, hfound⟩ := List.forall_mem_cons.mp hfound
    obtain ⟨hfresh, hnew⟩ := List.forall_mem_cons.mp hnew
    have hrest := ih haligned hnodup.2 hfound
    cases v with
    | none => exact hrest done hnew
    | some v =>
      have hpresent : Value.rawMembers (present ((f.name, some v) :: ms)) =
          (escapePieces f.name, v.raw) :: Value.rawMembers (present ms) := rfl
      have hkeys : entryKeys (present ((f.name, some v) :: ms)) =
          f.name :: entryKeys (present ms) := rfl
      rw [hpresent, giveMembers_cons hf room hfresh, readFields, hkeys, List.reverse_cons,
        List.append_assoc]
      -- The name is given now, and since no other field has it, the others are still new.
      cases f.read room v.raw with
      | error fault => rfl
      | ok set =>
        refine hrest ⟨f.name :: done.given, set done.value⟩ ?_
        intro g hg
        rw [List.mem_cons, not_or]
        refine ⟨?_, hnew g hg⟩
        intro he
        exact hnodup.1 (he ▸ List.mem_map_of_mem hg)
  | case3 => cases haligned

/-- Every field that must be given is among the members that have values. -/
theorem mem_entryKeys_of_required {fs : List (Field α)} {ms : List (String × Option Value)}
    (haligned : Aligned fs ms) {f : Field α} (hf : f ∈ fs) (hrequired : f.required = true) :
    f.name ∈ entryKeys (present ms) := by
  fun_induction Aligned fs ms with
  | case1 => cases hf
  | case2 g fs name v ms ih =>
    obtain ⟨rfl, hsome, haligned⟩ := haligned
    rcases List.mem_cons.mp hf with rfl | hf
    · -- The member of a field that must be given has a value.
      obtain ⟨v, rfl⟩ := Option.isSome_iff_exists.mp (hsome hrequired)
      exact List.mem_cons_self
    · have hrest := ih haligned hf
      cases v with
      | none => exact hrest
      | some v => exact List.mem_cons_of_mem _ hrest
  | case3 => cases haligned

/-- A record is complete when all of its members have been given. -/
theorem finish_of_aligned (r : Record α) {ms : List (String × Option Value)}
    (haligned : Aligned r.fields ms) (a : α) :
    r.finish ⟨(entryKeys (present ms)).reverse ++ [], a⟩ = .ok a := by
  have hnone : (r.fields.find? fun f =>
      f.required && f.name ∉ (entryKeys (present ms)).reverse ++ []) = none := by
    rw [List.find?_eq_none]
    intro f hf
    by_cases hrequired : f.required = true
    · simpa [hrequired] using mem_entryKeys_of_required haligned hf hrequired
    · simp [hrequired]
  unfold finish
  rw [hnone]

/-- Members in the order of the fields are given to them, and the record is complete. -/
theorem giveMembers_bind_finish (r : Record α) (room : Nat) {ms : List (String × Option Value)}
    (haligned : Aligned r.fields ms) (hnodup : (r.fields.map Field.name).Nodup) :
    (r.giveMembers room r.start (Value.rawMembers (present ms)) >>= r.finish) =
      readFields room r.fields ms r.blank := by
  rw [giveMembers_present r room haligned hnodup (fun f hf => field?_of_mem hnodup hf) r.start
    fun f _ => List.not_mem_nil]
  show (readFields room r.fields ms r.blank).map _ >>= r.finish = _
  cases readFields room r.fields ms r.blank with
  | error fault => rfl
  | ok a => exact finish_of_aligned r haligned a

/-- An object with the members of a record is decoded field by field. -/
theorem decoder_objectOf (r : Record α) (room : Nat) {ms : List (String × Option Value)}
    (haligned : Aligned r.fields ms) (hnodup : (r.fields.map Field.name).Nodup) :
    r.decoder (room + 1) (objectOf ms).raw = readFields room r.fields ms r.blank :=
  giveMembers_bind_finish r room haligned hnodup

/-- A field whose value is read is given it. -/
theorem readFields_some {f : Field α} {room : Nat} {v : Value} {set : α → α}
    (h : f.read room v.raw = .ok set) (name : String) (fs : List (Field α))
    (ms : List (String × Option Value)) (a : α) :
    readFields room (f :: fs) ((name, some v) :: ms) a = readFields room fs ms (set a) := by
  rw [readFields, h, ok_bind]

/-- A field that is left blank if it has no value is given what there is. -/
theorem readFields_optional {β : Type} {d : Decoder β} {write : β → Value} {room : Nat}
    {value : Option β} (h : ∀ b, value = some b → d room (write b).raw = .ok b)
    (hwrite : ∀ b, write b ≠ .null) (field name : String) (set : Option β → α → α)
    (fs : List (Field α)) (ms : List (String × Option Value)) {a : α} (hblank : set none a = a) :
    readFields room (.standard field (optional d) set :: fs) ((name, value.map write) :: ms) a =
      readFields room fs ms (set value a) := by
  cases value with
  | none =>
    rw [hblank]
    rfl
  | some b =>
    -- A written value is not taken for a missing one.
    have hread : (Field.standard field (optional d) set).read room (write b).raw =
        .ok (set (some b)) := by
      unfold Field.standard
      dsimp only
      rw [optional_of_ne_null d room (hwrite b), h b rfl]
      rfl
    exact readFields_some hread name fs ms a

end Record

/-- A field that must be given is given what its decoder reads. -/
theorem Field.read_mandatory {α β : Type} {d : Decoder β} {room : Nat} {v : Raw} {b : β}
    (h : d room v = .ok b) (name : String) (set : β → α → α) :
    (Field.mandatory name d set).read room v = .ok (set b) := by
  unfold Field.mandatory
  dsimp only
  rw [h]
  rfl

/-- A field that may be left out is given what its decoder reads. -/
theorem Field.read_standard {α β : Type} {d : Decoder β} {room : Nat} {v : Raw} {b : β}
    (h : d room v = .ok b) (name : String) (set : β → α → α) :
    (Field.standard name d set).read room v = .ok (set b) :=
  read_mandatory h name set

/-! ## Records with the fields of another one among theirs -/

/-- Whether a member is a field of the record. -/
def Record.knows {α : Type} (r : Record α) (m : String × Value) : Bool :=
  (r.field? m.1).isSome

/-- A member is a field of the record if a field is found under its name. -/
theorem Record.knows_eq {α : Type} (r : Record α) (name : String) (v : Value) :
    r.knows (name, v) = (r.field? name).isSome := rfl

/-- The members of the outer record are given to it, and the others are kept. -/
theorem splitMembers_rawMembers {α : Type} (r : Record α) (room : Nat)
    {ms : List (String × Value)}
    (hread : ∀ m ∈ ms, r.knows m = false → ∃ value, m.2.raw.read room = .ok value)
    (done : Filled α) :
    splitMembers r room done (Value.rawMembers ms) =
      (r.giveMembers room done (Value.rawMembers (ms.filter r.knows))).map fun given =>
        (given, (ms.filter fun m => !r.knows m).map fun m => (m.1, m.2.raw)) := by
  induction ms generalizing done with
  | nil => rfl
  | cons m ms ih =>
    have hrest := ih fun m' hm' => hread m' (List.mem_cons_of_mem m hm')
    obtain ⟨name, v⟩ := m
    cases hf : r.field? name with
    | some f =>
      -- A field of the record: it is given to it.
      have hknows : r.knows (name, v) = true := by
        rw [Record.knows_eq, hf, Option.isSome_some]
      have hgiven : ((name, v) :: ms).filter r.knows = (name, v) :: ms.filter r.knows :=
        List.filter_cons_of_pos hknows
      have hkept : (((name, v) :: ms).filter fun m => !r.knows m) = ms.filter fun m => !r.knows m :=
        List.filter_cons_of_neg (by simp [hknows])
      rw [hgiven, hkept, Value.rawMembers, splitMembers, Value.rawMembers, Record.giveMembers,
        textOf_escapePieces, ok_bind, ok_bind, hf]
      dsimp only
      cases Record.give room done f v.raw with
      | error fault => rfl
      | ok done => exact hrest done
    | none =>
      -- No field of the record: it is kept, and its value is passed over.
      have hknows : r.knows (name, v) = false := by
        rw [Record.knows_eq, hf, Option.isSome_none]
      obtain ⟨value, hvalue⟩ := hread (name, v) List.mem_cons_self hknows
      have hgiven : ((name, v) :: ms).filter r.knows = ms.filter r.knows :=
        List.filter_cons_of_neg (by simp [hknows])
      have hkept : (((name, v) :: ms).filter fun m => !r.knows m) =
          (name, v) :: ms.filter fun m => !r.knows m := List.filter_cons_of_pos (by simp [hknows])
      rw [hgiven, hkept, Value.rawMembers, splitMembers, textOf_escapePieces, ok_bind, hf]
      dsimp only
      rw [hvalue, ok_bind, hrest done]
      cases r.giveMembers room done (Value.rawMembers (ms.filter r.knows)) with
      | error fault => rfl
      | ok done => rfl

/-- Members that were kept are given like those of an object. -/
theorem giveNamed_map {α : Type} (r : Record α) (room : Nat) {ms : List (String × Value)}
    (h : ∀ m ∈ ms, r.knows m = true) (done : Filled α) :
    r.giveNamed room done (ms.map fun m => (m.1, m.2.raw)) =
      r.giveMembers room done (Value.rawMembers ms) := by
  induction ms generalizing done with
  | nil => rfl
  | cons m ms ih =>
    obtain ⟨f, hf⟩ := Option.isSome_iff_exists.mp (h m List.mem_cons_self)
    have hrest := ih fun m' hm' => h m' (List.mem_cons_of_mem m hm')
    rw [List.map_cons, Record.giveNamed, Value.rawMembers, Record.giveMembers,
      textOf_escapePieces, ok_bind, hf]
    dsimp only
    cases Record.give room done f m.2.raw with
    | error fault => rfl
    | ok done => exact hrest done

/-- Members that are named like the fields of a record are fields of it. -/
theorem knows_of_mem_present {α : Type} {r : Record α} {fs : List (Field α)}
    (hfound : ∀ f ∈ fs, r.field? f.name = some f) {ms : List (String × Option Value)}
    (haligned : Record.Aligned fs ms) : ∀ m ∈ present ms, r.knows m = true := by
  fun_induction Record.Aligned fs ms with
  | case1 => exact List.forall_mem_nil _
  | case2 f fs name v ms ih =>
    obtain ⟨rfl, -, haligned⟩ := haligned
    obtain ⟨hf, hfound⟩ := List.forall_mem_cons.mp hfound
    have hrest := ih hfound haligned
    cases v with
    | none => exact hrest
    | some v =>
      have hpresent : present ((f.name, some v) :: ms) = (f.name, v) :: present ms := rfl
      rw [hpresent, List.forall_mem_cons]
      refine ⟨?_, hrest⟩
      rw [Record.knows_eq, hf, Option.isSome_some]
  | case3 => cases haligned

/-- Kept members in the order of the fields are given to them, and the record is complete. -/
theorem giveNamed_bind_finish {α : Type} (r : Record α) (room : Nat)
    {ms : List (String × Option Value)} (haligned : Record.Aligned r.fields ms)
    (hnodup : (r.fields.map Field.name).Nodup) :
    (r.giveNamed room r.start ((present ms).map fun m => (m.1, m.2.raw)) >>= r.finish) =
      Record.readFields room r.fields ms r.blank := by
  have hknows := knows_of_mem_present (fun f hf => Record.field?_of_mem hnodup hf) haligned
  rw [giveNamed_map r room hknows, r.giveMembers_bind_finish room haligned hnodup]

/-- An object with the members of two records is decoded field by field, first those of the outer
record and then those of the inner one. -/
theorem flattened_objectOf {α β : Type} {outer : Record α} {inner : Record β} (room : Nat)
    (ms outerMs innerMs : List (String × Option Value))
    (houterMs : (present ms).filter outer.knows = present outerMs)
    (hinnerMs : ((present ms).filter fun m => !outer.knows m) = present innerMs)
    (houter : Record.Aligned outer.fields outerMs)
    (houterNodup : (outer.fields.map Field.name).Nodup)
    (hinner : Record.Aligned inner.fields innerMs)
    (hinnerNodup : (inner.fields.map Field.name).Nodup)
    (hread : ∀ m ∈ present innerMs, ∃ value, m.2.raw.read room = .ok value) :
    flattened outer inner (room + 1) (objectOf ms).raw = (do
      let a ← Record.readFields room outer.fields outerMs outer.blank
      let b ← Record.readFields room inner.fields innerMs inner.blank
      return (a, b)) := by
  -- The members that the outer record does not know are those of the inner one.
  have hread' : ∀ m ∈ present ms, outer.knows m = false →
      ∃ value, m.2.raw.read room = .ok value := by
    intro m hm hknows
    refine hread m ?_
    rw [← hinnerMs, List.mem_filter, hknows]
    exact ⟨hm, rfl⟩
  have hsplit := splitMembers_rawMembers outer room hread' outer.start
  rw [houterMs, hinnerMs] at hsplit
  have hobject : (objectOf ms).raw = .object (Value.rawMembers (present ms)) .closed := rfl
  rw [← outer.giveMembers_bind_finish room houter houterNodup,
    ← giveNamed_bind_finish inner room hinner hinnerNodup, hobject, flattened, openBracket,
    ok_bind, hsplit]
  -- A fault of the outer record comes first.
  cases outer.giveMembers room outer.start (Value.rawMembers (present outerMs)) with
  | error fault => rfl
  | ok done =>
    have hcheck : Ending.closed.check = .ok () := rfl
    dsimp only [Except.map]
    rw [ok_bind, ok_bind]
    dsimp only
    rw [hcheck, ok_bind]
    simp only [bind_assoc]

end ArgdownLens.Wire
