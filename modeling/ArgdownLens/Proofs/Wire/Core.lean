import ArgdownLens.Proofs.Json.Grammar
import ArgdownLens.Proofs.Wire.Bytes

/-!
# The core of a value

What is left of a value without the members that are no fields of their record and without the
values that are not looked at (`Part.core`) is all that a decoder can tell of it: it gives the same
result, or the same fault, for an unbroken value and for its core (`ReadsCore`). Each way to put
decoders together hands this on, as the parts of a value are put together in the same way.
-/

namespace ArgdownLens.Wire

open Json

namespace Part

/-- Whether a key is none of the names of some fields. -/
def unknownIn (parts : List (String × Part)) (key : List Piece) : Bool :=
  match textOf key with
  | .ok name => (parts.lookup name).isNone
  | .error _ => false

/-- Whether the member under a key is no field of its record. -/
def foreign : Part → List Piece → Bool
  | .fields ps, key => unknownIn ps key
  | .tree, key => unknownIn nodeFields key
  | _, _ => false

/-- A value, unless it is not looked at. -/
def keep : Part → Raw → Raw
  | .nothing, _ => .null
  | _, v => v

mutual

/-- A value without what is not read of it. -/
def core (p : Part) : Raw → Raw
  | .array items ending => p.keep (.array (coreItems p 0 items) ending)
  | .object members ending => p.keep (.object (coreMembers p members) ending)
  | v => p.keep v

/-- Some items, the first of which has the index `i`, without what is not read of them. -/
def coreItems (p : Part) (i : Nat) : List Raw → List Raw
  | [] => []
  | v :: vs => (p.item i).core v :: coreItems p (i + 1) vs

/-- Some members without what is not read of them. -/
def coreMembers (p : Part) : List (List Piece × Raw) → List (List Piece × Raw)
  | [] => []
  | (key, v) :: ms =>
    if p.foreign key then coreMembers p ms
    else (key, (p.member key).core v) :: coreMembers p ms

end

/-- Where something is read, the value is kept. -/
theorem core_of_ne {p : Part} (hp : p ≠ .nothing) (v : Raw) :
    p.core v = match v with
      | .array vs e => .array (coreItems p 0 vs) e
      | .object ms e => .object (coreMembers p ms) e
      | v => v := by
  have hkeep (w : Raw) : p.keep w = w := by
    cases p with
    | nothing => exact absurd rfl hp
    | _ => rfl
  cases v <;> exact hkeep _

/-- Where nothing is read, nothing is left. -/
theorem core_nothing (v : Raw) : nothing.core v = .null := by
  cases v <;> rfl

mutual

/-- Where all is read, all is left. -/
theorem core_whole (v : Raw) : whole.core v = v := by
  match v with
  | .null | .bool _ | .number _ | .string _ | .broken _ => rfl
  | .array vs e => exact congrArg (Raw.array · e) (coreItems_whole 0 vs)
  | .object ms e => exact congrArg (Raw.object · e) (coreMembers_whole ms)

/-- Where all is read, all items are left. -/
theorem coreItems_whole (i : Nat) (vs : List Raw) : whole.coreItems i vs = vs := by
  match vs with
  | [] => rfl
  | v :: vs =>
    rw [coreItems, item, core_whole v, coreItems_whole (i + 1) vs]

/-- Where all is read, all members are left. -/
theorem coreMembers_whole (ms : List (List Piece × Raw)) : whole.coreMembers ms = ms := by
  match ms with
  | [] => rfl
  | (key, v) :: ms =>
    have hkey : ¬ whole.foreign key := nofun
    rw [coreMembers, if_neg hkey, member, core_whole v, coreMembers_whole ms]

end

end Part

/-! ## Decoders -/

/-- A reader reads no more of an unbroken value than the core of a part. -/
def ReadsCore {α : Type} (read : Raw → Except Fault α) (p : Part) : Prop :=
  ∀ v, v.Unbroken → read (p.core v) = read v

/-- All of a value is its core. -/
theorem readsCore_whole {α : Type} (read : Raw → Except Fault α) : ReadsCore read .whole := by
  intro v _
  rw [Part.core_whole]

/-- What a result is turned into does not matter. -/
theorem ReadsCore.map {α β : Type} {read : Raw → Except Fault α} {p : Part} (h : ReadsCore read p)
    (f : α → β) : ReadsCore (fun v => return f (← read v)) p := by
  intro v hv
  dsimp only
  rw [h v hv]

/-- A reader that gives no result reads nothing. -/
theorem readsCore_error {α : Type} (fault : Fault) (p : Part) :
    ReadsCore (fun _ => (.error fault : Except Fault α)) p :=
  fun _ _ => rfl

/-- Of a value that may be `null`, the core of the value is read. -/
theorem readsCore_optional {α : Type} {d : Decoder α} {room : Nat} {p : Part} (hp : p ≠ .nothing)
    (h : ReadsCore (d room) p) : ReadsCore (optional d room) p := by
  intro v hv
  have hsome := h.map some v hv
  rw [Part.core_of_ne hp] at hsome ⊢
  cases v with
  | null => rfl
  | _ => exact hsome

/-- Of a value that is passed over, nothing is read. -/
theorem readsCore_ignored (room : Nat) : ReadsCore (ignored room) .nothing := by
  intro v hv
  rw [Part.core_nothing]
  exact (Raw.skip_of_unbroken v hv).symm

/-! ## Lists and maps -/

section

variable {α : Type} {d : Decoder α} {room : Nat} {p q : Part}

/-- Of items, the core is read. -/
theorem items_core (hd : ReadsCore (d room) q) (hitem : ∀ i, p.item i = q) {vs : List Raw} (i : Nat)
    (hu : Raw.UnbrokenItems vs) : items d room (p.coreItems i vs) = items d room vs := by
  induction vs generalizing i with
  | nil => rfl
  | cons v vs ih => rw [Part.coreItems, items, items, hitem, hd v hu.1, ih (i + 1) hu.2]

/-- Of a list, the core of its items is read. -/
theorem readsCore_list (hd : ∀ room, ReadsCore (d room) q) (hp : p ≠ .nothing)
    (hitem : ∀ i, p.item i = q) (room : Nat) : ReadsCore (list d room) p := by
  intro v hv
  rw [Part.core_of_ne hp]
  cases v with
  | array vs e =>
    cases room with
    | zero => rfl
    | succ room => rw [list, list, openBracket, ok_bind, ok_bind, items_core (hd room) hitem 0 hv.2]
  | _ => rfl

/-- Of a list, the core of each item is read. -/
theorem readsCore_listEach (hd : ∀ room, ReadsCore (d room) q) (room : Nat) :
    ReadsCore (list d room) (.each q) := by
  have heach : Part.each q ≠ .nothing := nofun
  exact readsCore_list hd heach (fun _ => rfl) room

/-- Of the values of members, the core is read. -/
theorem mapMembers_core (hd : ReadsCore (d room) q) {ms : List (List Piece × Raw)}
    (hu : Raw.UnbrokenMembers ms) (done : OrderedMap α) :
    mapMembers d room done ((Part.each q).coreMembers ms) = mapMembers d room done ms := by
  induction ms generalizing done with
  | nil => rfl
  | cons m ms ih =>
    obtain ⟨key, v⟩ := m
    have hkey : ¬ (Part.each q).foreign key := nofun
    rw [Part.coreMembers, if_neg hkey, mapMembers, mapMembers, Part.member, hd v hu.1]
    simp only [ih hu.2]

/-- Of a map, the core of its values is read. -/
theorem readsCore_map (hd : ∀ room, ReadsCore (d room) q) (room : Nat) :
    ReadsCore (map d room) (.each q) := by
  have heach : Part.each q ≠ .nothing := nofun
  intro v hv
  rw [Part.core_of_ne heach]
  cases v with
  | object ms e =>
    cases room with
    | zero => rfl
    | succ room => rw [map, map, openBracket, ok_bind, ok_bind, mapMembers_core (hd room) hv.2]
  | _ => rfl

end

/-! ## Records -/

namespace Record

variable {α : Type} {r : Record α} {room : Nat} {p : Part}

/-- The fields have the names of the parts, in order, and their decoders read the core of these. -/
def ReadBy (room : Nat) : List (Field α) → List (String × Part) → Prop :=
  List.Forall₂ fun f e => f.name = e.1 ∧ ReadsCore (f.read room) e.2

/-- A field and its part are found under the same names. -/
theorem find?_of_readBy {fs : List (Field α)} {ps : List (String × Part)} (h : ReadBy room fs ps)
    (name : String) : Option.Rel (fun f q => ReadsCore (f.read room) q)
      (fs.find? fun f => f.name = name) (ps.lookup name) := by
  induction h with
  | nil => exact .none
  | @cons f e fs ps hf _ ih =>
    obtain ⟨other, q⟩ := e
    obtain ⟨rfl, hread⟩ := hf
    rw [OrderedMap.lookup_cons_eq, List.find?_cons]
    by_cases hname : name = f.name
    · rw [if_pos hname, hname]
      simpa using Option.Rel.some hread
    · rw [if_neg hname]
      simpa [Ne.symm hname] using ih

/-- What a part says about the members and items of a record is what a list says about its fields.
-/
structure Describes (p : Part) (ps : List (String × Part)) : Prop where
  reads : p ≠ .nothing
  foreign : ∀ key, p.foreign key = Part.unknownIn ps key
  member : ∀ key, p.member key = Part.ofKey ps key
  item : ∀ i, p.item i = (ps[i]?.map Prod.snd).getD .nothing

variable {fs : List (Field α)} {ps : List (String × Part)} {title : String} {blank : α}

/-- The members of an object are given to their fields as far as they are read, and the others may
be left out. -/
theorem giveMembers_core (h : ReadBy room fs ps) (hp : Describes p ps)
    {ms : List (List Piece × Raw)} (hu : Raw.UnbrokenMembers ms) (done : Filled α) :
    giveMembers ⟨title, blank, fs⟩ room done (p.coreMembers ms) =
      giveMembers ⟨title, blank, fs⟩ room done ms := by
  induction ms generalizing done with
  | nil => rfl
  | cons m ms ih =>
    obtain ⟨key, v⟩ := m
    obtain ⟨hv, hms⟩ := hu
    have hforeign := hp.foreign key
    have hmember := hp.member key
    unfold Part.unknownIn at hforeign
    unfold Part.ofKey at hmember
    rw [Part.coreMembers]
    cases hname : textOf key with
    | error fault =>
      rw [hname] at hforeign
      rw [if_neg (Bool.eq_false_iff.mp hforeign), giveMembers, giveMembers, hname]
      rfl
    | ok name =>
      have hfind := find?_of_readBy h name
      rw [hname] at hforeign hmember
      dsimp only at hforeign hmember
      cases hf : fs.find? fun f => f.name = name with
      | none =>
        -- What is no field is passed over, or is not there any more.
        rw [hf] at hfind
        generalize ps.lookup name = q? at *
        cases hfind
        have hdropped : p.foreign key = true := hforeign
        rw [if_pos hdropped, ih hms, giveMembers, hname, ok_bind, field?, hf,
          Raw.skip_of_unbroken v hv]
        rfl
      | some f =>
        rw [hf] at hfind
        generalize ps.lookup name = q? at *
        cases hfind with
        | @some _ q hread =>
          have hkept : ¬ p.foreign key = true := Bool.eq_false_iff.mp hforeign
          have hq : p.member key = q := hmember
          have hgive : give room done f (q.core v) = give room done f v := by
            unfold give
            rw [hread v hv]
          rw [if_neg hkept, giveMembers, giveMembers, hname, ok_bind, ok_bind, field?, hf, hq]
          dsimp only
          rw [hgive]
          simp only [ih hms]

/-- The items of an array are given to their fields as far as they are read. -/
theorem giveItems_core {ending : Ending} (h : ReadBy room fs ps) {index : Nat}
    (hitem : ∀ i, p.item (index + i) = (ps[i]?.map Prod.snd).getD .nothing) {vs : List Raw}
    (hu : Raw.UnbrokenItems vs) (value : α) :
    r.giveItems room ending index value fs (p.coreItems index vs) =
      r.giveItems room ending index value fs vs := by
  induction h generalizing index value vs with
  | nil => cases vs <;> rfl
  | @cons f e fs ps hf _ ih =>
    cases vs with
    | nil => rfl
    | cons v vs =>
      have hfirst : p.item index = e.2 := hitem 0
      have hnext (i : Nat) : p.item (index + 1 + i) = (ps[i]?.map Prod.snd).getD .nothing := by
        rw [Nat.add_assoc, Nat.add_comm 1 i]
        exact hitem (i + 1)
      rw [Part.coreItems, giveItems, giveItems, hfirst, hf.2 v hu.1]
      simp only [ih hnext hu.2]

/-- Of a record, the core of its fields is read. -/
theorem readsCore_decoder (h : ∀ room, ReadBy room fs ps) (hp : Describes p ps) (room : Nat) :
    ReadsCore (decoder ⟨title, blank, fs⟩ room) p := by
  intro v hv
  rw [Part.core_of_ne hp.reads]
  cases v with
  | array vs e =>
    cases room with
    | zero => rfl
    | succ room =>
      have hitem (i : Nat) : p.item (0 + i) = (ps[i]?.map Prod.snd).getD .nothing := by
        rw [Nat.zero_add, hp.item]
      exact giveItems_core (h room) hitem hv.2 blank
  | object ms e =>
    cases room with
    | zero => rfl
    | succ room =>
      rw [decoder, decoder, openBracket, ok_bind, ok_bind, giveMembers_core (h room) hp hv.2]
  | _ => rfl

/-- What a part says about a record field by field is what it says about its members and items. -/
theorem describes_fields (ps : List (String × Part)) : Describes (.fields ps) ps :=
  ⟨nofun, fun _ => rfl, fun _ => rfl, fun _ => rfl⟩

/-- What is read of a node is what is read of its fields. -/
theorem describes_tree : Describes .tree Part.nodeFields :=
  ⟨nofun, fun _ => rfl, fun _ => rfl, fun _ => rfl⟩

end Record

/-! ## Answers -/

open Record (readsCore_decoder describes_fields describes_tree)

/-- A field of which all is read is read by its core. -/
theorem readBy_whole {α : Type} {f : Field α} {name : String} (hname : f.name = name) (room : Nat) :
    f.name = name ∧ ReadsCore (f.read room) .whole :=
  ⟨hname, readsCore_whole _⟩

/-- Of a span, the core is read. -/
theorem readsCore_span (room : Nat) : ReadsCore (span room) Part.span := by
  refine readsCore_decoder (fun room => ?_) (describes_fields _) room
  exact .cons (readBy_whole rfl room) (.cons (readBy_whole rfl room)
    (.cons (readBy_whole rfl room) (.cons (readBy_whole rfl room) .nil)))

/-- Of a relation, the core is read. -/
theorem readsCore_relation (room : Nat) : ReadsCore (relation room) Part.relation := by
  refine readsCore_decoder (fun room => ?_) (describes_fields _) room
  exact .cons (readBy_whole rfl room) (.cons (readBy_whole rfl room)
    (.cons (readBy_whole rfl room) .nil))

/-- Of a class of statements, the core is read. -/
theorem readsCore_equivalenceClass (room : Nat) :
    ReadsCore (equivalenceClass room) Part.equivalenceClass := by
  refine readsCore_decoder (fun room => ?_) (describes_fields _) room
  have hrelations := readsCore_listEach readsCore_relation room
  exact .cons (readBy_whole rfl room) (.cons (readBy_whole rfl room)
    (.cons ⟨rfl, hrelations.map _⟩ (.cons (readBy_whole rfl room) .nil)))

/-- Of an argument, the core is read. -/
theorem readsCore_argument (room : Nat) : ReadsCore (argument room) Part.argument := by
  refine readsCore_decoder (fun room => ?_) (describes_fields _) room
  have hrelations := readsCore_listEach readsCore_relation room
  exact .cons (readBy_whole rfl room) (.cons (readBy_whole rfl room)
    (.cons (readBy_whole rfl room) (.cons ⟨rfl, hrelations.map _⟩
      (.cons (readBy_whole rfl room) .nil))))

/-- Of a parser error, the core is read. -/
theorem readsCore_parserError (room : Nat) :
    ReadsCore (parserErrorRecord.decoder room) Part.parserError := by
  refine readsCore_decoder (fun room => ?_) (describes_fields _) room
  exact .cons (readBy_whole rfl room) (.cons ⟨rfl, (readsCore_span room).map _⟩ .nil)

/-- Of a record of one text that may be left out, the core is read. -/
theorem readsCore_soleText (title field : String) (room : Nat) :
    ReadsCore (optional (soleText title field) room) (.fields [(field, .whole)]) := by
  have hfields : Part.fields [(field, .whole)] ≠ .nothing := nofun
  refine readsCore_optional hfields (readsCore_decoder (fun room => ?_) (describes_fields _) room)
  exact .cons (readBy_whole rfl room) .nil

/-- Of a node, the core is read, given that it is read of its children. -/
theorem readsCore_nodeRecord {children : Decoder (List LooseNode)}
    (h : ∀ room, ReadsCore (children room) (.each .tree)) (room : Nat) :
    ReadsCore ((nodeRecord children).decoder room) .tree := by
  refine readsCore_decoder (fun room => ?_) describes_tree room
  have hsole (title field : String) := readsCore_soleText title field room
  exact .cons ⟨rfl, (hsole _ _).map _⟩ (.cons (readBy_whole rfl room)
    (.cons (readBy_whole rfl room) (.cons (readBy_whole rfl room) (.cons (readBy_whole rfl room)
    (.cons (readBy_whole rfl room) (.cons (readBy_whole rfl room) (.cons (readBy_whole rfl room)
    (.cons (readBy_whole rfl room) (.cons (readBy_whole rfl room)
    (.cons ⟨rfl, (hsole _ _).map _⟩ (.cons ⟨rfl, (hsole _ _).map _⟩
    (.cons ⟨rfl, (hsole _ _).map _⟩ (.cons ⟨rfl, (h room).map _⟩ .nil)))))))))))))

/-- Of a tree, the core is read at all depths. -/
theorem readsCore_node (room : Nat) : ReadsCore (node room) .tree := by
  match room with
  | 0 | 1 =>
    exact readsCore_nodeRecord (readsCore_listEach fun _ => readsCore_error .malformed .tree) _
  | room + 2 =>
    exact readsCore_nodeRecord (readsCore_listEach fun _ => readsCore_node room) (room + 2)

/-- Of an answer, the core is read. -/
theorem readsCore_responseRecord (room : Nat) :
    ReadsCore (responseRecord.decoder room) Part.answer := by
  refine readsCore_decoder (fun room => ?_) (describes_fields _) room
  have htags : Part.each .nothing ≠ .nothing := nofun
  have hdictionary := readsCore_optional htags (readsCore_map readsCore_ignored room)
  exact .cons ⟨rfl, (readsCore_node room).map _⟩
    (.cons ⟨rfl, (readsCore_map readsCore_equivalenceClass room).map _⟩
    (.cons ⟨rfl, (readsCore_map readsCore_argument room).map _⟩
    (.cons ⟨rfl, hdictionary.map _⟩
    (.cons ⟨rfl, (readsCore_listEach readsCore_parserError room).map _⟩ .nil))))

/-! ## Whole texts -/

/-- What a whole tree is decoded as. -/
def decodeTree (v : Raw) : Except DecodeError Response :=
  match responseRecord.decoder maxDepth v with
  | .error fault => .error (.json fault)
  | .ok loose => loose.close

/-- A text that spells an unbroken tree is decoded as the tree. -/
theorem decode_of_spells {v : Raw} (hv : v.Unbroken) {text : String}
    (h : Spells v.tokens text.toList) : decode text = decodeTree v := by
  unfold decode decodeSymbols decodeTree readWhole
  rw [Raw.ofSymbols_of_spells hv h]
  dsimp only
  cases responseRecord.decoder maxDepth v <;> rfl

/-- Texts that spell unbroken trees with the same core are decoded alike. -/
theorem decode_eq_of_core_eq {v w : Raw} (hv : v.Unbroken) (hw : w.Unbroken)
    (hcore : Part.answer.core v = Part.answer.core w) {s t : String}
    (hs : Spells v.tokens s.toList) (ht : Spells w.tokens t.toList) : decode s = decode t := by
  have hread : responseRecord.decoder maxDepth v = responseRecord.decoder maxDepth w := by
    rw [← readsCore_responseRecord maxDepth v hv, hcore, readsCore_responseRecord maxDepth w hw]
  rw [decode_of_spells hv hs, decode_of_spells hw ht, decodeTree, hread, decodeTree]

end ArgdownLens.Wire
