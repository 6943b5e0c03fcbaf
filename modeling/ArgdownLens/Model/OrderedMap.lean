/-!
# Maps in order of insertion

A map from names keeps its entries in the order in which their names first came in. Putting a name
in again replaces its value and keeps its place. No name occurs twice, which is part of the type.
-/

namespace ArgdownLens

variable {α : Type}

/-- The names of some entries. -/
abbrev entryKeys (entries : List (String × α)) : List String :=
  entries.map Prod.fst

/-- Puts a value under a name: at the place of the name, or at the end. -/
def insertEntry (key : String) (value : α) : List (String × α) → List (String × α)
  | [] => [(key, value)]
  | (k, v) :: rest =>
    if k = key then (key, value) :: rest else (k, v) :: insertEntry key value rest

/-- The names after putting one in: a name that is there changes nothing, and a new one goes last.
-/
theorem entryKeys_insertEntry (key : String) (value : α) (entries : List (String × α)) :
    entryKeys (insertEntry key value entries) =
      if key ∈ entryKeys entries then entryKeys entries else entryKeys entries ++ [key] := by
  induction entries with
  | nil => simp [insertEntry]
  | cons e rest ih =>
    obtain ⟨k, v⟩ := e
    by_cases h : k = key
    · simp [insertEntry, h]
    · have h' : ¬ key = k := fun he => h he.symm
      simp only [entryKeys] at ih
      simp only [insertEntry, h, if_false, entryKeys, List.map_cons, List.mem_cons, h', false_or,
        ih]
      split <;> rfl

/-- Entries without repeated names still have none after putting one in. -/
theorem nodup_insertEntry (key : String) (value : α) {entries : List (String × α)}
    (h : (entryKeys entries).Nodup) : (entryKeys (insertEntry key value entries)).Nodup := by
  rw [entryKeys_insertEntry]
  split
  · exact h
  · next hk =>
    rw [List.nodup_append]
    refine ⟨h, by simp, ?_⟩
    intro a ha b hb
    rw [List.mem_singleton] at hb
    exact fun he => hk (hb ▸ he ▸ ha)

/-- A map from names in order of insertion. -/
structure OrderedMap (α : Type) where
  entries : List (String × α)
  nodup : (entryKeys entries).Nodup

namespace OrderedMap

/-- The map without entries. -/
def empty : OrderedMap α := ⟨[], List.nodup_nil⟩

instance : Inhabited (OrderedMap α) := ⟨empty⟩

instance [Repr α] : Repr (OrderedMap α) := ⟨fun m => reprPrec m.entries⟩

instance [DecidableEq α] : DecidableEq (OrderedMap α) := fun m n =>
  if h : m.entries = n.entries then .isTrue (by cases m; cases n; simp_all)
  else .isFalse fun he => h (he ▸ rfl)

/-- Puts a value under a name. -/
def insert (m : OrderedMap α) (key : String) (value : α) : OrderedMap α :=
  ⟨insertEntry key value m.entries, nodup_insertEntry key value m.nodup⟩

/-- Puts values under names, one after the other. -/
def ofList (entries : List (String × α)) : OrderedMap α :=
  entries.foldl (fun m e => m.insert e.1 e.2) empty

/-- The value under a name. -/
def get? (m : OrderedMap α) (key : String) : Option α :=
  m.entries.lookup key

/-- Whether there is a value under a name. -/
def contains (m : OrderedMap α) (key : String) : Bool :=
  (m.get? key).isSome

/-- Takes a name out. -/
def erase (m : OrderedMap α) (key : String) : OrderedMap α :=
  ⟨m.entries.filter fun e => e.1 != key,
    m.nodup.sublist (List.Sublist.map _ List.filter_sublist)⟩

/-- The names in order. -/
def keys (m : OrderedMap α) : List String :=
  entryKeys m.entries

/-- The values in order. -/
def values (m : OrderedMap α) : List α :=
  m.entries.map Prod.snd

/-- How many entries there are. -/
def size (m : OrderedMap α) : Nat :=
  m.entries.length

/-! ## What the operations do to the keys and the values -/

/-- Looking up a name in front of some entries. -/
theorem lookup_cons_eq (name key : String) (value : α) (entries : List (String × α)) :
    ((key, value) :: entries).lookup name =
      if name = key then some value else entries.lookup name := by
  by_cases h : name = key
  · simp [h]
  · rw [List.lookup_cons, beq_false_of_ne h, if_neg h]

/-- Looking up behind an insertion into entries. -/
theorem lookup_insertEntry (key name : String) (value : α) (entries : List (String × α)) :
    (insertEntry key value entries).lookup name =
      if name = key then some value else entries.lookup name := by
  induction entries with
  | nil => simp [insertEntry, lookup_cons_eq]
  | cons e rest ih =>
    obtain ⟨k, v⟩ := e
    by_cases hk : k = key
    · simp only [insertEntry, hk, if_true, lookup_cons_eq]
      split <;> rfl
    · simp only [insertEntry, hk, if_false, lookup_cons_eq, ih]
      by_cases hn : name = k
      · simp [hn, hk]
      · simp [hn]

/-- Looking up where the entries of one name were taken out. -/
theorem lookup_filter_ne (key name : String) (entries : List (String × α)) :
    (entries.filter fun e => e.1 != key).lookup name =
      if name = key then none else entries.lookup name := by
  induction entries with
  | nil => simp
  | cons e rest ih =>
    obtain ⟨k, v⟩ := e
    by_cases hk : k = key
    · rw [List.filter_cons_of_neg (by simp [hk]), ih, lookup_cons_eq, hk]
      split <;> rfl
    · rw [List.filter_cons_of_pos (by simp [hk]), lookup_cons_eq, lookup_cons_eq, ih]
      by_cases hn : name = k
      · simp [hn, hk]
      · simp [hn]

/-- No name of a map occurs twice. -/
theorem nodup_keys (m : OrderedMap α) : m.keys.Nodup :=
  m.nodup

/-- A map has as many entries as names. -/
theorem size_eq (m : OrderedMap α) : m.size = m.keys.length :=
  List.length_map .. |>.symm

/-- The names of a map are those with a value. -/
theorem mem_keys_iff {m : OrderedMap α} {name : String} :
    name ∈ m.keys ↔ (m.get? name).isSome := by
  rw [get?, List.lookup_isSome_iff, keys, List.mem_map]
  simp only [beq_iff_eq]
  exact exists_congr fun e => and_congr_right fun _ => eq_comm

/-- The map without entries has no values. -/
@[simp] theorem get?_empty (name : String) : (empty : OrderedMap α).get? name = none := rfl

/-- The value put in last under a name is the one found there. -/
theorem get?_insert (m : OrderedMap α) (key name : String) (value : α) :
    (m.insert key value).get? name = if name = key then some value else m.get? name :=
  lookup_insertEntry key name value m.entries

/-- A new name goes to the end, and one that is there keeps its place. -/
theorem keys_insert (m : OrderedMap α) (key : String) (value : α) :
    (m.insert key value).keys = if key ∈ m.keys then m.keys else m.keys ++ [key] :=
  entryKeys_insertEntry key value m.entries

/-- A name that was taken out has no value, and the others keep theirs. -/
theorem get?_erase (m : OrderedMap α) (key name : String) :
    (m.erase key).get? name = if name = key then none else m.get? name :=
  lookup_filter_ne key name m.entries

end OrderedMap

/-- A set of names in order of insertion. -/
abbrev OrderedSet := OrderedMap Unit

/-- Puts names into a set, one after the other. -/
def OrderedSet.ofNames (names : List String) : OrderedSet :=
  OrderedMap.ofList (names.map fun name => (name, ()))

end ArgdownLens
