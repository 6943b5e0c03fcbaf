import ArgdownLens.Model.Response
import Mathlib.Data.List.Basic
import Mathlib.Data.List.Induction

/-!
# Answers that are built step by step

An answer is built from a tree by adding classes, arguments, tags and parser errors in any order
(`Response.build`). Each part of it depends on the additions of its own kind only
(`Response.statements_build` and its siblings). A map that entries were put into one after the other
holds every name once, where it came in first, with the value that came in last
(`OrderedMap.keys_ofList`, `OrderedMap.get?_ofList`). Every entity stands under its own title
(`Response.titled_build`), which each addition preserves.
-/

namespace ArgdownLens

/-! ## Entries that are put in one after the other -/

/-- A name behind others is a further one unless it is among them. -/
theorem eraseDups_concat (names : List String) (name : String) :
    (names ++ [name]).eraseDups =
      if name ∈ names then names.eraseDups else names.eraseDups ++ [name] := by
  rw [List.eraseDups_append]
  by_cases h : name ∈ names
  · rw [if_pos h]
    simp [List.removeAll, h]
  · rw [if_neg h]
    simp [List.removeAll, h, List.eraseDups_cons]

namespace OrderedMap

variable {α : Type}

/-- The entry that comes last is put in last. -/
theorem ofList_concat (entries : List (String × α)) (e : String × α) :
    ofList (entries ++ [e]) = (ofList entries).insert e.1 e.2 :=
  List.foldl_concat ..

/-- The names stand in the order in which they first came in, each once. -/
theorem keys_ofList (entries : List (String × α)) :
    (ofList entries).keys = (entryKeys entries).eraseDups := by
  induction entries using List.reverseRecOn with
  | nil => rfl
  | append_singleton entries e ih =>
    have hkeys : entryKeys (entries ++ [e]) = entryKeys entries ++ [e.1] := List.map_append
    rw [ofList_concat, keys_insert, ih, hkeys, eraseDups_concat]
    simp only [List.mem_eraseDups]

/-- The value found under a name is the one that came in last. -/
theorem get?_ofList (entries : List (String × α)) (name : String) :
    (ofList entries).get? name = entries.reverse.lookup name := by
  induction entries using List.reverseRecOn with
  | nil => rfl
  | append_singleton entries e ih =>
    rw [ofList_concat, get?_insert, ih, List.reverse_concat, lookup_cons_eq]

/-- What is put in stands in the map with what was there. -/
theorem mem_insertEntry {key : String} {value : α} {entries : List (String × α)} {e : String × α}
    (h : e ∈ insertEntry key value entries) : e = (key, value) ∨ e ∈ entries := by
  fun_induction insertEntry key value entries with
  | case1 => exact Or.inl (List.mem_singleton.mp h)
  | case2 k rest =>
    rcases List.mem_cons.mp h with rfl | h
    · exact Or.inl rfl
    · exact Or.inr (List.mem_cons_of_mem _ h)
  | case3 k v rest hk ih =>
    rcases List.mem_cons.mp h with rfl | h
    · exact Or.inr List.mem_cons_self
    · exact (ih h).imp_right (List.mem_cons_of_mem _)

/-- An entry of a map is found under its name. -/
theorem get?_of_mem {m : OrderedMap α} {key : String} {value : α} (h : (key, value) ∈ m.entries) :
    m.get? key = some value := by
  obtain ⟨entries, hnodup⟩ := m
  unfold get?
  dsimp only at h ⊢
  induction entries with
  | nil => cases h
  | cons e entries ih =>
    obtain ⟨k, v⟩ := e
    obtain ⟨hnew, hnodup⟩ := List.nodup_cons.mp hnodup
    rw [lookup_cons_eq]
    rcases List.mem_cons.mp h with he | hrest
    · obtain ⟨rfl, rfl⟩ := Prod.mk.inj he
      rw [if_pos rfl]
    · -- The name of a later entry is another one.
      have hkey : key ∈ entryKeys entries := List.mem_map_of_mem hrest
      have hne : key ≠ k := fun hk => hnew (hk ▸ hkey)
      rw [if_neg hne, ih hnodup hrest]

/-- Where every value stands under its own title, it is found under that title. -/
theorem get?_title {m : OrderedMap α} {title : α → String}
    (htitle : ∀ e ∈ m.entries, title e.2 = e.1) {i : Nat} {a : α} (h : m.values[i]? = some a) :
    m.get? (title a) = some a := by
  obtain ⟨e, hmem, rfl⟩ := List.mem_map.mp (List.mem_of_getElem? h)
  rw [htitle e hmem]
  exact get?_of_mem hmem

end OrderedMap

/-! ## Additions -/

/-- Something that is added to an answer. -/
inductive Addition where
  | statement (c : EquivalenceClass)
  | argument (a : Argument)
  | tags (names : List String)
  | parserError (e : ParserError)
  deriving DecidableEq, Repr

namespace Addition

/-- The class that is added under its title. -/
def class? : Addition → Option (String × EquivalenceClass)
  | .statement c => some (c.title, c)
  | _ => none

/-- The argument that is added under its title. -/
def argument? : Addition → Option (String × Argument)
  | .argument a => some (a.title, a)
  | _ => none

/-- The tags that are set. -/
def tags? : Addition → Option (List String)
  | .tags names => some names
  | _ => none

/-- The parser error that is added. -/
def parserError? : Addition → Option ParserError
  | .parserError e => some e
  | _ => none

end Addition

namespace Response

/-- The answer with an addition. -/
def add (r : Response) : Addition → Response
  | .statement c => r.withStatement c
  | .argument a => r.withArgument a
  | .tags names => r.withTags names
  | .parserError e => r.withParserError e

/-- The answer with a tree and what was added to it, one after the other. -/
def build (ast : Node) (additions : List Addition) : Response :=
  additions.foldl add { ast := ast }

variable (ast : Node) (additions : List Addition)

/-- The last addition is made last. -/
theorem build_concat (addition : Addition) :
    build ast (additions ++ [addition]) = (build ast additions).add addition :=
  List.foldl_concat ..

/-- No addition touches the tree. -/
theorem ast_build : (build ast additions).ast = ast := by
  induction additions using List.reverseRecOn with
  | nil => rfl
  | append_singleton additions addition ih =>
    rw [build_concat]
    cases addition <;> exact ih

/-- The statements are the classes that were added, one after the other. -/
theorem statements_build :
    (build ast additions).statements = .ofList (additions.filterMap Addition.class?) := by
  induction additions using List.reverseRecOn with
  | nil => rfl
  | append_singleton additions addition ih =>
    rw [build_concat, List.filterMap_append]
    cases addition with
    | statement c =>
      have hclass : [Addition.statement c].filterMap Addition.class? = [(c.title, c)] := rfl
      rw [hclass, OrderedMap.ofList_concat, ← ih]
      rfl
    | _ => exact ih.trans (congrArg OrderedMap.ofList (List.append_nil _).symm)

/-- The arguments are those that were added, one after the other. -/
theorem arguments_build :
    (build ast additions).arguments = .ofList (additions.filterMap Addition.argument?) := by
  induction additions using List.reverseRecOn with
  | nil => rfl
  | append_singleton additions addition ih =>
    rw [build_concat, List.filterMap_append]
    cases addition with
    | argument a =>
      have hargument : [Addition.argument a].filterMap Addition.argument? = [(a.title, a)] := rfl
      rw [hargument, OrderedMap.ofList_concat, ← ih]
      rfl
    | _ => exact ih.trans (congrArg OrderedMap.ofList (List.append_nil _).symm)

/-- The tags are those that were set last, if any were. -/
theorem tags_build :
    (build ast additions).tags =
      (additions.reverse.findSome? Addition.tags?).map OrderedSet.ofNames := by
  induction additions using List.reverseRecOn with
  | nil => rfl
  | append_singleton additions addition ih =>
    rw [build_concat, List.reverse_concat, List.findSome?_cons]
    cases addition with
    | tags names => rfl
    | _ => exact ih

/-- The parser errors are those that were added, in their order. -/
theorem parserErrors_build :
    (build ast additions).parserErrors = additions.filterMap Addition.parserError? := by
  induction additions using List.reverseRecOn with
  | nil => rfl
  | append_singleton additions addition ih =>
    rw [build_concat, List.filterMap_append]
    cases addition with
    | parserError e => exact congrArg (· ++ [e]) ih
    | _ => exact ih.trans (List.append_nil _).symm

/-! ## Titles -/

/-- Every entity stands under its own title. -/
structure Titled (r : Response) : Prop where
  statements : ∀ e ∈ r.statements.entries, e.2.title = e.1
  arguments : ∀ e ∈ r.arguments.entries, e.2.title = e.1

/-- An addition leaves every entity under its own title. -/
theorem Titled.add {r : Response} (h : r.Titled) (addition : Addition) :
    (r.add addition).Titled := by
  cases addition with
  | statement c =>
    refine ⟨fun e he => ?_, h.arguments⟩
    rcases OrderedMap.mem_insertEntry he with rfl | he
    · rfl
    · exact h.statements e he
  | argument a =>
    refine ⟨h.statements, fun e he => ?_⟩
    rcases OrderedMap.mem_insertEntry he with rfl | he
    · rfl
    · exact h.arguments e he
  | _ => exact ⟨h.statements, h.arguments⟩

/-- In an answer that was built, every entity stands under its own title. -/
theorem titled_build : (build ast additions).Titled := by
  induction additions using List.reverseRecOn with
  | nil => exact ⟨List.forall_mem_nil _, List.forall_mem_nil _⟩
  | append_singleton additions addition ih =>
    rw [build_concat]
    exact ih.add addition

end Response

end ArgdownLens
