import ArgdownLens.Proofs.Model.Build
import ArgdownLens.Proofs.Wire.RoundTrip

/-!
# Answers in which names repeat

An engine may list a title or a tag more than once. The answer that is decoded from such a text is
the one that is built from the same parts, one after the other (`Wire.decode_listing`). Both put the
entries of a map in with the same operation, so that each title stands where it appears first, with
what appears last under it (`Collects`).
-/

namespace ArgdownLens

/-- The map holds the titles of a list once, in the order in which they appear first, each with the
value that appears last under it. -/
structure Collects {α : Type} (m : OrderedMap α) (title : α → String) (as : List α) : Prop where
  nodup : m.keys.Nodup
  keys : m.keys = (as.map title).eraseDups
  values : ∀ name, m.get? name = as.reverse.find? fun a => title a = name

/-- Values that are put in under their titles, one after the other, are collected. -/
theorem collects_ofList {α : Type} (title : α → String) (as : List α) :
    Collects (.ofList (as.map fun a => (title a, a))) title as := by
  have hlookup (name : String) (as : List α) :
      (as.map fun a => (title a, a)).lookup name = as.find? fun a => title a = name := by
    induction as with
    | nil => rfl
    | cons a as ih =>
      rw [List.map_cons, OrderedMap.lookup_cons_eq, ih, List.find?_cons]
      by_cases h : name = title a
      · rw [if_pos h, h]
        simp
      · rw [if_neg h]
        simp [Ne.symm h]
  refine ⟨OrderedMap.nodup_keys _, ?_, fun name => ?_⟩
  · rw [OrderedMap.keys_ofList, entryKeys, List.map_map]
    rfl
  · rw [OrderedMap.get?_ofList, ← List.map_reverse, hlookup]

/-- The parts of an answer as an engine lists them: titles and tags may repeat, and the dictionary
says something about each tag. -/
structure Listing where
  ast : Node
  classes : List EquivalenceClass
  arguments : List Argument
  dictionary : List (String × Json.Value)
  parserErrors : List ParserError

namespace Listing

/-- The tags in the order of the dictionary. -/
def tags (l : Listing) : List String :=
  l.dictionary.map Prod.fst

/-- The parts as additions to an answer, one after the other. -/
def additions (l : Listing) : List Addition :=
  l.classes.map .statement ++ l.arguments.map .argument ++ [.tags l.tags] ++
    l.parserErrors.map .parserError

/-- The answer that is built from the parts. -/
def response (l : Listing) : Response :=
  .build l.ast l.additions

/-- The parts can be sent: the kinds of all nodes can be told from what is sent of them, all
coordinates fit into 32 bits, and the numbers in the dictionary are natural. -/
structure Expressible (l : Listing) : Prop where
  kinds : ∀ n ∈ l.ast.preorder, Wire.Expressible n.kind
  spans : ∀ n ∈ l.ast.preorder, Wire.Fits n.span
  members : ∀ c ∈ l.classes, ∀ m ∈ c.members, Wire.Fits m.span
  descriptions : ∀ a ∈ l.arguments, ∀ m ∈ a.descriptions, Wire.Fits m.span
  reconstructions : ∀ a ∈ l.arguments, ∀ p ∈ a.reconstruction, Wire.Fits p.span
  dictionary : ∀ e ∈ l.dictionary, e.2.raw.Unbroken
  parserErrors : ∀ e ∈ l.parserErrors, Wire.Fits e.token

variable (l : Listing)

/-- The tree is the one listed. -/
theorem ast_response : l.response.ast = l.ast :=
  Response.ast_build ..

/-- The statements are the classes, put in one after the other. -/
theorem statements_response :
    l.response.statements = .ofList (l.classes.map fun c => (c.title, c)) := by
  rw [response, Response.statements_build]
  simp [additions, List.filterMap_cons, Addition.class?, Function.comp_def]

/-- The arguments are those listed, put in one after the other. -/
theorem arguments_response :
    l.response.arguments = .ofList (l.arguments.map fun a => (a.title, a)) := by
  rw [response, Response.arguments_build]
  simp [additions, List.filterMap_cons, Addition.argument?, Function.comp_def]

/-- The tags are those of the dictionary. -/
theorem tags_response : l.response.tags = some (OrderedSet.ofNames l.tags) := by
  have herrors : (l.parserErrors.map Addition.parserError).reverse.findSome? Addition.tags? =
      none := by simp [Addition.tags?]
  rw [response, Response.tags_build, additions, List.reverse_append, List.findSome?_append,
    herrors]
  simp [List.findSome?_cons, Addition.tags?]

/-- The parser errors are those listed. -/
theorem parserErrors_response : l.response.parserErrors = l.parserErrors := by
  rw [response, Response.parserErrors_build]
  simp [additions, List.filterMap_cons, Addition.parserError?, Function.comp_def]

end Listing

namespace Wire

open Json

/-- The object of some values, each under its title. -/
def ofTitled {α : Type} (title : α → String) (write : α → Value) (as : List α) : Value :=
  .object (as.map fun a => (title a, write a))

/-- The parts of an answer on the wire: the objects have one member for each entry, in order. -/
def ofListing (l : Listing) : Value :=
  objectOf (answerMembers l.ast (ofTitled EquivalenceClass.title ofEquivalenceClass l.classes)
    (ofTitled Argument.title ofArgument l.arguments) (some (.object l.dictionary)) l.parserErrors)

/-- The object of some values is read as the map that they are put into one after the other. -/
theorem reads_ofTitled {α : Type} {d : Decoder α} {room : Nat} {write : α → Value}
    (title : α → String) {as : List α} (hunbroken : ∀ a, (write a).raw.Unbroken)
    (h : ∀ a ∈ as, d room (write a).raw = .ok a) :
    Reads (map d) (room + 1) (ofTitled title write as)
      (.ofList (as.map fun a => (title a, a))) :=
  ⟨Value.unbroken_object (List.forall_mem_map.mpr fun a _ => hunbroken a), map_object title h⟩

/-- A dictionary is read as the set of its names, whatever it says about them. -/
theorem reads_dictionary (room : Nat) {dictionary : List (String × Value)}
    (h : ∀ e ∈ dictionary, e.2.raw.Unbroken) :
    Reads (map ignored) (room + 1) (.object dictionary)
      (OrderedSet.ofNames (dictionary.map Prod.fst)) := by
  have hskip : ∀ e ∈ dictionary, ignored room e.2.raw = .ok () := fun e he =>
    Raw.skip_of_unbroken _ (h e he)
  have hread := map_object Prod.fst hskip
  rw [List.map_id'] at hread
  refine ⟨Value.unbroken_object h, hread.trans ?_⟩
  rw [OrderedSet.ofNames, List.map_map]
  rfl

/-- The text of the parts of an answer, one member for each entry, is decoded to the answer that is
built from them by adding one after the other, if the tree has at most 63 levels. Every entity in it
stands under its own title. Its maps hold every title once, at the place where it appears first, and
what is found under a title is what appears last. -/
theorem decode_listing (l : Listing) (h : l.Expressible) (hlevels : l.ast.levels ≤ 63) :
    decode (ofListing l).text = .ok l.response ∧
      l.response.ast = l.ast ∧ l.response.parserErrors = l.parserErrors ∧
      l.response.tags.map OrderedMap.keys = some l.tags.eraseDups ∧
      l.response.Titled ∧
      Collects l.response.statements EquivalenceClass.title l.classes ∧
      Collects l.response.arguments Argument.title l.arguments ∧
      ∀ title,
        l.response.statement? title = l.classes.reverse.find? (fun c => c.title = title) ∧
          l.response.argument? title = l.arguments.reverse.find? (fun a => a.title = title) := by
  have hstatements := l.statements_response
  have harguments := l.arguments_response
  have htags := l.tags_response
  have hclasses : Collects l.response.statements EquivalenceClass.title l.classes :=
    hstatements ▸ collects_ofList EquivalenceClass.title l.classes
  have hfound : Collects l.response.arguments Argument.title l.arguments :=
    harguments ▸ collects_ofList Argument.title l.arguments
  have hkeys : (OrderedSet.ofNames l.tags).keys = l.tags.eraseDups := by
    rw [OrderedSet.ofNames, OrderedMap.keys_ofList, entryKeys, List.map_map]
    exact congrArg List.eraseDups (List.map_id _)
  refine ⟨?_, l.ast_response, l.parserErrors_response, ?_, Response.titled_build _ _, hclasses,
    hfound, fun title => ⟨hclasses.values title, hfound.values title⟩⟩
  · -- Each map is read as what the additions of its kind put into it.
    have hread := decode_answer h.spans
      (reads_ofTitled EquivalenceClass.title unbroken_ofEquivalenceClass fun c hc =>
        equivalenceClass_ofEquivalenceClass 121 (h.members c hc))
      (reads_ofTitled Argument.title unbroken_ofArgument fun a ha =>
        argument_ofArgument 121 (h.descriptions a ha) (h.reconstructions a ha))
      (.some (reads_dictionary 125 h.dictionary)) h.parserErrors h.kinds
    rw [if_pos hlevels] at hread
    have hresponse : l.response = ⟨l.ast, l.response.statements, l.response.arguments,
        l.response.tags, l.parserErrors⟩ := by
      rw [← l.parserErrors_response, ← l.ast_response]
    rw [hstatements, harguments, htags] at hresponse
    rw [ofListing, hread, hresponse]
    rfl
  · rw [htags]
    exact congrArg some hkeys

/-- Parts in which every kind of name appears a second time behind another one. -/
def repeatedListing : Listing where
  ast := ⟨.rule "argdown", ⟨1, 1, 2, 0⟩, [⟨.heading "H" none, .onLine 1 1 4, []⟩]⟩
  classes := [{ title := "S", tags := ["old"] }, { title := "Ü" },
    { title := "S", members := [⟨"\"Text\"", .onLine 1 2 3, true⟩] }]
  arguments := [{ title := "A", tags := ["old"] }, { title := "S" },
    { title := "A", reconstruction := some ⟨.onLine 2 1 4, ["S"]⟩ }]
  dictionary := [("t", .string "red"), ("u", .null), ("t", .array [.bool true])]
  parserErrors := [⟨"", default⟩, ⟨"expected", .onLine 3 1 1⟩]

/-- Where every kind of name appears a second time, what is read is what is built: the first places
with the last values. -/
theorem repeatedListing_decode :
    repeatedListing.Expressible ∧ repeatedListing.ast.levels ≤ 63 ∧
      decode (ofListing repeatedListing).text = .ok repeatedListing.response ∧
      repeatedListing.response.tags.map OrderedMap.keys = some ["t", "u"] ∧
      repeatedListing.response.statements.keys = ["S", "Ü"] ∧
      repeatedListing.response.arguments.keys = ["A", "S"] ∧
      repeatedListing.response.statement? "S" = repeatedListing.classes[2]? ∧
      repeatedListing.response.argument? "A" = repeatedListing.arguments[2]? := by
  have hdictionary : ∀ e ∈ repeatedListing.dictionary, e.2.raw.Unbroken := by
    simp [repeatedListing, Json.Value.raw, Json.Value.rawItems, Json.Raw.Unbroken,
      Json.Raw.UnbrokenItems]
  have h : repeatedListing.Expressible :=
    ⟨by decide, by decide, by decide, by decide, by decide, hdictionary, by decide⟩
  have hlevels : repeatedListing.ast.levels ≤ 63 := by decide
  obtain ⟨hdecode, -, -, htags, -, hclasses, harguments, hfind⟩ :=
    decode_listing repeatedListing h hlevels
  refine ⟨h, hlevels, hdecode, htags.trans ?_, hclasses.keys.trans ?_, harguments.keys.trans ?_,
    (hfind "S").1.trans ?_, (hfind "A").2.trans ?_⟩ <;> decide

end Wire

end ArgdownLens
