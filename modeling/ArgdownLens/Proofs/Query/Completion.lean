import ArgdownLens.Proofs.Model.Build
import ArgdownLens.Proofs.Text.Offset
import ArgdownLens.Query.Analysis

/-!
# From a title to the texts of its entity

An editor that takes the label offered for an entity and types a colon behind it is offered the
texts of that entity, wherever in a document it does so
(`Response.completions_behind_label`). The title is read back from the label
(`closedTitle?_brackets`), because the opening bracket in front of it is the last one, whatever the
text in front of the label holds. The position behind the colon leads to the byte there, and from
the byte in front of it the text is looked at.
-/

namespace ArgdownLens

/-! ## Titles in brackets -/

/-- A title in brackets at the end of a text is closed there, unless it is empty or holds an opening
bracket itself. -/
theorem closedTitle?_brackets {opening : Char} (closing : Char) (before : List Char)
    {title : String} (hne : title ≠ "") (hopening : opening ∉ title.toList) :
    closedTitle? opening closing (before ++ (opening :: title.toList ++ [closing])) =
      some title := by
  -- The text is looked through from its end, up to the first opening bracket.
  have hreverse : (before ++ (opening :: title.toList ++ [closing])).reverse =
      closing :: (title.toList.reverse ++ opening :: before.reverse) := by simp
  have htitle : (title.toList.reverse ++ opening :: before.reverse).takeWhile (· ≠ opening) =
      title.toList.reverse := by
    rw [List.takeWhile_append_of_pos]
    · simp
    · intro c hc
      have hc' : c ≠ opening := fun he => hopening (he ▸ List.mem_reverse.mp hc)
      simpa using hc'
  have hnil : title.toList.reverse ≠ [] := by simpa using hne
  unfold closedTitle?
  rw [hreverse]
  dsimp only
  rw [htitle, if_pos ⟨rfl, hnil, by simp⟩, List.reverse_reverse, String.ofList_toList]

/-- A text that ends with another character closes no title. -/
theorem closedTitle?_eq_none {opening closing last : Char} (h : last ≠ closing)
    (before : List Char) : closedTitle? opening closing (before ++ [last]) = none := by
  unfold closedTitle?
  rw [List.reverse_append, List.reverse_singleton, List.singleton_append]
  exact if_neg fun hclosed => h hclosed.1

namespace EntityRef

/-- The bracket in front of the titles of a family. -/
def opening : EntityRef → Char
  | .statement _ => '['
  | .argument _ => '<'

end EntityRef

namespace Response

/-- The texts that are known for an entity: the members of a statement or the descriptions of an
argument. -/
def textsOf (r : Response) : EntityRef → List Member
  | .statement title => ((r.statement? title).map EquivalenceClass.members).getD []
  | .argument title => ((r.argument? title).map Argument.descriptions).getD []

/-- Behind an entity as Argdown refers to it, its texts are known. -/
theorem knownTexts_toArgdown (r : Response) (before : List Char) {e : EntityRef}
    (hne : e.title ≠ "") (hopening : e.opening ∉ e.title.toList) :
    r.knownTexts (before ++ e.toArgdown.toList) = (r.textsOf e).map (.ofKnownText e) := by
  unfold knownTexts textsOf
  cases e with
  | statement title =>
    have hlabel : (EntityRef.statement title).toArgdown.toList =
        '[' :: title.toList ++ [']'] := by
      simp [EntityRef.toArgdown]
    have hclosed : closedTitle? '[' ']' (before ++ ('[' :: title.toList ++ [']'])) = some title :=
      closedTitle?_brackets ']' before hne hopening
    rw [hlabel, hclosed]
    dsimp only
    cases r.statement? title <;> rfl
  | argument title =>
    have hlabel : (EntityRef.argument title).toArgdown.toList =
        '<' :: title.toList ++ ['>'] := by
      simp [EntityRef.toArgdown]
    -- The text ends with an angle bracket, so it closes no statement.
    have hother : closedTitle? '[' ']' (before ++ ('<' :: title.toList ++ ['>'])) = none := by
      rw [← List.append_assoc]
      exact closedTitle?_eq_none (by decide) _
    have hclosed : closedTitle? '<' '>' (before ++ ('<' :: title.toList ++ ['>'])) = some title :=
      closedTitle?_brackets '>' before hne hopening
    rw [hlabel, hother, hclosed]
    dsimp only
    cases r.argument? title <;> rfl

end Response

/-! ## Positions behind a colon -/

/-- Behind a colon, what is offered is known from the text in front of the colon. -/
theorem Analysis.completions_colon (a : Analysis) {before after : String}
    (h : a.text = before ++ ":" ++ after) :
    a.completions (Text.positionBehind (before ++ ":").toList) ':' =
      a.response.knownTexts before.toList := by
  have htext : a.text.toList = (before ++ ":").toList ++ after.toList := by
    rw [h, String.toList_append]
  have hbytes : Text.byteSize (before ++ ":").toList = Text.byteSize before.toList + 1 := by
    rw [String.toList_append, Text.byteSize_append]
    rfl
  -- The byte in front of the colon is reached by the characters in front of it.
  have hupTo : Text.upTo? (Text.byteSize before.toList) a.text.toList = some before.toList := by
    rw [h, String.append_assoc, String.toList_append, Text.upTo?_byteSize]
  unfold completions lineIndex
  rw [LineIndex.offset?_positionBehind htext]
  dsimp only
  unfold Response.completions
  rw [hbytes, Nat.add_sub_cancel, hupTo]
  rfl

/-- Behind an entity as Argdown refers to it and a colon, its texts are offered. -/
theorem Analysis.completions_toArgdown (a : Analysis) {before after : String} {e : EntityRef}
    (hne : e.title ≠ "") (hopening : e.opening ∉ e.title.toList)
    (h : a.text = before ++ e.toArgdown ++ ":" ++ after) :
    a.completions (Text.positionBehind (before ++ e.toArgdown ++ ":").toList) ':' =
      (a.response.textsOf e).map (.ofKnownText e) := by
  rw [a.completions_colon h, String.toList_append, Response.knownTexts_toArgdown _ _ hne hopening]

/-! ## Labels -/

namespace Response

variable {r : Response} (hr : r.Titled) {i : Nat}

/-- The label offered for a class is the class as Argdown refers to it. -/
theorem label_statement {c : EquivalenceClass} (h : r.statements.values[i]? = some c)
    (p : Position) (text : String) (offset : Nat) :
    (r.completions '[' p text offset)[i]?.map CompletionItem.label =
      some (EntityRef.statement c.title).toArgdown := by
  have hitems : r.completions '[' p text offset = r.statements.values.map fun c =>
      .ofTitle (triggerWindow p) (.statement c.title) c.canonicalText? := rfl
  rw [hitems, List.getElem?_map, h]
  rfl

/-- The label offered for an argument is the argument as Argdown refers to it. -/
theorem label_argument {a : Argument} (h : r.arguments.values[i]? = some a)
    (p : Position) (text : String) (offset : Nat) :
    (r.completions '<' p text offset)[i]?.map CompletionItem.label =
      some (EntityRef.argument a.title).toArgdown := by
  have hitems : r.completions '<' p text offset = r.arguments.values.map fun a =>
      .ofTitle (triggerWindow p) (.argument a.title)
        (a.canonicalDescription?.map Member.text) := rfl
  rw [hitems, List.getElem?_map, h]
  rfl

include hr

/-- The texts of a class that stands under its title are its members. -/
theorem textsOf_statement {c : EquivalenceClass} (h : r.statements.values[i]? = some c) :
    r.textsOf (.statement c.title) = c.members := by
  have hfound : r.statement? c.title = some c := OrderedMap.get?_title hr.statements h
  unfold textsOf
  dsimp only
  rw [hfound]
  rfl

/-- The texts of an argument that stands under its title are its descriptions. -/
theorem textsOf_argument {a : Argument} (h : r.arguments.values[i]? = some a) :
    r.textsOf (.argument a.title) = a.descriptions := by
  have hfound : r.argument? a.title = some a := OrderedMap.get?_title hr.arguments h
  unfold textsOf
  dsimp only
  rw [hfound]
  rfl

omit hr

/-- In an answer that was built, take the label that is offered behind an opening bracket for a
class whose title is not empty and holds no opening bracket. Behind that label and a colon, anywhere
in a document, the texts of the members of the class are offered in order and nothing else. So are
the descriptions of an argument behind the label that is offered for it. -/
theorem completions_behind_label (ast : Node) (additions : List Addition)
    (uri before after label : String) (p : Position) (text : String) (offset i : Nat) :
    let r := build ast additions
    let known (m : Member) : CompletionItem :=
      { label := m.text, kind := .value, detail := some (label ++ ": " ++ m.text),
        insertText := some (" " ++ m.text ++ "\n") }
    let offered := (⟨uri, before ++ label ++ ":" ++ after, r⟩ : Analysis).completions
      (Text.positionBehind (before ++ label ++ ":").toList) ':'
    (∀ c, r.statements.values[i]? = some c → c.title ≠ "" → '[' ∉ c.title.toList →
      (r.completions '[' p text offset)[i]?.map CompletionItem.label = some label →
      offered = c.members.map known) ∧
    ∀ a, r.arguments.values[i]? = some a → a.title ≠ "" → '<' ∉ a.title.toList →
      (r.completions '<' p text offset)[i]?.map CompletionItem.label = some label →
      offered = a.descriptions.map known := by
  intro r known offered
  -- A class is stored under its own title, so looking up the title finds it again.
  have hr : r.Titled := titled_build ast additions
  refine ⟨?_, ?_⟩
  · intro c hc hne hopening hlabel
    rw [label_statement hc, Option.some.injEq] at hlabel
    subst hlabel
    rw [← textsOf_statement hr hc]
    exact Analysis.completions_toArgdown _ hne hopening rfl
  · intro a ha hne hopening hlabel
    rw [label_argument ha, Option.some.injEq] at hlabel
    subst hlabel
    rw [← textsOf_argument hr ha]
    exact Analysis.completions_toArgdown _ hne hopening rfl

end Response

/-- The class `[S>1]` with two texts. -/
def twoTexts : EquivalenceClass :=
  { title := "S>1", members := [⟨"First.", .onLine 1 1 11, false⟩, ⟨"", .onLine 2 1 5, true⟩] }

/-- The argument `<A[1]>` with one description. -/
def oneDescription : Argument :=
  { title := "A[1]", descriptions := [⟨"Desc.", .onLine 3 1 11, false⟩] }

/-- An answer in which the class `[S>1]` was added twice, the second time with two texts. -/
def repeatedTitle : List Addition :=
  [.statement { title := "S>1", members := [⟨"Old.", .onLine 1 1 9, false⟩] },
    .argument oneDescription, .statement { title := "S2" }, .statement twoTexts]

/-- Behind the labels of the class and of the argument and a colon, their texts are offered in the
middle of a document with brackets, newlines and characters of two code units. -/
theorem repeatedTitle_completions :
    let r := Response.build default repeatedTitle
    (r.statements.values[0]? = some twoTexts ∧
      (r.completions '[' ⟨0, 1⟩ "[" 1)[0]?.map CompletionItem.label = some "[S>1]" ∧
      (⟨"file:///a", "[😀<\n@[S>1]: ]", r⟩ : Analysis).completions ⟨1, 7⟩ ':' =
        [⟨"First.", .value, some "[S>1]: First.", some " First.\n", none⟩,
          ⟨"", .value, some "[S>1]: ", some " \n", none⟩]) ∧
      r.arguments.values[0]? = some oneDescription ∧
      (r.completions '<' ⟨0, 1⟩ "<" 1)[0]?.map CompletionItem.label = some "<A[1]>" ∧
      (⟨"file:///a", "[😀<A[1]>:\n", r⟩ : Analysis).completions ⟨0, 10⟩ ':' =
        [⟨"Desc.", .value, some "<A[1]>: Desc.", some " Desc.\n", none⟩] := by
  have hclass : (Response.build default repeatedTitle).statements.values[0]? = some twoTexts := rfl
  have hargument : (Response.build default repeatedTitle).arguments.values[0]? =
      some oneDescription := rfl
  have hbracket := Response.label_statement hclass ⟨0, 1⟩ "[" 1
  have hangle := Response.label_argument hargument ⟨0, 1⟩ "<" 1
  have htexts := (Response.completions_behind_label default repeatedTitle "file:///a" "[😀<\n@" " ]"
    "[S>1]" ⟨0, 1⟩ "[" 1 0).1 twoTexts hclass (by decide) (by decide) hbracket
  have hdescriptions := (Response.completions_behind_label default repeatedTitle "file:///a" "[😀"
    "\n" "<A[1]>" ⟨0, 1⟩ "<" 1 0).2 oneDescription hargument (by decide) (by decide) hangle
  exact ⟨⟨hclass, hbracket, htexts⟩, hargument, hangle, hdescriptions⟩

end ArgdownLens
