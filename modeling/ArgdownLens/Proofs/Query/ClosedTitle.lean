import ArgdownLens.Proofs.Query.Completion
import ArgdownLens.Proofs.Text.Pattern
import Mathlib.Data.List.TakeWhile

/-!
# The title closed in front of a colon

Behind a colon, the texts of the entity are offered that is closed right in front of it
(`EntityRef.ClosesAt`): a title that is not empty stands between the last opening bracket of its
family and a closing bracket at the very end of the text (`closedTitle?_eq_some_iff`). A text closes
one entity at most, and it is the one that is found by looking for a bracketed title from left to
right (`searchedTitle?_eq`). What is offered depends on nothing else
(`Response.completions_behind_closed`).
-/

namespace ArgdownLens

/-! ## Closed titles -/

/-- A title is closed exactly by a text that ends with it in brackets, if it is not empty and its
opening bracket is the last one of the text. -/
theorem closedTitle?_eq_some_iff {opening closing : Char} {before : List Char} {title : String} :
    closedTitle? opening closing before = some title ↔
      title ≠ "" ∧ opening ∉ title.toList ∧ opening :: title.toList ++ [closing] <:+ before := by
  constructor
  · intro h
    unfold closedTitle? at h
    cases hreverse : before.reverse with
    | nil =>
      rw [hreverse] at h
      cases h
    | cons last rest =>
      rw [hreverse] at h
      dsimp only at h
      split_ifs at h with hclosed
      obtain ⟨rfl, hne, hlength⟩ := hclosed
      obtain rfl := Option.some.inj h
      have hopening : opening ∉ (rest.takeWhile (· ≠ opening)).reverse := by
        intro hmem
        simpa using List.mem_takeWhile_imp (List.mem_reverse.mp hmem)
      -- The title does not take all characters, and what ends it is the bracket.
      have hsplit := List.takeWhile_append_dropWhile (p := (· ≠ opening)) (l := rest)
      cases hfront : rest.dropWhile (· ≠ opening) with
      | nil =>
        rw [hfront, List.append_nil] at hsplit
        rw [hsplit] at hlength
        exact absurd hlength (Nat.lt_irrefl _)
      | cons c front =>
        have hc := List.head?_dropWhile_not (· ≠ opening) rest
        rw [hfront] at hsplit hc
        obtain rfl : c = opening := by simpa using hc
        generalize rest.takeWhile (· ≠ c) = title at hne hopening hsplit ⊢
        refine ⟨by simpa using hne, by rwa [String.toList_ofList], front.reverse, ?_⟩
        calc front.reverse ++ (c :: (String.ofList title.reverse).toList ++ [last])
            = (last :: (title ++ c :: front)).reverse := by
              rw [String.toList_ofList]
              simp
          _ = before := by rw [hsplit, ← hreverse, List.reverse_reverse]
  · rintro ⟨hne, hopening, front, rfl⟩
    exact closedTitle?_brackets closing front hne hopening

/-- The title that is noted by looking from left to right for a title in brackets at the end. -/
def searchedTitle? (opening closing : Char) (before : List Char) : Option String :=
  (((Text.Pattern.bracketed opening closing).search before).bind (·.noted.head?)).map String.ofList

/-- Looking for a title in brackets at the end finds the title that is closed there. -/
theorem searchedTitle?_eq (opening closing : Char) (before : List Char) :
    searchedTitle? opening closing before = closedTitle? opening closing before := by
  unfold searchedTitle?
  cases hsearch : (Text.Pattern.bracketed opening closing).search before with
  | some m =>
    obtain ⟨place, hplace, hm⟩ := Text.Pattern.mem_ways_of_search hsearch
    obtain ⟨title, hne, hopening, rfl, rfl⟩ := Text.Pattern.mem_ways_bracketed.mp hm
    refine (closedTitle?_eq_some_iff.mpr ⟨?_, ?_, ?_⟩).symm
    · simpa using hne
    · rwa [String.toList_ofList]
    · rwa [String.toList_ofList]
  | none =>
    -- A closed title would be a match at the place of its opening bracket.
    cases hclosed : closedTitle? opening closing before with
    | none => rfl
    | some title =>
      obtain ⟨hne, hopening, hends⟩ := closedTitle?_eq_some_iff.mp hclosed
      have hnone := Text.Pattern.search_eq_none_iff.mp hsearch _ hends
      obtain ⟨m, hm⟩ : ∃ m, m ∈ (Text.Pattern.bracketed opening closing).ways
          (opening :: title.toList ++ [closing]) :=
        ⟨_, Text.Pattern.mem_ways_bracketed.mpr
          ⟨title.toList, by simpa using hne, hopening, rfl, rfl⟩⟩
      rw [hnone] at hm
      cases hm

/-! ## Closed entities -/

namespace EntityRef

/-- The bracket behind the titles of a family. -/
def closing : EntityRef → Char
  | .statement _ => ']'
  | .argument _ => '>'

/-- An entity as Argdown refers to it is its title in the brackets of its family. -/
theorem toList_toArgdown (e : EntityRef) :
    e.toArgdown.toList = e.opening :: e.title.toList ++ [e.closing] := by
  cases e <;> simp [toArgdown, opening, closing, title]

/-- A text ends with the entity as Argdown refers to it: behind the last opening bracket of its
family stands a title that is not empty, and behind that the closing bracket at the very end. -/
structure ClosesAt (e : EntityRef) (before : List Char) : Prop where
  nonempty : e.title ≠ ""
  lastOpening : e.opening ∉ e.title.toList
  atEnd : e.toArgdown.toList <:+ before

/-- A text ends with an entity exactly if it closes its title. -/
theorem closesAt_iff {e : EntityRef} {before : List Char} :
    e.ClosesAt before ↔ closedTitle? e.opening e.closing before = some e.title := by
  rw [closedTitle?_eq_some_iff, ← toList_toArgdown]
  exact ⟨fun h => ⟨h.nonempty, h.lastOpening, h.atEnd⟩, fun ⟨h1, h2, h3⟩ => ⟨h1, h2, h3⟩⟩

/-- The last character of a text is the closing bracket of the entity with which it ends. -/
theorem ClosesAt.getLast? {e : EntityRef} {before : List Char} (h : e.ClosesAt before) :
    before.getLast? = some e.closing := by
  obtain ⟨front, hfront⟩ := h.atEnd
  rw [← hfront, toList_toArgdown, ← List.append_assoc, List.getLast?_concat]

/-- A text ends with one entity at most. -/
theorem ClosesAt.unique {e e' : EntityRef} {before : List Char} (h : e.ClosesAt before)
    (h' : e'.ClosesAt before) : e' = e := by
  -- The last character tells the family, and then the title is the one that is closed.
  have hclosing : e'.closing = e.closing := Option.some.inj (h'.getLast?.symm.trans h.getLast?)
  have hfound := closesAt_iff.mp h
  have hfound' := closesAt_iff.mp h'
  cases e with
  | statement title =>
    cases e' with
    | statement title' => exact congrArg statement (Option.some.inj (hfound'.symm.trans hfound))
    | argument title' => exact absurd (show '>' = ']' from hclosing) (by decide)
  | argument title =>
    cases e' with
    | statement title' => exact absurd (show ']' = '>' from hclosing) (by decide)
    | argument title' => exact congrArg argument (Option.some.inj (hfound'.symm.trans hfound))

end EntityRef

/-! ## What is offered -/

namespace Response

/-- The texts known at the end of a text, by looking for a statement in brackets there, and for an
argument if there is none. -/
def searchedTexts (r : Response) (before : List Char) : List CompletionItem :=
  match searchedTitle? '[' ']' before with
  | some title => (r.textsOf (.statement title)).map (.ofKnownText (.statement title))
  | none =>
    match searchedTitle? '<' '>' before with
    | some title => (r.textsOf (.argument title)).map (.ofKnownText (.argument title))
    | none => []

/-- Looking for titles in brackets finds the known texts. -/
theorem searchedTexts_eq (r : Response) (before : List Char) :
    r.searchedTexts before = r.knownTexts before := by
  unfold searchedTexts knownTexts textsOf
  rw [searchedTitle?_eq, searchedTitle?_eq]
  cases closedTitle? '[' ']' before with
  | some title =>
    dsimp only
    cases r.statement? title <;> rfl
  | none =>
    cases closedTitle? '<' '>' before with
    | some title =>
      dsimp only
      cases r.argument? title <;> rfl
    | none => rfl

/-- At the end of a text that ends with an entity, the texts of the entity are known. -/
theorem knownTexts_of_closesAt (r : Response) {e : EntityRef} {before : List Char}
    (h : e.ClosesAt before) : r.knownTexts before = (r.textsOf e).map (.ofKnownText e) := by
  obtain ⟨front, rfl⟩ := h.atEnd
  exact r.knownTexts_toArgdown front h.nonempty h.lastOpening

/-- At the end of a text that ends with no entity, nothing is known. -/
theorem knownTexts_eq_nil (r : Response) {before : List Char}
    (h : ∀ e : EntityRef, ¬ e.ClosesAt before) : r.knownTexts before = [] := by
  have hnone (e : EntityRef) : closedTitle? e.opening e.closing before ≠ some e.title :=
    fun hclosed => h e (EntityRef.closesAt_iff.mpr hclosed)
  have hstatement : closedTitle? '[' ']' before = none :=
    Option.eq_none_iff_forall_ne_some.mpr fun title => hnone (.statement title)
  have hargument : closedTitle? '<' '>' before = none :=
    Option.eq_none_iff_forall_ne_some.mpr fun title => hnone (.argument title)
  unfold knownTexts
  rw [hstatement, hargument]

/-- Behind a colon, the texts known in front of it are offered. -/
theorem completions_colon_behind (r : Response) (p : Position) {text : String} {offset : Nat}
    {before : List Char} (hbegins : before <+: text.toList)
    (hbytes : Text.byteSize before = offset - 1) :
    r.completions ':' p text offset = r.knownTexts before := by
  have hupTo := Text.upTo?_eq_some_iff.mpr ⟨hbegins, hbytes⟩
  unfold completions
  rw [hupTo]
  rfl

/-- Behind a colon, nothing is offered if the text in front of it does not end at a character. -/
theorem completions_colon_eq_nil (r : Response) (p : Position) {text : String} {offset : Nat}
    (h : ∀ before, before <+: text.toList → Text.byteSize before ≠ offset - 1) :
    r.completions ':' p text offset = [] := by
  have hupTo : Text.upTo? (offset - 1) text.toList = none := by
    refine Option.eq_none_iff_forall_ne_some.mpr fun before hbefore => ?_
    obtain ⟨hbegins, hbytes⟩ := Text.upTo?_eq_some_iff.mp hbefore
    exact h before hbegins hbytes
  unfold completions
  rw [hupTo]
  rfl

/-- Take what is offered behind a colon. If no beginning of the text ends one byte in front of the
cursor, it is nothing. Otherwise it is what looking for a title in brackets finds at the end of this
beginning, whatever stands behind it. If the beginning ends with an entity, the texts of this entity
are offered in order, none if it is unknown; the beginning ends with no other entity, and any other
text in front of a colon that ends with this one has the same offered. If it ends with no entity,
nothing is offered. -/
theorem completions_behind_closed (r : Response) (p : Position) (text : String) (offset : Nat) :
    let offered := r.completions ':' p text offset
    let known (e : EntityRef) := (r.textsOf e).map fun m : Member =>
      ({ label := m.text, kind := .value, detail := some (e.toArgdown ++ ": " ++ m.text),
         insertText := some (" " ++ m.text ++ "\n") } : CompletionItem)
    ((∀ before, before <+: text.toList → Text.byteSize before ≠ offset - 1) → offered = []) ∧
    ∀ before, before <+: text.toList → Text.byteSize before = offset - 1 →
      offered = r.searchedTexts before ∧
      (∀ e : EntityRef, e.ClosesAt before →
        offered = known e ∧ (∀ e' : EntityRef, e'.ClosesAt before → e' = e) ∧
          ∀ p' text' offset' before', before' <+: text'.toList →
            Text.byteSize before' = offset' - 1 → e.ClosesAt before' →
              r.completions ':' p' text' offset' = offered) ∧
      ((∀ e : EntityRef, ¬ e.ClosesAt before) → offered = []) := by
  intro offered known
  refine ⟨r.completions_colon_eq_nil p, fun before hbegins hbytes => ?_⟩
  have hoffered : offered = r.knownTexts before :=
    r.completions_colon_behind p hbegins hbytes
  refine ⟨hoffered.trans (r.searchedTexts_eq before).symm, fun e he => ?_, fun hnone => ?_⟩
  · -- What is offered behind an entity depends on the entity only.
    have hknown : offered = known e := hoffered.trans (r.knownTexts_of_closesAt he)
    refine ⟨hknown, fun e' he' => he.unique he', ?_⟩
    intro p' text' offset' before' hbegins' hbytes' he'
    rw [r.completions_colon_behind p' hbegins' hbytes', r.knownTexts_of_closesAt he', hknown]
    rfl
  · exact hoffered.trans (r.knownTexts_eq_nil hnone)

end Response

/-- An answer with a statement whose title holds a closing bracket and a newline, and an argument of
the same title. -/
def oddTitles : Response where
  ast := default
  statements := .ofList [("S]\n", { title := "S]\n", members := [⟨"One.", default, false⟩] })]
  arguments := .ofList [("S]\n", { title := "S]\n", descriptions := [⟨"Two.", default, false⟩] })]

/-- A title is closed behind the last opening bracket, whatever stands in front of it. An empty
title and the first byte of a character of two close nothing. -/
theorem oddTitles_completions :
    (oddTitles.completions ':' default "ü[x[S]\n]:" 10 =
        [⟨"One.", .value, some "[S]\n]: One.", some " One.\n", none⟩] ∧
      oddTitles.completions ':' default "[S]<S]\n>:" 9 =
        [⟨"Two.", .value, some "<S]\n>: Two.", some " Two.\n", none⟩] ∧
      oddTitles.completions ':' default "ü[x[S]\n]:" 10 =
        oddTitles.completions ':' default "[S]\n]" 6) ∧
      oddTitles.completions ':' default "<S>[]:" 6 = [] ∧
      oddTitles.completions ':' default "ü" 2 = [] := by
  have hstatement := ((oddTitles.completions_behind_closed default "ü[x[S]\n]:" 10).2
    "ü[x[S]\n]".toList ⟨[':'], rfl⟩ rfl).2.1 (.statement "S]\n")
    ⟨by decide, by decide, "ü[x".toList, rfl⟩
  have hargument := ((oddTitles.completions_behind_closed default "[S]<S]\n>:" 9).2
    "[S]<S]\n>".toList ⟨[':'], rfl⟩ rfl).2.1 (.argument "S]\n")
    ⟨by decide, by decide, "[S]".toList, rfl⟩
  have hempty := ((oddTitles.completions_behind_closed default "<S>[]:" 6).2
    "<S>[]".toList ⟨[':'], rfl⟩ rfl).1
  have hinside := (oddTitles.completions_behind_closed default "ü" 2).1
  refine ⟨⟨hstatement.1, hargument.1, ?_⟩, hempty.trans rfl, hinside ?_⟩
  · exact (hstatement.2.2 default "[S]\n]" 6 "[S]\n]".toList ⟨[], rfl⟩ rfl
      ⟨by decide, by decide, [], rfl⟩).symm
  · -- A beginning of the text has no byte or both of them.
    intro before hbefore
    rcases List.prefix_cons_iff.mp hbefore with rfl | ⟨more, rfl, hmore⟩
    · decide
    · rw [List.prefix_nil.mp hmore]
      decide

end ArgdownLens
