import ArgdownLens.Query.Rename
import Mathlib.Data.List.Infix

/-!
# Occurrences are read back from how they are written

An occurrence is written as its name between brackets, with a mark in front for a mention and one
behind for a definition (`OccurrenceKind.toList_render`). No kind begins with all that another one
begins with and also ends so, whatever the name holds. So the text of an occurrence tells its kind
and its name, even if the name looks like the end of another kind
(`OccurrenceKind.eq_of_render_eq`).

Within a longer text the name ends at the first closing bracket. The tokens that are found there are
the occurrences whose names have none (`OccurrenceKind.scan?_eq_some_iff`); a reference is found
only where no colon follows, since it would be a definition with one.
-/

namespace ArgdownLens

/-- The bracket that closes a name. -/
def SymbolFamily.closing : SymbolFamily → Char
  | .statement => ']'
  | .argument => '>'
  | .tag => ')'

/-- The characters in front of the first `closing`, and those behind it. -/
def cutAt? (closing : Char) : List Char → Option (List Char × List Char)
  | [] => none
  | c :: cs =>
    if c = closing then some ([], cs)
    else (cutAt? closing cs).map fun (name, rest) => (c :: name, rest)

/-- A text is cut at the first closing bracket. -/
theorem cutAt?_eq_some_iff {closing : Char} {cs name rest : List Char} :
    cutAt? closing cs = some (name, rest) ↔ cs = name ++ closing :: rest ∧ closing ∉ name := by
  induction cs generalizing name with
  | nil => simp [cutAt?]
  | cons c cs ih =>
    by_cases hc : c = closing
    · -- The first character closes, so nothing can stand in front of it.
      subst hc
      rw [cutAt?, if_pos rfl]
      cases name with
      | nil => simp
      | cons d name =>
        refine iff_of_false (by simp) ?_
        rintro ⟨htext, hname⟩
        exact hname (List.mem_cons.mpr (Or.inl (List.cons.inj htext).1))
    · -- The first character belongs to the name.
      rw [cutAt?, if_neg hc, Option.map_eq_some_iff]
      cases name with
      | nil => simp [hc]
      | cons d name =>
        have hcut : (∃ a, cutAt? closing cs = some a ∧ (c :: a.1, a.2) = (d :: name, rest)) ↔
            c = d ∧ cutAt? closing cs = some (name, rest) := by
          constructor
          · rintro ⟨⟨name', rest'⟩, hcut, heq⟩
            cases heq
            exact ⟨rfl, hcut⟩
          · rintro ⟨rfl, hcut⟩
            exact ⟨_, hcut, rfl⟩
        refine hcut.trans ?_
        rw [ih, List.cons_append, List.cons.injEq, List.mem_cons, not_or, and_assoc]
        refine and_congr_right fun hcd => and_congr_right fun _ => ?_
        subst hcd
        exact (and_iff_right (Ne.symm hc)).symm

namespace OccurrenceKind

/-! ## What stands around a name -/

/-- What stands in front of a name: the opening bracket, behind a mark if it is mentioned. -/
def front : OccurrenceKind → List Char
  | .statementReference | .statementDefinition => ['[']
  | .statementMention => ['@', '[']
  | .argumentReference | .argumentDefinition => ['<']
  | .argumentMention => ['@', '<']
  | .tag => ['#', '(']

/-- What stands behind a name: the closing bracket, in front of a colon if it is defined. -/
def back (kind : OccurrenceKind) : List Char :=
  kind.family.closing :: if kind.isDefinition then [':'] else []

/-- A name is written between what stands around it. -/
theorem toList_render (kind : OccurrenceKind) (name : String) :
    (kind.render name).toList = kind.front ++ name.toList ++ kind.back := by
  cases kind <;> simp [render, front, back, family, SymbolFamily.closing, isDefinition]

/-- All kinds are listed. -/
theorem mem_all (kind : OccurrenceKind) : kind ∈ all := by
  cases kind <;> decide

/-- Two kinds are the same if one of them goes on like the other one in front of the name, and one
of them does behind it. -/
theorem eq_of_front_of_back {k k' : OccurrenceKind}
    (hfront : k.front <+: k'.front ∨ k'.front <+: k.front)
    (hback : k.back <:+ k'.back ∨ k'.back <:+ k.back) : k = k' := by
  have hall : ∀ k ∈ all, ∀ k' ∈ all, (k.front <+: k'.front ∨ k'.front <+: k.front) →
      (k.back <:+ k'.back ∨ k'.back <:+ k.back) → k = k' := by decide
  exact hall k (mem_all k) k' (mem_all k') hfront hback

/-- The text of an occurrence tells its kind and its name. -/
theorem eq_of_render_eq {k k' : OccurrenceKind} {n n' : String} (h : k.render n = k'.render n') :
    k = k' ∧ n = n' := by
  have htext : k.front ++ n.toList ++ k.back = k'.front ++ n'.toList ++ k'.back := by
    rw [← toList_render, h, toList_render]
  -- Both kinds begin one text, and both end it.
  have hfront : k.front <+: k'.front ++ n'.toList ++ k'.back := by
    rw [← htext, List.append_assoc]
    exact List.prefix_append _ _
  have hfront' : k'.front <+: k'.front ++ n'.toList ++ k'.back := by
    rw [List.append_assoc]
    exact List.prefix_append _ _
  have hback : k.back <:+ k'.front ++ n'.toList ++ k'.back := htext ▸ List.suffix_append _ _
  have hback' : k'.back <:+ k'.front ++ n'.toList ++ k'.back := List.suffix_append _ _
  obtain rfl := eq_of_front_of_back (List.prefix_or_prefix_of_prefix hfront hfront')
    (List.suffix_or_suffix_of_suffix hback hback')
  exact ⟨rfl, String.toList_injective (List.append_cancel_left (List.append_cancel_right htext))⟩

/-! ## Tokens -/

/-- What a text begins with, if it is what stands in front of a name, as a kind without a colon. -/
def opening? : List Char → Option (OccurrenceKind × List Char)
  | '@' :: '[' :: rest => some (.statementMention, rest)
  | '@' :: '<' :: rest => some (.argumentMention, rest)
  | '#' :: '(' :: rest => some (.tag, rest)
  | '[' :: rest => some (.statementReference, rest)
  | '<' :: rest => some (.argumentReference, rest)
  | _ => none

/-- The kind with a colon behind it, if it may have one. -/
def defining? : OccurrenceKind → Option OccurrenceKind
  | .statementReference => some .statementDefinition
  | .argumentReference => some .argumentDefinition
  | _ => none

/-- The token that a text begins with, by its kind and its name, and what stands behind it. An
opening bracket stands behind an optional `@` or a `#`, and the name goes up to the first closing
bracket; a colon behind the brackets of a reference belongs to it and makes it a definition. -/
def scan? (text : List Char) : Option (OccurrenceKind × String × List Char) := do
  let (kind, text) ← opening? text
  let (name, rest) ← cutAt? kind.family.closing text
  match rest, kind.defining? with
  | ':' :: rest, some definition => return (definition, String.ofList name, rest)
  | rest, _ => return (kind, String.ofList name, rest)

/-- A text begins like a kind without a colon exactly if that stands in front. -/
theorem opening?_eq_some_iff {text rest : List Char} {kind : OccurrenceKind} :
    opening? text = some (kind, rest) ↔ kind.isDefinition = false ∧ text = kind.front ++ rest := by
  constructor
  · intro h
    unfold opening? at h
    split at h <;> cases h <;> exact ⟨rfl, rfl⟩
  · rintro ⟨hkind, rfl⟩
    cases kind <;> first | rfl | cases hkind

/-- With a colon a reference is written like a definition. -/
theorem of_defining? {kind definition : OccurrenceKind} (h : kind.defining? = some definition) :
    kind.isDefinition = false ∧ definition.defining? = none ∧ definition.front = kind.front ∧
      definition.family = kind.family ∧ definition.back = [kind.family.closing, ':'] := by
  cases kind <;> cases h <;> exact ⟨rfl, rfl, rfl, rfl, rfl⟩

/-- A kind is one without a colon, or what such a kind is with one. -/
theorem plain_or_defining (kind : OccurrenceKind) :
    kind.isDefinition = false ∨ ∃ reference : OccurrenceKind, reference.defining? = some kind := by
  cases kind with
  | statementDefinition => exact .inr ⟨.statementReference, rfl⟩
  | argumentDefinition => exact .inr ⟨.argumentReference, rfl⟩
  | _ => exact .inl rfl

/-- Nothing stands behind the bracket of a kind without a colon. -/
theorem back_of_plain {kind : OccurrenceKind} (h : kind.isDefinition = false) :
    kind.back = [kind.family.closing] := by
  rw [back, h, if_neg Bool.false_ne_true]

/-- Behind a name stands the closing bracket of its kind, and behind that what goes on from it. -/
theorem scan?_of_front {kind : OccurrenceKind} (hkind : kind.isDefinition = false)
    {name : List Char} (hname : kind.family.closing ∉ name) (rest : List Char) :
    scan? (kind.front ++ (name ++ kind.family.closing :: rest)) =
      match rest, kind.defining? with
      | ':' :: rest, some definition => some (definition, String.ofList name, rest)
      | rest, _ => some (kind, String.ofList name, rest) := by
  have hopen := opening?_eq_some_iff.mpr
    ⟨hkind, (rfl : kind.front ++ (name ++ kind.family.closing :: rest) = _)⟩
  have hcut := cutAt?_eq_some_iff.mpr ⟨(rfl : name ++ kind.family.closing :: rest = _), hname⟩
  simp only [scan?, hopen, Option.bind_eq_bind, Option.bind_some, hcut]
  rfl

/-- What a text begins with is a token exactly if it is the text of an occurrence whose name has no
closing bracket, and which is no definition with the next character. -/
theorem scan?_eq_some_iff {text rest : List Char} {kind : OccurrenceKind} {name : String} :
    scan? text = some (kind, name, rest) ↔
      text = (kind.render name).toList ++ rest ∧ kind.family.closing ∉ name.toList ∧
        (kind.defining?.isSome → rest.head? ≠ some ':') := by
  rw [toList_render]
  constructor
  · intro h
    obtain ⟨⟨opened, text'⟩, hopen, h'⟩ := Option.bind_eq_some_iff.mp h
    obtain ⟨⟨name', rest'⟩, hcut, -⟩ := Option.bind_eq_some_iff.mp h'
    obtain ⟨hplain, rfl⟩ := opening?_eq_some_iff.mp hopen
    obtain ⟨rfl, hname⟩ := cutAt?_eq_some_iff.mp hcut
    rw [scan?_of_front hplain hname] at h
    split at h
    case h_1 rest'' definition hdefining =>
      -- The colon belongs to the token.
      obtain ⟨-, hnone, hfront, hfamily, hback⟩ := of_defining? hdefining
      cases h
      simp [hfront, hback, hfamily, hnone, hname]
    case h_2 hother =>
      cases h
      refine ⟨by simp [back_of_plain hplain], by simpa using hname, fun hsome hhead => ?_⟩
      obtain ⟨definition, hdefining⟩ := Option.isSome_iff_exists.mp hsome
      obtain ⟨more, rfl⟩ := List.head?_eq_some_iff.mp hhead
      exact hother more definition rfl hdefining
  · rintro ⟨rfl, hname, hnext⟩
    obtain hplain | ⟨reference, hdefining⟩ := plain_or_defining kind
    · rw [back_of_plain hplain, List.append_assoc, List.append_assoc, List.singleton_append,
        scan?_of_front hplain hname rest]
      split
      case h_1 definition hdefining =>
        exact absurd rfl (hnext (by rw [hdefining]; rfl))
      case h_2 => rw [String.ofList_toList]
    · obtain ⟨hplain, -, hfront, hfamily, hback⟩ := of_defining? hdefining
      have hscan := scan?_of_front hplain (hfamily ▸ hname) (':' :: rest)
      rw [hdefining, String.ofList_toList] at hscan
      rw [hfront, hback, List.append_assoc, List.append_assoc]
      exact hscan

/-- The text of an occurrence is no other occurrence's. If its name has no closing bracket, the text
is one token, and it is the same token in front of whatever does not make a definition of it. -/
theorem render_unambiguous :
    (∀ (k k' : OccurrenceKind) (n n' : String), k.render n = k'.render n' → k = k' ∧ n = n') ∧
      (∀ (k : OccurrenceKind) (n : String), k.family.closing ∉ n.toList →
        scan? (k.render n).toList = some (k, n, [])) ∧
      ∀ (text rest : List Char) (k : OccurrenceKind) (n : String),
        scan? text = some (k, n, rest) ↔
          text = (k.render n).toList ++ rest ∧ k.family.closing ∉ n.toList ∧
            (k.defining?.isSome → rest.head? ≠ some ':') := by
  refine ⟨fun k k' n n' => eq_of_render_eq, fun k n hname => ?_,
    fun text rest k n => scan?_eq_some_iff⟩
  refine scan?_eq_some_iff.mpr ⟨(List.append_nil _).symm, hname, fun _ => ?_⟩
  rw [List.head?_nil]
  exact nofun

-- The end of an argument definition within the name of a statement definition.
example : scan? "[A>:]: text".toList = some (.statementDefinition, "A>:", " text".toList) := by
  decide

end OccurrenceKind

end ArgdownLens
