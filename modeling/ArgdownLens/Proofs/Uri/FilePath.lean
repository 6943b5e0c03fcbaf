import ArgdownLens.Engine.Host
import Mathlib.Data.List.TakeWhile
import Mathlib.Tactic.SplitIfs

/-!
# The URIs that name files

A URI is taken for the name of a file by its host and its path, and the scheme only says how these
are cut out of the text. So schemes other than `file` name files, too: all URIs of a scheme without
a fixed form whose path begins with a slash, unless they have a host other than `localhost`, and the
URIs of the schemes for hosts if the host is `localhost` (`NamesFile`). Such a file is sent to the
engine like any other one (`Host.inputPath_eq_some_iff`).

A path is built segment by segment, and no segment takes the slash at its beginning away or gives it
another host (`PathBuilder.Continues`).
-/

namespace ArgdownLens

namespace Uri

namespace PathBuilder

/-! ## Paths that begin with a slash -/

variable {kind : SchemeKind} {p q r : PathBuilder}

/-- The path begins with a slash. -/
def Rooted (p : PathBuilder) : Prop :=
  p.reversed.getLast? = some '/'

/-- One builder comes from another one: its path begins with a slash if that of the other one does,
and it has the same host. A file may lose its host to a drive. -/
structure Continues (kind : SchemeKind) (p q : PathBuilder) : Prop where
  rooted : p.Rooted → q.Rooted
  host : q.host = p.host ∨ kind = .file ∧ q.host = none

/-- A builder comes from itself. -/
theorem Continues.refl (kind : SchemeKind) (p : PathBuilder) : Continues kind p p :=
  ⟨id, .inl rfl⟩

/-- A builder comes from all the ones that came before it. -/
theorem Continues.trans (hpq : Continues kind p q) (hqr : Continues kind q r) :
    Continues kind p r := by
  refine ⟨hqr.rooted ∘ hpq.rooted, ?_⟩
  rcases hqr.host with hr | hr
  · rw [hr]
    exact hpq.host
  · exact .inr hr

/-- What is put at the end of a path leaves its beginning as it is. -/
theorem continues_append (cs : List Char) :
    Continues kind p { p with reversed := cs ++ p.reversed } := by
  refine ⟨fun h => ?_, .inl rfl⟩
  unfold Rooted at h ⊢
  rw [List.getLast?_append, h]
  rfl

/-- What is taken from the end of a path leaves its beginning as it is, if a slash is left. -/
theorem continues_of_suffix {cs : List Char} (hsuffix : cs <:+ p.reversed)
    (hslash : p.Rooted → '/' ∈ cs) : Continues kind p { p with reversed := cs } := by
  refine ⟨fun h => ?_, .inl rfl⟩
  have hne : cs ≠ [] := List.ne_nil_of_mem (hslash h)
  unfold Rooted at h ⊢
  obtain ⟨before, hbefore⟩ := hsuffix
  rw [← hbefore, List.getLast?_append, List.getLast?_eq_some_getLast hne] at h
  rw [List.getLast?_eq_some_getLast hne]
  exact h

/-- A slash at the end leaves the beginning as it is. -/
theorem continues_slashed : Continues kind p p.slashed := by
  unfold slashed
  split_ifs
  · exact .refl kind p
  · exact continues_append ['/']

/-- Taking a segment away leaves the slash in front of it. -/
theorem continues_dropSegment : Continues kind p (p.dropSegment kind) := by
  unfold dropSegment
  dsimp only
  split_ifs
  · exact .refl kind p
  · apply continues_of_suffix (List.dropWhile_suffix _)
    intro h
    have hslash : '/' ∈ p.reversed := List.mem_of_getLast? h
    rw [← p.reversed.takeWhile_append_dropWhile (p := (· ≠ '/')), List.mem_append] at hslash
    refine hslash.resolve_left fun hmem => ?_
    simpa using List.mem_takeWhile_imp hmem

/-- A slash is taken away only if there is another one. -/
theorem continues_tail (h : p.canDropSlash) :
    Continues kind p { p with reversed := p.reversed.tail } := by
  apply continues_of_suffix (List.tail_suffix _)
  intro _
  unfold canDropSlash at h
  split at h
  case h_1 before hreversed =>
    rw [Bool.and_eq_true, List.contains_iff_mem] at h
    rw [hreversed]
    exact h.1
  case h_2 => cases h

/-- Adding a segment leaves the beginning of the path as it is. -/
theorem continues_addSegment (segment : List Char) (hasSlash : Bool) :
    Continues kind p (p.addSegment kind segment hasSlash) := by
  unfold addSegment
  by_cases hdouble : isDoubleDot segment
  · rw [if_pos hdouble]
    have htail : Continues kind p
        (if p.canDropSlash then { p with reversed := p.reversed.tail } else p) := by
      split_ifs with hdrop
      · exact continues_tail hdrop
      · exact .refl kind p
    have hdropped := htail.trans continues_dropSegment
    cases hasSlash with
    | false => exact hdropped
    | true => exact hdropped.trans continues_slashed
  · rw [if_neg hdouble]
    by_cases hsingle : isSingleDot segment
    · rw [if_pos hsingle]
      exact continues_slashed
    · rw [if_neg hsingle]
      generalize (if hasSlash then ['/'] else []) = ending
      split_ifs with hdrive
      · -- A drive goes to the end of the path, too, and takes the host away.
        have hpath : Continues kind p _ := continues_append (ending ++ ':' :: segment.take 1)
        exact ⟨hpath.rooted, .inr ⟨hdrive.1, rfl⟩⟩
      · exact continues_append (ending ++ segment.reverse)

/-- Adding segments leaves the beginning of the path as it is. -/
theorem continues_addSegments (segments : List (List Char)) :
    Continues kind p (p.addSegments kind segments) := by
  fun_induction addSegments kind p segments with
  | case1 p => exact .refl kind p
  | case2 p segment => exact continues_addSegment segment false
  | case3 p segment rest _ ih => exact (continues_addSegment segment true).trans ih

/-- Adding the text of a path leaves its beginning as it is. -/
theorem continues_addText (text : List Char) : Continues kind p (p.addText kind text) :=
  continues_addSegments _

/-- There is always a segment, which may be empty. -/
theorem splitOnSeparator_ne_nil (isSeparator : Char → Bool) (text : List Char) :
    splitOnSeparator isSeparator text ≠ [] := by
  fun_cases splitOnSeparator isSeparator text <;> simp

/-- A text that begins with a slash gives a path that does. -/
theorem rooted_addText_slash (host : Option String) (text : List Char) :
    (addText .free ⟨[], host⟩ ('/' :: text)).Rooted := by
  -- The slash is the end of an empty segment, and there is a segment behind it.
  have hsplit : splitOnSeparator SchemeKind.free.isSlash
      (('/' :: text).takeWhile fun c => !endsPath c) =
        [] :: splitOnSeparator SchemeKind.free.isSlash (text.takeWhile fun c => !endsPath c) := rfl
  have hbegin : Rooted ⟨['/'], host⟩ := rfl
  unfold addText
  rw [hsplit]
  cases hrest : splitOnSeparator SchemeKind.free.isSlash (text.takeWhile fun c => !endsPath c) with
  | nil => exact absurd hrest (splitOnSeparator_ne_nil _ _)
  | cons segment segments => exact (continues_addSegments (segment :: segments)).rooted hbegin

/-- A text without a path gives none. -/
theorem reversed_addText_of_endsPath (host : Option String) {text : List Char}
    (h : ∀ c ∈ text.head?, endsPath c) : (addText .free ⟨[], host⟩ text).reversed = [] := by
  have htext : (text.takeWhile fun c => !endsPath c) = [] := by
    cases text with
    | nil => rfl
    | cons c cs => exact List.takeWhile_cons_of_neg (by simpa using h c rfl)
  unfold addText
  rw [htext]
  rfl

/-- The path of a file begins with a slash, and so does any other one that does while it is built.
-/
theorem head?_finish (h : kind = .file ∨ p.Rooted) : (p.finish kind).head? = some '/' := by
  cases kind with
  | file => rfl
  | hosted | free => exact List.head?_reverse.trans (h.resolve_left (by simp))

end PathBuilder

/-! ## Hosts -/

variable {domains : DomainMapping}

/-- A URI is taken for the name of a file. -/
def Locator.IsLocal (l : Locator) : Prop :=
  (l.host = none ∨ l.host = some "localhost") ∧ l.path.head? = some '/'

/-- The host and the path of a URI, by the kind of its scheme and what stands behind that. -/
def locatorBehind? (domains : DomainMapping) (kind : SchemeKind) (rest : List Char) :
    Option Locator :=
  match kind with
  | .file => fileLocator? domains rest
  | .hosted => hostedLocator? domains .hosted (rest.dropWhile SchemeKind.hosted.isSlash)
  | .free =>
    match rest with
    | '/' :: '/' :: inner => hostedLocator? domains .free inner
    | '/' :: inner => some ((PathBuilder.addText .free ⟨['/'], none⟩ inner).locator .free)
    | _ => none

/-- A URI has a host and a path if it has a scheme and they stand behind that. -/
theorem locator?_eq_some_iff {uri : String} {l : Locator} :
    locator? domains uri = some l ↔
      ∃ scheme rest, scheme? (clean uri.toList) = some (scheme, rest) ∧
        locatorBehind? domains (.ofName scheme) rest = some l := by
  unfold locator?
  rw [Option.bind_eq_bind, Option.bind_eq_some_iff, Prod.exists]
  refine exists_congr fun scheme => exists_congr fun rest => and_congr_right fun _ => ?_
  dsimp only
  unfold locatorBehind?
  cases SchemeKind.ofName scheme <;> rfl

/-- A URI names a file if its host and its path do. -/
theorem filePath?_isSome_iff {uri : String} :
    (filePath? domains uri).isSome ↔ ∃ l, locator? domains uri = some l ∧ l.IsLocal := by
  unfold filePath? Locator.IsLocal
  cases locator? domains uri with
  | none => simp
  | some l => simp

/-- A path has the host that it began with, where no drive can take it away. -/
theorem host_locator_addText {kind : SchemeKind} (hkind : kind ≠ .file) (p : PathBuilder)
    (text : List Char) : ((p.addText kind text).locator kind).host = p.host :=
  (PathBuilder.continues_addText text).host.resolve_right fun h => hkind h.1

/-- A path that began with a slash does so in the end. -/
theorem path_locator_addText {kind : SchemeKind} {p : PathBuilder} (hp : p.Rooted)
    (text : List Char) : ((p.addText kind text).locator kind).path.head? = some '/' :=
  PathBuilder.head?_finish (.inr ((PathBuilder.continues_addText text).rooted hp))

/-- Where there is always a host, it must be `localhost`. -/
theorem isLocal_hosted {text : List Char} :
    (∃ l, hostedLocator? domains .hosted text = some l ∧ l.IsLocal) ↔
      ∃ a behind, authority? .hosted text = some a ∧ domain? domains a.host = some "localhost" ∧
        behindPort? a.rest = some behind := by
  have hrooted (host : Option String) : PathBuilder.Rooted ⟨['/'], host⟩ := rfl
  have hkind : SchemeKind.hosted ≠ .file := nofun
  have hhost := host_locator_addText hkind
  unfold hostedLocator?
  simp only [Option.bind_eq_bind, Option.bind_eq_some_iff, Option.pure_def, Option.some.injEq]
  constructor
  · rintro ⟨l, ⟨a, ha, name, hname, behind, hbehind, rfl⟩, hlocal, -⟩
    rw [hhost, Option.some.injEq] at hlocal
    exact ⟨a, behind, ha, hlocal.resolve_left nofun ▸ hname, hbehind⟩
  · rintro ⟨a, behind, ha, hname, hbehind⟩
    exact ⟨_, ⟨a, ha, _, hname, behind, hbehind, rfl⟩, .inr (hhost _ _),
      path_locator_addText (hrooted _) _⟩

/-- A host that is taken as it is is the text. -/
theorem eq_of_freeHost? {text : List Char} {name : String} (h : freeHost? text = some name) :
    name = String.ofList text := by
  unfold freeHost? at h
  split_ifs at h <;> exact (Option.some.inj h).symm

/-- What a path behind a host begins with, if it does not say so itself. -/
def pathStart : List Char → List Char
  | [] => []
  | c :: _ => if c == '/' || endsPath c then [] else ['/']

/-- A host that is taken as it is, with the path behind it. -/
def freeLocator (name : String) (behind : List Char) : Locator :=
  let host := if name.isEmpty then none else some name
  (PathBuilder.addText .free ⟨pathStart behind, host⟩ behind).locator .free

/-- An empty host is none. -/
theorem host_freeLocator (name : String) (behind : List Char) :
    (freeLocator name behind).host = if name.isEmpty then none else some name := by
  have hfree : SchemeKind.free ≠ .file := nofun
  exact host_locator_addText hfree _ _

/-- There is a path behind a host if something is there that belongs to one. -/
theorem path_freeLocator (name : String) (behind : List Char) :
    (freeLocator name behind).path.head? = some '/' ↔
      ∃ c cs, behind = c :: cs ∧ ¬ endsPath c := by
  unfold freeLocator
  generalize (if name.isEmpty then none else some name) = host
  dsimp only
  by_cases h : ∀ c ∈ behind.head?, endsPath c
  · -- Nothing is there, or what ends a path.
    have hstart : pathStart behind = [] := by
      cases behind with
      | nil => rfl
      | cons c cs => simp [pathStart, h c rfl]
    have hpath : ((PathBuilder.addText .free ⟨[], host⟩ behind).locator .free).path = [] :=
      congrArg List.reverse (PathBuilder.reversed_addText_of_endsPath host h)
    rw [hstart, hpath]
    refine iff_of_false nofun ?_
    rintro ⟨c, cs, rfl, hc⟩
    exact hc (h c rfl)
  · cases behind with
    | nil => exact absurd nofun h
    | cons c cs =>
      have hc : ¬ endsPath c := fun hc => h fun d hd => Option.some.inj hd ▸ hc
      refine iff_of_true ?_ ⟨c, cs, rfl, hc⟩
      by_cases hslash : c = '/'
      · have hrooted := PathBuilder.rooted_addText_slash host cs
        have hpath := PathBuilder.head?_finish (.inr hrooted : SchemeKind.free = .file ∨ _)
        rw [hslash]
        exact hpath
      · have hstart : pathStart (c :: cs) = ['/'] := by simp [pathStart, hslash, hc]
        have hrooted : PathBuilder.Rooted ⟨['/'], host⟩ := rfl
        rw [hstart]
        exact path_locator_addText hrooted (c :: cs)

/-- Behind two slashes of a scheme without a fixed form stand a host and a path. An empty host is
followed by no port and has no credentials. -/
theorem hostedLocator?_free_eq_some_iff {text : List Char} {l : Locator} :
    hostedLocator? domains .free text = some l ↔
      ∃ a name behind, authority? .free text = some a ∧ freeHost? a.host = some name ∧
        ¬ (name.isEmpty ∧ (a.rest.head? = some ':' ∨ a.hasCredentials)) ∧
        behindPort? a.rest = some behind ∧ freeLocator name behind = l := by
  unfold hostedLocator?
  simp only [Option.bind_eq_bind, Option.bind_eq_some_iff, Option.pure_def]
  refine exists_congr fun a => ⟨?_, ?_⟩
  · rintro ⟨ha, name, hname, h⟩
    obtain ⟨hempty, h⟩ := Option.ite_none_left_eq_some.mp h
    obtain ⟨behind, hbehind, ⟨⟩⟩ := Option.bind_eq_some_iff.mp h
    exact ⟨name, behind, ha, hname, by simpa using hempty, hbehind, by cases behind <;> rfl⟩
  · rintro ⟨name, behind, ha, hname, hempty, hbehind, rfl⟩
    refine ⟨ha, name, hname, ?_⟩
    rw [if_neg (by simpa using hempty), hbehind]
    cases behind <;> rfl

/-- Behind two slashes of a scheme without a fixed form, there must be no host or `localhost`, and
something that belongs to a path. -/
theorem isLocal_free {text : List Char} :
    (∃ l, hostedLocator? domains .free text = some l ∧ l.IsLocal) ↔
      ∃ a c behind, authority? .free text = some a ∧
        (a.host = "localhost".toList ∨
          a.host = [] ∧ ¬ (a.rest.head? = some ':' ∨ a.hasCredentials)) ∧
        behindPort? a.rest = some (c :: behind) ∧ ¬ endsPath c := by
  simp only [hostedLocator?_free_eq_some_iff]
  unfold Locator.IsLocal
  constructor
  · -- The host is the one that was written, so it is `localhost` or there is none.
    rintro ⟨_, ⟨a, name, behind, ha, hname, hempty, hbehind, rfl⟩, hhost, hpath⟩
    obtain ⟨c, cs, rfl, hc⟩ := (path_freeLocator name behind).mp hpath
    obtain rfl := eq_of_freeHost? hname
    refine ⟨a, c, cs, ha, ?_, hbehind, hc⟩
    rw [host_freeLocator] at hhost
    by_cases hnone : a.host = []
    · refine .inr ⟨hnone, fun h => hempty ⟨?_, h⟩⟩
      rw [hnone]
      rfl
    · rw [if_neg (by simpa using hnone), Option.some.injEq] at hhost
      have htext := congrArg String.toList (hhost.resolve_left nofun)
      rw [String.toList_ofList] at htext
      exact .inl htext
  · rintro ⟨a, c, behind, ha, hhost, hbehind, hc⟩
    have hpath (name : String) := (path_freeLocator name (c :: behind)).mpr ⟨c, behind, rfl, hc⟩
    have hfree (name : String) := host_freeLocator name (c :: behind)
    obtain hhost | ⟨hhost, hbare⟩ := hhost
    · have hname : ¬ "localhost".isEmpty := by decide
      exact ⟨_, ⟨a, "localhost", c :: behind, ha, by rw [hhost]; rfl, fun h => hname h.1, hbehind,
        rfl⟩, .inr (hfree _), hpath _⟩
    · exact ⟨_, ⟨a, "", c :: behind, ha, by rw [hhost]; rfl, fun h => hbare h.2, hbehind, rfl⟩,
        .inl (hfree _), hpath _⟩

/-! ## Files -/

/-- What stands behind the scheme of a file gives a path with a host or none, but not with
`localhost`. -/
theorem fileLocator?_eq_some {rest : List Char} {l : Locator}
    (h : fileLocator? domains rest = some l) :
    ∃ p text, l = (PathBuilder.addText .file p text).locator .file ∧ p.host ≠ some "localhost" := by
  unfold fileLocator? at h
  split at h
  case h_1 a b rest =>
    dsimp only at h
    split_ifs at h with hslashes hdrive hempty hslash
    · exact ⟨_, _, (Option.some.inj h).symm, nofun⟩
    · exact ⟨_, _, (Option.some.inj h).symm, nofun⟩
    · -- The only host that a path gets here is one that was written and is not `localhost`.
      obtain ⟨name, -, h⟩ := Option.bind_eq_some_iff.mp h
      split_ifs at h with hname
      · exact ⟨_, _, (Option.some.inj h).symm, nofun⟩
      · exact ⟨_, _, (Option.some.inj h).symm, fun hhost => hname (Option.some.inj hhost)⟩
    · exact ⟨_, _, (Option.some.inj h).symm, nofun⟩
    · exact ⟨_, _, (Option.some.inj h).symm, nofun⟩
  case h_2 a =>
    dsimp only at h
    split_ifs at h <;> exact ⟨_, _, (Option.some.inj h).symm, nofun⟩
  case h_3 => exact ⟨_, _, (Option.some.inj h).symm, nofun⟩

/-- A file is taken for one exactly if it has no host. -/
theorem isLocal_file {rest : List Char} {l : Locator} (h : fileLocator? domains rest = some l) :
    l.IsLocal ↔ l.host = none := by
  obtain ⟨p, text, rfl, hp⟩ := fileLocator?_eq_some h
  have hcontinues : PathBuilder.Continues .file p (p.addText .file text) :=
    PathBuilder.continues_addText text
  have hhost := hcontinues.host
  constructor
  · rintro ⟨hnone | hlocal, -⟩
    · exact hnone
    · rcases hhost with hhost | ⟨-, hhost⟩
      · exact absurd (hhost.symm.trans hlocal) hp
      · exact hhost
  · exact fun hnone => ⟨.inl hnone, rfl⟩

/-- What stands behind the scheme of a URI that names a file, by the kind of the scheme. -/
inductive NamesFile (domains : DomainMapping) : SchemeKind → List Char → Prop where
  /-- A path that begins with one slash, for a scheme without a fixed form. -/
  | rooted {inner : List Char} (hroot : inner.head? ≠ some '/') :
      NamesFile domains .free ('/' :: inner)
  /-- Two slashes and the host `localhost`, or none, in front of something that belongs to a path,
  for a scheme without a fixed form. -/
  | behindSlashes {inner behind : List Char} {a : Authority} {c : Char}
      (ha : authority? .free inner = some a)
      (hhost : a.host = "localhost".toList ∨
        a.host = [] ∧ ¬ (a.rest.head? = some ':' ∨ a.hasCredentials))
      (hbehind : behindPort? a.rest = some (c :: behind)) (hc : ¬ endsPath c) :
      NamesFile domains .free ('/' :: '/' :: inner)
  /-- The host `localhost`, for a scheme that always has a host. -/
  | hosted {rest behind : List Char} {a : Authority}
      (ha : authority? .hosted (rest.dropWhile SchemeKind.hosted.isSlash) = some a)
      (hhost : domain? domains a.host = some "localhost")
      (hbehind : behindPort? a.rest = some behind) : NamesFile domains .hosted rest
  /-- No other host than `localhost`, for files. -/
  | file {rest : List Char} {l : Locator} (hl : fileLocator? domains rest = some l)
      (hhost : l.host = none) : NamesFile domains .file rest

/-- A path that begins with one slash has no host. -/
theorem locatorBehind?_rooted {inner : List Char} (h : inner.head? ≠ some '/') :
    locatorBehind? domains .free ('/' :: inner) =
      some ((PathBuilder.addText .free ⟨['/'], none⟩ inner).locator .free) := by
  cases inner with
  | nil => rfl
  | cons c cs =>
    have hc : c ≠ '/' := fun hc => h (congrArg some hc)
    unfold locatorBehind?
    simp [hc]

/-- What stands behind a scheme names a file if its host and its path do. -/
theorem namesFile_iff {kind : SchemeKind} {rest : List Char} :
    NamesFile domains kind rest ↔ ∃ l, locatorBehind? domains kind rest = some l ∧ l.IsLocal := by
  constructor
  · rintro (⟨hroot⟩ | ⟨ha, hhost, hbehind, hc⟩ | ⟨ha, hhost, hbehind⟩ | ⟨hl, hhost⟩)
    · have hfree : SchemeKind.free ≠ .file := nofun
      have hbegin : PathBuilder.Rooted ⟨['/'], none⟩ := rfl
      exact ⟨_, locatorBehind?_rooted hroot, .inl (host_locator_addText hfree _ _),
        path_locator_addText hbegin _⟩
    · have hlocal : ∃ l, hostedLocator? domains .free _ = some l ∧ l.IsLocal :=
        isLocal_free.mpr ⟨_, _, _, ha, hhost, hbehind, hc⟩
      exact hlocal
    · exact isLocal_hosted.mpr ⟨_, _, ha, hhost, hbehind⟩
    · exact ⟨_, hl, (isLocal_file hl).mpr hhost⟩
  · rintro ⟨l, hl, hlocal⟩
    cases kind with
    | file => exact .file hl ((isLocal_file hl).mp hlocal)
    | hosted =>
      obtain ⟨a, behind, ha, hhost, hbehind⟩ := isLocal_hosted.mp ⟨l, hl, hlocal⟩
      exact .hosted ha hhost hbehind
    | free =>
      -- Behind two slashes, behind one, or without a path at all.
      unfold locatorBehind? at hl
      dsimp only at hl
      split at hl
      case h_1 inner =>
        obtain ⟨a, c, behind, ha, hhost, hbehind, hc⟩ := isLocal_free.mp ⟨l, hl, hlocal⟩
        exact .behindSlashes ha hhost hbehind hc
      case h_2 inner hinner =>
        refine .rooted fun hhead => ?_
        obtain ⟨inner', rfl⟩ := List.head?_eq_some_iff.mp hhead
        exact hinner inner' rfl
      case h_3 => cases hl

/-- A URI names a file exactly if it has a scheme and what stands behind it names a file for a
scheme of its kind. -/
theorem filePath?_isSome_iff_namesFile {uri : String} :
    (filePath? domains uri).isSome ↔
      ∃ scheme rest, scheme? (clean uri.toList) = some (scheme, rest) ∧
        NamesFile domains (.ofName scheme) rest := by
  simp only [filePath?_isSome_iff, locator?_eq_some_iff, namesFile_iff]
  constructor
  · rintro ⟨l, ⟨scheme, rest, hscheme, hl⟩, hlocal⟩
    exact ⟨scheme, rest, hscheme, l, hl, hlocal⟩
  · rintro ⟨scheme, rest, hscheme, l, hl, hlocal⟩
    exact ⟨l, ⟨scheme, rest, hscheme, hl⟩, hlocal⟩

end Uri

/-- A URI names a file exactly if it has a scheme and what stands behind it names a file for a
scheme of its kind, be that `file` or another one. An engine is told this file exactly if the
document is open and the configuration says so. -/
theorem Host.inputPath_eq_some_iff (domains : Uri.DomainMapping) (h : Host) (uri : String) :
    ((Uri.filePath? domains uri).isSome ↔
        ∃ scheme rest, Uri.scheme? (Uri.clean uri.toList) = some (scheme, rest) ∧
          Uri.NamesFile domains (.ofName scheme) rest) ∧
      ∀ path, (∃ request, h.request? domains uri = some request ∧ request.inputPath = some path) ↔
        h.hasFile uri ∧ h.config.sendInputPath ∧ Uri.filePath? domains uri = some path := by
  refine ⟨Uri.filePath?_isSome_iff_namesFile, fun path => ?_⟩
  unfold request? hasFile OrderedMap.contains
  cases h.documents.get? uri with
  | none => simp
  | some text => by_cases hsend : h.config.sendInputPath <;> simp [hsend]

/-- A URI that names a file need not have the scheme `file`. -/
theorem untitled_filePath :
    ¬ ∀ uri path, Uri.filePath? .plain uri = some path →
      ∃ rest, Uri.scheme? (Uri.clean uri.toList) = some ("file", rest) := by
  intro h
  have hpath : Uri.filePath? .plain "untitled:/a" = some (Utf8.encode "/a") := by decide
  have hscheme : Uri.scheme? (Uri.clean "untitled:/a".toList) = some ("untitled", ['/', 'a']) := by
    decide
  obtain ⟨rest, hfile⟩ := h _ _ hpath
  rw [hscheme] at hfile
  simp at hfile

end ArgdownLens
