import ArgdownLens.Engine.Request
import ArgdownLens.Proofs.Json.Written
import ArgdownLens.Proofs.Text.Utf8

/-!
# The line that an engine gets

A request whose path, if it has one, is text is written as one line of JSON, and a strict reader
finds exactly the request in it (`EngineRequest.payload_spells`). Since the bytes of a path are
those of the text that they spell, no other request is written as the same line.
-/

namespace ArgdownLens.EngineRequest

open Json

/-- The members of a request as an object: the document, the path if there is one, and the stages.
-/
def members (r : EngineRequest) (path : Option String) : List (String × Value) :=
  ("input", .string r.input) :: (path.map fun p => ("inputPath", Value.string p)).toList ++
    [("process", .array (r.process.map .string))]

/-- A request whose path is text is an object. -/
theorem toJson_of_path {r : EngineRequest} {path : Option String}
    (h : r.inputPath = path.map Utf8.encode) : r.toJson = .ok (.object (r.members path)) := by
  unfold toJson
  rw [h]
  cases path with
  | none => rfl
  | some p =>
    have hdecode : Utf8.decode? (Utf8.encode p) = some p := Utf8.decode?_eq_some_iff.mpr rfl
    simp only [Option.map_some, hdecode]
    rfl

/-- A request whose path is text has its line. -/
theorem payload_of_path {r : EngineRequest} {path : Option String}
    (h : r.inputPath = path.map Utf8.encode) :
    r.payload = .ok (Value.object (r.members path)).text := by
  unfold payload
  rw [toJson_of_path h]
  rfl

/-- The path of a request that has a line is text. -/
theorem exists_path_of_payload {r : EngineRequest} {text : String} (h : r.payload = .ok text) :
    ∃ path : Option String, r.inputPath = path.map Utf8.encode := by
  unfold payload toJson at h
  cases hpath : r.inputPath with
  | none => exact ⟨none, rfl⟩
  | some bytes =>
    cases hdecode : Utf8.decode? bytes with
    | none =>
      simp only [hpath, hdecode] at h
      cases h
    | some p => exact ⟨some p, congrArg some (Utf8.decode?_eq_some_iff.mp hdecode)⟩

/-- A list of texts fits into an array. -/
theorem fitsItems_ofTexts (room : Nat) (texts : List String) :
    Value.FitsItems room (texts.map .string) := by
  induction texts with
  | nil => trivial
  | cons text texts ih => exact ⟨trivial, ih⟩

/-- A request has two brackets open at once and no numbers. -/
theorem fits_members (r : EngineRequest) (path : Option String) :
    (Value.object (r.members path)).Fits maxDepth := by
  have hstages : (Value.array (r.process.map .string)).Fits (maxDepth - 1) :=
    ⟨by decide, fitsItems_ofTexts _ r.process⟩
  cases path with
  | none => exact ⟨by decide, trivial, hstages, trivial⟩
  | some p => exact ⟨by decide, trivial, trivial, hstages, trivial⟩

/-- Requests with the same members are the same. -/
theorem eq_of_members {r r' : EngineRequest} {path path' : Option String}
    (hpath : r.inputPath = path.map Utf8.encode) (hpath' : r'.inputPath = path'.map Utf8.encode)
    (h : r'.members path' = r.members path) : r' = r := by
  have hstrings : Function.Injective Value.string := fun a b hab => Value.string.inj hab
  have hfields : r'.input = r.input ∧ path' = path ∧ r'.process = r.process := by
    unfold members at h
    -- A path is one member more, so that both requests have one or neither has one.
    cases path <;> cases path' <;>
      simp only [Option.map_none, Option.map_some, Option.toList_none, Option.toList_some,
        List.cons_append, List.nil_append, List.cons.injEq, Prod.mk.injEq, Value.string.injEq,
        Value.array.injEq, true_and, and_true, List.map_inj_right hstrings, reduceCtorEq,
        and_false] at h
    · exact ⟨h.1, rfl, h.2⟩
    · exact ⟨h.1, congrArg some h.2.1, h.2.2⟩
  obtain ⟨input, inputPath, process⟩ := r
  obtain ⟨input', inputPath', process'⟩ := r'
  dsimp only at hpath hpath' hfields
  rw [hpath, hpath', hfields.1, hfields.2.1, hfields.2.2]

/-- A request whose path, if it has one, is text is written as one line: no byte of it is one of a
control character. The line is strict JSON for the object of the request, with the document, the
path if and only if there is one, and the stages in order, all of them character for character. It
is the line of no other request. -/
theorem payload_spells (r : EngineRequest) (path : Option String)
    (hpath : r.inputPath = path.map Utf8.encode) :
    ∃ text, r.payload = .ok text ∧ (∀ b ∈ Utf8.encode text, 0x20 ≤ b) ∧
      Value.parse text = .ok (.object (("input", .string r.input) ::
        (path.map fun p => ("inputPath", Value.string p)).toList ++
          [("process", .array (r.process.map .string))])) ∧
      ∀ r' : EngineRequest, r'.payload = .ok text → r' = r := by
  have hparse := Value.parse_text (r.fits_members path)
  refine ⟨_, payload_of_path hpath, Utf8.le_of_mem_encode (Value.le_of_mem_text
    (r.fits_members path)), hparse, ?_⟩
  intro r' hr'
  obtain ⟨path', hpath'⟩ := exists_path_of_payload hr'
  -- The other request is read back from its line, too, which is the same.
  have hparse' := Value.parse_text (r'.fits_members path')
  rw [payload_of_path hpath', Except.ok.injEq] at hr'
  rw [hr', hparse, Except.ok.injEq, Value.object.injEq] at hparse'
  exact eq_of_members hpath hpath' hparse'.symm

/-- A request with quotes, a backslash, controls, a character beyond 16 bits and an empty stage. -/
def oddRequest : EngineRequest where
  input := "\"[S1]\\\n\x00\x7F😀"
  inputPath := some (Utf8.encode "/tmp/ä.argdown")
  process := ["parse-input", ""]

/-- The line of this request. -/
def oddLine : String :=
  "\x7b\"input\":\"\\\"[S1]\\\\\\n\\u0000\x7F😀\",\"inputPath\":\"/tmp/ä.argdown\"," ++
    "\"process\":[\"parse-input\",\"\"]\x7d"

/-- Everything in the request is found in its line. -/
theorem oddRequest_payload :
    oddRequest.payload = .ok oddLine ∧
      Value.parse oddLine = .ok (.object [("input", .string "\"[S1]\\\n\x00\x7F😀"),
        ("inputPath", .string "/tmp/ä.argdown"),
        ("process", .array [.string "parse-input", .string ""])]) := by
  have hline : oddRequest.payload = .ok oddLine := by decide +kernel
  obtain ⟨text, htext, -, hparse, -⟩ := payload_spells oddRequest (some "/tmp/ä.argdown") rfl
  obtain rfl := Except.ok.inj (hline.symm.trans htext)
  exact ⟨hline, hparse⟩

end ArgdownLens.EngineRequest
