import ArgdownLens.Engine.Host
import Mathlib.Data.List.Induction
import Mathlib.Data.List.Nodup

/-!
# What a host remembers

Whatever was called on a host, it holds of each document the text that was set last, unless the
document was closed since, and the configuration that was set last. It asks the engine exactly once
for an analysis of an open document, and with nothing but these (`Host.last_write_counts`). To see
how often the engine is asked, the analysis is taken from an engine that notes its requests.

What one call does to the state (`Host.get?_perform`) gives by induction what a history does
(`Host.get?_after`). Hosts that agree in every text and in the configuration still agree after any
further calls (`Host.Agrees.after`), so that no later answer tells them apart.
-/

namespace ArgdownLens

/-! ## Calls -/

/-- A call on a host. -/
inductive HostCall where
  | setFile (uri text : String)
  | removeFile (uri : String)
  | setConfig (config : EngineConfig)
  | analysis (uri : String)
  deriving DecidableEq, Repr

namespace HostCall

/-- The document that a call is about, if it is about one. -/
def uri? : HostCall → Option String
  | .setFile uri _ | .removeFile uri | .analysis uri => some uri
  | .setConfig _ => none

/-- What a call writes for a document: a text, or that there is none. Most calls write nothing. -/
def write? (uri : String) : HostCall → Option (Option String)
  | .setFile u text => if u = uri then some (some text) else none
  | .removeFile u => if u = uri then some none else none
  | .setConfig _ | .analysis _ => none

/-- The configuration that a call sets. -/
def config? : HostCall → Option EngineConfig
  | .setConfig config => some config
  | _ => none

/-- A call about another document writes nothing for this one. -/
theorem write?_eq_none {call : HostCall} {uri u : String} (h : call.uri? = some u) (hne : u ≠ uri) :
    call.write? uri = none := by
  cases call with
  | setFile v text =>
    obtain rfl := Option.some.inj h
    exact if_neg hne
  | removeFile v =>
    obtain rfl := Option.some.inj h
    exact if_neg hne
  | setConfig config => rfl
  | analysis v => rfl

/-- A call about a document leaves the configuration alone. -/
theorem config?_eq_none {call : HostCall} {u : String} (h : call.uri? = some u) :
    call.config? = none := by
  cases call with
  | setConfig config => cases h
  | _ => rfl

end HostCall

/-- The text of a document after some calls: the one that was set last, unless the document was
closed since or its text was never set. -/
def lastText? (uri : String) (calls : List HostCall) : Option String :=
  (calls.reverse.findSome? (·.write? uri)).join

/-- The configuration after some calls: the one that was set last, else the first one. -/
def lastConfig (config : EngineConfig) (calls : List HostCall) : EngineConfig :=
  (calls.reverse.findSome? HostCall.config?).getD config

/-! ## Answers -/

/-- The engine that notes every request before it answers. -/
def Engine.noting (engine : Engine) (request : EngineRequest) :
    ExceptT EngineError (StateM (List EngineRequest)) Response := do
  modify (· ++ [request])
  ExceptT.mk (pure (engine request))

/-- What an analysis gives, and the requests that the engine gets for it. -/
structure Answer where
  result : Except EngineError (Option Analysis)
  requests : List EngineRequest

namespace Host

variable (domains : Uri.DomainMapping)

/-- The answer for a document. -/
def answer (h : Host) (engine : Engine) (uri : String) : Answer :=
  let (result, requests) := (h.analysisBy domains engine.noting uri).run.run []
  ⟨result, requests⟩

/-- The engine gets the request for an open document once, and no request for another one. Its error
is passed on, and its response becomes an analysis of the text. -/
theorem answer_eq (h : Host) (engine : Engine) (uri : String) :
    h.answer domains engine uri =
      match h.request? domains uri with
      | none => ⟨.ok none, []⟩
      | some request =>
        ⟨(engine request).map fun response => some ⟨uri, request.input, response⟩, [request]⟩ := by
  unfold answer analysisBy Engine.noting
  cases h.request? domains uri with
  | none => rfl
  | some request =>
    dsimp only
    cases engine request <;> rfl

/-- Noting the requests does not change the analysis. -/
theorem result_answer (h : Host) (engine : Engine) (uri : String) :
    (h.answer domains engine uri).result = h.analysis domains engine uri := by
  rw [answer_eq]
  unfold analysis analysisBy
  cases h.request? domains uri with
  | none => rfl
  | some request =>
    dsimp only
    cases engine request <;> rfl

/-- The host after a call. An analysis changes nothing. -/
def perform (h : Host) : HostCall → Host
  | .setFile uri text => h.setFile uri text
  | .removeFile uri => h.removeFile uri
  | .setConfig config => h.setConfig config
  | .analysis _ => h

/-- The host after some calls. -/
def after (h : Host) (calls : List HostCall) : Host :=
  calls.foldl perform h

/-- The answers to the analyses among some calls. -/
def answers (engine : Engine) (h : Host) : List HostCall → List Answer
  | [] => []
  | .analysis uri :: calls => h.answer domains engine uri :: answers engine h calls
  | call :: calls => answers engine (h.perform call) calls

/-! ## What calls do to the state -/

/-- A call writes for a document what it says, or leaves it alone. -/
theorem get?_perform (h : Host) (call : HostCall) (uri : String) :
    (h.perform call).documents.get? uri = (call.write? uri).getD (h.documents.get? uri) := by
  cases call with
  | setFile u text =>
    simp only [perform, setFile, HostCall.write?, OrderedMap.get?_insert, eq_comm (a := uri)]
    split <;> rfl
  | removeFile u =>
    simp only [perform, removeFile, HostCall.write?, OrderedMap.get?_erase, eq_comm (a := uri)]
    split <;> rfl
  | setConfig config => rfl
  | analysis u => rfl

/-- A call sets the configuration that it says, or leaves it alone. -/
theorem config_perform (h : Host) (call : HostCall) :
    (h.perform call).config = call.config?.getD h.config := by
  cases call <;> rfl

/-- One more call comes after the others. -/
theorem after_concat (h : Host) (calls : List HostCall) (call : HostCall) :
    h.after (calls ++ [call]) = (h.after calls).perform call :=
  List.foldl_concat ..

/-- After some calls a document has the text that was written last. -/
theorem get?_after (h : Host) (calls : List HostCall) (uri : String) :
    (h.after calls).documents.get? uri =
      (calls.reverse.findSome? (·.write? uri)).getD (h.documents.get? uri) := by
  induction calls using List.reverseRecOn with
  | nil => rfl
  | append_singleton calls call ih =>
    rw [after_concat, get?_perform, ih, List.reverse_concat, List.findSome?_cons]
    cases call.write? uri <;> rfl

/-- After some calls on a host without documents, a document has the text that was set last. -/
theorem get?_after_start (config : EngineConfig) (calls : List HostCall) (uri : String) :
    (after { config := config } calls).documents.get? uri = lastText? uri calls := by
  rw [get?_after, OrderedMap.get?_empty, lastText?]
  cases calls.reverse.findSome? (·.write? uri) <;> rfl

/-- After some calls the configuration is the one that was set last. -/
theorem config_after (h : Host) (calls : List HostCall) :
    (h.after calls).config = lastConfig h.config calls := by
  induction calls using List.reverseRecOn with
  | nil => rfl
  | append_singleton calls call ih =>
    rw [after_concat, config_perform, ih, lastConfig, lastConfig, List.reverse_concat,
      List.findSome?_cons]
    cases call.config? <;> rfl

/-- A call about another document does not change the answer for this one. -/
theorem answer_perform (h : Host) (engine : Engine) {call : HostCall} {uri u : String}
    (hcall : call.uri? = some u) (hne : u ≠ uri) :
    (h.perform call).answer domains engine uri = h.answer domains engine uri := by
  have hrequest : (h.perform call).request? domains uri = h.request? domains uri := by
    unfold request?
    rw [get?_perform, config_perform, HostCall.write?_eq_none hcall hne,
      HostCall.config?_eq_none hcall, Option.getD_none, Option.getD_none]
  rw [answer_eq, answer_eq, hrequest]

/-! ## Hosts that agree -/

/-- Two hosts have the same configuration and the same text of every document. -/
def Agrees (h h' : Host) : Prop :=
  h.config = h'.config ∧ ∀ uri, h.documents.get? uri = h'.documents.get? uri

/-- No later call is answered differently by the two hosts. -/
def AnswersAlike (h h' : Host) : Prop :=
  ∀ (engine : Engine) (calls : List HostCall),
    h.answers domains engine calls = h'.answers domains engine calls ∧
      (∀ uri, (h.after calls).hasFile uri = (h'.after calls).hasFile uri) ∧
      (h.after calls).fileCount = (h'.after calls).fileCount

variable {h h' : Host}

/-- A host agrees with itself. -/
theorem Agrees.refl (h : Host) : Agrees h h :=
  ⟨rfl, fun _ => rfl⟩

/-- Hosts that agree still do after one more call. -/
theorem Agrees.perform (hagree : Agrees h h') (call : HostCall) :
    Agrees (h.perform call) (h'.perform call) := by
  obtain ⟨hconfig, htexts⟩ := hagree
  constructor
  · rw [config_perform, config_perform, hconfig]
  · intro uri
    rw [get?_perform, get?_perform, htexts]

/-- Hosts that agree still do after further calls. -/
theorem Agrees.after (hagree : Agrees h h') (calls : List HostCall) :
    Agrees (h.after calls) (h'.after calls) := by
  induction calls generalizing h h' with
  | nil => exact hagree
  | cons call calls ih => exact ih (hagree.perform call)

/-- Hosts that agree make the same requests. -/
theorem Agrees.request? (hagree : Agrees h h') (uri : String) :
    h.request? domains uri = h'.request? domains uri := by
  unfold Host.request?
  rw [hagree.1, hagree.2]

/-- Hosts that agree give the same answer. -/
theorem Agrees.answer (hagree : Agrees h h') (engine : Engine) (uri : String) :
    h.answer domains engine uri = h'.answer domains engine uri := by
  rw [answer_eq, answer_eq, hagree.request?]

/-- Hosts that agree give the same answers to further calls. -/
theorem Agrees.answers (hagree : Agrees h h') (engine : Engine) (calls : List HostCall) :
    h.answers domains engine calls = h'.answers domains engine calls := by
  induction calls generalizing h h' with
  | nil => rfl
  | cons call calls ih =>
    cases call with
    | analysis uri => rw [Host.answers, Host.answers, hagree.answer, ih hagree]
    | _ => exact ih (hagree.perform _)

/-- Hosts that agree have the same documents open. -/
theorem Agrees.hasFile (hagree : Agrees h h') (uri : String) : h.hasFile uri = h'.hasFile uri := by
  unfold Host.hasFile OrderedMap.contains
  rw [hagree.2]

/-- Hosts that agree have equally many documents open. -/
theorem Agrees.fileCount (hagree : Agrees h h') : h.fileCount = h'.fileCount := by
  have hperm : h.documents.keys.Perm h'.documents.keys := by
    rw [List.perm_ext_iff_of_nodup (OrderedMap.nodup_keys _) (OrderedMap.nodup_keys _)]
    intro uri
    rw [OrderedMap.mem_keys_iff, OrderedMap.mem_keys_iff, hagree.2]
  unfold Host.fileCount
  rw [OrderedMap.size_eq, OrderedMap.size_eq, hperm.length_eq]

/-- Hosts that agree answer alike. -/
theorem Agrees.answersAlike (hagree : Agrees h h') : AnswersAlike domains h h' :=
  fun engine calls => ⟨hagree.answers domains engine calls, (hagree.after calls).hasFile,
    (hagree.after calls).fileCount⟩

/-- It does not matter which of two calls about different documents comes first. -/
theorem agrees_perform_comm (h : Host) {call call' : HostCall} {u v : String}
    (hu : call.uri? = some u) (hv : call'.uri? = some v) (hne : u ≠ v) :
    Agrees ((h.perform call).perform call') ((h.perform call').perform call) := by
  constructor
  · simp only [config_perform, HostCall.config?_eq_none hu, HostCall.config?_eq_none hv,
      Option.getD_none]
  · -- At most one of the calls writes for any given document.
    intro uri
    simp only [get?_perform]
    by_cases huri : u = uri
    · rw [HostCall.write?_eq_none hv (huri ▸ hne.symm), Option.getD_none, Option.getD_none]
    · rw [HostCall.write?_eq_none hu huri, Option.getD_none, Option.getD_none]

/-! ## The main result -/

/-- After any calls on a host without documents, with `config` as its first configuration, the last
write counts. A document of which no text is left is not analysed, and the engine is not asked. For
any other one the engine is asked once, with the text that was set last and the stages of the
configuration that was set last, and with the file of the document exactly if that configuration
says so and the document has one. Its error is passed on, and its response becomes an analysis of
that text. The open documents are those of which a text is left. Leaving an analysis out changes
nothing for later calls, and neither does exchanging two calls about different documents, which do
not change the answers of each other. -/
theorem last_write_counts (engine : Engine) (config : EngineConfig) (calls : List HostCall) :
    let start : Host := { config := config }
    let h := start.after calls
    (∀ uri, h.analysis domains engine uri = (h.answer domains engine uri).result) ∧
    (∀ uri, h.answer domains engine uri = ⟨.ok none, []⟩ ↔ lastText? uri calls = none) ∧
    (∀ uri text, lastText? uri calls = some text → ∃ request : EngineRequest,
      request.input = text ∧ request.process = (lastConfig config calls).process ∧
      (∀ path, request.inputPath = some path ↔
        (lastConfig config calls).sendInputPath ∧ Uri.filePath? domains uri = some path) ∧
      h.answer domains engine uri =
        ⟨(engine request).map fun response => some ⟨uri, text, response⟩, [request]⟩) ∧
    (∀ uri, h.hasFile uri ↔ (lastText? uri calls).isSome) ∧
    (∃ uris : List String, uris.Nodup ∧ (∀ uri, uri ∈ uris ↔ (lastText? uri calls).isSome) ∧
      h.fileCount = uris.length) ∧
    (∀ uri, AnswersAlike domains (start.after (calls ++ [.analysis uri])) h) ∧
    (∀ call uri u, call.uri? = some u → u ≠ uri →
      (start.after (calls ++ [call])).answer domains engine uri = h.answer domains engine uri) ∧
    ∀ call call' u v, call.uri? = some u → call'.uri? = some v → u ≠ v →
      AnswersAlike domains (start.after (calls ++ [call, call']))
        (start.after (calls ++ [call', call])) := by
  intro start h
  have hconfig : h.config = lastConfig config calls := config_after start calls
  have htext : ∀ uri, h.documents.get? uri = lastText? uri calls := get?_after_start config calls
  refine ⟨fun uri => (result_answer domains h engine uri).symm, ?_, ?_, ?_, ?_, ?_, ?_, ?_⟩
  · -- Without a text there is no request. With one the list of requests is not empty.
    intro uri
    rw [← htext, answer_eq, request?]
    cases h.documents.get? uri <;> simp
  · -- The request is the one that the state of the host gives.
    intro uri text hlast
    rw [← htext] at hlast
    let path? := if h.config.sendInputPath then Uri.filePath? domains uri else none
    refine ⟨⟨text, path?, h.config.process⟩, rfl, by rw [hconfig], ?_, ?_⟩
    · intro path
      dsimp only [path?]
      rw [hconfig]
      split_ifs with hsend <;> simp [hsend]
    · rw [answer_eq, request?, hlast]
      rfl
  · intro uri
    rw [hasFile, OrderedMap.contains, htext]
  · -- The open documents are the keys of the map, each of them once.
    refine ⟨h.documents.keys, OrderedMap.nodup_keys _, ?_, OrderedMap.size_eq _⟩
    intro uri
    rw [OrderedMap.mem_keys_iff, htext]
  · -- An analysis leaves the host as it is.
    intro uri
    rw [after_concat]
    exact (Agrees.refl h).answersAlike domains
  · intro call uri u hu hne
    rw [after_concat]
    exact answer_perform domains h engine hu hne
  · -- The two orders give hosts that agree, though their maps may list the documents differently.
    intro call call' u v hu hv hne
    have hcalls := agrees_perform_comm h hu hv hne
    simp only [h, ← after_concat, List.append_assoc] at hcalls
    exact hcalls.answersAlike domains

end Host

end ArgdownLens
