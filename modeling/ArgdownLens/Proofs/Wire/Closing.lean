import ArgdownLens.Engine.Error
import ArgdownLens.Proofs.Tree.Place
import ArgdownLens.Proofs.Wire.Bytes
import ArgdownLens.Proofs.Wire.Tree

/-!
# What closing a tree keeps, and where it fails

Closing gives a tree exactly if every node has a token type or a rule name (`LooseNode.Named`). The
tree has the places of the loose one, and at each of them the span and the token name that were sent
(`LooseNode.at?_of_close`), although the names of the special tokens are written twice: once to tell
a kind from a name, and once to tell the name from a kind (`LooseNode.tokenName?_tokenKind`).

If there are nodes without a name, closing stops at the one that comes first in preorder, since a
node is looked at before its children, and these one after the other (`LooseNode.stops_close`). A
text is closed only after all of it has been read (`closing_trees`).
-/

namespace ArgdownLens

/-- What the engine sends of every node: its span, and its token name if it is a token. -/
def Node.label (n : Node) : Span × Option String :=
  (n.span, n.kind.tokenName?)

namespace Wire

open Json

namespace LooseNode

/-! ## Loose trees -/

/-- A node has a token type or a rule name. -/
def Named (n : LooseNode) : Prop :=
  n.tokenName.isSome ∨ n.name.isSome

instance : DecidablePred Named :=
  fun n => inferInstanceAs (Decidable (n.tokenName.isSome ∨ n.name.isSome))

/-- The span and the token name of a node. -/
def label (n : LooseNode) : Span × Option String :=
  (n.span, n.tokenName)

/-- Where a node starts. -/
def start (n : LooseNode) : Unnamed :=
  ⟨n.span.startLine, n.span.startColumn⟩

/-- The node to which a path leads, if it leads to one. -/
def at? : LooseNode → List Nat → Option LooseNode
  | n, [] => some n
  | n, i :: path =>
    match n.children[i]? with
    | none => none
    | some c => c.at? path

mutual

/-- The node and everything below it, each node before its children. -/
def preorder : LooseNode → List LooseNode
  | ⟨tokenName, name, span, image, title, tag, text, statement, argument, sectionId, children⟩ =>
    ⟨tokenName, name, span, image, title, tag, text, statement, argument, sectionId, children⟩ ::
      preorderAll children

/-- The nodes of a forest, each node before its children. -/
def preorderAll : List LooseNode → List LooseNode
  | [] => []
  | n :: ns => n.preorder ++ preorderAll ns

end

/-- A node comes first, and then everything below it. -/
theorem preorder_eq (n : LooseNode) : n.preorder = n :: preorderAll n.children := by
  cases n
  rw [preorder]

/-- The first node without a name. -/
def firstUnnamed? (ns : List LooseNode) : Option LooseNode :=
  ns.find? fun n => ¬ n.Named

/-- There is a first node without a name exactly if not all have one. -/
theorem firstUnnamed?_eq_none_iff {ns : List LooseNode} :
    firstUnnamed? ns = none ↔ ∀ n ∈ ns, n.Named := by
  simp [firstUnnamed?]

/-! ## Kinds -/

/-- The kind that is told from a token name has this name, be it a special one or not. -/
theorem tokenName?_tokenKind (n : LooseNode) (tokenName : String) :
    (n.tokenKind tokenName).tokenName? = some tokenName := by
  unfold tokenKind
  split <;> rfl

/-- The kind that is told from a rule name is none of a token. -/
theorem tokenName?_ruleKind (n : LooseNode) (name : String) :
    (n.ruleKind name).tokenName? = none := by
  unfold ruleKind
  split <;> rfl

/-- A node with a name has a kind, with the token name that was sent. A node without one does not,
and is reported by its start. -/
theorem kind_cases (n : LooseNode) :
    (n.Named ∧ ∃ kind, n.kind = .ok kind ∧ kind.tokenName? = n.tokenName) ∨
      (¬ n.Named ∧ n.kind = .error n.start) := by
  unfold kind Named
  cases n.tokenName with
  | some tokenName => exact .inl ⟨.inl rfl, _, rfl, tokenName?_tokenKind n tokenName⟩
  | none =>
    cases n.name with
    | some name => exact .inl ⟨.inr rfl, _, rfl, tokenName?_ruleKind n name⟩
    | none => exact .inr ⟨by simp, rfl⟩

/-! ## Trees that are closed -/

/-- Trees are closed one by one. -/
theorem closeAll_eq_ok {ns : List LooseNode} {ts : List Node} :
    closeAll ns = .ok ts ↔ List.Forall₂ (fun n t => n.close = .ok t) ns ts := by
  induction ns generalizing ts with
  | nil =>
    rw [closeAll, List.forall₂_nil_left_iff, Except.ok.injEq, eq_comm]
  | cons n ns ih =>
    rw [closeAll, bind_eq_ok, List.forall₂_cons_left_iff]
    constructor
    · rintro ⟨t, ht, h⟩
      obtain ⟨ts, hts, ⟨⟩⟩ := bind_eq_ok.mp h
      exact ⟨t, ts, ht, ih.mp hts, rfl⟩
    · rintro ⟨t, ts, ht, hts, rfl⟩
      exact ⟨t, ht, bind_eq_ok.mpr ⟨ts, ih.mpr hts, rfl⟩⟩

/-- A node that is closed keeps its span and its token name, and its children are closed. -/
theorem of_close_eq_ok {n : LooseNode} {t : Node} (h : n.close = .ok t) :
    t.label = n.label ∧ List.Forall₂ (fun n t => n.close = .ok t) n.children t.children := by
  rw [close_eq] at h
  obtain ⟨kind, hkind, h⟩ := bind_eq_ok.mp h
  obtain ⟨ts, hts, ⟨⟩⟩ := bind_eq_ok.mp h
  obtain ⟨-, kind', hkind', hname⟩ | ⟨-, hkind'⟩ := kind_cases { n with children := [] }
  · obtain rfl : kind' = kind := Except.ok.inj (hkind'.symm.trans hkind)
    exact ⟨congrArg (Prod.mk n.span) hname, closeAll_eq_ok.mp hts⟩
  · rw [hkind'] at hkind
    cases hkind

/-- Closing keeps the places of a tree, and at each of them the span and the token name. -/
theorem at?_of_close {n : LooseNode} {t : Node} (h : n.close = .ok t) (path : List Nat) :
    (t.at? path).map Node.label = (n.at? path).map label := by
  induction path generalizing n t with
  | nil => exact congrArg some (of_close_eq_ok h).1
  | cons i path ih =>
    have hchildren := (of_close_eq_ok h).2
    rw [Node.at?, at?]
    rcases lt_or_ge i n.children.length with hi | hi
    · have hi' : i < t.children.length := hchildren.length_eq ▸ hi
      rw [List.getElem?_eq_getElem hi, List.getElem?_eq_getElem hi']
      exact ih (hchildren.get hi hi')
    · have hi' : t.children.length ≤ i := hchildren.length_eq ▸ hi
      rw [List.getElem?_eq_none hi, List.getElem?_eq_none hi']
      rfl

mutual

/-- Closing keeps the spans and the token names in preorder. -/
theorem preorder_of_close (n : LooseNode) {t : Node} (h : n.close = .ok t) :
    t.preorder.map Node.label = n.preorder.map label := by
  match n, t with
  | ⟨_, _, _, _, _, _, _, _, _, _, children⟩, ⟨_, _, trees⟩ =>
    obtain ⟨hroot, hchildren⟩ := of_close_eq_ok h
    rw [Node.preorder, preorder, List.map_cons, List.map_cons, hroot,
      preorderAll_of_close children hchildren]

/-- Closing trees keeps their spans and their token names in preorder. -/
theorem preorderAll_of_close (ns : List LooseNode) {ts : List Node}
    (h : List.Forall₂ (fun n t => n.close = .ok t) ns ts) :
    (Node.preorderAll ts).map Node.label = (preorderAll ns).map label := by
  match ns, ts, h with
  | [], [], _ => rfl
  | n :: ns, t :: ts, .cons hn hns =>
    rw [Node.preorderAll, preorderAll, List.map_append, List.map_append, preorder_of_close n hn,
      preorderAll_of_close ns hns]

end

/-! ## The first node without a name -/

/-- Something is done that stops at the first node without a name, and is done if there is none. -/
def Stops {α : Type} (result : Except Unnamed α) (ns : List LooseNode) : Prop :=
  match firstUnnamed? ns with
  | none => ∃ a, result = .ok a
  | some n => result = .error n.start

/-- What is done after something else stops where that stops, or else where it stops itself. -/
theorem Stops.bind {α β : Type} {result : Except Unnamed α} {next : α → Except Unnamed β}
    {ns ms : List LooseNode} (h : Stops result ns) (hnext : ∀ a, Stops (next a) ms) :
    Stops (result >>= next) (ns ++ ms) := by
  unfold Stops firstUnnamed? at *
  rw [List.find?_append]
  cases hfirst : ns.find? fun n => ¬ n.Named with
  | none =>
    rw [hfirst] at h
    obtain ⟨a, rfl⟩ := h
    exact hnext a
  | some n =>
    rw [hfirst] at h
    subst h
    rfl

/-- What is done without a node does not stop. -/
theorem stops_ok {α : Type} (a : α) : Stops (.ok a) [] :=
  ⟨a, rfl⟩

/-- The kind of a node is told if it has a name, whatever its children are. -/
theorem stops_kind (n : LooseNode) (children : List LooseNode) :
    Stops n.kind [{ n with children := children }] := by
  unfold Stops firstUnnamed?
  rw [List.find?_singleton]
  have hnamed : Named { n with children := children } ↔ n.Named := Iff.rfl
  obtain ⟨hn, kind, hkind, -⟩ | ⟨hn, hkind⟩ := kind_cases n
  · rw [if_neg (by simpa [hnamed] using hn)]
    exact ⟨kind, hkind⟩
  · rw [if_pos (by simpa [hnamed] using hn)]
    exact hkind

mutual

/-- Closing a tree stops at its first node without a name, in preorder. -/
theorem stops_close (n : LooseNode) : Stops n.close n.preorder := by
  match n with
  | ⟨tokenName, name, span, image, title, tag, text, statement, argument, sectionId, children⟩ =>
    rw [close, preorder, ← List.singleton_append, ← List.append_nil (preorderAll children)]
    exact (stops_kind ⟨_, _, _, _, _, _, _, _, _, _, []⟩ children).bind fun kind =>
      (stops_closeAll children).bind fun trees => stops_ok _

/-- Closing trees stops at their first node without a name, in preorder. -/
theorem stops_closeAll (ns : List LooseNode) : Stops (closeAll ns) (preorderAll ns) := by
  match ns with
  | [] => exact stops_ok []
  | n :: ns =>
    rw [closeAll, preorderAll, ← List.append_nil (preorderAll ns)]
    exact (stops_close n).bind fun tree => (stops_closeAll ns).bind fun trees => stops_ok _

end

/-- A tree is closed exactly if it has no node without a name. -/
theorem close_eq_ok_iff (n : LooseNode) :
    (∃ t, n.close = .ok t) ↔ ∀ m ∈ n.preorder, m.Named := by
  have hstops := stops_close n
  unfold Stops at hstops
  rw [← firstUnnamed?_eq_none_iff]
  cases hfirst : firstUnnamed? n.preorder with
  | none =>
    rw [hfirst] at hstops
    exact iff_of_true hstops rfl
  | some m =>
    rw [hfirst] at hstops
    simp [hstops]

/-- A tree that cannot be closed is reported by the start of its first node without a name. -/
theorem close_eq_error_iff (n : LooseNode) (e : Unnamed) :
    n.close = .error e ↔ ∃ m, firstUnnamed? n.preorder = some m ∧ e = m.start := by
  have hstops := stops_close n
  unfold Stops at hstops
  cases hfirst : firstUnnamed? n.preorder with
  | none =>
    rw [hfirst] at hstops
    obtain ⟨t, ht⟩ := hstops
    simp [ht]
  | some m =>
    rw [hfirst] at hstops
    simp [hstops, eq_comm]

end LooseNode

/-! ## Texts -/

/-- Symbols that are not read are reported as such, whatever the nodes in them are. -/
theorem decodeSymbols_eq_json_iff (text : List Symbol) (fault : Fault) :
    decodeSymbols text = .error (.json fault) ↔
      readWhole (responseRecord.decoder maxDepth) text = .error fault := by
  unfold decodeSymbols LooseResponse.close
  cases readWhole (responseRecord.decoder maxDepth) text with
  | error other => simp
  | ok loose => cases hclose : loose.ast.close <;> simp [hclose]

/-- A node is reported if all symbols are read and the tree that is read cannot be closed. -/
theorem decodeSymbols_eq_unnamed_iff (text : List Symbol) (e : Unnamed) :
    decodeSymbols text = .error (.unnamed e) ↔
      ∃ loose, readWhole (responseRecord.decoder maxDepth) text = .ok loose ∧
        loose.ast.close = .error e := by
  unfold decodeSymbols LooseResponse.close
  cases readWhole (responseRecord.decoder maxDepth) text with
  | error fault => simp
  | ok loose => cases hclose : loose.ast.close <;> simp [hclose]

/-- A node is reported by where it starts. -/
def LooseNode.report (n : LooseNode) : EngineError :=
  .invalidNode "rule"
    s!"node at {n.span.startLine}:{n.span.startColumn} has neither a token type nor a rule name"

/-- An answer is reported by a node if this is what could not be closed. -/
theorem mapError_ofDecode_eq_invalidNode_iff {α : Type} (result : Except DecodeError α)
    (kind detail : String) :
    result.mapError EngineError.ofDecode = .error (.invalidNode kind detail) ↔
      ∃ e, result = .error (.unnamed e) ∧
        EngineError.ofDecode (.unnamed e) = .invalidNode kind detail := by
  match result with
  | .ok a => simp [Except.mapError]
  | .error (.json fault) => simp [Except.mapError, EngineError.ofDecode]
  | .error (.unnamed e) => simp [Except.mapError]

open LooseNode in
/-- A tree is closed exactly if each of its nodes has a token type or a rule name. Closing it keeps
its places, its preorder and in both the spans and the token names. It fails with the start of the
first node in preorder that has neither. A text is refused because of such a node exactly if all of
it is one unbroken JSON value that is read as an answer. Any fault of the JSON comes first, whatever
the nodes are: the first fault of the value, and if it has none, that something stands behind it. -/
theorem closing_trees (n : LooseNode) (text : String) :
    ((∃ t, n.close = .ok t) ↔ ∀ m ∈ n.preorder, m.Named) ∧
      (∀ t, n.close = .ok t → t.preorder.map Node.label = n.preorder.map label ∧
        ∀ path, (t.at? path).map Node.label = (n.at? path).map label) ∧
      (∀ e, n.close = .error e ↔ ∃ m, firstUnnamed? n.preorder = some m ∧ e = m.start ∧
        EngineError.ofDecode (.unnamed e) = m.report) ∧
      (∀ fault, decode text = .error (.json fault) ↔
        ∃ v more, Raw.ofSymbols (symbolsOf text) = (v, more) ∧
          (responseRecord.decoder maxDepth v = .error fault ∨
            fault = .malformed ∧ more ∧ ∃ loose, responseRecord.decoder maxDepth v = .ok loose)) ∧
      ∀ kind detail,
        (decode text).mapError EngineError.ofDecode = .error (.invalidNode kind detail) ↔
          ∃ v loose m, Raw.ofSymbols (symbolsOf text) = (v, false) ∧ v.Unbroken ∧
            responseRecord.decoder maxDepth v = .ok loose ∧
            firstUnnamed? loose.ast.preorder = some m ∧ m.report = .invalidNode kind detail := by
  refine ⟨close_eq_ok_iff n, fun t h => ⟨preorder_of_close n h, at?_of_close h⟩, ?_,
    fun fault => ?_, fun kind detail => ?_⟩
  · -- The start of a node says what is reported of it.
    intro e
    rw [close_eq_error_iff]
    refine exists_congr fun m => and_congr_right fun _ => ⟨?_, And.left⟩
    rintro rfl
    exact ⟨rfl, rfl⟩
  · -- The value is read before anything behind it is looked at.
    rw [decode, decodeSymbols_eq_json_iff, readWhole_eq_error]
    constructor
    · exact fun h => ⟨_, _, rfl, h⟩
    · rintro ⟨v, more, hsymbols, h⟩
      rw [hsymbols]
      exact h
  -- Only a value that was read in full is closed, so there is no fault of the JSON besides.
  rw [mapError_ofDecode_eq_invalidNode_iff, decode]
  constructor
  · rintro ⟨e, he, hdetail⟩
    obtain ⟨loose, hread, hclose⟩ := (decodeSymbols_eq_unnamed_iff _ e).mp he
    obtain ⟨htree, hmore⟩ := readWhole_eq_ok.mp hread
    obtain ⟨m, hfirst, rfl⟩ := (close_eq_error_iff _ e).mp hclose
    have hunbroken := ((walks_responseRecord maxDepth).sound htree).1
    exact ⟨_, loose, m, Prod.ext rfl hmore, hunbroken, htree, hfirst, hdetail⟩
  · rintro ⟨v, loose, m, hsymbols, -, htree, hfirst, hdetail⟩
    have hread : readWhole (responseRecord.decoder maxDepth) (symbolsOf text) = .ok loose := by
      rw [readWhole_eq_ok, hsymbols]
      exact ⟨htree, rfl⟩
    have hclose := (close_eq_error_iff loose.ast m.start).mpr ⟨m, hfirst, rfl⟩
    exact ⟨m.start, (decodeSymbols_eq_unnamed_iff _ _).mpr ⟨loose, hread, hclose⟩, hdetail⟩

/-- A special token that has the name of a rule, too. -/
def specialNode (children : List LooseNode) : LooseNode :=
  { tokenName := some "StatementReference", name := some "heading", span := .onLine 1 1 4,
    children }

/-- A tree of which the third and the fourth node in preorder have no name. -/
def namelessTree : LooseNode where
  name := some "argdown"
  children := [specialNode [{ span := .onLine 3 4 1 }], { span := .onLine 2 1 1 }]

/-- The beginning of an answer whose root has no name. -/
def namelessText : String :=
  "\x7b\"ast\":\x7b\"startLine\":7\x7d"

/-- The tree of the whole answer. -/
def namelessRaw : Raw :=
  .object [(escapePieces "ast",
    .object [(escapePieces "startLine", .number (.ofNat 7))] .closed)] .closed

/-- The tree is reported by its third node, and its second one alone is closed under its token name.
The answer is reported by its root when it is whole, and as cut off before that. -/
theorem namelessTree_close :
    namelessTree.close = .error ⟨3, 4⟩ ∧
      (∃ t, (specialNode []).close = .ok t ∧ t.label.2 = some "StatementReference") ∧
      decode namelessText = .error (.json .ended) ∧
      (decode (namelessText ++ "\x7d")).mapError EngineError.ofDecode =
        .error (.invalidNode "rule" "node at 7:0 has neither a token type nor a rule name") := by
  obtain ⟨-, -, herror, hjson, -⟩ := closing_trees namelessTree namelessText
  obtain ⟨hok, hkept, -, -, hnode⟩ := closing_trees (specialNode []) (namelessText ++ "\x7d")
  have hnamed : ∀ m ∈ (specialNode []).preorder, m.Named := by decide
  refine ⟨(herror _).mpr ⟨_, rfl, rfl, rfl⟩, ?_, (hjson _).mpr ⟨_, _, rfl, .inl rfl⟩,
    (hnode _ _).mpr ?_⟩
  · obtain ⟨t, ht⟩ := hok.mpr hnamed
    have hlabel : some t.label = some (specialNode []).label := (hkept t ht).2 []
    exact ⟨t, ht, congrArg Prod.snd (Option.some.inj hlabel)⟩
  · have hunbroken : namelessRaw.Unbroken := ⟨rfl, ⟨rfl, trivial, trivial⟩, trivial⟩
    have hreport : LooseNode.report { span := ⟨7, 0, 0, 0⟩ } =
        .invalidNode "rule" "node at 7:0 has neither a token type nor a rule name" := by decide
    exact ⟨namelessRaw, { ast := { span := ⟨7, 0, 0, 0⟩ } }, _, rfl, hunbroken, rfl, rfl, hreport⟩

end Wire

end ArgdownLens
