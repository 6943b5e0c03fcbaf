import ArgdownLens.Proofs.Json.Quoted
import ArgdownLens.Proofs.Model.Build
import ArgdownLens.Proofs.Query.Partition
import ArgdownLens.Proofs.Wire.Text

/-!
# Names do not depend on how they are spelled

The texts of an answer are those of its nodes, those of its statements and arguments, and the keys
of its maps (`TextSpot`). Each of them is a string in the tree of what is decoded (`TextPlace`), and
the answer takes whatever text the string means (`TextPlace.takes`). So it is the same for all
spellings of a text. A node or a key that has the text stands for the symbol of this name, however
the text is spelled at other places of the answer, and what is no spelling of any text is refused
(`decode_spelling`).
-/

namespace ArgdownLens.Wire

open Json

/-! ## Places -/

/-- A text of an answer. -/
inductive TextSpot where
  /-- Of the node to which a path leads. -/
  | node (path : List Nat) (x : NodeText)
  /-- Of the class of statements under a title. -/
  | statement (title : String) (x : EntityText)
  /-- Of the argument under a title. -/
  | argument (title : String) (x : EntityText)
  /-- The key of the class of statements that is sent as the one with the index. -/
  | statementKey (i : Nat)
  /-- The key of the argument that is sent as the one with the index. -/
  | argumentKey (i : Nat)
  /-- The key of the tag that is sent as the one with the index. -/
  | tagKey (i : Nat)

/-- The entries were put into the map one after the other, and the key of the one with the index is
what it is. -/
def PutsKey {α : Type} (put : String → OrderedMap α) (i : Nat) : Prop :=
  ∃ es a fs, es.length = i ∧ ∀ s, put s = .ofList (es ++ (s, a) :: fs)

/-- Answers that are made of a text have it at the spot: a node is the same in all of them apart
from the text, if nodes of its kind have it; an entity has it; and a map is made of the same entries
under the same keys apart from the one. -/
def TextSpot.Shows (put : String → Response) : TextSpot → Prop
  | .node path x => ∃ n : Node, ∀ s,
      (put s).ast.at? path = some { n with kind := x.setKind s n.kind }
  | .statement title x => ∀ s, ((put s).statement? title).bind x.inClass? = some s
  | .argument title x => ∀ s, ((put s).argument? title).bind x.inArgument? = some s
  | .statementKey i => PutsKey (fun s => (put s).statements) i
  | .argumentKey i => PutsKey (fun s => (put s).arguments) i
  | .tagKey i => ∃ tags : String → OrderedSet, PutsKey tags i ∧ ∀ s, (put s).tags = some (tags s)

/-- The pieces of a string in the tree of an answer, given the tree for any pieces. The entries of a
map that later ones replace have texts that are read but do not get into the answer. -/
inductive TextPlace : (List Piece → Raw) → Option TextSpot → Prop where
  | node {b : Bracket} {bs last : List Bracket} {path : List Nat} {x : NodeText}
    (hb : b.IsField responseRecord.names "ast") (hpath : NodePath bs path) (hx : x.InNode last) :
    TextPlace (fun ps => fill (b :: bs) (fill last (.string ps))) (some (.node path x))
  | statement {b entry : Bracket} {bs : List Bracket} {title? : Option String} {x : EntityText}
    (hb : b.IsField responseRecord.names "statements") (hentry : entry.IsEntry title?)
    (hx : x.InEntity equivalenceClassRecord.names "members" bs) :
    TextPlace (fun ps => fill (b :: entry :: bs) (.string ps)) (title?.map (.statement · x))
  | argument {b entry : Bracket} {bs : List Bracket} {title? : Option String} {x : EntityText}
    (hb : b.IsField responseRecord.names "arguments") (hentry : entry.IsEntry title?)
    (hx : x.InEntity argumentRecord.names "descriptions" bs) :
    TextPlace (fun ps => fill (b :: entry :: bs) (.string ps)) (title?.map (.argument · x))
  | statementKey {b : Bracket} {before after : List (List Piece × Raw)} {v : Raw}
    (hb : b.IsField responseRecord.names "statements") :
    TextPlace (fun ps => b.fill (.object (before ++ (ps, v) :: after) .closed))
      (some (.statementKey before.length))
  | argumentKey {b : Bracket} {before after : List (List Piece × Raw)} {v : Raw}
    (hb : b.IsField responseRecord.names "arguments") :
    TextPlace (fun ps => b.fill (.object (before ++ (ps, v) :: after) .closed))
      (some (.argumentKey before.length))
  | tagKey {b : Bracket} {before after : List (List Piece × Raw)} {v : Raw}
    (hb : b.IsField responseRecord.names "tagsDictionary") :
    TextPlace (fun ps => b.fill (.object (before ++ (ps, v) :: after) .closed))
      (some (.tagKey before.length))

/-! ## Reading a text -/

/-- A map takes the key of an entry. -/
theorem takes_key {α : Type} {d : Decoder α} {before after : List (List Piece × Raw)} {v : Raw} :
    Takes textOf (map d) (fun ps => .object (before ++ (ps, v) :: after) .closed)
      fun put => PutsKey put before.length := by
  intro room ps₀ m₀ hok
  obtain ⟨es, a, fs, hlength, hput⟩ := map_key hok
  exact ⟨_, hput, es, a, fs, hlength, fun s => rfl⟩

/-- An answer takes each text in it, and shows it at the spot. -/
theorem TextPlace.takes {context : List Piece → Raw} {spot? : Option TextSpot}
    (h : TextPlace context spot?) :
    Takes textOf responseRecord.decoder context
      fun put => Settles LooseResponse.close put fun final => ∀ spot ∈ spot?, spot.Shows final := by
  -- The text is taken where it stands, and by what is around it, bracket by bracket.
  cases h with
  | node hb hpath hx =>
    refine hx.takes.tree hb hpath fun nodes final hnodes hat spot hspot => ?_
    obtain rfl := Option.some.inj hspot
    obtain ⟨n, hn⟩ := hnodes
    exact ⟨n, fun s => (hat s).trans (congrArg some (hn s))⟩
  | statement hb hentry hx =>
    refine ((takes_class hx).entry hentry).field slot_statements hb fun put rest hput =>
      .of_ast_eq (fun _ => rfl) fun tree spot hspot => ?_
    obtain ⟨title, htitle, rfl⟩ := Option.map_eq_some_iff.mp hspot
    obtain ⟨classes, hget, hfound⟩ := hput
    intro s
    rw [Response.statement?, hfound title htitle, Option.bind_some, hget]
  | argument hb hentry hx =>
    refine ((takes_argument hx).entry hentry).field slot_arguments hb fun put rest hput =>
      .of_ast_eq (fun _ => rfl) fun tree spot hspot => ?_
    obtain ⟨title, htitle, rfl⟩ := Option.map_eq_some_iff.mp hspot
    obtain ⟨arguments, hget, hfound⟩ := hput
    intro s
    rw [Response.argument?, hfound title htitle, Option.bind_some, hget]
  | statementKey hb =>
    refine takes_key.field slot_statements hb fun put rest hput =>
      .of_ast_eq (fun _ => rfl) fun tree spot hspot => ?_
    obtain rfl := Option.some.inj hspot
    exact hput
  | argumentKey hb =>
    refine takes_key.field slot_arguments hb fun put rest hput =>
      .of_ast_eq (fun _ => rfl) fun tree spot hspot => ?_
    obtain rfl := Option.some.inj hspot
    exact hput
  | @tagKey _ before after v hb =>
    -- The dictionary of tags may be missing, so it is a map only if it is there.
    have htags : Takes textOf (optional (map ignored))
        (fun ps => .object (before ++ (ps, v) :: after) .closed) fun put =>
          ∃ tags : String → OrderedSet, PutsKey tags before.length ∧ ∀ s, put s = some (tags s) :=
      takes_key.optional (fun _ => nofun) fun put hput => ⟨put, hput, fun s => rfl⟩
    refine htags.field slot_tagsDictionary hb fun put rest hput =>
      .of_ast_eq (fun _ => rfl) fun tree spot hspot => ?_
    obtain rfl := Option.some.inj hspot
    exact hput

/-! ## Symbols -/

/-- The family of the symbol whose key the text of a node is. The title of an owner is the key of
tokens that have no title of their own only. -/
def NodeText.family? : NodeText → NodeKind → Option SymbolFamily
  | .title, .statement _ => some .statement
  | .title, .argument _ => some .argument
  | .statement, .statement t => if t.title = none then some .statement else none
  | .argument, .argument t => if t.title = none then some .argument else none
  | .tag, .tag _ => some .tag
  | _, _ => none

/-- The family does not depend on the text. -/
theorem NodeText.family?_setKind (x : NodeText) (s : String) (kind : NodeKind) :
    x.family? (x.setKind s kind) = x.family? kind := by
  cases x <;> cases kind <;> rfl

/-- A node names the symbol of the family and the text. -/
theorem NodeText.names_setKind {x : NodeText} {n : Node} {f : SymbolFamily}
    (h : x.family? n.kind = some f) (s : String) :
    Node.Names { n with kind := x.setKind s n.kind } (f, s) := by
  obtain ⟨kind, span, children⟩ := n
  change x.family? kind = some f at h
  unfold NodeText.family? at h
  split at h
  case h_1 | h_2 =>
    obtain rfl := Option.some.inj h
    exact Or.inl rfl
  case h_3 | h_4 =>
    split_ifs at h with htitle
    obtain rfl := Option.some.inj h
    exact Or.inr ⟨htitle, rfl⟩
  case h_5 =>
    obtain rfl := Option.some.inj h
    rfl
  case h_6 => cases h

/-- Something is found under the key of the symbol. -/
def Knows (r : Response) : SymbolName → Prop
  | (.statement, key) => (r.statement? key).isSome
  | (.argument, key) => (r.argument? key).isSome
  | (.tag, key) => ∃ tags ∈ r.tags, tags.contains key

namespace TextSpot

/-- The family of the symbol whose key the text is. -/
def family? (r : Response) : TextSpot → Option SymbolFamily
  | .node path x => (r.ast.at? path).bind fun n => x.family? n.kind
  | .statementKey _ => some .statement
  | .argumentKey _ => some .argument
  | .tagKey _ => some .tag
  | .statement _ _ | .argument _ _ => none

/-- What has the text stands for the symbol: a node is among the references of every occurrence of
the symbol, which all have the same ones, and the symbol is known where a map has it as a key. -/
def Means (r : Response) (symbol : SymbolName) : TextSpot → Prop
  | .node path _ => ∃ n o, r.ast.at? path = some n ∧ n.occurrence? = some o ∧
      ∀ o', o'.symbol = symbol →
        o ∈ r.occurrencesOf o' true ∧ r.occurrencesOf o' = r.occurrencesOf o
  | _ => Knows r symbol

end TextSpot

/-- A map that was made with an entry under a key has one. -/
theorem PutsKey.contains {α : Type} {put : String → OrderedMap α} {i : Nat} (h : PutsKey put i)
    (s : String) : (put s).contains s := by
  obtain ⟨es, a, fs, -, hput⟩ := h
  rw [hput, OrderedMap.contains, OrderedMap.get?_ofList, Option.isSome_iff_ne_none]
  intro hnone
  have hmem : (s, a) ∈ (es ++ (s, a) :: fs).reverse := by simp
  exact absurd (List.lookup_eq_none_iff.mp hnone _ hmem) (by simp)

/-- A node that names a symbol is among the references of the symbol. -/
theorem means_of_names {r : Response} {path : List Nat} {n : Node} (hat : r.ast.at? path = some n)
    {symbol : SymbolName} (hn : n.Names symbol) (x : NodeText) :
    (TextSpot.node path x).Means r symbol := by
  obtain ⟨o, ho, rfl⟩ := Option.map_eq_some_iff.mp (Node.names_iff.mp hn)
  have hmem : o ∈ r.occurrences := by
    have hnode := Node.node_of_occurrence? ho
    refine Response.mem_occurrences_iff.mpr ⟨?_, hnode.symm ▸ ho⟩
    exact Node.mem_preorder_iff_at?.mpr ⟨path, hnode.symm ▸ hat⟩
  refine ⟨n, o, hat, ho, fun o' ho' => ?_⟩
  have hsame := funext (Response.occurrencesOf_congr (r := r) (Occurrence.sameSymbol_iff.mpr ho'))
  refine ⟨?_, hsame⟩
  rw [hsame]
  exact Response.mem_occurrencesOf_self hmem

/-- What has a text stands for the symbol that it names. -/
theorem TextSpot.Shows.means {put : String → Response} {spot : TextSpot} (h : spot.Shows put)
    {s : String} {f : SymbolFamily} (hf : spot.family? (put s) = some f) :
    spot.Means (put s) (f, s) := by
  cases spot with
  | node path x =>
    obtain ⟨n, hn⟩ := h
    have hfamily : x.family? n.kind = some f := by
      rw [TextSpot.family?, hn, Option.bind_some, NodeText.family?_setKind] at hf
      exact hf
    exact means_of_names (hn s) (NodeText.names_setKind hfamily s) x
  | statementKey i =>
    obtain rfl := Option.some.inj hf
    exact PutsKey.contains h s
  | argumentKey i =>
    obtain rfl := Option.some.inj hf
    exact PutsKey.contains h s
  | tagKey i =>
    obtain rfl := Option.some.inj hf
    obtain ⟨tags, htags, hput⟩ := h
    exact ⟨tags s, hput s, htags.contains s⟩
  | statement | argument => cases hf

/-! ## Spellings -/

/-- The texts in front of a string and behind it: they spell the tokens on both sides of it,
whatever its pieces are. -/
structure SurroundsText (context : List Piece → Raw) (front back : List Char) : Prop where
  unbroken : ∀ ps, (context ps).Unbroken
  tokens : ∃ before after, Spells before front ∧ Spells after back ∧
    ∀ ps, (context ps).tokens = before ++ .string ps :: after

/-- The text with a spelling between quotes in its place. -/
def quotedText (front cs back : List Char) : String :=
  String.ofList (front ++ '"' :: (cs ++ '"' :: back))

/-- The texts around a value stand around it if it is a string, too. -/
theorem Surrounds.surroundsText {bs : List Bracket} {front back : List Char}
    (h : Surrounds bs front back) : SurroundsText (fun ps => fill bs (.string ps)) front back := by
  obtain ⟨before, after, hbefore, hafter, htokens⟩ := h.tokens
  refine ⟨fun ps => unbroken_fill bs h.unbroken trivial, before, after, hbefore, hafter, ?_⟩
  intro ps
  rw [htokens, Raw.tokens, List.append_assoc, List.singleton_append]

section

variable {context : List Piece → Raw} {front back : List Char}

/-- The text with a string at a place is decoded as the tree with the string there. -/
theorem decode_quotedText (h : SurroundsText context front back) {ps : List Piece}
    {css : List (List Char)} (hps : List.Forall₂ Piece.Written ps css) :
    decode (quotedText front css.flatten back) = decodeTree (context ps) := by
  obtain ⟨before, after, hbefore, hafter, htokens⟩ := h.tokens
  refine decode_of_spells (h.unbroken ps) ?_
  have hstring : Spells (.string ps :: after) ('"' :: css.flatten ++ ['"'] ++ back) :=
    .token (.string hps) hafter
  rw [quotedText, String.toList_ofList, htokens]
  simpa using hbefore.append hstring

/-- A text with a broken string in it is refused as JSON. -/
theorem decode_broken (h : SurroundsText context front back) {cs : List Char} (hcs : Broken cs) :
    ∃ fault, decode (quotedText front cs back) = .error (.json fault) := by
  obtain ⟨before, after, hbefore, -, htokens⟩ := h.tokens
  have hparted : Parted before := by
    have hnil : Parted [] := .nil
    have hall := Raw.parted_tokens (context []) hnil nofun
    rw [List.append_nil, htokens] at hall
    exact List.IsChain.left_of_append hall
  -- The tokens in front are parted from the string, so it is read as one that goes wrong.
  have hbroken := exists_isBrokenString_of_spells hbefore hparted hcs back
  have hsettled : ¬ Raw.Settled (Raw.ofSymbols (symbolsOf (quotedText front cs back))) := by
    rw [symbolsOf, quotedText, String.toList_ofList]
    exact Raw.not_settled_of_isBrokenString hbroken
  unfold decode decodeSymbols
  cases hread : readWhole (responseRecord.decoder maxDepth)
    (symbolsOf (quotedText front cs back)) with
  | error fault => exact ⟨fault, rfl⟩
  | ok loose =>
    obtain ⟨htree, hmore⟩ := readWhole_eq_ok.mp hread
    exact absurd ⟨((walks_responseRecord maxDepth).sound htree).1, hmore⟩ hsettled

/-- At the place of a text, in what is decoded with a spelling of some text there, every spelling of
every text is read, all spellings of one text with the same answer. The answer has the text at the
spot, and where the text names a symbol, it is the symbol of this name. What is no spelling of any
text is refused as JSON. -/
theorem decode_spelling {spot? : Option TextSpot} (h : TextPlace context spot?)
    (htext : SurroundsText context front back) :
    (∀ s₀ cs₀ r₀, Spelled s₀ cs₀ → decode (quotedText front cs₀ back) = .ok r₀ →
      ∃ put : String → Response, put s₀ = r₀ ∧
        (∀ s cs, Spelled s cs → decode (quotedText front cs back) = .ok (put s)) ∧
        ∀ spot ∈ spot?, spot.Shows put ∧
          ∀ s f, spot.family? (put s) = some f → spot.Means (put s) (f, s)) ∧
      ∀ cs, Misspelled cs → ∃ fault, decode (quotedText front cs back) = .error (.json fault) := by
  constructor
  · intro s₀ cs₀ r₀ h₀ hvalid
    obtain ⟨ps₀, css₀, hps₀, rfl, hmeans₀⟩ := h₀.exists_pieces
    rw [decode_quotedText htext hps₀] at hvalid
    obtain ⟨put, hshows, hput⟩ := h.takes.decodeTree_eq hvalid
    refine ⟨put, Except.ok.inj ((hput hmeans₀).symm.trans hvalid), fun s cs hcs => ?_,
      fun spot hspot => ⟨hshows spot hspot, fun s f => (hshows spot hspot).means⟩⟩
    obtain ⟨ps, css, hps, rfl, hmeans⟩ := hcs.exists_pieces
    rw [decode_quotedText htext hps]
    exact hput hmeans
  · -- What is no spelling is no string of JSON, or it is one whose pieces mean nothing.
    rintro cs (hbroken | ⟨hps, hunpaired⟩)
    · exact decode_broken htext hbroken
    · rw [decode_quotedText htext (hps.imp fun _ _ hp => hp.written)]
      exact h.takes.decodeTree_refused (textOf_ne_ok hunpaired)

end

/-- The members of a statement reference besides its title. -/
def referenceMembers : List (String × Value) :=
  [("tokenType", .object [("tokenName", .string "StatementReference")])]

/-- The members of an answer besides its tree. -/
def statementsMembers : List (String × Value) :=
  [("statements", .object [("𝔸", .object [("title", .string "𝔸")])])]

/-- The brackets around the title of a statement reference. -/
def titleBrackets : List Bracket :=
  [.member [] (escapePieces "ast") (Value.rawMembers statementsMembers),
    .member [] (escapePieces "children") (Value.rawMembers [("name", .string "argdown")]),
    .item [] (Value.rawItems []),
    .member [] (escapePieces "title") (Value.rawMembers referenceMembers)]

/-- The text in front of the title. -/
def titleFront : List Char :=
  '\x7b' :: writeString "ast" ++ ':' :: ('\x7b' :: writeString "children" ++ ':' ::
    ('[' :: ('\x7b' :: writeString "title" ++ ':' :: [])))

/-- The text behind the title. -/
def titleBack : List Char :=
  [] ++ Value.writeMembers referenceMembers ++ Value.writeItems [] ++
    Value.writeMembers [("name", .string "argdown")] ++ Value.writeMembers statementsMembers

/-- The title of the statement reference stands within these brackets. -/
theorem textPlace_title :
    TextPlace (fun ps => fill titleBrackets (.string ps)) (some (.node [0] .title)) := by
  have hast : Bracket.IsField responseRecord.names "ast"
      (.member [] (escapePieces "ast") (Value.rawMembers statementsMembers)) := rfl
  have hpath : NodePath [.member [] (escapePieces "children")
      (Value.rawMembers [("name", .string "argdown")]), .item [] (Value.rawItems [])] [0] :=
    .child rfl rfl .root
  have htitle : NodeText.title.InNode
      [.member [] (escapePieces "title") (Value.rawMembers referenceMembers)] := .title rfl
  exact .node hast hpath htitle

/-- The texts around the title are written for these brackets. -/
theorem surroundsText_title :
    SurroundsText (fun ps => fill titleBrackets (.string ps)) titleFront titleBack := by
  have hunbroken : ∀ ms ∈ [statementsMembers, [("name", .string "argdown")], referenceMembers],
      Raw.UnbrokenMembers (Value.rawMembers ms) := by
    simp [statementsMembers, referenceMembers, Value.rawMembers, Value.raw, Raw.Unbroken,
      Raw.UnbrokenMembers]
  have hnoItems : Raw.UnbrokenItems (Value.rawItems []) := trivial
  simp only [List.forall_mem_cons] at hunbroken
  obtain ⟨hstatements, hname, hreference, -⟩ := hunbroken
  exact ((((Surrounds.nil.member "title" hreference).item hnoItems).member "children" hname).member
    "ast" hstatements).surroundsText

/-- The lead half of the letter is spelled. -/
theorem leadHalf_spelled : UnitSpelled 0xD835 "\\ud835".toList :=
  .intro (.inl rfl) (.inl rfl) (.inl rfl) (.inl rfl)

/-- The letter is spelled as it is and as its two halves, whatever the case of their digits. -/
theorem letter_spelled :
    ∀ cs ∈ ["𝔸".toList, "\\ud835\\udd38".toList, "\\uD835\\uDd38".toList], Spelled "𝔸" cs := by
  have hchar {cs : List Char} (h : CharSpelled '𝔸' cs) : Spelled "𝔸" cs :=
    ⟨[cs], .cons h .nil, List.flatten_singleton.symm⟩
  have htrail : UnitSpelled 0xDD38 "\\udd38".toList :=
    .intro (.inl rfl) (.inl rfl) (.inl rfl) (.inl rfl)
  have hupper : UnitSpelled 0xD835 "\\uD835".toList :=
    .intro (.inr rfl) (.inl rfl) (.inl rfl) (.inl rfl)
  have hmixed : UnitSpelled 0xDD38 "\\uDd38".toList :=
    .intro (.inr rfl) (.inl rfl) (.inl rfl) (.inl rfl)
  have hpair : 0xFFFF < '𝔸'.toNat := by decide
  simp only [List.forall_mem_cons]
  exact ⟨hchar (.raw (by decide) (by decide) (by decide)),
    hchar (.pair hpair leadHalf_spelled htrail), hchar (.pair hpair hupper hmixed),
    List.forall_mem_nil _⟩

/-- A character with a surrogate pair may be written as it is, with one case of the digits or with
both: the answer is the same, and the title names the statement that stands under the character. One
half of the pair is refused. -/
theorem title_decode :
    (∃ r, (∀ cs ∈ ["𝔸".toList, "\\ud835\\udd38".toList, "\\uD835\\uDd38".toList],
          decode (quotedText titleFront cs titleBack) = .ok r) ∧
        (TextSpot.node [0] .title).Means r (.statement, "𝔸") ∧ Knows r (.statement, "𝔸")) ∧
      ∃ fault, decode (quotedText titleFront "\\ud835".toList titleBack) =
        .error (.json fault) := by
  obtain ⟨hread, hrefused⟩ := decode_spelling textPlace_title surroundsText_title
  have hunpaired : Unpaired ([] ++ [.unit 0xD835]) := by
    refine .lead rfl fun m hm => ?_
    cases hm
  refine ⟨?_, hrefused _ (.unpaired (.cons (.unit leadHalf_spelled) .nil) hunpaired)⟩
  -- The answer to one of the spellings is computed, and the others have the same one.
  have hfacts : ((decode (quotedText titleFront "𝔸".toList titleBack)).toOption.map fun r =>
      ((TextSpot.node [0] .title).family? r, (r.statement? "𝔸").isSome)) =
        some (some .statement, true) := by
    decide +kernel
  cases hvalid : decode (quotedText titleFront "𝔸".toList titleBack) with
  | error e =>
    rw [hvalid] at hfacts
    cases hfacts
  | ok r₀ =>
    rw [hvalid] at hfacts
    obtain ⟨hfamily, hknown⟩ := Prod.mk.inj (Option.some.inj hfacts)
    obtain ⟨put, rfl, hothers, hspot⟩ :=
      hread "𝔸" _ r₀ (letter_spelled _ List.mem_cons_self) hvalid
    exact ⟨put "𝔸", fun cs hcs => hothers "𝔸" cs (letter_spelled cs hcs),
      (hspot _ rfl).2 "𝔸" .statement hfamily, hknown⟩

end ArgdownLens.Wire
