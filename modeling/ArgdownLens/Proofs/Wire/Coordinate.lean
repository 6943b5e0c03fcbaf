import ArgdownLens.Proofs.Wire.Inset

/-!
# Coordinates are read exactly or refused

The coordinates of an answer are those of its nodes, of the members of its statements and arguments,
of the premise-conclusion structures and of the tokens of its parser errors (`Spot`). Each of them
stands in a chain of brackets (`Place`), and the answer takes whatever number stands there
(`Place.takes`). A number has a value there if and only if it is written as the digits of a natural
number of 32 bits (`numberCoordinate_eq_ok_iff`), so that all others are refused
(`decode_coordinate`).
-/

namespace ArgdownLens.Wire

open Json

/-! ## Coordinates -/

/-- The four coordinates of a span. -/
inductive Coordinate where
  | startLine | startColumn | endLine | endColumn
  deriving DecidableEq, Repr

namespace Coordinate

/-- The name of the field that holds the coordinate. -/
def name : Coordinate → String
  | startLine => "startLine"
  | startColumn => "startColumn"
  | endLine => "endLine"
  | endColumn => "endColumn"

/-- The coordinate of a span. -/
def get : Coordinate → Span → Nat
  | startLine, s => s.startLine
  | startColumn, s => s.startColumn
  | endLine, s => s.endLine
  | endColumn, s => s.endColumn

/-- The span with another value for the coordinate. -/
def set : Coordinate → Nat → Span → Span
  | startLine => fun n s => { s with startLine := n }
  | startColumn => fun n s => { s with startColumn := n }
  | endLine => fun n s => { s with endLine := n }
  | endColumn => fun n s => { s with endColumn := n }

/-- A coordinate that is set is what it is set to. -/
@[simp] theorem get_set (c : Coordinate) (n : Nat) (s : Span) : c.get (c.set n s) = n := by
  cases c <;> rfl

end Coordinate

/-- What a number is read as where a coordinate should stand. -/
def numberCoordinate (l : Literal) : Except Fault Nat :=
  l.value >>= coordinateOf

/-- A number is a coordinate exactly if it is written as the digits of a natural number of 32 bits.
-/
theorem numberCoordinate_eq_ok_iff {l : Literal} {cs : List Char} (h : l.Written cs) {n : Nat} :
    numberCoordinate l = .ok n ↔ n ≤ maxCoordinate ∧ cs = Nat.toDigits 10 n := by
  have hmax : maxCoordinate ≤ maxSignificand := by decide
  rw [numberCoordinate, bind_eq_ok]
  constructor
  · rintro ⟨number, hnumber, hn⟩
    unfold coordinateOf at hn
    split at hn
    · split_ifs at hn with hle
      obtain rfl := Except.ok.inj hn
      exact ⟨hle, (value_eq_natural_iff h (hle.trans hmax)).mp hnumber⟩
    · cases hn
    · cases hn
  · rintro ⟨hle, hcs⟩
    exact ⟨.natural n, (value_eq_natural_iff h (hle.trans hmax)).mpr hcs, if_pos hle⟩

/-! ## Slots -/

open Record (slot_of_getElem?)

/-- A span reads each of its coordinates on its own. -/
theorem slot_span (c : Coordinate) : spanRecord.Slot c.name coordinate c.set := by
  have hothers : ∀ f ∈ spanRecord.fields, f.name ≠ c.name → f.Leaves c.set := by
    cases c <;> simp [spanRecord, Coordinate.set, Coordinate.name]
  cases c with
  | startLine => exact slot_of_getElem? spanRecord 0 nodup_spanRecord rfl rfl hothers
  | startColumn => exact slot_of_getElem? spanRecord 1 nodup_spanRecord rfl rfl hothers
  | endLine => exact slot_of_getElem? spanRecord 2 nodup_spanRecord rfl rfl hothers
  | endColumn => exact slot_of_getElem? spanRecord 3 nodup_spanRecord rfl rfl hothers

/-- A node reads each of its coordinates on its own. -/
theorem slot_node (children : Decoder (List LooseNode)) (c : Coordinate) :
    (nodeRecord children).Slot c.name coordinate fun n a => { a with span := c.set n a.span } := by
  have hothers : ∀ f ∈ (nodeRecord children).fields, f.name ≠ c.name →
      f.Leaves fun n a => { a with span := c.set n a.span } := by
    cases c <;> simp [nodeRecord, Coordinate.set, Coordinate.name]
  have hnodup := nodup_nodeRecord children
  cases c with
  | startLine => exact slot_of_getElem? (nodeRecord children) 2 hnodup rfl rfl hothers
  | startColumn => exact slot_of_getElem? (nodeRecord children) 3 hnodup rfl rfl hothers
  | endLine => exact slot_of_getElem? (nodeRecord children) 4 hnodup rfl rfl hothers
  | endColumn => exact slot_of_getElem? (nodeRecord children) 5 hnodup rfl rfl hothers

/-- An argument reads its premise-conclusion structure on its own. -/
theorem slot_reconstruction :
    argumentRecord.Slot "pcs" (optional reconstruction) fun r a => { a with reconstruction := r } :=
  slot_of_getElem? argumentRecord 2 (by decide) rfl rfl (by simp [argumentRecord])

/-- A parser error reads its token on its own. -/
theorem slot_token : parserErrorRecord.Slot "token" span fun s e => { e with token := s } :=
  slot_of_getElem? parserErrorRecord 1 (by decide) rfl rfl (by simp [parserErrorRecord])

/-- An answer reads its parser errors on their own. -/
theorem slot_parserErrors :
    responseRecord.Slot "parserErrors" (list parserErrorRecord.decoder)
      fun es r => { r with parserErrors := es } :=
  slot_of_getElem? responseRecord 4 (by decide) rfl rfl (by simp [responseRecord])

/-! ## Places -/

/-- A coordinate of an answer. -/
inductive Spot where
  /-- Of the node to which a path leads. -/
  | node (path : List Nat) (c : Coordinate)
  /-- Of a member of the class of statements under a title. -/
  | member (title : String) (i : Nat) (c : Coordinate)
  /-- Of a description of the argument under a title. -/
  | description (title : String) (i : Nat) (c : Coordinate)
  /-- Of the premise-conclusion structure of the argument under a title. -/
  | reconstruction (title : String) (c : Coordinate)
  /-- Of the token of a parser error. -/
  | parserError (i : Nat) (c : Coordinate)

/-- The value of a coordinate of an answer, if the answer has it. -/
def Spot.value? (r : Response) : Spot → Option Nat
  | .node path c => (r.ast.at? path).map fun n => c.get n.span
  | .member title i c =>
    (r.statement? title).bind fun s => s.members[i]?.map fun m => c.get m.span
  | .description title i c =>
    (r.argument? title).bind fun a => a.descriptions[i]?.map fun m => c.get m.span
  | .reconstruction title c =>
    (r.argument? title).bind fun a => a.reconstruction.map fun p => c.get p.span
  | .parserError i c => r.parserErrors[i]?.map fun e => c.get e.token

/-- The brackets around a coordinate of an answer. The entries of a map that later ones replace have
coordinates that are read but do not get into the answer. A span that is flattened into a record is
read of objects only. -/
inductive Place (c : Coordinate) : List Bracket → Option Spot → Prop where
  | node {b last : Bracket} {bs : List Bracket} {path : List Nat}
    (hb : b.IsField responseRecord.names "ast") (hpath : NodePath bs path)
    (hlast : last.IsField nodeNames c.name) : Place c (b :: bs ++ [last]) (some (.node path c))
  | member {b entry members item last : Bracket} {title? : Option String} {i : Nat}
    (hb : b.IsField responseRecord.names "statements") (hentry : entry.IsEntry title?)
    (hmembers : members.IsField equivalenceClassRecord.names "members") (hitem : item.IsItem i)
    (hlast : last.IsField [] c.name) :
    Place c [b, entry, members, item, last] (title?.map (.member · i c))
  | description {b entry members item last : Bracket} {title? : Option String} {i : Nat}
    (hb : b.IsField responseRecord.names "arguments") (hentry : entry.IsEntry title?)
    (hmembers : members.IsField argumentRecord.names "descriptions") (hitem : item.IsItem i)
    (hlast : last.IsField [] c.name) :
    Place c [b, entry, members, item, last] (title?.map (.description · i c))
  | reconstruction {b entry pcs last : Bracket} {title? : Option String}
    (hb : b.IsField responseRecord.names "arguments") (hentry : entry.IsEntry title?)
    (hpcs : pcs.IsField argumentRecord.names "pcs") (hlast : last.IsField [] c.name) :
    Place c [b, entry, pcs, last] (title?.map (.reconstruction · c))
  | parserError {b item token last : Bracket} {i : Nat}
    (hb : b.IsField responseRecord.names "parserErrors") (hitem : item.IsItem i)
    (htoken : token.IsField parserErrorRecord.names "token")
    (hlast : last.IsField spanRecord.names c.name) :
    Place c [b, item, token, last] (some (.parserError i c))

/-! ## Reading a coordinate -/

section

variable {c : Coordinate} {last : Bracket}

/-- A coordinate is taken where it stands itself. -/
theorem takes_number : Takes numberCoordinate coordinate .number fun put => ∀ n, put n = n :=
  fun _ _ _ _ => ⟨id, fun l => (id_map (numberCoordinate l)).symm, fun _ => rfl⟩

/-- A span takes each of its coordinates. -/
theorem takes_span (hlast : last.IsField spanRecord.names c.name) :
    Takes numberCoordinate span (fun l => last.fill (.number l))
      fun put => ∀ n, c.get (put n) = n := by
  refine takes_number.field (slot_span c) hlast fun put s hput n => ?_
  exact (c.get_set (put n) s).trans (hput n)

/-- A record that a span is flattened into takes the coordinates of the span. -/
theorem takes_flattened {α β : Type} {outer : Record α} (hforeign : outer.field? c.name = none)
    (join : α × Span → β) (hlast : last.IsField [] c.name) :
    Takes numberCoordinate
      (fun room v => flattened outer spanRecord room v >>= fun p => pure (join p))
      (fun l => last.fill (.number l)) fun put => ∃ a s, ∀ n, put n = join (a, c.set n s) := by
  intro room l₀ b₀ hok
  obtain ⟨_, hok, -⟩ := bind_eq_ok.mp hok
  obtain ⟨a, s, hflattened⟩ := (slot_span c).flattened_fill hforeign hlast hok
  refine ⟨fun n => join (a, c.set n s), fun l => ?_, a, s, fun n => rfl⟩
  refine (congrArg (· >>= fun p => pure (join p)) (hflattened l)).trans ?_
  change (numberCoordinate l).map _ >>= _ = _
  cases numberCoordinate l <;> rfl

/-- A member takes the coordinates of its span. -/
theorem takes_member (hlast : last.IsField [] c.name) :
    Takes numberCoordinate member (fun l => last.fill (.number l))
      fun put => ∀ n, c.get (put n).span = n := by
  have hforeign : memberRecord.field? c.name = none := by cases c <;> rfl
  let join (p : Member × Span) : Member := { p.1 with span := p.2 }
  refine (takes_flattened hforeign join hlast).imp ?_
  rintro put ⟨m, s, hjoin⟩ n
  rw [hjoin]
  exact c.get_set n s

/-- A premise-conclusion structure takes the coordinates of its span. -/
theorem takes_reconstruction (hlast : last.IsField [] c.name) :
    Takes numberCoordinate reconstruction (fun l => last.fill (.number l))
      fun put => ∀ n, c.get (put n).span = n := by
  have hforeign : reconstructionRecord.field? c.name = none := by cases c <;> rfl
  let join (p : Reconstruction × Span) : Reconstruction := { p.1 with span := p.2 }
  refine (takes_flattened hforeign join hlast).imp ?_
  rintro put ⟨r, s, hjoin⟩ n
  rw [hjoin]
  exact c.get_set n s

/-- An argument takes the coordinates of its premise-conclusion structure. -/
theorem takes_pcs {pcs : Bracket} (hpcs : pcs.IsField argumentRecord.names "pcs")
    (hlast : last.IsField [] c.name) :
    Takes numberCoordinate argument (fun l => fill [pcs, last] (.number l))
      fun put => ∀ n, (put n).reconstruction.map (fun r => c.get r.span) = some n := by
  have hoptional : Takes numberCoordinate (optional reconstruction)
      (fun l => last.fill (.number l))
      fun put => ∀ n, (put n).map (fun r => c.get r.span) = some n :=
    (takes_reconstruction hlast).optional (fun _ => last.fill_ne_null _)
      fun _ hput n => congrArg some (hput n)
  exact hoptional.field slot_reconstruction hpcs fun _ _ hput => hput

/-- A parser error takes the coordinates of its token. -/
theorem takes_parserError {token : Bracket} (htoken : token.IsField parserErrorRecord.names "token")
    (hlast : last.IsField spanRecord.names c.name) :
    Takes numberCoordinate parserErrorRecord.decoder (fun l => fill [token, last] (.number l))
      fun put => ∀ n, c.get (put n).token = n :=
  (takes_span hlast).field slot_token htoken fun _ _ hput => hput

/-- The kind of a node that has one does not depend on its span. -/
theorem LooseNode.kind_span {n : LooseNode} {kind : NodeKind} (h : n.kind = .ok kind) (s : Span) :
    LooseNode.kind { n with span := s } = .ok kind := by
  obtain ⟨_ | tokenName, _ | name, _⟩ := n
  · cases h
  all_goals exact h

/-- A node that is closed with one span is closed with any other one. -/
theorem LooseNode.close_span {n : LooseNode} {t : Node} (h : n.close = .ok t) (s : Span) :
    LooseNode.close { n with span := s } = .ok { t with span := s } := by
  rw [close_eq] at h ⊢
  obtain ⟨kind, hkind, h⟩ := bind_eq_ok.mp h
  obtain ⟨ts, hts, h⟩ := bind_eq_ok.mp h
  obtain rfl := Except.ok.inj h
  rw [LooseNode.kind_span hkind, ok_bind, hts]
  rfl

/-- A node takes its own coordinates, and no number is a name. -/
theorem takes_node (hlast : last.IsField nodeNames c.name) :
    Takes numberCoordinate node (fun l => last.fill (.number l))
      fun put => Settles LooseNode.close put fun t => ∀ n, c.get (t n).span = n := by
  intro room
  rw [node_eq]
  refine takes_number.field (slot_node (list (childDecoder room)) c) hlast
    (fun put rest hput n₀ t₀ hclose => ?_) room
  exact ⟨_, fun n => LooseNode.close_span hclose (c.set (put n) rest.span),
    fun n => (c.get_set (put n) _).trans (hput n)⟩

end

section

variable {c : Coordinate} {bs : List Bracket} {spot? : Option Spot}

/-- An answer takes each coordinate in it, and has it at the spot. -/
theorem Place.takes (h : Place c bs spot?) :
    Takes numberCoordinate responseRecord.decoder (fun l => fill bs (.number l))
      fun put => Settles LooseResponse.close put fun final =>
        ∀ spot ∈ spot?, ∀ n, spot.value? (final n) = some n := by
  -- The coordinate is taken where it stands, and by what is around it, bracket by bracket.
  cases h with
  | @node b last bs path hb hpath hlast =>
    have hplace : (fun l => fill (b :: bs ++ [last]) (.number l)) =
        fun l => fill (b :: bs) (last.fill (.number l)) := funext fun l => fill_append ..
    rw [hplace]
    refine (takes_node hlast).tree hb hpath fun nodes final hget hat spot hspot n => ?_
    obtain rfl := Option.some.inj hspot
    rw [Spot.value?, hat, Option.map_some, hget]
  | member hb hentry hmembers hitem hlast =>
    have hclass := (takes_member hlast).listed slot_members EquivalenceClass.members
      (fun _ _ => rfl) hmembers hitem
    refine (hclass.entry hentry).field slot_statements hb fun put rest hput =>
      .of_ast_eq (fun _ => rfl) fun tree spot hspot n => ?_
    obtain ⟨title, htitle, rfl⟩ := Option.map_eq_some_iff.mp hspot
    obtain ⟨classes, ⟨members, hget, hmember⟩, hfound⟩ := hput
    rw [Spot.value?, Response.statement?, hfound title htitle, Option.bind_some, hmember,
      Option.map_some, hget]
  | description hb hentry hmembers hitem hlast =>
    have hargument := (takes_member hlast).listed slot_descriptions Argument.descriptions
      (fun _ _ => rfl) hmembers hitem
    refine (hargument.entry hentry).field slot_arguments hb fun put rest hput =>
      .of_ast_eq (fun _ => rfl) fun tree spot hspot n => ?_
    obtain ⟨title, htitle, rfl⟩ := Option.map_eq_some_iff.mp hspot
    obtain ⟨arguments, ⟨members, hget, hmember⟩, hfound⟩ := hput
    rw [Spot.value?, Response.argument?, hfound title htitle, Option.bind_some, hmember,
      Option.map_some, hget]
  | reconstruction hb hentry hpcs hlast =>
    refine ((takes_pcs hpcs hlast).entry hentry).field slot_arguments hb fun put rest hput =>
      .of_ast_eq (fun _ => rfl) fun tree spot hspot n => ?_
    obtain ⟨title, htitle, rfl⟩ := Option.map_eq_some_iff.mp hspot
    obtain ⟨arguments, hget, hfound⟩ := hput
    rw [Spot.value?, Response.argument?, hfound title htitle, Option.bind_some, hget]
  | parserError hb hitem htoken hlast =>
    refine ((takes_parserError htoken hlast).item hitem).field slot_parserErrors hb
      fun put rest hput => .of_ast_eq (fun _ => rfl) fun tree spot hspot n => ?_
    obtain rfl := Option.some.inj hspot
    obtain ⟨errors, hget, hitem⟩ := hput
    rw [Spot.value?, hitem, Option.map_some, hget]

end

/-- The text with a literal written at a place is decoded as the tree with the literal there. -/
theorem decode_surrounded {bs : List Bracket} {front back : List Char}
    (htext : Surrounds bs front back) {l : Literal} {cs : List Char} (hl : l.Written cs) :
    decode (String.ofList (front ++ cs ++ back)) = decodeTree (fill bs (.number l)) := by
  have hunbroken : (fill bs (.number l)).Unbroken := unbroken_fill bs htext.unbroken trivial
  have hnumber : Spells (Raw.number l).tokens cs := by
    have htoken : Spells [.number l] (cs ++ []) := .token (.number hl) .nil
    rwa [List.append_nil] at htoken
  refine decode_of_spells hunbroken ?_
  rw [String.toList_ofList]
  exact htext.spells hnumber

/-- At the place of a coordinate, in a text that is decoded with some number there, exactly the
digits of the natural numbers of 32 bits are read, each as its number. With any other number, be it
too large, negative or written with a fraction or an exponent, the text is refused as JSON. -/
theorem decode_coordinate {c : Coordinate} {bs : List Bracket} {spot? : Option Spot}
    (h : Place c bs spot?) {front back : List Char} (htext : Surrounds bs front back)
    {l₀ : Literal} {cs₀ : List Char} (h₀ : l₀.Written cs₀) {r₀ : Response}
    (hvalid : decode (String.ofList (front ++ cs₀ ++ back)) = .ok r₀)
    {l : Literal} {cs : List Char} (hl : l.Written cs) :
    (∀ n ≤ 4294967295, cs = Nat.toDigits 10 n →
        ∃ r, decode (String.ofList (front ++ cs ++ back)) = .ok r ∧
          ∀ spot ∈ spot?, spot.value? r = some n) ∧
      ((¬ ∃ n ≤ 4294967295, cs = Nat.toDigits 10 n) →
        ∃ fault, decode (String.ofList (front ++ cs ++ back)) = .error (.json fault)) := by
  rw [decode_surrounded htext h₀] at hvalid
  rw [decode_surrounded htext hl]
  have hread {n : Nat} := numberCoordinate_eq_ok_iff hl (n := n)
  constructor
  · intro n hn hcs
    obtain ⟨final, hvalue, hfinal⟩ := h.takes.decodeTree_eq hvalid
    exact ⟨final n, hfinal (hread.mpr ⟨hn, hcs⟩), fun spot hspot => hvalue spot hspot n⟩
  · exact fun hnone => h.takes.decodeTree_refused fun n hn => hnone ⟨n, hread.mp hn⟩

/-- The members of a premise-conclusion structure besides the end column of its span. -/
def otherMembers : List (String × Value) :=
  [("startLine", ofNat 1), ("startColumn", ofNat 1), ("endLine", ofNat 1)]

/-- The brackets around the end column of the premise-conclusion structure of an argument. -/
def endBrackets : List Bracket :=
  [.member [] (escapePieces "arguments")
      (Value.rawMembers [("ast", .object [("name", .string "argdown")])]),
    .member [] (escapePieces "a") (Value.rawMembers []),
    .member [] (escapePieces "pcs") (Value.rawMembers [("title", .string "a")]),
    .member [] (escapePieces "endColumn") (Value.rawMembers otherMembers)]

/-- The text in front of the end column. -/
def endFront : List Char :=
  '\x7b' :: writeString "arguments" ++ ':' :: ('\x7b' :: writeString "a" ++ ':' ::
    ('\x7b' :: writeString "pcs" ++ ':' :: ('\x7b' :: writeString "endColumn" ++ ':' :: [])))

/-- The text behind the end column. -/
def endBack : List Char :=
  [] ++ Value.writeMembers otherMembers ++ Value.writeMembers [("title", .string "a")] ++
    Value.writeMembers [] ++ Value.writeMembers [("ast", .object [("name", .string "argdown")])]

/-- The end column of the premise-conclusion structure stands within these brackets. -/
theorem place_endColumn :
    Place .endColumn endBrackets ((some "a").map (.reconstruction · .endColumn)) := by
  have hentry : Bracket.IsEntry (some "a")
      (.member [] (escapePieces "a") (Value.rawMembers [])) :=
    .last rfl (List.forall_mem_nil _)
  exact .reconstruction rfl hentry rfl rfl

/-- The texts around the end column are written for these brackets. -/
theorem surrounds_endColumn : Surrounds endBrackets endFront endBack := by
  have hunbroken : ∀ ms ∈ [[("ast", .object [("name", .string "argdown")])], [],
      [("title", .string "a")], otherMembers], Raw.UnbrokenMembers (Value.rawMembers ms) := by
    simp [otherMembers, Value.rawMembers, Value.raw, ofNat, Raw.Unbroken, Raw.UnbrokenMembers]
  simp only [List.forall_mem_cons] at hunbroken
  obtain ⟨hast, hnone, htitle, hspan, -⟩ := hunbroken
  exact (((Surrounds.nil.member "endColumn" hspan).member "pcs" htitle).member "a" hnone).member
    "arguments" hast

/-- With 1 for the end column the text is decoded. -/
theorem exists_decode_endColumn :
    ∃ r, decode (String.ofList (endFront ++ Nat.toDigits 10 1 ++ endBack)) = .ok r := by
  have hok : (decodeTree (fill endBrackets (.number (.ofNat 1)))).isOk := by decide +kernel
  rw [decode_surrounded surrounds_endColumn (written_toDigits 1)]
  cases hr : decodeTree (fill endBrackets (.number (.ofNat 1))) with
  | ok r => exact ⟨r, rfl⟩
  | error e =>
    rw [hr] at hok
    cases hok

/-- The greatest coordinate is read, and the number behind it is refused, as is a whole number with
an exponent. -/
theorem endColumn_decode :
    (∃ r, decode (String.ofList (endFront ++ "4294967295".toList ++ endBack)) = .ok r ∧
        (Spot.reconstruction "a" .endColumn).value? r = some 4294967295) ∧
      (∃ fault, decode (String.ofList (endFront ++ "4294967296".toList ++ endBack)) =
        .error (.json fault)) ∧
      ∃ fault, decode (String.ofList (endFront ++ "1e0".toList ++ endBack)) =
        .error (.json fault) := by
  have hsign : (false, []) ∈ [(true, ['-']), (false, ['+']), (false, [])] := by decide
  have hexponent : Literal.Written ⟨false, [1], [], some ⟨false, [0]⟩⟩ "1e0".toList :=
    .intro (.cons rfl .nil) (fun hzero => absurd hzero Nat.one_ne_zero) .none
      (.marked (.inl rfl) hsign (.cons rfl .nil))
  have hgreatest : "4294967295".toList = Nat.toDigits 10 4294967295 := by decide
  have hnext : "4294967296".toList = Nat.toDigits 10 4294967296 := by decide
  obtain ⟨r₀, hvalid⟩ := exists_decode_endColumn
  have hone := written_toDigits 1
  rw [hgreatest, hnext]
  obtain ⟨hmax, -⟩ := decode_coordinate place_endColumn surrounds_endColumn hone hvalid
    (written_toDigits 4294967295)
  obtain ⟨-, hbeyond⟩ := decode_coordinate place_endColumn surrounds_endColumn hone hvalid
    (written_toDigits 4294967296)
  obtain ⟨-, hmarked⟩ := decode_coordinate place_endColumn surrounds_endColumn hone hvalid hexponent
  refine ⟨?_, hbeyond ?_, hmarked ?_⟩
  · obtain ⟨r, hr, hvalue⟩ := hmax 4294967295 le_rfl rfl
    exact ⟨r, hr, hvalue _ rfl⟩
  · rintro ⟨n, hn, hdigits⟩
    -- The digits are those of one number only, and this one is too large.
    have hsmall : n ≤ maxSignificand := hn.trans (by decide)
    have hsame := eq_of_toDigits_eq (by decide) hsmall hdigits
    omega
  · rintro ⟨n, -, hdigits⟩
    have hletter : 'e' ∈ Nat.toDigits 10 n := hdigits ▸ by decide
    exact absurd (Nat.isDigit_of_mem_toDigits (by decide) (by decide) hletter) (by decide)

end ArgdownLens.Wire
