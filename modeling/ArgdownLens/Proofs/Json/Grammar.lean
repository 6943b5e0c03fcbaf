import ArgdownLens.Proofs.Json.Tree
import Mathlib.Data.List.Chain

/-!
# JSON texts in any spelling

A JSON text is a sequence of tokens with white space around them (`Spells`). A token may be written
in more than one way: strings with escapes, unpaired surrogates among them, and numbers with any
number of digits (`Token.Written`). In all spellings of a tree a number is followed by a sign
(`Raw.parted_tokens`), so that every token is read as it was written, and every text that spells an
unbroken tree is read as the tree (`Raw.ofSymbols_of_spells`). The text of the writer is one of
these (`Value.spells_text`), so that a decoder that is given the text of a value walks the tree of
the value (`Value.readWhole_text`).
-/

namespace ArgdownLens.Json

/-! ## Tokens -/

/-- The ways to write a token. -/
inductive Token.Written : Token → List Char → Prop where
  | openObject : Written .openObject ['\x7b']
  | closeObject : Written .closeObject ['\x7d']
  | openArray : Written .openArray ['[']
  | closeArray : Written .closeArray [']']
  | comma : Written .comma [',']
  | colon : Written .colon [':']
  | null : Written .null ['n', 'u', 'l', 'l']
  | bool (b : Bool) :
    Written (.bool b) (if b then ['t', 'r', 'u', 'e'] else ['f', 'a', 'l', 's', 'e'])
  | number {l : Literal} {cs : List Char} (h : l.Written cs) : Written (.number l) cs
  | string {ps : List Piece} {css : List (List Char)} (h : List.Forall₂ Piece.Written ps css) :
    Written (.string ps) ('"' :: css.flatten ++ ['"'])

/-- A text is a sequence of tokens with white space around them. -/
inductive Spells : List Token → List Char → Prop where
  | nil : Spells [] []
  | space {c : Char} {ts : List Token} {cs : List Char} (hc : isSpace c) (h : Spells ts cs) :
    Spells ts (c :: cs)
  | token {t : Token} {ts : List Token} {text cs : List Char} (ht : t.Written text)
    (h : Spells ts cs) : Spells (t :: ts) (text ++ cs)

/-- Whether a token is a number. -/
def Token.isNumber : Token → Bool
  | .number _ => true
  | _ => false

/-- No number stands right before another one. -/
def Parted : List Token → Prop :=
  List.IsChain fun t t' => ¬ (t.isNumber ∧ t'.isNumber)

/-- Two texts behind each other are the tokens of both. -/
theorem Spells.append {ts ts' : List Token} {cs cs' : List Char} (h : Spells ts cs)
    (h' : Spells ts' cs') : Spells (ts ++ ts') (cs ++ cs') := by
  induction h with
  | nil => exact h'
  | space hc _ ih => exact .space hc ih
  | token ht _ ih =>
    rw [List.append_assoc]
    exact .token ht ih

/-- White space begins no token. -/
theorem tokens_space {c : Char} (hc : isSpace c) (rest : List Symbol) :
    tokens (.char c :: rest) = tokens rest := by
  have hstep : Lexer.step ⟨[], .gap⟩ (.char c) = ⟨[], .gap⟩ := by
    simp only [isSpace, Bool.or_eq_true, beq_iff_eq, or_assoc] at hc
    rcases hc with rfl | rfl | rfl | rfl <;> rfl
  rw [tokens, List.foldl_cons, hstep]
  rfl

/-- A text that does not begin with a number does not go on like one, in front of a rest that does
not either. -/
theorem delimited_of_spells {ts : List Token} {cs : List Char} (h : Spells ts cs)
    (hhead : ∀ t ∈ ts.head?, ¬ t.isNumber) {rest : List Symbol} (hrest : Delimited rest) :
    Delimited (cs.map .char ++ rest) := by
  cases h with
  | nil => exact hrest
  | space hc =>
    simp only [isSpace, Bool.or_eq_true, beq_iff_eq, or_assoc] at hc
    rcases hc with rfl | rfl | rfl | rfl <;> exact ⟨rfl, by decide, by decide, by decide⟩
  | token ht =>
    cases ht with
    | number => exact absurd rfl (hhead _ rfl)
    | bool b => cases b <;> exact ⟨rfl, by decide, by decide, by decide⟩
    | _ => exact ⟨rfl, by decide, by decide, by decide⟩

/-- Every token of a text is read as it was written, in front of a rest that does not go on like a
number. -/
theorem tokens_append_of_spells {ts : List Token} {cs : List Char} (h : Spells ts cs)
    (hparted : Parted ts) {rest : List Symbol} (hrest : Delimited rest) :
    tokens (cs.map .char ++ rest) = ts ++ tokens rest := by
  induction h with
  | nil => rfl
  | space hc _ ih => rw [List.map_cons, List.cons_append, tokens_space hc, ih hparted]
  | @token t ts text cs ht h ih =>
    obtain ⟨hhead, htail⟩ := List.isChain_cons.mp hparted
    rw [List.map_append, List.append_assoc, List.cons_append, ← ih htail]
    cases ht with
    | null => exact tokens_null _
    | bool b => exact tokens_bool b _
    | number hl =>
      -- The one kind of token with which its rest could go on.
      have hnext := fun t' ht' hnumber => hhead t' ht' ⟨rfl, hnumber⟩
      exact tokens_number hl (delimited_of_spells h hnext hrest)
    | string hps => exact tokens_string hps _
    | _ => exact tokens_sign _ _ rfl _

/-- Every token of a text is read as it was written. -/
theorem tokens_of_spells {ts : List Token} {cs : List Char} (h : Spells ts cs)
    (hparted : Parted ts) : tokens (cs.map .char) = ts := by
  have htokens : tokens (cs.map .char ++ []) = ts ++ tokens [] :=
    tokens_append_of_spells h hparted trivial
  rw [List.append_nil] at htokens
  exact htokens.trans (List.append_nil ts)

/-! ## Trees -/

namespace Raw

/-- A token that is no number may stand anywhere. -/
theorem parted_cons {t : Token} (ht : t.isNumber = false) {ts : List Token} (hts : Parted ts) :
    Parted (t :: ts) :=
  List.isChain_cons.mpr ⟨fun _ _ h => Bool.eq_false_iff.mp ht h.1, hts⟩

/-- Behind an item stands a comma or a bracket. -/
theorem head_itemTokens (vs : List Raw) (ts : List Token) :
    ∀ t ∈ (itemTokens vs ++ ts).head?, ¬ t.isNumber := by
  cases vs <;> simp [itemTokens, Token.isNumber]

/-- Behind a member stands a comma or a bracket. -/
theorem head_memberTokens (ms : List (List Piece × Raw)) (ts : List Token) :
    ∀ t ∈ (memberTokens ms ++ ts).head?, ¬ t.isNumber := by
  cases ms <;> simp [memberTokens, Token.isNumber]

mutual

/-- No number in a tree stands right before another one, if none does behind the tree. -/
theorem parted_tokens (v : Raw) {ts : List Token} (hts : Parted ts)
    (hhead : ∀ t ∈ ts.head?, ¬ t.isNumber) : Parted (v.tokens ++ ts) := by
  match v with
  | .null | .bool _ | .string _ => exact parted_cons rfl hts
  | .number l => exact List.isChain_cons.mpr ⟨fun t ht h => hhead t ht h.2, hts⟩
  | .array [] _ | .object [] _ => exact parted_cons rfl (parted_cons rfl hts)
  | .array (v :: vs) _ =>
    have hitem := parted_tokens v (parted_itemTokens vs hts) (head_itemTokens vs ts)
    rw [tokens, List.append_assoc]
    exact parted_cons rfl hitem
  | .object ((key, v) :: ms) _ =>
    have hmember := parted_tokens v (parted_memberTokens ms hts) (head_memberTokens ms ts)
    rw [tokens, List.append_assoc]
    exact parted_cons rfl (parted_cons rfl (parted_cons rfl hmember))
  | .broken _ => exact hts

/-- No number in some further items stands right before another one. -/
theorem parted_itemTokens (vs : List Raw) {ts : List Token} (hts : Parted ts) :
    Parted (itemTokens vs ++ ts) := by
  match vs with
  | [] => exact parted_cons rfl hts
  | v :: vs =>
    have hitem := parted_tokens v (parted_itemTokens vs hts) (head_itemTokens vs ts)
    rw [itemTokens, List.append_assoc]
    exact parted_cons rfl hitem

/-- No number in some further members stands right before another one. -/
theorem parted_memberTokens (ms : List (List Piece × Raw)) {ts : List Token} (hts : Parted ts) :
    Parted (memberTokens ms ++ ts) := by
  match ms with
  | [] => exact parted_cons rfl hts
  | (key, v) :: ms =>
    have hmember := parted_tokens v (parted_memberTokens ms hts) (head_memberTokens ms ts)
    rw [memberTokens, List.append_assoc]
    exact parted_cons rfl (parted_cons rfl (parted_cons rfl hmember))

end

/-- A text that spells an unbroken tree is read as the tree. -/
theorem ofSymbols_of_spells {v : Raw} (h : v.Unbroken) {text : String}
    (htext : Spells v.tokens text.toList) : ofSymbols (symbolsOf text) = (v, false) := by
  have hnil : Parted [] := .nil
  have hparted := parted_tokens v hnil nofun
  rw [List.append_nil] at hparted
  rw [ofSymbols, symbolsOf, tokens_of_spells htext hparted, ofTokens_tokens h]

end Raw

/-! ## The text of the writer -/

/-- A written string spells the text. -/
theorem written_writeString (s : String) :
    (Token.string (escapePieces s)).Written (writeString s) := by
  have hwritten := written_escapePieces s
  exact .string hwritten

/-- A sign is one character. -/
theorem Spells.sign {t : Token} {c : Char} (ht : t.Written [c]) {ts : List Token} {cs : List Char}
    (h : Spells ts cs) : Spells (t :: ts) (c :: cs) :=
  .token ht h

/-- A member begins with its key and a colon. -/
theorem Spells.key (key : String) {ts : List Token} {cs : List Char} (h : Spells ts cs) :
    Spells (.string (escapePieces key) :: .colon :: ts) (writeString key ++ ':' :: cs) :=
  .token (written_writeString key) (.sign .colon h)

namespace Value

mutual

/-- The text of a value spells its tree. -/
theorem spells_write (v : Value) (h : v.raw.Unbroken) {ts : List Token} {cs : List Char}
    (hts : Spells ts cs) : Spells (v.raw.tokens ++ ts) (v.write ++ cs) := by
  match v, h with
  | .null, _ => exact .token .null hts
  | .bool true, _ => exact .token (.bool true) hts
  | .bool false, _ => exact .token (.bool false) hts
  | .number (.natural n), _ =>
    have htext : (Value.number (.natural n)).write = Nat.toDigits 10 n := String.toList_ofList
    rw [htext]
    exact .token (.number (written_toDigits n)) hts
  | .string s, _ => exact .token (written_writeString s) hts
  | .array [], _ => exact .sign .openArray (.sign .closeArray hts)
  | .object [], _ => exact .sign .openObject (.sign .closeObject hts)
  | .array (v :: vs), ⟨_, hv, hvs⟩ =>
    rw [raw, rawItems, Raw.tokens, write, List.append_assoc, List.append_assoc]
    exact .sign .openArray (spells_write v hv (spells_writeItems vs hvs hts))
  | .object ((key, v) :: ms), ⟨_, hv, hms⟩ =>
    rw [raw, rawMembers, Raw.tokens, write]
    simp only [List.append_assoc, List.cons_append]
    exact .sign .openObject (.key key (spells_write v hv (spells_writeMembers ms hms hts)))

/-- The text of further items spells their tokens. -/
theorem spells_writeItems (vs : List Value) (h : Raw.UnbrokenItems (rawItems vs))
    {ts : List Token} {cs : List Char} (hts : Spells ts cs) :
    Spells (Raw.itemTokens (rawItems vs) ++ ts) (writeItems vs ++ cs) := by
  match vs, h with
  | [], _ => exact .sign .closeArray hts
  | v :: vs, ⟨hv, hvs⟩ =>
    rw [rawItems, Raw.itemTokens, writeItems, List.append_assoc, List.append_assoc]
    exact .sign .comma (spells_write v hv (spells_writeItems vs hvs hts))

/-- The text of further members spells their tokens. -/
theorem spells_writeMembers (ms : List (String × Value))
    (h : Raw.UnbrokenMembers (rawMembers ms)) {ts : List Token} {cs : List Char}
    (hts : Spells ts cs) :
    Spells (Raw.memberTokens (rawMembers ms) ++ ts) (writeMembers ms ++ cs) := by
  match ms, h with
  | [], _ => exact .sign .closeObject hts
  | (key, v) :: ms, ⟨hv, hms⟩ =>
    rw [rawMembers, Raw.memberTokens, writeMembers]
    simp only [List.append_assoc, List.cons_append]
    exact .sign .comma (.key key (spells_write v hv (spells_writeMembers ms hms hts)))

end

/-- The whole text of a value spells its tree. -/
theorem spells_text {v : Value} (h : v.raw.Unbroken) : Spells v.raw.tokens v.text.toList := by
  have hwrite := spells_write v h .nil
  rw [List.append_nil, List.append_nil] at hwrite
  rw [text, String.toList_ofList]
  exact hwrite

/-- A decoder that is given the text of a value walks the tree of the value. -/
theorem readWhole_text {α : Type} (reader : Raw → Except Fault α) {v : Value}
    (h : v.raw.Unbroken) : readWhole reader (symbolsOf v.text) = reader v.raw := by
  unfold readWhole
  rw [Raw.ofSymbols_of_spells h (spells_text h)]
  exact bind_pure (reader v.raw)

end Value

end ArgdownLens.Json
