import ArgdownLens.Proofs.Json.Tree

/-!
# Texts with stray bytes, mended

Stray bytes are mended by the character U+FFFD in their place. The tree of the mended text is the
mended tree of the text (`Raw.ofSymbols_mended`), with one exception: the four bytes behind `\u` are
counted, and U+FFFD need not have as many bytes as it stands for. Stray bytes among these four break
the string, however, in the mended text as well, so that neither text is JSON then.
-/

namespace ArgdownLens

/-- The symbol, with U+FFFD for a broken stretch. -/
def Symbol.mended : Symbol → Symbol
  | .char c => .char c
  | .broken _ => .char '\uFFFD'

namespace Json

/-- The text that bytes spell when broken stretches are mended. -/
theorem symbolsOf_decodeLossy (bytes : List UInt8) :
    symbolsOf (Utf8.decodeLossy bytes) = (Utf8.symbols bytes).map Symbol.mended := by
  unfold symbolsOf Utf8.decodeLossy
  rw [String.toList_ofList, List.map_map]
  apply List.map_congr_left
  intro s _
  cases s <;> rfl

/-- The piece, with U+FFFD for stray bytes. -/
def Piece.mended : Piece → Piece
  | .stray => .char '\uFFFD'
  | p => p

/-- The token, with its pieces mended. -/
def Token.mended : Token → Token
  | .string pieces => .string (pieces.map Piece.mended)
  | .brokenString pieces fault => .brokenString (pieces.map Piece.mended) fault
  | t => t

/-- Whether the token is a string that goes wrong or is cut off. -/
def Token.isBrokenString : Token → Bool
  | .brokenString _ _ => true
  | _ => false

/-! ## Tokens -/

/-- What a lexer is in the middle of, with its pieces mended. -/
def Inside.mended : Inside → Inside
  | .word whole rest => .word whole.mended rest
  | .string pieces => .string (pieces.map Piece.mended)
  | .escape pieces => .escape (pieces.map Piece.mended)
  | .hex pieces bytes value => .hex (pieces.map Piece.mended) bytes value
  | inside => inside

namespace Lexer

/-- The lexer with everything in it mended. -/
def mended (l : Lexer) : Lexer :=
  ⟨l.tokens.map Token.mended, l.inside.mended⟩

/-- The letters of a word that are to follow are other characters than U+FFFD. -/
def Sane (l : Lexer) : Prop :=
  match l.inside with
  | .word _ rest => '\uFFFD' ∉ rest
  | _ => True

/-- The lexer has read a string that goes wrong, or goes wrong behind these four bytes. -/
def Doomed (l : Lexer) : Prop :=
  (∃ t ∈ l.tokens, t.isBrokenString) ∨ ∃ pieces bytes, l.inside = .hex pieces bytes none

/-- A character begins the same token when all is mended. -/
theorem begin_mended (l : Lexer) (c : Char) : l.mended.begin c = (l.begin c).mended := by
  unfold begin
  split
  case h_11 =>
    -- No sign, quote or letter of a word: a blank, the start of a number or nothing.
    split_ifs
    · rfl
    · cases Scan.start? c <;> rfl
  all_goals rfl

/-- U+FFFD ends a number that may end and makes any other number wrong. -/
theorem scan_step_replacement (s : Scan) :
    s.step '\uFFFD' = if s.phase.mayEnd then .stop else .wrong := by
  obtain ⟨phase, literal⟩ := s
  cases phase <;> rfl

/-- No word that is begun holds U+FFFD. -/
theorem sane_begin (l : Lexer) (c : Char) : (l.begin c).Sane := by
  have hwords : '\uFFFD' ∉ ['u', 'l', 'l'] ∧ '\uFFFD' ∉ ['r', 'u', 'e'] ∧
      '\uFFFD' ∉ ['a', 'l', 's', 'e'] := by decide
  unfold begin
  split
  case h_8 => exact hwords.1
  case h_9 => exact hwords.2.1
  case h_10 => exact hwords.2.2
  case h_11 =>
    split_ifs
    · trivial
    · cases Scan.start? c <;> trivial
  all_goals trivial

/-- Reading on, no word holds U+FFFD. -/
theorem Sane.step {l : Lexer} (h : l.Sane) (s : Symbol) : (l.step s).Sane := by
  -- A word is begun in a gap only, or where a number ends, and its letters only get fewer.
  obtain ⟨ts, inside⟩ := l
  cases inside with
  | gap =>
    cases s with
    | char c => exact sane_begin _ c
    | broken n => trivial
  | word whole rest =>
    cases rest with
    | nil => trivial
    | cons d rest =>
      cases s with
      | broken n => trivial
      | char c =>
        simp only [Lexer.step]
        split_ifs
        · trivial
        · trivial
        · exact fun hmem => h (List.mem_cons_of_mem d hmem)
  | number scan =>
    cases s with
    | broken n =>
      simp only [Lexer.step]
      split_ifs <;> trivial
    | char c =>
      simp only [Lexer.step]
      cases scan.step c with
      | stop => exact sane_begin _ c
      | _ => trivial
  | string pieces =>
    cases s with
    | broken n => trivial
    | char c =>
      simp only [Lexer.step]
      split_ifs <;> trivial
  | escape pieces =>
    cases s with
    | broken n => trivial
    | char c =>
      simp only [Lexer.step]
      split_ifs
      · trivial
      · cases escaped? c <;> trivial
  | hex pieces bytes value =>
    simp only [Lexer.step]
    split_ifs
    · trivial
    · split <;> trivial

/-- A symbol is read in the same way when all is mended, unless it is broken and one of the four
bytes of a code unit. -/
theorem step_mended {l : Lexer} (hsane : l.Sane) {s : Symbol}
    (h : s.char? = none → ∀ pieces bytes value, l.inside ≠ .hex pieces bytes value) :
    l.mended.step s.mended = (l.step s).mended := by
  obtain ⟨ts, inside⟩ := l
  cases inside with
  | gap =>
    cases s with
    | char c => exact begin_mended _ c
    | broken n => rfl
  | word whole rest =>
    cases rest with
    | nil => rfl
    | cons d rest =>
      cases s with
      | broken n =>
        -- The letter of a word is another character.
        have hd : d ≠ '\uFFFD' := fun he => hsane (he ▸ List.mem_cons_self)
        simp only [mended, Inside.mended, Symbol.mended, Lexer.step, if_pos hd]
        rfl
      | char c =>
        simp only [mended, Inside.mended, Symbol.mended, Lexer.step]
        split_ifs <;> rfl
  | number scan =>
    cases s with
    | broken n =>
      simp only [mended, Inside.mended, Symbol.mended, Lexer.step, scan_step_replacement]
      split_ifs <;> rfl
    | char c =>
      simp only [mended, Inside.mended, Symbol.mended, Lexer.step]
      cases scan.step c with
      | next scan => rfl
      | stop => exact begin_mended ⟨.number scan.finish :: ts, .gap⟩ c
      | wrong => rfl
  | string pieces =>
    cases s with
    | broken n => rfl
    | char c =>
      simp only [mended, Inside.mended, Symbol.mended, Lexer.step, ← List.map_reverse]
      split_ifs <;> rfl
  | escape pieces =>
    cases s with
    | broken n =>
      simp only [mended, Inside.mended, Symbol.mended, Lexer.step, ← List.map_reverse]
      rfl
    | char c =>
      simp only [mended, Inside.mended, Symbol.mended, Lexer.step, ← List.map_reverse]
      split_ifs
      · rfl
      · cases escaped? c <;> rfl
  | hex pieces bytes value =>
    -- U+FFFD would be three of the four bytes, and the broken bytes may be fewer.
    cases s with
    | broken n => exact absurd rfl (h rfl pieces bytes value)
    | char c =>
      simp only [mended, Inside.mended, Symbol.mended, Lexer.step, ← List.map_reverse]
      split_ifs
      · rfl
      · split <;> rfl

/-- The last token is emitted in the same way when all is mended. -/
theorem finish_mended (l : Lexer) : l.mended.finish = l.finish.map Token.mended := by
  obtain ⟨ts, inside⟩ := l
  rw [Lexer.finish, Lexer.finish, List.map_reverse]
  apply congrArg List.reverse
  cases inside with
  | number scan =>
    simp only [mended, Inside.mended]
    split_ifs <;> rfl
  | string pieces | escape pieces | hex pieces bytes value =>
    simp only [mended, Inside.mended, ← List.map_reverse]
    rfl
  | _ => rfl

/-- A token that was emitted is not taken back. -/
theorem mem_tokens_step {l : Lexer} {t : Token} (h : t ∈ l.tokens) (s : Symbol) :
    t ∈ (l.step s).tokens := by
  have hstep := step_behind l.tokens ⟨[], l.inside⟩ s
  have hl : Lexer.behind l.tokens ⟨[], l.inside⟩ = l := rfl
  rw [hl] at hstep
  rw [hstep]
  exact List.mem_append_right _ h

/-- What goes wrong stays wrong. -/
theorem Doomed.step {l : Lexer} (h : l.Doomed) (s : Symbol) : (l.step s).Doomed := by
  rcases h with ⟨t, ht, hbroken⟩ | ⟨pieces, bytes, hinside⟩
  · exact .inl ⟨t, mem_tokens_step ht s, hbroken⟩
  · obtain ⟨ts, inside⟩ := l
    subst hinside
    -- Without a value so far there is none at the fourth byte.
    have hvalue : (do let d ← s.char?.bind hexDigit?; return (← none) * 16 + d) =
        (none : Option Nat) := by
      cases s.char?.bind hexDigit? <;> rfl
    simp only [Lexer.step, hvalue]
    split_ifs
    · exact .inr ⟨pieces, bytes + s.byteCount, rfl⟩
    · exact .inl ⟨_, List.mem_cons_self, rfl⟩

/-- At the end there is a string that goes wrong or is cut off. -/
theorem Doomed.finish {l : Lexer} (h : l.Doomed) : ∃ t ∈ l.finish, t.isBrokenString := by
  rcases h with ⟨t, ht, hbroken⟩ | ⟨pieces, bytes, hinside⟩
  · refine ⟨t, ?_, hbroken⟩
    have hfinish := finish_behind l.tokens ⟨[], l.inside⟩
    have hl : Lexer.behind l.tokens ⟨[], l.inside⟩ = l := rfl
    rw [hl] at hfinish
    rw [hfinish]
    exact List.mem_append_left _ (List.mem_reverse.mpr ht)
  · obtain ⟨ts, inside⟩ := l
    subst hinside
    exact ⟨_, List.mem_reverse.mpr List.mem_cons_self, rfl⟩

/-- At the end of a text there is a string that goes wrong or is cut off. -/
theorem Doomed.finish_foldl {l : Lexer} (h : l.Doomed) (text : List Symbol) :
    ∃ t ∈ (text.foldl Lexer.step l).finish, t.isBrokenString := by
  induction text generalizing l with
  | nil => exact h.finish
  | cons s text ih => exact ih (h.step s)

/-- Broken bytes among the four of a code unit make it wrong, mended or not. -/
theorem doomed_step_hex {s : Symbol} (h : s.char? = none) (done : List Token) (pieces : List Piece)
    (bytes : Nat) (value : Option Nat) :
    (Lexer.step ⟨done, .hex pieces bytes value⟩ s).Doomed ∧
      (Lexer.step ⟨done, .hex pieces bytes value⟩ s.mended).Doomed := by
  cases s with
  | char c => cases h
  | broken n =>
    have hreplacement : hexDigit? '\uFFFD' = none := rfl
    constructor
    · simp only [Lexer.step, Symbol.char?, Option.bind_none, Option.bind_eq_bind]
      split_ifs
      · exact .inr ⟨pieces, _, rfl⟩
      · exact .inl ⟨_, List.mem_cons_self, rfl⟩
    · simp only [Lexer.step, Symbol.mended, Symbol.char?, Option.bind_some, hreplacement,
        Option.bind_none, Option.bind_eq_bind]
      split_ifs
      · exact .inr ⟨pieces, _, rfl⟩
      · exact .inl ⟨_, List.mem_cons_self, rfl⟩

end Lexer

/-- The tokens of the mended text are the mended tokens of the text, or both texts have a string
that goes wrong or is cut off. -/
theorem tokens_mended (text : List Symbol) :
    tokens (text.map Symbol.mended) = (tokens text).map Token.mended ∨
      (∃ t ∈ tokens text, t.isBrokenString) ∧
        ∃ t ∈ tokens (text.map Symbol.mended), t.isBrokenString := by
  -- The two lexers go in step until a broken stretch is one of the four bytes of a code unit. From
  -- there on both go wrong, possibly at different places.
  have hfold (text : List Symbol) (l : Lexer) (hsane : l.Sane) :
      ((text.map Symbol.mended).foldl Lexer.step l.mended).finish =
          (text.foldl Lexer.step l).finish.map Token.mended ∨
        (∃ t ∈ (text.foldl Lexer.step l).finish, t.isBrokenString) ∧
          ∃ t ∈ ((text.map Symbol.mended).foldl Lexer.step l.mended).finish,
            t.isBrokenString := by
    induction text generalizing l with
    | nil => exact .inl l.finish_mended
    | cons s text ih =>
      rw [List.map_cons, List.foldl_cons, List.foldl_cons]
      by_cases hhex : s.char? = none ∧ ∃ pieces bytes value, l.inside = .hex pieces bytes value
      · obtain ⟨hs, pieces, bytes, value, hinside⟩ := hhex
        obtain ⟨done, inside⟩ := l
        subst hinside
        exact .inr ⟨(Lexer.doomed_step_hex hs done pieces bytes value).1.finish_foldl text,
          (Lexer.doomed_step_hex hs (done.map Token.mended) (pieces.map Piece.mended) bytes
            value).2.finish_foldl (text.map Symbol.mended)⟩
      · rw [Lexer.step_mended hsane fun hs pieces bytes value hinside =>
          hhex ⟨hs, pieces, bytes, value, hinside⟩]
        exact ih (l.step s) (hsane.step s)
  have hempty : (Lexer.mk [] .gap).Sane := trivial
  exact hfold text ⟨[], .gap⟩ hempty

/-! ## Trees -/

/-- The ending, with the token found there mended. -/
def Ending.mended : Ending → Ending
  | .closed => .closed
  | .stopped found => .stopped (found.map Token.mended)
  | .keyless afterComma found => .keyless afterComma (found.map Token.mended)

/-- Only a closing bracket is a mended closing bracket. -/
theorem closed_of_mended {e : Ending} (h : e.mended = .closed) : e = .closed := by
  cases e with
  | closed => rfl
  | _ => cases h

mutual

/-- The tree with all strings in it mended. -/
def Raw.mended : Raw → Raw
  | .null => .null
  | .bool b => .bool b
  | .number l => .number l
  | .string pieces => .string (pieces.map Piece.mended)
  | .array items ending => .array (Raw.mendedItems items) ending.mended
  | .object members ending => .object (Raw.mendedMembers members) ending.mended
  | .broken found => .broken (found.map Token.mended)

/-- The items with all strings in them mended. -/
def Raw.mendedItems : List Raw → List Raw
  | [] => []
  | v :: vs => v.mended :: Raw.mendedItems vs

/-- The members with all strings in them mended. -/
def Raw.mendedMembers : List (List Piece × Raw) → List (List Piece × Raw)
  | [] => []
  | (key, v) :: ms => (key.map Piece.mended, v.mended) :: Raw.mendedMembers ms

end

namespace Raw

/-- Items are mended one by one. -/
theorem mendedItems_eq_map (vs : List Raw) : mendedItems vs = vs.map mended := by
  induction vs with
  | nil => rfl
  | cons v vs ih => rw [mendedItems, ih, List.map_cons]

/-- Members are mended one by one. -/
theorem mendedMembers_eq_map (ms : List (List Piece × Raw)) :
    mendedMembers ms = ms.map (Prod.map (List.map Piece.mended) mended) := by
  induction ms with
  | nil => rfl
  | cons m ms ih =>
    rw [mendedMembers, ih, List.map_cons]
    rfl

/-- The open bracket with everything in it mended. -/
def Frame.mended : Frame → Frame
  | .item before => .item (mendedItems before)
  | .member before key => .member (mendedMembers before) (key.map Piece.mended)

/-- The place with everything in front of it mended. -/
def Place.mended : Place → Place
  | .value => .value
  | .arrayStart => .arrayStart
  | .afterItem items => .afterItem (mendedItems items)
  | .objectStart => .objectStart
  | .nextKey members => .nextKey (mendedMembers members)
  | .colon members key => .colon (mendedMembers members) (key.map Piece.mended)
  | .afterMember members => .afterMember (mendedMembers members)

/-- The reader with everything in it mended. -/
def Reader.mended : Reader → Reader
  | .reading stack place => .reading (stack.map Frame.mended) place.mended
  | .finished value more => .finished value.mended more

/-- Items in reverse are mended one by one. -/
theorem mendedItems_reverse (vs : List Raw) :
    mendedItems vs.reverse = (mendedItems vs).reverse := by
  rw [mendedItems_eq_map, mendedItems_eq_map, List.map_reverse]

/-- Members in reverse are mended one by one. -/
theorem mendedMembers_reverse (ms : List (List Piece × Raw)) :
    mendedMembers ms.reverse = (mendedMembers ms).reverse := by
  rw [mendedMembers_eq_map, mendedMembers_eq_map, List.map_reverse]

/-- An array whose items were read in reverse is mended with them. -/
theorem mended_array_reverse (items : List Raw) (e : Ending) :
    (Raw.array items.reverse e).mended = .array (mendedItems items).reverse e.mended :=
  congrArg (Raw.array · e.mended) (mendedItems_reverse items)

/-- An object whose members were read in reverse is mended with them. -/
theorem mended_object_reverse (members : List (List Piece × Raw)) (e : Ending) :
    (Raw.object members.reverse e).mended = .object (mendedMembers members).reverse e.mended :=
  congrArg (Raw.object · e.mended) (mendedMembers_reverse members)

/-- The value behind which a text ends is mended with all that is around it. -/
theorem mended_abandon (stack : List Frame) (v : Raw) :
    (abandon stack v).mended = abandon (stack.map Frame.mended) v.mended := by
  induction stack generalizing v with
  | nil => rfl
  | cons f stack ih =>
    cases f with
    | item before =>
      rw [abandon, ih, mended_array_reverse]
      rfl
    | member before key =>
      rw [abandon, ih, mended_object_reverse]
      rfl

/-- A complete value is mended with all that is around it. -/
theorem mended_complete (stack : List Frame) (v : Raw) :
    (complete stack v).mended = complete (stack.map Frame.mended) v.mended := by
  cases stack with
  | nil => rfl
  | cons f stack => cases f <;> rfl

/-- What is not JSON is mended with all that is around it. -/
theorem mended_giveUp (stack : List Frame) (v : Raw) :
    (giveUp stack v).mended = giveUp (stack.map Frame.mended) v.mended :=
  congrArg (Reader.finished · false) (mended_abandon stack v)

/-- A token begins a value in the same way when all is mended. -/
theorem mended_beginValue (stack : List Frame) (t : Token) :
    (beginValue stack t).mended = beginValue (stack.map Frame.mended) t.mended := by
  have hbroken := mended_giveUp stack (.broken (some t))
  cases t with
  | openArray | openObject => rfl
  | null | bool | number | string => exact mended_complete stack _
  | _ => exact hbroken

/-- A token is read in the same way when all is mended. -/
theorem mended_step (r : Reader) (t : Token) :
    (r.step t).mended = r.mended.step t.mended := by
  cases r with
  | finished v more => rfl
  | reading stack place =>
    -- A token that leads to another place leads there when all is mended. A closing bracket
    -- completes what stands in front of it, and any other token is the end of all JSON.
    cases place with
    | value => exact mended_beginValue stack t
    | arrayStart =>
      have hbegin := mended_beginValue (.item [] :: stack) t
      cases t with
      | closeArray => exact mended_complete stack _
      | _ => exact hbegin
    | afterItem items =>
      have harray := mended_array_reverse items
      cases t with
      | comma => rfl
      | closeArray => exact (mended_complete stack _).trans (congrArg (complete _) (harray _))
      | _ => exact (mended_giveUp stack _).trans (congrArg (giveUp _) (harray _))
    | objectStart =>
      have hkeyless := mended_giveUp stack (.object [] (.keyless false (some t)))
      cases t with
      | closeObject => exact mended_complete stack _
      | string key => rfl
      | _ => exact hkeyless
    | nextKey members =>
      have hobject := mended_object_reverse members
      cases t with
      | string key => rfl
      | _ => exact (mended_giveUp stack _).trans (congrArg (giveUp _) (hobject _))
    | colon members key =>
      -- A key without a colon counts as a member without a value.
      have hobject := mended_object_reverse ((key, .broken (some .junk)) :: members)
      cases t with
      | colon => rfl
      | _ => exact (mended_giveUp stack _).trans (congrArg (giveUp _) (hobject _))
    | afterMember members =>
      have hobject := mended_object_reverse members
      cases t with
      | comma => rfl
      | closeObject => exact (mended_complete stack _).trans (congrArg (complete _) (hobject _))
      | _ => exact (mended_giveUp stack _).trans (congrArg (giveUp _) (hobject _))

mutual

/-- A mended tree is unbroken only if the tree is. -/
theorem unbroken_of_mended (v : Raw) (h : v.mended.Unbroken) : v.Unbroken := by
  match v, h with
  | .null, _ | .bool _, _ | .number _, _ | .string _, _ => trivial
  | .array vs e, ⟨he, hvs⟩ => exact ⟨closed_of_mended he, unbrokenItems_of_mended vs hvs⟩
  | .object ms e, ⟨he, hms⟩ => exact ⟨closed_of_mended he, unbrokenMembers_of_mended ms hms⟩

/-- Mended items are unbroken only if the items are. -/
theorem unbrokenItems_of_mended (vs : List Raw) (h : UnbrokenItems (mendedItems vs)) :
    UnbrokenItems vs := by
  match vs, h with
  | [], _ => trivial
  | v :: vs, ⟨hv, hvs⟩ => exact ⟨unbroken_of_mended v hv, unbrokenItems_of_mended vs hvs⟩

/-- Mended members are unbroken only if the members are. -/
theorem unbrokenMembers_of_mended (ms : List (List Piece × Raw))
    (h : UnbrokenMembers (mendedMembers ms)) : UnbrokenMembers ms := by
  match ms, h with
  | [], _ => trivial
  | (_, v) :: ms, ⟨hv, hms⟩ => exact ⟨unbroken_of_mended v hv, unbrokenMembers_of_mended ms hms⟩

end

/-- The tree of mended tokens is the mended tree of the tokens. -/
theorem ofTokens_mended (ts : List Token) :
    ofTokens (ts.map Token.mended) = ((ofTokens ts).1.mended, (ofTokens ts).2) := by
  have hfold (ts : List Token) (r : Reader) :
      (ts.map Token.mended).foldl Reader.step r.mended = (ts.foldl Reader.step r).mended := by
    induction ts generalizing r with
    | nil => rfl
    | cons t ts ih => rw [List.map_cons, List.foldl_cons, List.foldl_cons, ← mended_step, ih]
  -- A value that is cut off is mended like one that is complete.
  have hfinish (r : Reader) : r.mended.finish = (r.finish.1.mended, r.finish.2) := by
    cases r with
    | finished v more => rfl
    | reading stack place =>
      have hcut : place.cut.mended = place.mended.cut := by
        cases place with
        | afterItem items => exact mended_array_reverse items _
        | nextKey members | afterMember members => exact mended_object_reverse members _
        | colon members key => exact mended_object_reverse ((key, _) :: members) _
        | _ => rfl
      rw [Reader.mended, Reader.finish, Reader.finish, mended_abandon, hcut]
  exact (congrArg Reader.finish (hfold ts (.reading [] .value))).trans (hfinish _)

/-- The tree is unbroken, and nothing stands behind it. -/
def Settled (tree : Raw × Bool) : Prop :=
  tree.1.Unbroken ∧ tree.2 = false

/-- A text that ends within brackets is broken. -/
theorem not_unbroken_abandon {v : Raw} (h : ¬ v.Unbroken) (stack : List Frame) :
    ¬ (abandon stack v).Unbroken := by
  induction stack generalizing v with
  | nil => exact h
  | cons f stack ih =>
    cases f with
    | item before => exact ih fun hv => Ending.noConfusion hv.1
    | member before key => exact ih fun hv => Ending.noConfusion hv.1

/-- A string that goes wrong or is cut off ends the reading of a broken tree, unless it stands
behind the whole tree. -/
theorem step_isBrokenString (r : Reader) {t : Token} (h : t.isBrokenString) :
    ∃ v more, r.step t = .finished v more ∧ ¬ Settled (v, more) := by
  cases t with
  | brokenString pieces fault =>
    cases r with
    | finished v more => exact ⟨v, true, rfl, fun hsettled => Bool.noConfusion hsettled.2⟩
    | reading stack place =>
      have hgiveUp (stack : List Frame) {v : Raw} (hv : ¬ v.Unbroken) :
          ∃ v' more, giveUp stack v = .finished v' more ∧ ¬ Settled (v', more) :=
        ⟨_, false, rfl, fun hsettled => not_unbroken_abandon hv stack hsettled.1⟩
      cases place with
      | value => exact hgiveUp stack id
      | arrayStart => exact hgiveUp (.item [] :: stack) id
      | _ => exact hgiveUp stack fun hv => Ending.noConfusion hv.1
  | _ => cases h

/-- The tree of a text with a string that goes wrong or is cut off is broken, or something stands
behind it. -/
theorem not_settled_of_isBrokenString {ts : List Token} (h : ∃ t ∈ ts, t.isBrokenString) :
    ¬ Settled (ofTokens ts) := by
  -- Once the reading has ended, further tokens can only stand behind the tree.
  have hfinished (ts : List Token) {v : Raw} {more : Bool} (h : ¬ Settled (v, more)) :
      ¬ Settled (ts.foldl Reader.step (.finished v more)).finish := by
    induction ts generalizing more with
    | nil => exact h
    | cons t ts ih => exact ih fun hsettled => Bool.noConfusion hsettled.2
  have hfold (ts : List Token) (r : Reader) (h : ∃ t ∈ ts, t.isBrokenString) :
      ¬ Settled (ts.foldl Reader.step r).finish := by
    induction ts generalizing r with
    | nil =>
      obtain ⟨t, ht, -⟩ := h
      cases ht
    | cons t ts ih =>
      rw [List.foldl_cons]
      obtain ⟨t', ht', hbroken⟩ := h
      rcases List.mem_cons.mp ht' with rfl | ht'
      · obtain ⟨v, more, hstep, hsettled⟩ := step_isBrokenString r hbroken
        rw [hstep]
        exact hfinished ts hsettled
      · exact ih (r.step t) ⟨t', ht', hbroken⟩
  exact hfold ts (.reading [] .value) h

/-- The tree of the mended text is the mended tree of the text, or neither text has an unbroken tree
with nothing behind it. -/
theorem ofSymbols_mended (text : List Symbol) :
    ofSymbols (text.map Symbol.mended) = ((ofSymbols text).1.mended, (ofSymbols text).2) ∨
      ¬ Settled (ofSymbols text) ∧ ¬ Settled (ofSymbols (text.map Symbol.mended)) := by
  unfold ofSymbols
  rcases tokens_mended text with htokens | ⟨htext, hmended⟩
  · rw [htokens]
    exact .inl (ofTokens_mended (Json.tokens text))
  · exact .inr ⟨not_settled_of_isBrokenString htext, not_settled_of_isBrokenString hmended⟩

end Raw

end Json

end ArgdownLens
