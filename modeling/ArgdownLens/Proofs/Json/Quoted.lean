import ArgdownLens.Proofs.Json.Grammar
import ArgdownLens.Proofs.Json.Mending

/-!
# What stands between quotes

A character is spelled by itself, by a short escape, by the four digits of its number, or by the
eight digits of a surrogate pair (`CharSpelled`), and a text by spelling its characters one after
the other. The letters of the escapes and the digits are tables of their own, which agree with what
is read (`escaped?_eq_some_iff`, `hexDigit?_eq_some_iff`). Whatever spellings are chosen, the pieces
that are read of them mean the text (`Spelled.exists_pieces`).

There are two ways to go wrong (`Misspelled`). Where an escape is unknown or cut short, or a control
character stands, reading does not get to the end of the string, so that no text with that in it is
JSON at all (`exists_isBrokenString_of_spells`). A surrogate without its other half is read as a
piece, but the pieces mean nothing then (`textOf_ne_ok`).
-/

namespace ArgdownLens.Json

/-! ## Letters and digits -/

/-- The letters that mean a character behind a backslash. -/
def letterEscapes : List (Char × Char) :=
  [('"', '"'), ('\\', '\\'), ('/', '/'), ('b', '\x08'), ('f', '\x0C'), ('n', '\n'), ('r', '\r'),
    ('t', '\t')]

/-- A letter behind a backslash is read as the character that it means. -/
theorem escaped?_eq_some_iff {d c : Char} : escaped? d = some c ↔ (d, c) ∈ letterEscapes := by
  constructor
  · intro h
    unfold escaped? at h
    split at h <;> cases h <;> decide
  · intro h
    have hall : ∀ p ∈ letterEscapes, escaped? p.1 = some p.2 := by decide
    exact hall (d, c) h

/-- The character is the digit of the value to the base sixteen, of either case. -/
def IsHexDigit (value : Nat) (d : Char) : Prop :=
  "0123456789abcdef".toList[value]? = some d ∨ "0123456789ABCDEF".toList[value]? = some d

instance (value : Nat) (d : Char) : Decidable (IsHexDigit value d) :=
  inferInstanceAs (Decidable (_ ∨ _))

/-- The digits are read as their values. -/
theorem hexDigit?_eq_some_iff {d : Char} {value : Nat} :
    hexDigit? d = some value ↔ IsHexDigit value d := by
  constructor
  · intro h
    have hall : ∀ n < 128, ∀ value ∈ hexDigit? (Char.ofNat n), IsHexDigit value (Char.ofNat n) := by
      decide +kernel
    have hascii := Char.utf8Size_eq_one_iff.mp (utf8Size_eq_one_of_hexDigit? h)
    have hlt : d.toNat < 128 := Nat.lt_succ_of_le hascii
    have hd := hall d.toNat hlt value
    rw [Char.ofNat_toNat] at hd
    exact hd h
  · have hall : (∀ i (h : i < 16), hexDigit? ("0123456789abcdef".toList[i]) = some i) ∧
        ∀ i (h : i < 16), hexDigit? ("0123456789ABCDEF".toList[i]) = some i := by decide
    rintro (h | h)
    · obtain ⟨hi, rfl⟩ := List.getElem?_eq_some_iff.mp h
      exact hall.1 value hi
    · obtain ⟨hi, rfl⟩ := List.getElem?_eq_some_iff.mp h
      exact hall.2 value hi

/-- What has no value is not read as a digit. -/
theorem hexDigit?_eq_none {d : Char} (h : ∀ value, ¬ IsHexDigit value d) : hexDigit? d = none := by
  rw [Option.eq_none_iff_forall_not_mem]
  exact fun value hvalue => h value (hexDigit?_eq_some_iff.mp hvalue)

/-- The way to write a code unit: with its four digits, each of them of either case. -/
inductive UnitSpelled (n : Nat) : List Char → Prop where
  | intro {a b c d : Char} (ha : IsHexDigit (n / 0x1000) a) (hb : IsHexDigit (n / 0x100 % 0x10) b)
    (hc : IsHexDigit (n / 0x10 % 0x10) c) (hd : IsHexDigit (n % 0x10) d) :
    UnitSpelled n ['\\', 'u', a, b, c, d]

/-- The way to write a code unit is one that is read. -/
theorem UnitSpelled.written {n : Nat} {cs : List Char} (h : UnitSpelled n cs) :
    (Piece.unit n).Written cs := by
  obtain ⟨ha, hb, hc, hd⟩ := h
  have hwritten := Piece.Written.unit (hexDigit?_eq_some_iff.mpr ha) (hexDigit?_eq_some_iff.mpr hb)
    (hexDigit?_eq_some_iff.mpr hc) (hexDigit?_eq_some_iff.mpr hd)
  have hn : ((n / 0x1000 * 16 + n / 0x100 % 0x10) * 16 + n / 0x10 % 0x10) * 16 + n % 0x10 = n := by
    omega
  rwa [hn] at hwritten

/-! ## Spellings of a text -/

/-- The first half of the surrogate pair of a character. -/
def leadUnit (c : Char) : Nat :=
  0xD800 + (c.toNat - 0x10000) / 0x400

/-- The second half of the surrogate pair of a character. -/
def trailUnit (c : Char) : Nat :=
  0xDC00 + (c.toNat - 0x10000) % 0x400

/-- The ways to spell a character between quotes. The digits may be of either case. -/
inductive CharSpelled (c : Char) : List Char → Prop where
  | raw (hplain : ' ' ≤ c) (hquote : c ≠ '"') (hbackslash : c ≠ '\\') : CharSpelled c [c]
  | escape {d : Char} (h : (d, c) ∈ letterEscapes) : CharSpelled c ['\\', d]
  | unit {cs : List Char} (h : UnitSpelled c.toNat cs) : CharSpelled c cs
  | pair {cs ds : List Char} (hc : 0xFFFF < c.toNat) (hlead : UnitSpelled (leadUnit c) cs)
    (htrail : UnitSpelled (trailUnit c) ds) : CharSpelled c (cs ++ ds)

/-- The ways to spell a text between quotes: its characters are spelled one by one. -/
def Spelled (s : String) (cs : List Char) : Prop :=
  ∃ css, List.Forall₂ CharSpelled s.toList css ∧ cs = css.flatten

/-- The halves of a pair are such halves, and a half is of one kind. -/
theorem isHalf_units {c : Char} (hc : 0xFFFF < c.toNat) :
    isTrailUnit (leadUnit c) = false ∧ isLeadUnit (leadUnit c) = true ∧
      isTrailUnit (trailUnit c) = true := by
  have hlt : c.toNat < 0x110000 := by
    have hvalid : c.toNat < 0xD800 ∨ 0xDFFF < c.toNat ∧ c.toNat < 0x110000 := c.valid
    omega
  unfold isTrailUnit isLeadUnit leadUnit trailUnit
  simp only [Bool.and_eq_false_iff, Bool.and_eq_true, decide_eq_false_iff_not, decide_eq_true_eq]
  omega

/-- The character of the two halves is the character. -/
theorem pairedChar_units {c : Char} (hc : 0xFFFF < c.toNat) :
    pairedChar (leadUnit c) (trailUnit c) = c := by
  have hnumber : 0x10000 + (leadUnit c - 0xD800) * 0x400 + (trailUnit c - 0xDC00) = c.toNat := by
    unfold leadUnit trailUnit
    omega
  rw [pairedChar, hnumber, Char.ofNat_toNat]

/-- The two halves of a pair are spelled out as its character. -/
theorem spell_pair {c : Char} (hc : 0xFFFF < c.toNat) (after : Option Fault) (done : List Char)
    (strayed : Bool) (ps : List Piece) :
    spell after done strayed (.unit (leadUnit c) :: .unit (trailUnit c) :: ps) =
      spell after (c :: done) strayed ps := by
  obtain ⟨hfirst, hlead, htrail⟩ := isHalf_units hc
  simp only [spell, hfirst, hlead, htrail, pairedChar_units hc, Bool.false_eq_true, if_false,
    if_true]

/-- A spelling of a character is read as pieces that mean the character. -/
theorem CharSpelled.exists_pieces {c : Char} {cs : List Char} (h : CharSpelled c cs) :
    ∃ ps css, List.Forall₂ Piece.Written ps css ∧ cs = css.flatten ∧
      ∀ after done strayed rest,
        spell after done strayed (ps ++ rest) = spell after (c :: done) strayed rest := by
  cases h with
  | raw hplain hquote hbackslash =>
    exact ⟨[.char c], [[c]], .cons (.char (Char.not_lt.mpr hplain) hquote hbackslash) .nil, rfl,
      fun _ _ _ _ => by rw [List.singleton_append, spell]⟩
  | @escape d h =>
    exact ⟨[.escape c], [['\\', d]], .cons (.escape (escaped?_eq_some_iff.mpr h)) .nil, rfl,
      fun _ _ _ _ => by rw [List.singleton_append, spell]⟩
  | unit h =>
    exact ⟨[.unit c.toNat], [cs], .cons h.written .nil, List.flatten_singleton.symm, spell_unit c⟩
  | @pair cs ds hc hlead htrail =>
    exact ⟨[.unit (leadUnit c), .unit (trailUnit c)], [cs, ds],
      .cons hlead.written (.cons htrail.written .nil), by simp, spell_pair hc⟩

/-- A spelling of a text is read as pieces that mean the text. -/
theorem Spelled.exists_pieces {s : String} {cs : List Char} (h : Spelled s cs) :
    ∃ ps css, List.Forall₂ Piece.Written ps css ∧ cs = css.flatten ∧ textOf ps = .ok s := by
  obtain ⟨spellings, hspellings, rfl⟩ := h
  -- Each character is spelled out whole, so no half is left over for the next one.
  have hchars : ∀ {chars : List Char} {spellings : List (List Char)},
      List.Forall₂ CharSpelled chars spellings →
        ∃ ps css, List.Forall₂ Piece.Written ps css ∧ spellings.flatten = css.flatten ∧
          ∀ done, spell none done false ps = .ok (done.reverse ++ chars) := by
    intro chars spellings h
    induction h with
    | nil => exact ⟨[], [], .nil, rfl, fun done => congrArg Except.ok (List.append_nil _).symm⟩
    | @cons c cs chars spellings hc _ ih =>
      obtain ⟨ps, css, hps, rfl, hchar⟩ := hc.exists_pieces
      obtain ⟨ps', css', hps', hflatten, htext⟩ := ih
      refine ⟨ps ++ ps', css ++ css', List.rel_append hps hps', ?_, fun done => ?_⟩
      · rw [List.flatten_cons, hflatten, List.flatten_append]
      · rw [hchar, htext, List.reverse_cons, List.append_assoc, List.singleton_append]
  obtain ⟨ps, css, hps, hflatten, htext⟩ := hchars hspellings
  refine ⟨ps, css, hps, hflatten, ?_⟩
  rw [textOf, htext]
  exact congrArg Except.ok String.ofList_toList

/-! ## Halves without the other half -/

/-- A half of a surrogate pair stands where its other half is not right behind it, or not right in
front of it. -/
inductive Unpaired : List Piece → Prop where
  | lead {before after : List Piece} {n : Nat} (hn : isLeadUnit n)
    (hnext : ∀ m, after.head? = some (.unit m) → ¬ isTrailUnit m) :
    Unpaired (before ++ .unit n :: after)
  | trail {before after : List Piece} {n : Nat} (hn : isTrailUnit n)
    (hprevious : ∀ m, before.getLast? = some (.unit m) → ¬ isLeadUnit m) :
    Unpaired (before ++ .unit n :: after)

/-- A unit is not both halves. -/
theorem not_isLeadUnit {n : Nat} (h : isTrailUnit n) : ¬ isLeadUnit n := by
  unfold isTrailUnit at h
  unfold isLeadUnit
  rw [Bool.and_eq_true, decide_eq_true_eq, decide_eq_true_eq] at h ⊢
  omega

/-- What follows the first piece has an unpaired half, unless the first piece is one. -/
theorem Unpaired.of_cons {p : Piece} {ps : List Piece} (h : Unpaired (p :: ps)) :
    Unpaired ps ∨ ∃ n, p = .unit n ∧
      (isTrailUnit n ∨ isLeadUnit n ∧ ∀ m, ps.head? = some (.unit m) → ¬ isTrailUnit m) := by
  generalize hpieces : p :: ps = pieces at h
  cases h with
  | @lead before after n hn hnext =>
    obtain ⟨rfl, hcons⟩ | ⟨before', rfl, rfl⟩ := List.cons_eq_append_iff.mp hpieces
    · cases hcons
      exact .inr ⟨n, rfl, .inr ⟨hn, hnext⟩⟩
    · exact .inl (.lead hn hnext)
  | @trail before after n hn hprevious =>
    obtain ⟨rfl, hcons⟩ | ⟨before', rfl, rfl⟩ := List.cons_eq_append_iff.mp hpieces
    · cases hcons
      exact .inr ⟨n, rfl, .inl hn⟩
    · refine .inl (.trail hn fun m hm => hprevious m ?_)
      rw [List.getLast?_cons, hm, Option.getD_some]

/-- Behind a pair there is an unpaired half if there is one at all. -/
theorem Unpaired.of_pair {n m : Nat} {ps : List Piece} (hn : isLeadUnit n) (hm : isTrailUnit m)
    (h : Unpaired (.unit n :: .unit m :: ps)) : Unpaired ps := by
  generalize hpieces : .unit n :: .unit m :: ps = pieces at h
  -- The unpaired half is neither of the two in front: each of these has the other one as its pair.
  cases h with
  | @lead before after k hk hnext =>
    match before, hpieces with
    | [], hcons =>
      cases hcons
      exact absurd hm (hnext m rfl)
    | [_], hcons =>
      cases hcons
      exact absurd hk (not_isLeadUnit hm)
    | _ :: _ :: before, hcons =>
      cases hcons
      exact .lead hk hnext
  | @trail before after k hk hprevious =>
    match before, hpieces with
    | [], hcons =>
      cases hcons
      exact absurd hn (not_isLeadUnit hk)
    | [_], hcons =>
      cases hcons
      exact absurd hn (hprevious n rfl)
    | _ :: _ :: before, hcons =>
      cases hcons
      refine .trail hk fun k' hk' => hprevious k' ?_
      rw [List.getLast?_cons, List.getLast?_cons, hk']
      rfl

/-- Pieces with an unpaired half among them are not spelled out. -/
theorem spell_ne_ok {ps : List Piece} (h : Unpaired ps) (done : List Char) (strayed : Bool)
    (cs : List Char) : spell none done strayed ps ≠ .ok cs := by
  have hnil : ¬ Unpaired [] := by
    intro h
    generalize hpieces : [] = pieces at h
    cases h <;> exact List.cons_ne_nil _ _ (List.append_eq_nil_iff.mp hpieces.symm).2
  generalize hafter : (none : Option Fault) = after
  fun_induction spell after done strayed ps with
  | case1 | case2 | case3 => exact absurd h hnil
  | case4 done strayed c ps ih | case5 done strayed c ps ih | case6 done strayed ps ih =>
    -- A piece that is no half is not the unpaired one.
    obtain hps | ⟨n, hn, -⟩ := h.of_cons
    · exact ih hps
    · cases hn
  | case7 | case8 | case10 | case12 | case13 =>
    intro hok
    cases hok
  | case9 done strayed n htrail hlead ih =>
    obtain hps | ⟨m, hm, hhalf⟩ := h.of_cons
    · exact ih hps
    · cases hm
      exact absurd hhalf (by simp [htrail, hlead])
  | case11 done strayed n ps htrail hlead m hm ih =>
    -- Neither is a half that is paired with the next one.
    exact ih (h.of_pair hlead hm)
  | case14 done strayed n p ps htrail hlead ih =>
    obtain hps | ⟨m, hm, hhalf⟩ := h.of_cons
    · exact ih hps
    · cases hm
      exact absurd hhalf (by simp [htrail, hlead])

/-- Pieces with an unpaired half among them mean nothing. -/
theorem textOf_ne_ok {ps : List Piece} (h : Unpaired ps) (s : String) : textOf ps ≠ .ok s := by
  unfold textOf
  cases hspell : spell none [] false ps with
  | error fault => exact nofun
  | ok cs => exact absurd hspell (spell_ne_ok h [] false cs)

/-! ## Spellings that go wrong -/

/-- The ways to spell a piece, which may be half of a surrogate pair. -/
inductive PieceSpelled : Piece → List Char → Prop where
  | char {c : Char} (hplain : ' ' ≤ c) (hquote : c ≠ '"') (hbackslash : c ≠ '\\') :
    PieceSpelled (.char c) [c]
  | escape {c d : Char} (h : (d, c) ∈ letterEscapes) : PieceSpelled (.escape c) ['\\', d]
  | unit {n : Nat} {cs : List Char} (h : UnitSpelled n cs) : PieceSpelled (.unit n) cs

/-- The ways to spell a piece are read as the piece. -/
theorem PieceSpelled.written {p : Piece} {cs : List Char} (h : PieceSpelled p cs) :
    p.Written cs := by
  cases h with
  | char hplain hquote hbackslash => exact .char (Char.not_lt.mpr hplain) hquote hbackslash
  | escape h => exact .escape (escaped?_eq_some_iff.mpr h)
  | unit h => exact h.written

/-- What begins like a spelling between quotes and is cut off by an escape that is none, by one of
fewer than four digits, or by a control character. -/
inductive Broken : List Char → Prop where
  | unknownEscape {ps : List Piece} {css : List (List Char)} {c : Char} {more : List Char}
    (h : List.Forall₂ PieceSpelled ps css) (hc : ∀ p ∈ letterEscapes, p.1 ≠ c) (hu : c ≠ 'u') :
    Broken (css.flatten ++ '\\' :: c :: more)
  | truncated {ps : List Piece} {css : List (List Char)} {digits more : List Char}
    (h : List.Forall₂ PieceSpelled ps css) (hdigits : ∀ d ∈ digits, ∃ value, IsHexDigit value d)
    (hlength : digits.length < 4) (hmore : ∀ c ∈ more.head?, ∀ value, ¬ IsHexDigit value c) :
    Broken (css.flatten ++ '\\' :: 'u' :: (digits ++ more))
  | control {ps : List Piece} {css : List (List Char)} {c : Char} {more : List Char}
    (h : List.Forall₂ PieceSpelled ps css) (hc : c < ' ') : Broken (css.flatten ++ c :: more)

/-- What is no spelling of any text: it is broken, or it has a half of a surrogate pair without the
other half. -/
inductive Misspelled : List Char → Prop where
  | broken {cs : List Char} (h : Broken cs) : Misspelled cs
  | unpaired {ps : List Piece} {css : List (List Char)} (h : List.Forall₂ PieceSpelled ps css)
    (hps : Unpaired ps) : Misspelled css.flatten

/-- Where one of the four digits of a code unit is missing, the string goes wrong. -/
theorem doomed_of_truncated {digits : List Char}
    (hdigits : ∀ d ∈ digits, ∃ value, IsHexDigit value d) {bytes : Nat}
    (hlength : bytes + digits.length < 4) {c : Char} (hc : hexDigit? c = none)
    (done : List Token) (ps : List Piece) (value : Nat) :
    (((digits ++ [c]).map Symbol.char).foldl Lexer.step
      ⟨done, .hex ps bytes (some value)⟩).Doomed := by
  induction digits generalizing bytes value with
  | nil =>
    simp only [List.nil_append, List.map_cons, List.map_nil, List.foldl_cons, List.foldl_nil,
      Lexer.step, Symbol.char?, Option.bind_some, hc, Option.bind_none, Option.bind_eq_bind]
    -- The character may be the last of the four bytes, or others have yet to come.
    split_ifs
    · exact .inr ⟨ps, _, rfl⟩
    · exact .inl ⟨_, List.mem_cons_self, rfl⟩
  | cons d digits ih =>
    obtain ⟨hd, hdigits⟩ := List.forall_mem_cons.mp hdigits
    obtain ⟨i, hi⟩ := hd
    rw [List.length_cons] at hlength
    have hstep := step_hexDigit (hexDigit?_eq_some_iff.mpr hi) done ps bytes value (by omega)
    rw [List.cons_append, List.map_cons, List.foldl_cons, hstep]
    exact ih hdigits (by omega) _

/-- Where something makes the string go wrong behind some pieces, there is a broken string. -/
theorem exists_isBrokenString_of_doomed {ps : List Piece} {css : List (List Char)}
    (h : List.Forall₂ PieceSpelled ps css) {done : List Token} {wrong : List Char}
    (hwrong : ∀ before,
      ((wrong.map Symbol.char).foldl Lexer.step ⟨done, .string before⟩).Doomed)
    (more : List Char) :
    ∃ t ∈ (((css.flatten ++ (wrong ++ more)).map Symbol.char).foldl Lexer.step
      ⟨done, .string []⟩).finish, t.isBrokenString := by
  have hwritten : List.Forall₂ Piece.Written ps css := h.imp fun _ _ hp => hp.written
  rw [List.map_append, List.foldl_append, foldl_step_forall₂_written hwritten, List.map_append,
    List.foldl_append]
  exact (hwrong _).finish_foldl _

/-- In front of a closing quote and anything behind it, what is broken makes a broken string. -/
theorem Broken.exists_isBrokenString {cs : List Char} (h : Broken cs) (done : List Token)
    (back : List Char) :
    ∃ t ∈ (((cs ++ '"' :: back).map Symbol.char).foldl Lexer.step ⟨done, .string []⟩).finish,
      t.isBrokenString := by
  cases h with
  | @unknownEscape ps css c more h hc hu =>
    have hnone : escaped? c = none := by
      rw [Option.eq_none_iff_forall_not_mem]
      exact fun a ha => hc (c, a) (escaped?_eq_some_iff.mp ha) rfl
    have hwrong (before : List Piece) :
        ((['\\', c].map Symbol.char).foldl Lexer.step ⟨done, .string before⟩).Doomed := by
      have hbackslash : Lexer.step ⟨done, .string before⟩ (.char '\\') = ⟨done, .escape before⟩ :=
        rfl
      have hletter : Lexer.step ⟨done, .escape before⟩ (.char c) =
          ⟨.brokenString before.reverse .malformed :: done, .gap⟩ := by
        simp only [Lexer.step, if_neg hu, hnone]
        rfl
      rw [List.map_cons, List.map_cons, List.map_nil, List.foldl_cons, hbackslash, List.foldl_cons,
        hletter, List.foldl_nil]
      exact .inl ⟨_, List.mem_cons_self, rfl⟩
    have hbroken := exists_isBrokenString_of_doomed h hwrong (more ++ '"' :: back)
    rw [List.append_assoc]
    exact hbroken
  | @truncated ps css digits more h hdigits hlength hmore =>
    -- What stands where the next digit should is no digit, the closing quote included.
    obtain ⟨c, more', hnext, hc⟩ : ∃ c more', more ++ '"' :: back = c :: more' ∧
        hexDigit? c = none := by
      cases more with
      | nil => exact ⟨'"', back, rfl, rfl⟩
      | cons c more => exact ⟨c, _, rfl, hexDigit?_eq_none (hmore c rfl)⟩
    have hwrong (before : List Piece) :
        (((['\\', 'u'] ++ (digits ++ [c])).map Symbol.char).foldl Lexer.step
          ⟨done, .string before⟩).Doomed := by
      rw [List.map_append, List.foldl_append]
      exact doomed_of_truncated hdigits (by omega) hc done before 0
    have hbroken := exists_isBrokenString_of_doomed h hwrong more'
    have htext : css.flatten ++ '\\' :: 'u' :: (digits ++ more) ++ '"' :: back =
        css.flatten ++ (['\\', 'u'] ++ (digits ++ [c]) ++ more') := by
      simp [hnext]
    rw [htext]
    exact hbroken
  | @control ps css c more h hc =>
    have hquote : c ≠ '"' := by
      rintro rfl
      exact absurd hc (by decide)
    have hbackslash : c ≠ '\\' := by
      rintro rfl
      exact absurd hc (by decide)
    have hwrong (before : List Piece) :
        (([c].map Symbol.char).foldl Lexer.step ⟨done, .string before⟩).Doomed := by
      simp only [List.map_cons, List.map_nil, List.foldl_cons, List.foldl_nil, Lexer.step,
        if_neg hquote, if_neg hbackslash, if_pos hc]
      exact .inl ⟨_, List.mem_cons_self, rfl⟩
    have hbroken := exists_isBrokenString_of_doomed h hwrong (more ++ '"' :: back)
    rw [List.append_assoc]
    exact hbroken

/-- Behind whole tokens, what is broken makes a broken string among the tokens of the text. -/
theorem exists_isBrokenString_of_spells {ts : List Token} {front : List Char}
    (hfront : Spells ts front) (hparted : Parted ts) {cs : List Char} (h : Broken cs)
    (back : List Char) :
    ∃ t ∈ tokens ((front ++ '"' :: (cs ++ '"' :: back)).map .char), t.isBrokenString := by
  have hquote : Delimited (.char '"' :: (cs ++ '"' :: back).map .char) :=
    ⟨rfl, by decide, by decide, by decide⟩
  obtain ⟨t, ht, hbroken⟩ := h.exists_isBrokenString [] back
  refine ⟨t, ?_, hbroken⟩
  rw [List.map_append, List.map_cons, tokens_append_of_spells hfront hparted hquote]
  exact List.mem_append_right _ ht

end ArgdownLens.Json
