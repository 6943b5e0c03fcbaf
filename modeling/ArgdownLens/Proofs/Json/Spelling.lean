import ArgdownLens.Json.Writer
import ArgdownLens.Proofs.Json.Lexing
import Mathlib.Data.List.Forall2

/-!
# The spelling of strings

A piece of a string is written as it is, as an escape of two characters, or as four hexadecimal
digits in either case (`Piece.Written`). Every spelling of some pieces between quotes is a string
token with these pieces (`tokens_string`). The writer spells a text in one of these ways
(`written_escapePieces`), and the pieces that it chooses mean the text (`textOf_escapePieces`).
-/

namespace ArgdownLens.Json

/-- The ways to write a piece of a string between its quotes. -/
inductive Piece.Written : Piece → List Char → Prop where
  | char {c : Char} (hplain : ¬ c < ' ') (hquote : c ≠ '"') (hbackslash : c ≠ '\\') :
    Written (.char c) [c]
  | escape {c d : Char} (h : escaped? d = some c) : Written (.escape c) ['\\', d]
  | unit {a b c d : Char} {i j k l : Nat} (ha : hexDigit? a = some i) (hb : hexDigit? b = some j)
    (hc : hexDigit? c = some k) (hd : hexDigit? d = some l) :
    Written (.unit (((i * 16 + j) * 16 + k) * 16 + l)) ['\\', 'u', a, b, c, d]

/-! ## Reading a spelling -/

/-- A hexadecimal digit takes one byte. -/
theorem utf8Size_eq_one_of_hexDigit? {c : Char} {i : Nat} (h : hexDigit? c = some i) :
    c.utf8Size = 1 := by
  rw [Char.utf8Size_eq_one_iff]
  unfold hexDigit? at h
  split_ifs at h with hdigit hlower hupper
  · exact Nat.le_trans hdigit.2 (by decide)
  · exact Nat.le_trans hlower.2 (by decide)
  · exact Nat.le_trans hupper.2 (by decide)

/-- A hexadecimal digit among the first three goes into the value. -/
theorem step_hexDigit {c : Char} {i : Nat} (h : hexDigit? c = some i) (done : List Token)
    (ps : List Piece) (bytes value : Nat) (hbytes : bytes < 3) :
    Lexer.step ⟨done, .hex ps bytes (some value)⟩ (.char c) =
      ⟨done, .hex ps (bytes + 1) (some (value * 16 + i))⟩ := by
  have hmore : bytes + 1 < 4 := by omega
  simp only [Lexer.step, Symbol.byteCount, Symbol.char?, utf8Size_eq_one_of_hexDigit? h, h,
    Option.bind_some, Option.bind_eq_bind, Option.pure_def, if_pos hmore]

/-- The fourth hexadecimal digit completes the piece. -/
theorem step_lastHexDigit {c : Char} {i : Nat} (h : hexDigit? c = some i) (done : List Token)
    (ps : List Piece) (value : Nat) :
    Lexer.step ⟨done, .hex ps 3 (some value)⟩ (.char c) =
      ⟨done, .string (.unit (value * 16 + i) :: ps)⟩ := by
  simp only [Lexer.step, Symbol.byteCount, Symbol.char?, utf8Size_eq_one_of_hexDigit? h, h,
    Option.bind_some, Option.bind_eq_bind, Option.pure_def]
  rfl

/-- Within a string, the spelling of a piece is read as the piece. -/
theorem foldl_step_written {p : Piece} {cs : List Char} (h : p.Written cs) (done : List Token)
    (ps : List Piece) :
    (cs.map Symbol.char).foldl Lexer.step ⟨done, .string ps⟩ = ⟨done, .string (p :: ps)⟩ := by
  cases h with
  | char hplain hquote hbackslash =>
    simp only [List.map_cons, List.map_nil, List.foldl_cons, List.foldl_nil, Lexer.step,
      if_neg hplain, if_neg hquote, if_neg hbackslash]
  | @escape c d h =>
    -- The letter of the four digits is no other escape.
    have hu : d ≠ 'u' := by
      rintro rfl
      have hnone : escaped? 'u' = none := rfl
      rw [hnone] at h
      cases h
    have hbackslash : Lexer.step ⟨done, .string ps⟩ (.char '\\') = ⟨done, .escape ps⟩ := rfl
    have hletter : Lexer.step ⟨done, .escape ps⟩ (.char d) =
        ⟨done, .string (.escape c :: ps)⟩ := by
      simp only [Lexer.step, if_neg hu, h]
    rw [List.map_cons, List.map_cons, List.map_nil, List.foldl_cons, hbackslash, List.foldl_cons,
      hletter, List.foldl_nil]
  | @unit a b c d i j k l ha hb hc hd =>
    -- The digits go into the value one by one, the fourth one with the end of the piece.
    have hbegin : (['\\', 'u'].map Symbol.char).foldl Lexer.step ⟨done, .string ps⟩ =
        ⟨done, .hex ps 0 (some 0)⟩ := rfl
    have h1 := step_hexDigit ha done ps 0 0 (by omega)
    have h2 := step_hexDigit hb done ps 1 i (by omega)
    have h3 := step_hexDigit hc done ps 2 (i * 16 + j) (by omega)
    have h4 := step_lastHexDigit hd done ps ((i * 16 + j) * 16 + k)
    rw [Nat.zero_mul, Nat.zero_add, Nat.zero_add] at h1
    calc (['\\', 'u', a, b, c, d].map Symbol.char).foldl Lexer.step ⟨done, .string ps⟩
        = ([a, b, c, d].map Symbol.char).foldl Lexer.step ⟨done, .hex ps 0 (some 0)⟩ := by
          rw [← hbegin]
          rfl
      _ = ⟨done, .string (.unit (((i * 16 + j) * 16 + k) * 16 + l) :: ps)⟩ := by
          simp only [List.map_cons, List.map_nil, List.foldl_cons, List.foldl_nil, h1, h2, h3, h4]

/-- Within a string, the spellings of some pieces are read as the pieces. -/
theorem foldl_step_forall₂_written {ps : List Piece} {css : List (List Char)}
    (h : List.Forall₂ Piece.Written ps css) (done : List Token) (before : List Piece) :
    (css.flatten.map Symbol.char).foldl Lexer.step ⟨done, .string before⟩ =
      ⟨done, .string (ps.reverse ++ before)⟩ := by
  induction h generalizing before with
  | nil => rfl
  | cons hp _ ih =>
    rw [List.flatten_cons, List.map_append, List.foldl_append, foldl_step_written hp, ih,
      List.reverse_cons, List.append_assoc, List.singleton_append]

/-- The spellings of some pieces between quotes are a string with these pieces. -/
theorem tokens_string {ps : List Piece} {css : List (List Char)}
    (h : List.Forall₂ Piece.Written ps css) (rest : List Symbol) :
    tokens (('"' :: css.flatten ++ ['"']).map .char ++ rest) = .string ps :: tokens rest := by
  -- The lexer holds the pieces in reverse, and turns them around at the closing quote.
  have hopen : Lexer.step ⟨[], .gap⟩ (.char '"') = ⟨[], .string []⟩ := rfl
  have hclose : Lexer.step ⟨[], .string ps.reverse⟩ (.char '"') =
      ⟨[.string ps.reverse.reverse], .gap⟩ := rfl
  rw [tokens, List.cons_append, List.map_cons, List.cons_append, List.foldl_cons, hopen,
    List.map_append, List.append_assoc, List.foldl_append, foldl_step_forall₂_written h,
    List.append_nil, List.map_singleton, List.singleton_append, List.foldl_cons, hclose,
    List.reverse_reverse, finish_foldl_gap]

/-! ## The spelling of the writer -/

/-- The piece as which a character is written. -/
def escapePiece (c : Char) : Piece :=
  match c with
  | '"' => .escape '"'
  | '\\' => .escape '\\'
  | '\x08' => .escape '\x08'
  | '\x0C' => .escape '\x0C'
  | '\n' => .escape '\n'
  | '\r' => .escape '\r'
  | '\t' => .escape '\t'
  | c => if c < ' ' then .unit c.toNat else .char c

/-- The pieces as which a text is written. -/
def escapePieces (s : String) : List Piece :=
  s.toList.map escapePiece

/-- A digit below sixteen is read back. -/
theorem hexDigit?_digitChar {d : Nat} (h : d < 16) : hexDigit? (Nat.digitChar d) = some d := by
  have hall : ∀ d < 16, hexDigit? (Nat.digitChar d) = some d := by decide
  exact hall d h

/-- The writer writes characters in a way that is allowed. -/
theorem written_escapeChar (c : Char) : (escapePiece c).Written (escapeChar c) := by
  unfold escapePiece
  split
  case h_8 hquote hbackslash hback hfeed hline hreturn htab =>
    -- None of the seven characters with a short escape.
    have hchar : escapeChar c = if c < ' ' then
        ['\\', 'u', '0', '0', Nat.digitChar (c.toNat / 16), Nat.digitChar (c.toNat % 16)]
        else [c] := by
      unfold escapeChar
      split
      all_goals first | contradiction | rfl
    rw [hchar]
    split_ifs with hcontrol
    · -- A control character: two zeros and the two digits of its number.
      have hlt : c.toNat < 32 := hcontrol
      have hunit : ((0 * 16 + 0) * 16 + c.toNat / 16) * 16 + c.toNat % 16 = c.toNat := by omega
      have hhigh := hexDigit?_digitChar (d := c.toNat / 16) (by omega)
      have hlow := hexDigit?_digitChar (d := c.toNat % 16) (by omega)
      have hzero : hexDigit? '0' = some 0 := rfl
      have hwritten := Piece.Written.unit hzero hzero hhigh hlow
      rw [hunit] at hwritten
      exact hwritten
    · exact .char hcontrol hquote hbackslash
  all_goals exact .escape rfl

/-- The writer writes every character of a text in a way that is allowed. -/
theorem written_escapePieces (s : String) :
    List.Forall₂ Piece.Written (escapePieces s) (s.toList.map escapeChar) := by
  unfold escapePieces
  rw [List.forall₂_map_left_iff, List.forall₂_map_right_iff, List.forall₂_same]
  intro c _
  exact written_escapeChar c

/-! ## The meaning of a spelling -/

/-- The number of a character is no half of a surrogate pair. -/
theorem isHalf_toNat (c : Char) : isLeadUnit c.toNat = false ∧ isTrailUnit c.toNat = false := by
  have hvalid : c.toNat < 0xD800 ∨ 0xDFFF < c.toNat := c.valid.imp id And.left
  unfold isLeadUnit isTrailUnit
  simp only [Bool.and_eq_false_iff, decide_eq_false_iff_not]
  omega

/-- A code unit that is the number of a character means the character. -/
theorem spell_unit (c : Char) (after : Option Fault) (done : List Char) (strayed : Bool)
    (ps : List Piece) :
    spell after done strayed (.unit c.toNat :: ps) = spell after (c :: done) strayed ps := by
  obtain ⟨hlead, htrail⟩ := isHalf_toNat c
  cases ps with
  | nil => simp only [spell, htrail, hlead, Bool.false_eq_true, if_false, Char.ofNat_toNat]
  | cons p ps => simp only [spell, htrail, hlead, Bool.false_eq_true, if_false, Char.ofNat_toNat]

/-- The piece as which a character is written means the character. -/
theorem spell_escapePiece (c : Char) (after : Option Fault) (done : List Char) (strayed : Bool)
    (ps : List Piece) :
    spell after done strayed (escapePiece c :: ps) = spell after (c :: done) strayed ps := by
  unfold escapePiece
  split
  case h_8 =>
    split_ifs
    · exact spell_unit c after done strayed ps
    · rw [spell]
  all_goals rw [spell]

/-- The pieces as which a text is written mean the text. -/
theorem textOf_escapePieces (s : String) : textOf (escapePieces s) = .ok s := by
  have hspell (cs done : List Char) :
      spell none done false (cs.map escapePiece) = .ok (done.reverse ++ cs) := by
    induction cs generalizing done with
    | nil =>
      rw [List.append_nil]
      rfl
    | cons c cs ih =>
      rw [List.map_cons, spell_escapePiece, ih, List.reverse_cons, List.append_assoc,
        List.singleton_append]
  unfold textOf escapePieces
  rw [hspell, List.reverse_nil, List.nil_append]
  exact congrArg Except.ok String.ofList_toList

/-- Stray bytes are not forgotten: a string in which there are any is not spelled out. -/
theorem notMem_stray_of_spell {done : List Char} {strayed : Bool} {pieces : List Piece}
    {cs : List Char} (h : spell none done strayed pieces = .ok cs) :
    strayed = false ∧ .stray ∉ pieces := by
  generalize hafter : (none : Option Fault) = after at h
  fun_induction spell after done strayed pieces <;> simp_all

/-- A string that means a text has no stray bytes. -/
theorem notMem_stray {pieces : List Piece} {s : String} (h : textOf pieces = .ok s) :
    .stray ∉ pieces := by
  unfold textOf at h
  cases hspell : spell none [] false pieces with
  | error fault =>
    rw [hspell] at h
    cases h
  | ok cs => exact (notMem_stray_of_spell hspell).2

end ArgdownLens.Json
