import ArgdownLens.Proofs.Json.Lexing
import Mathlib.Data.List.Forall2
import Mathlib.Data.List.Induction
import Mathlib.Tactic.IntervalCases
import Mathlib.Tactic.SplitIfs

/-!
# The spelling of numbers

A number literal is written as its digits, with a sign, a point and a mark of an exponent where they
belong (`Literal.Written`). Every spelling, in front of anything that does not go on like a number
(`Delimited`), is a number token with the literal (`tokens_number`). The decimal digits of a natural
number spell its literal (`written_toDigits`), and the value of the literal is the number as long as
it fits into 64 bits (`value_ofNat`). No other spelling has this value (`value_eq_natural_iff`).
-/

namespace ArgdownLens.Json

/-! ## The grammar of numbers -/

/-- The characters are the digits, one by one. -/
def Digits : List Nat → List Char → Prop :=
  List.Forall₂ fun d c => digit? c = some d

/-- The ways to write a fraction: none, or a point and digits. -/
inductive FractionWritten : List Nat → List Char → Prop where
  | none : FractionWritten [] []
  | point {d : Nat} {c : Char} {ds : List Nat} {cs : List Char} (h : Digits (d :: ds) (c :: cs)) :
    FractionWritten (d :: ds) ('.' :: c :: cs)

/-- The ways to write an exponent: none, or a mark, perhaps a sign, and digits. -/
inductive ExponentWritten : Option Exponent → List Char → Prop where
  | none : ExponentWritten none []
  | marked {mark : Char} {negative : Bool} {sign : List Char} {d : Nat} {c : Char} {ds : List Nat}
    {cs : List Char} (hmark : mark = 'e' ∨ mark = 'E')
    (hsign : (negative, sign) ∈ [(true, ['-']), (false, ['+']), (false, [])])
    (h : Digits (d :: ds) (c :: cs)) :
    ExponentWritten (some ⟨negative, d :: ds⟩) (mark :: sign ++ c :: cs)

/-- The ways to write a number literal. A zero is not followed by further whole digits. -/
inductive Literal.Written : Literal → List Char → Prop where
  | intro {negative : Bool} {d : Nat} {c : Char} {ds fraction : List Nat} {cs fcs ecs : List Char}
    {exponent : Option Exponent} (hwhole : Digits (d :: ds) (c :: cs)) (hzero : d = 0 → ds = [])
    (hfraction : FractionWritten fraction fcs) (hexponent : ExponentWritten exponent ecs) :
    Written ⟨negative, d :: ds, fraction, exponent⟩
      ((if negative then ['-'] else []) ++ c :: cs ++ fcs ++ ecs)

/-! ## Reading a number -/

/-- A rest of a text that does not go on like a number. -/
def Delimited : List Symbol → Prop
  | .char c :: _ => digit? c = none ∧ c ≠ '.' ∧ c ≠ 'e' ∧ c ≠ 'E'
  | _ => True

/-- A literal that may end does so in front of a character that does not go on like a number. -/
theorem Scan.step_eq_stop {scan : Scan} (hend : scan.phase.mayEnd = true) {c : Char}
    {rest : List Symbol} (h : Delimited (.char c :: rest)) : scan.step c = .stop := by
  obtain ⟨hdigit, hpoint, hlower, hupper⟩ := h
  unfold Scan.step
  rw [hdigit]
  cases hphase : scan.phase with
  | zero => simp [hpoint, hlower, hupper]
  | whole => simp [hpoint, hlower, hupper]
  | fraction => simp [hlower, hupper]
  | exponent => rfl
  | _ =>
    rw [hphase] at hend
    cases hend

/-- A literal that may end is a token in front of a rest that does not go on like a number. -/
theorem finish_foldl_number {scan : Scan} (hend : scan.phase.mayEnd = true) {rest : List Symbol}
    (h : Delimited rest) :
    (rest.foldl Lexer.step ⟨[], .number scan⟩).finish = .number scan.finish :: tokens rest := by
  rw [← finish_foldl_gap]
  cases rest with
  | nil =>
    simp only [List.foldl_nil, Lexer.finish, if_pos hend]
    rfl
  | cons s rest =>
    -- The symbol is read as if the number had been emitted before it.
    have hstep : Lexer.step ⟨[], .number scan⟩ s = Lexer.step ⟨[.number scan.finish], .gap⟩ s := by
      cases s with
      | broken n =>
        simp only [Lexer.step, if_pos hend]
        rfl
      | char c =>
        simp only [Lexer.step, Scan.step_eq_stop hend h]
        rfl
    rw [List.foldl_cons, hstep, List.foldl_cons]

/-- A digit is written as its only character. -/
theorem eq_digitChar_of_digit? {c : Char} {d : Nat} (h : digit? c = some d) :
    d < 10 ∧ c = Nat.digitChar d := by
  unfold digit? at h
  split_ifs at h with hdigit
  have hlow : 48 ≤ c.toNat := hdigit.1
  have hhigh : c.toNat ≤ 57 := hdigit.2
  have hvalue : c.toNat - 48 = d := Option.some.inj h
  refine ⟨by omega, Char.toNat_inj.mp ?_⟩
  rw [Nat.toNat_digitChar_of_lt_ten (by omega)]
  omega

/-- The first digit of a number begins it. -/
theorem step_firstDigit {c : Char} {d : Nat} (h : digit? c = some d) :
    Lexer.step ⟨[], .gap⟩ (.char c) =
      ⟨[], .number ⟨if d = 0 then .zero else .whole, { whole := [d] }⟩⟩ := by
  obtain ⟨hd, rfl⟩ := eq_digitChar_of_digit? h
  interval_cases d <;> rfl

/-- A character that belongs to a number is read as such. -/
theorem step_number {scan next : Scan} {c : Char} (h : scan.step c = .next next) :
    Lexer.step ⟨[], .number scan⟩ (.char c) = ⟨[], .number next⟩ := by
  simp only [Lexer.step, h]

/-- Where each digit goes in front of those that have been read, all digits do. -/
theorem foldl_step_digits (phase : Phase) (set : List Nat → Literal)
    (hset : ∀ done c d, digit? c = some d →
      Scan.step ⟨phase, set done⟩ c = .next ⟨phase, set (d :: done)⟩)
    {ds : List Nat} {cs : List Char} (h : Digits ds cs) (done : List Nat) :
    (cs.map Symbol.char).foldl Lexer.step ⟨[], .number ⟨phase, set done⟩⟩ =
      ⟨[], .number ⟨phase, set (ds.reverse ++ done)⟩⟩ := by
  induction h generalizing done with
  | nil => rfl
  | cons hd _ ih =>
    rw [List.map_cons, List.foldl_cons, step_number (hset done _ _ hd), ih, List.reverse_cons,
      List.append_assoc, List.singleton_append]

/-- The whole digits of a number are read behind its sign. -/
theorem foldl_step_whole (negative : Bool) {d : Nat} {c : Char} {ds : List Nat} {cs : List Char}
    (h : Digits (d :: ds) (c :: cs)) (hzero : d = 0 → ds = []) :
    ∃ phase, (phase = .zero ∨ phase = .whole) ∧
      (((if negative then ['-'] else []) ++ c :: cs).map Symbol.char).foldl Lexer.step ⟨[], .gap⟩ =
        ⟨[], .number ⟨phase, { negative, whole := (d :: ds).reverse }⟩⟩ := by
  obtain ⟨hd, hds⟩ := List.forall₂_cons.mp h
  have hfirst : (((if negative then ['-'] else []) ++ [c]).map Symbol.char).foldl Lexer.step
      ⟨[], .gap⟩ = ⟨[], .number ⟨if d = 0 then .zero else .whole, { negative, whole := [d] }⟩⟩ := by
    cases negative with
    | false => exact step_firstDigit hd
    | true =>
      have hminus : Lexer.step ⟨[], .gap⟩ (.char '-') =
          ⟨[], .number ⟨.sign, { negative := true }⟩⟩ := rfl
      have hstep : Scan.step ⟨.sign, { negative := true }⟩ c =
          .next ⟨if d = 0 then .zero else .whole, { negative := true, whole := [d] }⟩ := by
        simp only [Scan.step, hd]
      exact (congrArg (Lexer.step · (.char c)) hminus).trans (step_number hstep)
  rw [List.append_cons, List.map_append, List.foldl_append, hfirst]
  by_cases hd0 : d = 0
  · -- Nothing follows a zero.
    obtain rfl := hzero hd0
    obtain rfl := List.forall₂_nil_left_iff.mp hds
    rw [if_pos hd0]
    exact ⟨.zero, .inl rfl, rfl⟩
  · rw [if_neg hd0, List.reverse_cons]
    refine ⟨.whole, .inr rfl, foldl_step_digits .whole (fun ds => { negative, whole := ds }) ?_ hds
      [d]⟩
    intro done c d hd
    simp only [Scan.step, hd]

/-- A fraction is read behind the whole digits. -/
theorem foldl_step_fraction {phase : Phase} (hphase : phase = .zero ∨ phase = .whole) {l : Literal}
    (hl : l.fraction = []) {ds : List Nat} {cs : List Char} (h : FractionWritten ds cs) :
    ∃ after, (after = .zero ∨ after = .whole ∨ after = .fraction) ∧
      (cs.map Symbol.char).foldl Lexer.step ⟨[], .number ⟨phase, l⟩⟩ =
        ⟨[], .number ⟨after, { l with fraction := ds.reverse }⟩⟩ := by
  cases h with
  | none =>
    refine ⟨phase, hphase.imp_right .inl, ?_⟩
    rw [List.reverse_nil, ← hl]
    rfl
  | @point d c ds cs h =>
    obtain ⟨hd, hds⟩ := List.forall₂_cons.mp h
    have hpoint : Scan.step ⟨phase, l⟩ '.' = .next ⟨.point, l⟩ := by
      rcases hphase with rfl | rfl <;> rfl
    have hfirst : Scan.step ⟨.point, l⟩ c = .next ⟨.fraction, { l with fraction := [d] }⟩ := by
      simp only [Scan.step, hd, hl]
    refine ⟨.fraction, .inr (.inr rfl), ?_⟩
    rw [List.map_cons, List.foldl_cons, step_number hpoint, List.map_cons, List.foldl_cons,
      step_number hfirst, List.reverse_cons]
    refine foldl_step_digits .fraction (fun ds => { l with fraction := ds }) ?_ hds _
    intro done c d hd
    simp only [Scan.step, hd]

/-- An exponent is read behind the whole digits and the fraction. -/
theorem foldl_step_exponent {phase : Phase}
    (hphase : phase = .zero ∨ phase = .whole ∨ phase = .fraction) {l : Literal}
    (hl : l.exponent = none) {e : Option Exponent} {cs : List Char} (h : ExponentWritten e cs) :
    ∃ after, after.mayEnd = true ∧
      (cs.map Symbol.char).foldl Lexer.step ⟨[], .number ⟨phase, l⟩⟩ =
        ⟨[], .number ⟨after, { l with
          exponent := e.map fun e => { e with digits := e.digits.reverse } }⟩⟩ := by
  cases h with
  | none =>
    refine ⟨phase, by rcases hphase with rfl | rfl | rfl <;> rfl, ?_⟩
    rw [Option.map_none, ← hl]
    rfl
  | @marked mark negative sign d c ds cs hmark hsign h =>
    obtain ⟨hd, hds⟩ := List.forall₂_cons.mp h
    have hstep : Scan.step ⟨phase, l⟩ mark = .next ⟨.mark, l.marked⟩ := by
      rcases hphase with rfl | rfl | rfl <;> rcases hmark with rfl | rfl <;> rfl
    -- The sign may be left out, and the first digit stands behind it or behind the mark.
    have hfirst : ((sign ++ [c]).map Symbol.char).foldl Lexer.step
        ⟨[], .number ⟨.mark, l.marked⟩⟩ =
          ⟨[], .number ⟨.exponent, { l with exponent := some ⟨negative, [d]⟩ }⟩⟩ := by
      have hpushed (signed : Literal) (phase : Phase) (hphase : phase = .mark ∨ phase = .markSign) :
          Lexer.step ⟨[], .number ⟨phase, signed⟩⟩ (.char c) =
            ⟨[], .number ⟨.exponent, signed.pushExponent d⟩⟩ := by
        apply step_number
        rcases hphase with rfl | rfl <;> simp only [Scan.step, hd]
      simp only [List.mem_cons, Prod.mk.injEq, List.not_mem_nil, or_false] at hsign
      rcases hsign with ⟨rfl, rfl⟩ | ⟨rfl, rfl⟩ | ⟨rfl, rfl⟩
      · exact hpushed { l with exponent := some ⟨true, []⟩ } .markSign (.inr rfl)
      · exact hpushed l.marked .markSign (.inr rfl)
      · exact hpushed l.marked .mark (.inl rfl)
    refine ⟨.exponent, rfl, ?_⟩
    rw [List.cons_append, List.map_cons, List.foldl_cons, step_number hstep, List.append_cons,
      List.map_append, List.foldl_append, hfirst, Option.map_some, List.reverse_cons]
    refine foldl_step_digits .exponent (fun ds => { l with exponent := some ⟨negative, ds⟩ }) ?_
      hds _
    intro done c d hd
    simp only [Scan.step, hd]
    rfl

/-- Every spelling of a number, in front of a rest that does not go on like one, is the number. -/
theorem tokens_number {l : Literal} {cs : List Char} (h : l.Written cs) {rest : List Symbol}
    (hrest : Delimited rest) : tokens (cs.map .char ++ rest) = .number l :: tokens rest := by
  cases h with
  | @intro negative d c ds fraction cs fcs ecs exponent hwhole hzero hfraction hexponent =>
    have hsome : ({ negative, whole := (d :: ds).reverse } : Literal).fraction = [] := rfl
    have hnone : ({ negative, whole := (d :: ds).reverse, fraction := fraction.reverse } :
        Literal).exponent = none := rfl
    obtain ⟨first, hfirst, hread⟩ := foldl_step_whole negative hwhole hzero
    obtain ⟨second, hsecond, hread'⟩ := foldl_step_fraction hfirst hsome hfraction
    obtain ⟨third, hthird, hread''⟩ := foldl_step_exponent hsecond hnone hexponent
    rw [tokens, List.foldl_append, List.map_append, List.foldl_append, List.map_append,
      List.foldl_append, hread, hread', hread'', finish_foldl_number hthird hrest]
    -- The digits were read with the newest one first.
    cases exponent with
    | none => simp [Scan.finish]
    | some e => simp [Scan.finish]

/-! ## Natural numbers -/

/-- The digits of a natural number, the greatest first. -/
def decimal (n : Nat) : List Nat :=
  (Nat.toDigits 10 n).map fun c => c.toNat - '0'.toNat

/-- The literal of a natural number. -/
def Literal.ofNat (n : Nat) : Literal :=
  { whole := decimal n }

/-- A number below ten is its only digit. -/
theorem decimal_of_lt {n : Nat} (h : n < 10) : decimal n = [n] := by
  rw [decimal, Nat.toDigits_of_lt_base h, List.map_singleton]
  exact congrArg (fun d => [d]) (Nat.toNat_digitChar_sub_48_of_lt_ten h)

/-- A number with a digit behind it has the digits of the number and this digit. -/
theorem decimal_append {n d : Nat} (hn : 0 < n) (hd : d < 10) :
    decimal (10 * n + d) = decimal n ++ [d] := by
  rw [← decimal_of_lt hd, decimal, ← Nat.toDigits_append_toDigits (by decide) hn hd,
    List.map_append]
  rfl

/-- A digit is the value of its character. -/
theorem digit?_digitChar {d : Nat} (h : d < 10) : digit? (Nat.digitChar d) = some d := by
  interval_cases d <;> rfl

/-- The digits of a number are written one by one, and only zero begins with a zero. -/
theorem digits_decimal (n : Nat) :
    Digits (decimal n) (Nat.toDigits 10 n) ∧ ∃ d ds, decimal n = d :: ds ∧ (d = 0 → n = 0) := by
  induction n using Nat.base_induction 10 (by decide) with
  | single n hn =>
    rw [decimal_of_lt hn, Nat.toDigits_of_lt_base hn]
    exact ⟨.cons (digit?_digitChar hn) .nil, n, [], rfl, id⟩
  | digit n d hd hn ih =>
    obtain ⟨hdigits, first, ds, hfirst, hzero⟩ := ih
    have hlast : Digits [d] [Nat.digitChar d] := .cons (digit?_digitChar hd) .nil
    rw [decimal_append hn hd, ← Nat.toDigits_append_toDigits (by decide) hn hd,
      Nat.toDigits_of_lt_base hd]
    refine ⟨List.rel_append hdigits hlast, first, ds ++ [d], by rw [hfirst]; rfl, fun h => ?_⟩
    exact absurd (hzero h) (by omega)

/-- The digits of a natural number spell its literal. -/
theorem written_toDigits (n : Nat) : (Literal.ofNat n).Written (Nat.toDigits 10 n) := by
  obtain ⟨hdigits, d, ds, hdecimal, hzero⟩ := digits_decimal n
  rw [hdecimal] at hdigits
  obtain ⟨c, cs, hd, hds, htext⟩ := List.forall₂_cons_left_iff.mp hdigits
  have hds' : d = 0 → ds = [] := by
    intro h
    rw [hzero h] at hdecimal
    exact (List.cons.inj hdecimal).2.symm
  have hwritten : (⟨false, d :: ds, [], none⟩ : Literal).Written ([] ++ c :: cs ++ [] ++ []) :=
    .intro (.cons hd hds) hds' .none .none
  rw [List.append_nil, List.append_nil, List.nil_append, ← htext] at hwritten
  unfold Literal.ofNat
  rw [hdecimal]
  exact hwritten

/-! ## The value of the digits -/

/-- A digit that fits behind digits of which none was dropped is kept. -/
theorem wholePart_append {ds : List Nat} {n d : Nat} (h : wholePart ds = (n, 0))
    (hfits : n * 10 + d ≤ maxSignificand) : wholePart (ds ++ [d]) = (n * 10 + d, 0) := by
  have hkeep : ¬ (0 < 0 ∨ maxSignificand < n * 10 + d) := by omega
  unfold wholePart at h ⊢
  rw [List.foldl_append, h, List.foldl_cons, List.foldl_nil]
  exact if_neg hkeep

/-- The digits of a number that fits into 64 bits are all kept. -/
theorem wholePart_decimal {n : Nat} (h : n ≤ maxSignificand) : wholePart (decimal n) = (n, 0) := by
  induction n using Nat.base_induction 10 (by decide) with
  | single n hn =>
    have hnil : wholePart [] = (0, 0) := rfl
    have hone := wholePart_append hnil (d := n) (by omega)
    rw [Nat.zero_mul, Nat.zero_add] at hone
    rw [decimal_of_lt hn]
    exact hone
  | digit n d hd hn ih =>
    rw [decimal_append hn hd, wholePart_append (ih (by omega)) (by omega), Nat.mul_comm]

/-- The value of the literal of a number that fits into 64 bits is the number. -/
theorem value_ofNat {n : Nat} (h : n ≤ maxSignificand) :
    (Literal.ofNat n).value = .ok (.natural n) := by
  have hvalue : (Literal.ofNat n).value? = some (.natural n) := by
    unfold Literal.value? Literal.ofNat
    rw [wholePart_decimal h]
    rfl
  unfold Literal.value
  rw [hvalue]

/-! ## Natural numbers among the literals -/

/-- Digits are written in one way. -/
theorem Digits.eq {ds : List Nat} {cs cs' : List Char} (h : Digits ds cs) (h' : Digits ds cs') :
    cs = cs' := by
  induction h generalizing cs' with
  | nil =>
    cases h'
    rfl
  | cons hd _ ih =>
    obtain ⟨c', cs', hd', hds', rfl⟩ := List.forall₂_cons_left_iff.mp h'
    rw [(eq_digitChar_of_digit? hd).2, (eq_digitChar_of_digit? hd').2, ih hds']

/-- Digits are less than ten. -/
theorem Digits.lt {ds : List Nat} {cs : List Char} (h : Digits ds cs) : ∀ d ∈ ds, d < 10 := by
  induction h with
  | nil => exact List.forall_mem_nil _
  | cons hd _ ih => exact List.forall_mem_cons.mpr ⟨(eq_digitChar_of_digit? hd).1, ih⟩

/-- A text is written for one literal. -/
theorem Literal.Written.inj {l l' : Literal} {cs : List Char} (h : l.Written cs)
    (h' : l'.Written cs) : l = l' := by
  have hend : Delimited [] := trivial
  have htokens := tokens_number h hend
  rw [tokens_number h' hend] at htokens
  injection htokens with hnumber
  injection hnumber with hl
  exact hl.symm

/-- If none of some digits is dropped, neither is one in front of the last. -/
theorem exists_wholePart_of_append {ds : List Nat} {n d : Nat}
    (h : wholePart (ds ++ [d]) = (n, 0)) : ∃ m, wholePart ds = (m, 0) ∧ m * 10 + d = n := by
  unfold wholePart at h ⊢
  rw [List.foldl_append, List.foldl_cons, List.foldl_nil] at h
  dsimp only at h
  split_ifs at h with hdropped
  · cases (Prod.mk.inj h).2
  · exact ⟨_, Prod.ext rfl (by simp only; omega), (Prod.mk.inj h).1⟩

/-- Digits of which none is dropped are those of a number, if only zero begins with a zero. -/
theorem eq_decimal_of_wholePart {d : Nat} {ds : List Nat} {n : Nat}
    (hdigits : ∀ e ∈ d :: ds, e < 10) (hzero : d = 0 → ds = [])
    (h : wholePart (d :: ds) = (n, 0)) : d :: ds = decimal n := by
  induction ds using List.reverseRecOn generalizing n with
  | nil =>
    rw [← List.nil_append [d]] at h
    obtain ⟨m, hm, hn⟩ := exists_wholePart_of_append h
    obtain rfl : m = 0 := (Prod.mk.inj hm).1.symm
    rw [Nat.zero_mul, Nat.zero_add] at hn
    rw [← hn, decimal_of_lt (hdigits d List.mem_cons_self)]
  | append_singleton ds e ih =>
    rw [← List.cons_append] at h hdigits ⊢
    rw [List.forall_mem_append] at hdigits
    obtain ⟨m, hm, rfl⟩ := exists_wholePart_of_append h
    have hd : d ≠ 0 := fun hd => by simpa using hzero hd
    have hfront := ih hdigits.1 (fun h => absurd h hd) hm
    -- A number whose digits begin with another one than zero is not zero.
    have hpos : 0 < m := by
      rcases m.eq_zero_or_pos with rfl | hm
      · rw [decimal_of_lt (by decide)] at hfront
        exact absurd (List.cons.inj hfront).1 hd
      · exact hm
    rw [hfront, Nat.mul_comm m, decimal_append hpos (hdigits.2 e List.mem_cons_self)]

/-- The literals with a natural number for a value have no sign, no fraction and no exponent. -/
theorem parts_of_value {l : Literal} {n : Nat} (h : l.value = .ok (.natural n)) :
    wholePart l.whole = (n, 0) ∧ l.negative = false ∧ l.fraction = [] ∧ l.exponent = none := by
  have hvalue : l.value? = some (.natural n) := by
    unfold Literal.value at h
    cases hl : l.value? with
    | none => simp [hl] at h
    | some m => simpa [hl] using h
  unfold Literal.value? at hvalue
  generalize wholePart l.whole = whole at hvalue ⊢
  obtain ⟨significand, dropped⟩ := whole
  dsimp only at hvalue
  split_ifs at hvalue with hwhole hnegative <;> simp_all

/-- A natural number of 64 bits is the value of the literal that is written as its digits, and of no
other one. -/
theorem value_eq_natural_iff {l : Literal} {cs : List Char} (h : l.Written cs) {n : Nat}
    (hn : n ≤ maxSignificand) : l.value = .ok (.natural n) ↔ cs = Nat.toDigits 10 n := by
  constructor
  · intro hvalue
    obtain ⟨hwhole, hnegative, hfraction, hexponent⟩ := parts_of_value hvalue
    cases h with
    | @intro negative d c ds fraction cs fcs ecs exponent hdigits hzero hfcs hecs =>
      dsimp only at hwhole hnegative hfraction hexponent
      subst hnegative hfraction hexponent
      cases hfcs
      cases hecs
      rw [eq_decimal_of_wholePart hdigits.lt hzero hwhole] at hdigits
      rw [hdigits.eq (digits_decimal n).1]
      simp
  · rintro rfl
    rw [h.inj (written_toDigits n), value_ofNat hn]

/-- Natural numbers of 64 bits with the same digits are the same. -/
theorem eq_of_toDigits_eq {m n : Nat} (hm : m ≤ maxSignificand) (hn : n ≤ maxSignificand)
    (h : Nat.toDigits 10 m = Nat.toDigits 10 n) : m = n := by
  have hvalue := (value_eq_natural_iff (written_toDigits m) hn).mpr h
  rw [value_ofNat hm] at hvalue
  exact Number.natural.inj (Except.ok.inj hvalue)

end ArgdownLens.Json
