import ArgdownLens.Json.Value
import Mathlib.Tactic.SplitIfs

/-!
# The tokens of a text, one after the other

A lexer is indifferent to the tokens that it has emitted (`Lexer.finish_foldl`). So a text that
begins with a token has that token in front of those of the rest: `tokens_sign` for brackets, commas
and colons, `tokens_null` and `tokens_bool` for words.
-/

namespace ArgdownLens.Json

/-! ## The tokens in front -/

/-- The lexer with some tokens emitted before its own. -/
def Lexer.behind (done : List Token) (l : Lexer) : Lexer :=
  ⟨l.tokens ++ done, l.inside⟩

/-- A character that begins a token does so behind any tokens. -/
theorem Lexer.begin_behind (done : List Token) (l : Lexer) (c : Char) :
    (l.behind done).begin c = (l.begin c).behind done := by
  unfold Lexer.begin
  split
  case h_11 =>
    -- No sign, quote or letter of a word: a blank, the start of a number or nothing.
    split_ifs
    · rfl
    · cases Scan.start? c <;> rfl
  all_goals rfl

/-- A symbol is read in the same way behind any tokens. -/
theorem Lexer.step_behind (done : List Token) (l : Lexer) (s : Symbol) :
    (l.behind done).step s = (l.step s).behind done := by
  obtain ⟨ts, inside⟩ := l
  cases inside with
  | gap =>
    cases s with
    | char c => exact begin_behind done ⟨ts, .gap⟩ c
    | broken n => rfl
  | word whole rest =>
    cases rest with
    | nil => rfl
    | cons d rest =>
      cases s with
      | broken n => rfl
      | char c =>
        simp only [Lexer.behind, Lexer.step]
        split_ifs <;> rfl
  | number scan =>
    cases s with
    | broken n =>
      simp only [Lexer.behind, Lexer.step]
      split_ifs <;> rfl
    | char c =>
      simp only [Lexer.behind, Lexer.step]
      cases scan.step c with
      | next scan => rfl
      -- The character ends the number and begins what comes next.
      | stop => exact begin_behind done ⟨.number scan.finish :: ts, .gap⟩ c
      | wrong => rfl
  | string pieces =>
    cases s with
    | broken n => rfl
    | char c =>
      simp only [Lexer.behind, Lexer.step]
      split_ifs <;> rfl
  | escape pieces =>
    cases s with
    | broken n => rfl
    | char c =>
      simp only [Lexer.behind, Lexer.step]
      split_ifs
      · rfl
      · cases escaped? c <;> rfl
  | hex pieces bytes value =>
    simp only [Lexer.behind, Lexer.step]
    split_ifs
    · rfl
    · split <;> rfl

/-- The tokens that were emitted stay in front of all others. -/
theorem Lexer.finish_behind (done : List Token) (l : Lexer) :
    (l.behind done).finish = done.reverse ++ l.finish := by
  obtain ⟨ts, inside⟩ := l
  unfold Lexer.finish Lexer.behind Lexer.emit
  -- At the end the lexer emits at most one more token, in front of the reversal.
  cases inside with
  | number scan =>
    dsimp only
    split_ifs <;> simp
  | _ => simp

/-- A lexer is indifferent to the tokens that it has emitted. -/
theorem Lexer.finish_foldl (text : List Symbol) (done : List Token) (l : Lexer) :
    (text.foldl Lexer.step (l.behind done)).finish =
      done.reverse ++ (text.foldl Lexer.step l).finish := by
  induction text generalizing l with
  | nil => exact finish_behind done l
  | cons s text ih =>
    rw [List.foldl_cons, List.foldl_cons, step_behind, ih]

/-- The tokens behind one that was emitted are those of the rest. -/
theorem finish_foldl_gap (rest : List Symbol) (t : Token) :
    (rest.foldl Lexer.step ⟨[t], .gap⟩).finish = t :: tokens rest :=
  Lexer.finish_foldl rest [t] ⟨[], .gap⟩

/-! ## Signs and words -/

/-- A bracket, a comma or a colon is a token. -/
theorem tokens_sign (c : Char) (t : Token) (h : Lexer.begin ⟨[], .gap⟩ c = ⟨[t], .gap⟩)
    (rest : List Symbol) : tokens (.char c :: rest) = t :: tokens rest := by
  have hstep : Lexer.step ⟨[], .gap⟩ (.char c) = ⟨[t], .gap⟩ := h
  rw [tokens, List.foldl_cons, hstep, finish_foldl_gap]

/-- The word for nothing is a token. -/
theorem tokens_null (rest : List Symbol) :
    tokens (['n', 'u', 'l', 'l'].map .char ++ rest) = .null :: tokens rest :=
  finish_foldl_gap rest .null

/-- The words for the truth values are tokens. -/
theorem tokens_bool (b : Bool) (rest : List Symbol) :
    tokens ((if b then ['t', 'r', 'u', 'e'] else ['f', 'a', 'l', 's', 'e']).map .char ++ rest) =
      .bool b :: tokens rest := by
  cases b with
  | false => exact finish_foldl_gap rest (.bool false)
  | true => exact finish_foldl_gap rest (.bool true)

end ArgdownLens.Json
