import ArgdownLens.Json.Fault
import ArgdownLens.Text.Utf8

/-!
# JSON tokens

A text is cut into tokens by an automaton that reads one symbol at a time. Cutting never fails. What
begins like a token and goes wrong is a broken token that says how: whether that matters, and in
which way, depends on who reads it. The tokens behind a broken one have no meaning.

A string is kept as the pieces of its spelling, because some readers pass over strings that others
refuse: the pieces may be unpaired surrogates or bytes that are no UTF-8.
-/

namespace ArgdownLens.Json

/-- One piece of the spelling of a string. -/
inductive Piece where
  /-- A character that stands for itself. -/
  | char (c : Char)
  /-- A character behind a backslash, by the character that it means. -/
  | escape (c : Char)
  /-- A UTF-16 code unit, by its four hexadecimal digits. -/
  | unit (n : Nat)
  /-- Bytes that are no UTF-8. -/
  | stray
  deriving DecidableEq, Repr

/-- The smallest parts of a JSON text. -/
inductive Token where
  | openObject | closeObject | openArray | closeArray | comma | colon
  | null
  | bool (b : Bool)
  | number (l : Literal)
  | string (pieces : List Piece)
  /-- A word that begins like `null`, `true` or `false`. -/
  | brokenWord (fault : Fault)
  /-- A number that goes wrong or is cut off. -/
  | brokenNumber (fault : Fault)
  /-- A string that goes wrong or is cut off behind these pieces. -/
  | brokenString (pieces : List Piece) (fault : Fault)
  /-- A symbol that begins no token. -/
  | junk
  deriving DecidableEq, Repr

/-! ## Strings -/

/-- Whether the code unit is the first half of a surrogate pair. -/
def isLeadUnit (n : Nat) : Bool := 0xD800 ≤ n && n ≤ 0xDBFF

/-- Whether the code unit is the second half of a surrogate pair. -/
def isTrailUnit (n : Nat) : Bool := 0xDC00 ≤ n && n ≤ 0xDFFF

/-- The character of a surrogate pair. -/
def pairedChar (lead trail : Nat) : Char :=
  Char.ofNat (0x10000 + (lead - 0xD800) * 0x400 + (trail - 0xDC00))

/-- Spells out the pieces of a string, in front of which `done` has been spelled (newest first).
Surrogates must be paired. A half without its other half is a fault where it stands, and stray bytes
are one at the end of the string. `after` is the fault, if any, that comes behind the pieces. -/
def spell (after : Option Fault) (done : List Char) (strayed : Bool) :
    List Piece → Except Fault (List Char)
  | [] =>
    match after with
    | some fault => .error fault
    | none => if strayed then .error .malformed else .ok done.reverse
  | .char c :: ps => spell after (c :: done) strayed ps
  | .escape c :: ps => spell after (c :: done) strayed ps
  | .stray :: ps => spell after done true ps
  | [.unit n] =>
    if isTrailUnit n then .error .malformed
    else if isLeadUnit n then .error (after.getD .malformed)
    else spell after (Char.ofNat n :: done) strayed []
  | .unit n :: p :: ps =>
    if isTrailUnit n then .error .malformed
    else if isLeadUnit n then
      match p with
      | .unit m =>
        if isTrailUnit m then spell after (pairedChar n m :: done) strayed ps
        else .error .malformed
      | _ => .error .malformed
    else spell after (Char.ofNat n :: done) strayed (p :: ps)

/-- The text that a complete string means. -/
def textOf (pieces : List Piece) : Except Fault String :=
  (spell none [] false pieces).map String.ofList

/-- The fault of a string that is broken behind its pieces, for a reader who wants its text. -/
def brokenTextFault (pieces : List Piece) (fault : Fault) : Fault :=
  match spell (some fault) [] false pieces with
  | .error f => f
  | .ok _ => fault

/-! ## Cutting -/

/-- What a lexer is in the middle of. -/
inductive Inside where
  /-- Nothing: it stands between two tokens. -/
  | gap
  /-- A word of which `rest` must follow. -/
  | word (whole : Token) (rest : List Char)
  | number (scan : Scan)
  /-- A string, with its pieces so far, newest first. -/
  | string (pieces : List Piece)
  /-- A string, right behind a backslash. -/
  | escape (pieces : List Piece)
  /-- A string, in the four bytes behind `\u`: how many were read, and their value as long as they
  are hexadecimal digits. -/
  | hex (pieces : List Piece) (bytes : Nat) (value : Option Nat)

/-- A lexer between two symbols; the tokens have the newest one first. -/
structure Lexer where
  tokens : List Token
  inside : Inside

/-- Emits a token. -/
def Lexer.emit (l : Lexer) (t : Token) : Lexer :=
  ⟨t :: l.tokens, .gap⟩

/-- The white space between tokens. -/
def isSpace (c : Char) : Bool :=
  c == ' ' || c == '\t' || c == '\n' || c == '\r'

/-- Reads a character that begins a token or stands between tokens. -/
def Lexer.begin (l : Lexer) (c : Char) : Lexer :=
  match c with
  | '\x7b' => l.emit .openObject
  | '\x7d' => l.emit .closeObject
  | '[' => l.emit .openArray
  | ']' => l.emit .closeArray
  | ',' => l.emit .comma
  | ':' => l.emit .colon
  | '"' => { l with inside := .string [] }
  | 'n' => { l with inside := .word .null ['u', 'l', 'l'] }
  | 't' => { l with inside := .word (.bool true) ['r', 'u', 'e'] }
  | 'f' => { l with inside := .word (.bool false) ['a', 'l', 's', 'e'] }
  | c =>
    if isSpace c then { l with inside := .gap }
    else match Scan.start? c with
      | some scan => { l with inside := .number scan }
      | none => l.emit .junk

/-- The character that an escape of two characters means. -/
def escaped? : Char → Option Char
  | '"' => some '"'
  | '\\' => some '\\'
  | '/' => some '/'
  | 'b' => some '\x08'
  | 'f' => some '\x0C'
  | 'n' => some '\n'
  | 'r' => some '\r'
  | 't' => some '\t'
  | _ => none

/-- The value of a hexadecimal digit of either case. -/
def hexDigit? (c : Char) : Option Nat :=
  if '0' ≤ c ∧ c ≤ '9' then some (c.toNat - '0'.toNat)
  else if 'a' ≤ c ∧ c ≤ 'f' then some (c.toNat - 'a'.toNat + 10)
  else if 'A' ≤ c ∧ c ≤ 'F' then some (c.toNat - 'A'.toNat + 10)
  else none

/-- Reads one symbol. -/
def Lexer.step (l : Lexer) (s : Symbol) : Lexer :=
  match l.inside, s with
  | .gap, .char c => l.begin c
  | .gap, .broken _ => l.emit .junk
  | .word whole rest, s =>
    match rest, s with
    | c :: rest, .char d =>
      if c ≠ d then l.emit (.brokenWord .malformed)
      else if rest.isEmpty then l.emit whole
      else { l with inside := .word whole rest }
    | _, _ => l.emit (.brokenWord .malformed)
  | .number scan, .char c =>
    match scan.step c with
    | .next scan => { l with inside := .number scan }
    | .stop => (l.emit (.number scan.finish)).begin c
    | .wrong => l.emit (.brokenNumber .malformed)
  | .number scan, .broken _ =>
    if scan.phase.mayEnd then (l.emit (.number scan.finish)).emit .junk
    else l.emit (.brokenNumber .malformed)
  | .string pieces, .broken _ => { l with inside := .string (.stray :: pieces) }
  | .string pieces, .char c =>
    if c = '"' then l.emit (.string pieces.reverse)
    else if c = '\\' then { l with inside := .escape pieces }
    else if c < ' ' then l.emit (.brokenString pieces.reverse .malformed)
    else { l with inside := .string (.char c :: pieces) }
  | .escape pieces, .broken _ => l.emit (.brokenString pieces.reverse .malformed)
  | .escape pieces, .char c =>
    if c = 'u' then { l with inside := .hex pieces 0 (some 0) }
    else match escaped? c with
      | some d => { l with inside := .string (.escape d :: pieces) }
      | none => l.emit (.brokenString pieces.reverse .malformed)
  | .hex pieces bytes value, s =>
    let bytes := bytes + s.byteCount
    let value := do
      let d ← s.char?.bind hexDigit?
      return (← value) * 16 + d
    if bytes < 4 then { l with inside := .hex pieces bytes value }
    else match value with
      | some n => { l with inside := .string (.unit n :: pieces) }
      | none => l.emit (.brokenString pieces.reverse .malformed)

/-- All tokens, when the text ends here. -/
def Lexer.finish (l : Lexer) : List Token :=
  let l := match l.inside with
    | .gap => l
    | .word _ _ => l.emit (.brokenWord .ended)
    | .number scan =>
      if scan.phase.mayEnd then l.emit (.number scan.finish) else l.emit (.brokenNumber .ended)
    | .string pieces | .escape pieces | .hex pieces _ _ =>
      l.emit (.brokenString pieces.reverse .ended)
  l.tokens.reverse

/-- The tokens of a text. -/
def tokens (text : List Symbol) : List Token :=
  (text.foldl Lexer.step ⟨[], .gap⟩).finish

end ArgdownLens.Json
