import ArgdownLens.Uri.Percent

/-!
# Hosts

What may stand as the host of a URI. Schemes with a fixed meaning have domain names and addresses,
which are percent-decoded and mapped to ASCII; for all other schemes a host is any text without
delimiters, taken as it is.
-/

namespace ArgdownLens.Uri

/-- The parts of a text between the separators. -/
def splitOnSeparator (isSeparator : Char → Bool) : List Char → List (List Char)
  | [] => [[]]
  | c :: cs =>
    if isSeparator c then [] :: splitOnSeparator isSeparator cs
    else match splitOnSeparator isSeparator cs with
      | [] => [[c]]
      | part :: rest => (c :: part) :: rest

/-- The number that some digits denote in a base; `none` if one of them is no digit. -/
def number? (base : Nat) (digits : List Char) : Option Nat :=
  digits.foldlM (fun n c => do
    let d ← Json.hexDigit? c
    if d < base then some (n * base + d) else none) 0

/-- The number that one part of an address in four parts denotes: hexadecimal behind `0x`, octal
behind `0`, else decimal. -/
def addressNumber? : List Char → Option Nat
  | [] => none
  | '0' :: 'x' :: digits => number? 16 digits
  | '0' :: 'X' :: digits => number? 16 digits
  | '0' :: d :: digits => number? 8 (d :: digits)
  | digits => number? 10 digits

/-- The parts of a domain, without the empty one behind a final dot. -/
def domainParts (domain : List Char) : List (List Char) :=
  let parts := splitOnSeparator (· == '.') domain
  if 1 < parts.length ∧ parts.getLast? = some [] then parts.dropLast else parts

/-- Whether the last part of a domain is a number, so that the domain must be an address. -/
def endsInNumber (domain : List Char) : Bool :=
  match (domainParts domain).getLast? with
  | none => false
  | some part => (part ≠ [] && part.all Char.isDigit) || (addressNumber? part).isSome

/-- Whether a domain is an address in at most four parts: all but the last are bytes, and the last
one fills what is left of 32 bits. -/
def isAddress4 (domain : List Char) : Bool :=
  let parts := domainParts domain
  match parts.mapM addressNumber? with
  | none => false
  | some numbers =>
    numbers.length ≤ 4 && numbers.dropLast.all (· ≤ 255) &&
      numbers.getLastD 0 < Nat.pow 256 (5 - numbers.length)

/-- How many groups of 16 bits some text between colons is: at most four hexadecimal digits each;
the last one may be a dotted address, which is two. -/
def groupCount? (parts : List (List Char)) : Option Nat :=
  match parts with
  | [] => some 0
  | [part] =>
    if part.contains '.' then
      let bytes := splitOnSeparator (· == '.') part
      let isByte (b : List Char) : Bool :=
        b ≠ [] && b.all Char.isDigit && b.length ≤ 3 && (b.length == 1 || b.head? != some '0') &&
          (number? 10 b).any (· ≤ 255)
      if bytes.length = 4 ∧ bytes.all isByte then some 2 else none
    else if 1 ≤ part.length ∧ part.length ≤ 4 ∧ (number? 16 part).isSome then some 1 else none
  | part :: rest =>
    if 1 ≤ part.length ∧ part.length ≤ 4 ∧ (number? 16 part).isSome then
      (groupCount? rest).map (· + 1)
    else none

/-- The texts before and behind the first `::`. -/
def splitAtGap? : List Char → Option (List Char × List Char)
  | ':' :: ':' :: rest => some ([], rest)
  | c :: rest => (splitAtGap? rest).map fun (before, behind) => (c :: before, behind)
  | [] => none

/-- Whether a text is an address of eight groups, of which one gap may stand for several zeros. -/
def isAddress8 (text : List Char) : Bool :=
  let count (part : List Char) : Option Nat :=
    if part.isEmpty then some 0 else groupCount? (splitOnSeparator (· == ':') part)
  match splitAtGap? text with
  | none => count text == some 8
  | some (before, behind) =>
    match count before, count behind with
    | some m, some n => !before.contains '.' && m + n ≤ 7
    | _, _ => false

/-- Whether a host in square brackets is an address. -/
def isBracketed (host : List Char) : Bool :=
  host.getLast? == some ']' && isAddress8 (host.tail.dropLast)

/-- The characters that no domain has. -/
def isForbiddenInDomain (c : Char) : Bool :=
  c ≤ ' ' || c == '\x7F' || "#/:<>?@[\\]^|%".toList.contains c

/-- Whether a domain is of ASCII, and no label in it stands for other characters. -/
def isPlainDomain (domain : List Char) : Bool :=
  domain.all (fun c => c.toNat < 0x80 && !isForbiddenInDomain c) &&
    (splitOnSeparator (· == '.') domain).all fun label =>
      (label.take 4).map Char.toLower != "xn--".toList

/-- The mapping of domains to ASCII. It rests on tables of characters that are not part of the
program, so it is given from outside, and all that is known of it is what it does where no table is
asked. -/
structure DomainMapping where
  /-- The domain that a text means; `none` if it means none. -/
  map : List Char → Option (List Char)
  /-- A plain domain is brought to lower case. -/
  map_plain : ∀ domain, isPlainDomain domain → map domain = some (domain.map Char.toLower)

/-- A character of a domain in lower case: a full-width form is the character of ASCII that it looks
like, and of an invisible character nothing is left. -/
def foldDomainChar (c : Char) : List Char :=
  let n := c.toNat
  if 0xFF01 ≤ n ∧ n ≤ 0xFF5E then [(Char.ofNat (n - 0xFEE0)).toLower]
  else if n = 0xAD ∨ n = 0x200B ∨ n = 0x2060 ∨ n = 0xFEFF then []
  else [c.toLower]

/-- ASCII has no full-width forms and no invisible characters. -/
theorem foldDomainChar_ascii {c : Char} (h : c.toNat < 0x80) : foldDomainChar c = [c.toLower] := by
  have hwide : ¬ (0xFF01 ≤ c.toNat ∧ c.toNat ≤ 0xFF5E) := by omega
  have hseen : ¬ (c.toNat = 0xAD ∨ c.toNat = 0x200B ∨ c.toNat = 0x2060 ∨ c.toNat = 0xFEFF) := by
    omega
  simp only [foldDomainChar, if_neg hwide, if_neg hseen]

/-- The mapping without tables. It leaves out what the tables say of other characters: lower case
and compatible forms (such as `ſ` for `s`), the normal form, the encoding in ASCII, and the checks
of labels that begin with `xn--`. -/
def DomainMapping.plain : DomainMapping where
  map domain := some (domain.flatMap foldDomainChar)
  map_plain domain hplain := by
    have hascii : ∀ c ∈ domain, foldDomainChar c = [c.toLower] := by
      intro c hc
      have hchar := List.all_eq_true.mp (Bool.and_eq_true_iff.mp hplain).1 c hc
      exact foldDomainChar_ascii (of_decide_eq_true (Bool.and_eq_true_iff.mp hchar).1)
    rw [List.map_eq_flatMap]
    exact congrArg (some ∘ List.flatten) (List.map_congr_left hascii)

/-- The host that a text is for a scheme with a fixed meaning; `none` if it is none. -/
def domain? (domains : DomainMapping) (text : List Char) : Option String := do
  if text.head? = some '[' then
    if isBracketed text then return String.ofList text else none
  else
    let decoded ← Utf8.decode? (percentDecode (Utf8.encode (String.ofList text)))
    let domain ← domains.map decoded.toList
    if domain.isEmpty || domain.any isForbiddenInDomain then none
    else if endsInNumber domain && !isAddress4 domain then none
    else return String.ofList domain

/-- The characters that no host has. -/
def isForbiddenInHost (c : Char) : Bool :=
  c == '\x00' || c == '\t' || c == '\n' || c == '\r' || " #/:<>?@[\\]^|".toList.contains c

/-- The host that a text is for any other scheme; `none` if it is none. -/
def freeHost? (text : List Char) : Option String :=
  if text.head? = some '[' then
    if isBracketed text then some (String.ofList text) else none
  else if text.any isForbiddenInHost then none
  else some (String.ofList text)

end ArgdownLens.Uri
