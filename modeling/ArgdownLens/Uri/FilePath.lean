import ArgdownLens.Uri.Path

/-!
# The file that a URI names

A URI with a path of segments and without a host, or with the host `localhost`, names a file,
whatever its scheme. The path of the file is the percent-decoded path of the URI; file systems do
not say that it is text, so it is a list of bytes.
-/

namespace ArgdownLens.Uri

/-- A URI as far as it matters for files: its host and its path. -/
structure Locator where
  host : Option String
  path : List Char
  deriving DecidableEq, Repr

/-- The text without the blanks and controls around it, and without tabs and line ends. -/
def clean (text : List Char) : List Char :=
  let isOuter (c : Char) : Bool := c ≤ ' '
  let trimmed := ((text.dropWhile isOuter).reverse.dropWhile isOuter).reverse
  trimmed.filter fun c => !(c == '\t' || c == '\n' || c == '\r')

/-- The scheme in lower case, and the text behind its colon. -/
def scheme? (text : List Char) : Option (String × List Char) :=
  let isInner (c : Char) : Bool := c.isAlphanum || c == '+' || c == '-' || c == '.'
  let name := text.takeWhile isInner
  match name, text.dropWhile isInner with
  | first :: _, ':' :: rest =>
    if first.isAlpha then some (String.ofList (name.map Char.toLower), rest) else none
  | _, _ => none

/-- The end of a builder's work. -/
def PathBuilder.locator (kind : SchemeKind) (p : PathBuilder) : Locator :=
  ⟨p.host, p.finish kind⟩

/-! ## Files -/

/-- The rest of a file's URI behind its scheme. Two slashes are followed by a host, which is none if
it is empty or `localhost`; a drive letter is no host. -/
def fileLocator? (domains : DomainMapping) (text : List Char) : Option Locator :=
  let kind := SchemeKind.file
  match text with
  | a :: b :: rest =>
    if kind.isSlash a && kind.isSlash b then
      let isHostChar (c : Char) : Bool := !(kind.isSlash c || endsPath c)
      let host := rest.takeWhile isHostChar
      if isDrive host then
        some ((PathBuilder.addText kind ⟨['/'], none⟩ rest).locator kind)
      else
        let behind := rest.dropWhile isHostChar
        if host.isEmpty then some ((PathBuilder.addText kind ⟨['/'], none⟩ behind).locator kind)
        else do
          let name ← domain? domains host
          if name = "localhost" then
            return (PathBuilder.addText kind ⟨['/'], none⟩ behind).locator kind
          else
            let inner := match behind with
              | c :: cs => if kind.isSlash c then cs else behind
              | [] => []
            return (PathBuilder.addText kind ⟨['/'], some name⟩ inner).locator kind
    else if kind.isSlash a then some ((PathBuilder.addText kind ⟨[], none⟩ text).locator kind)
    else some ((PathBuilder.addText kind ⟨['/'], none⟩ text).locator kind)
  | [a] =>
    if kind.isSlash a then some ((PathBuilder.addText kind ⟨[], none⟩ text).locator kind)
    else some ((PathBuilder.addText kind ⟨['/'], none⟩ text).locator kind)
  | [] => some ((PathBuilder.addText kind ⟨['/'], none⟩ text).locator kind)

/-! ## Hosts with credentials and ports -/

/-- What stands behind the two slashes, cut into credentials, host and the rest. -/
structure Authority where
  hasCredentials : Bool
  host : List Char
  rest : List Char

/-- The part of a text up to its last `@`, without it, and the part behind it. -/
def splitCredentials? (text : List Char) : Option (List Char × List Char) :=
  let behind := (text.reverse.takeWhile (· ≠ '@')).reverse
  if behind.length = text.length then none
  else some (text.take (text.length - behind.length - 1), behind)

/-- The characters of a host up to a colon that does not stand in square brackets. -/
def hostPart (inBrackets : Bool) : List Char → List Char
  | [] => []
  | c :: cs =>
    if c = ':' ∧ ¬ inBrackets then []
    else c :: hostPart (if c = '[' then true else if c = ']' then false else inBrackets) cs

/-- Cuts an authority off. Nothing may stand for a host behind empty credentials. -/
def authority? (kind : SchemeKind) (text : List Char) : Option Authority :=
  let isInner (c : Char) : Bool := !(kind.isSlash c || endsPath c)
  let inner := text.takeWhile isInner
  let behind := text.dropWhile isInner
  match splitCredentials? inner with
  | none =>
    let host := hostPart false inner
    some ⟨false, host, inner.drop host.length ++ behind⟩
  | some (credentials, hostAndPort) =>
    if credentials.isEmpty ∧ hostAndPort.isEmpty ∧ ¬ behind.isEmpty then none
    else
      let host := hostPart false hostAndPort
      some ⟨credentials ≠ [] ∧ credentials ≠ [':'], host, hostAndPort.drop host.length ++ behind⟩

/-- The text behind a port, if there is one. A port is a number below 65536, which may be left out,
and something that can follow a host must follow it. -/
def behindPort? (text : List Char) : Option (List Char) :=
  match text with
  | ':' :: rest =>
    let digits := rest.takeWhile Char.isDigit
    let behind := rest.dropWhile Char.isDigit
    let isFollowed := match behind with
      | [] => true
      | c :: _ => c == '/' || c == '\\' || endsPath c
    if isFollowed && (number? 10 digits).any (· ≤ 65535) then some behind else none
  | _ => some text

/-- The rest of a URI behind two slashes. A scheme that always has a host has a path, too. -/
def hostedLocator? (domains : DomainMapping) (kind : SchemeKind) (text : List Char) :
    Option Locator := do
  let authority ← authority? kind text
  match kind with
  | .free =>
    let name ← freeHost? authority.host
    if name.isEmpty && (authority.rest.head? == some ':' || authority.hasCredentials) then none
    else
      let behind ← behindPort? authority.rest
      let host := if name.isEmpty then none else some name
      let start := match behind with
        | [] => []
        | c :: _ => if c == '/' || endsPath c then [] else ['/']
      return (PathBuilder.addText kind ⟨start, host⟩ behind).locator kind
  | _ =>
    let name ← domain? domains authority.host
    let behind ← behindPort? authority.rest
    let inner := match behind with
      | c :: cs => if kind.isSlash c then cs else behind
      | [] => []
    return (PathBuilder.addText kind ⟨['/'], some name⟩ inner).locator kind

/-! ## Any scheme -/

/-- The host and the path of a URI. A URI without slashes behind its scheme has a path of segments
only if the form of its scheme is fixed. -/
def locator? (domains : DomainMapping) (uri : String) : Option Locator := do
  let (scheme, rest) ← scheme? (clean uri.toList)
  let kind := SchemeKind.ofName scheme
  match kind with
  | .file => fileLocator? domains rest
  | .hosted => hostedLocator? domains kind (rest.dropWhile kind.isSlash)
  | .free =>
    match rest with
    | '/' :: '/' :: inner => hostedLocator? domains kind inner
    | '/' :: inner => return (PathBuilder.addText kind ⟨['/'], none⟩ inner).locator kind
    | _ => none

/-- Whether a path ends with a letter and a colon or a bar, like a drive. -/
def endsLikeDrive (path : List UInt8) : Bool :=
  match path.reverse with
  | mark :: letter :: _ :: _ =>
    (Char.ofNat letter.toNat).isAlpha && (mark == 0x3A || mark == 0x7C)
  | _ => false

/-- The file that a URI names, if it names one. A path that ends like a drive ends with a slash. -/
def filePath? (domains : DomainMapping) (uri : String) : Option (List UInt8) := do
  let l ← locator? domains uri
  if (l.host.isNone || l.host == some "localhost") && l.path.head? == some '/' then
    let path := percentDecode (Utf8.encode (String.ofList l.path))
    return if endsLikeDrive path then path ++ [0x2F] else path
  else none

end ArgdownLens.Uri
