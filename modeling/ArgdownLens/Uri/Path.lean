import ArgdownLens.Uri.Host

/-!
# Paths

The path of a URI is built segment by segment. A segment `.` adds nothing and a segment `..` takes
the segment before it away. Drive letters (a letter and a colon, or a bar) are kept: a `..` behind
one does nothing.
-/

namespace ArgdownLens.Uri

/-- The schemes, by how much of their form is fixed. -/
inductive SchemeKind where
  /-- Files. -/
  | file
  /-- Schemes that always have a host. -/
  | hosted
  /-- All others. -/
  | free
  deriving DecidableEq, Repr

/-- The kind of a scheme given in lower case. -/
def SchemeKind.ofName (name : String) : SchemeKind :=
  if name = "file" then .file
  else if name ∈ ["http", "https", "ws", "wss", "ftp"] then .hosted
  else .free

/-- Whether a character divides segments: the slash, and the backslash where the form is fixed. -/
def SchemeKind.isSlash (kind : SchemeKind) (c : Char) : Bool :=
  c == '/' || (c == '\\' && kind ≠ .free)

/-- Whether a character ends a path. -/
def endsPath (c : Char) : Bool :=
  c == '?' || c == '#'

/-- Whether a text begins with a drive letter that is a whole segment. -/
def startsWithDrive : List Char → Bool
  | letter :: mark :: rest =>
    letter.isAlpha && (mark == ':' || mark == '|') &&
      match rest with
      | [] => true
      | c :: _ => c == '/' || c == '\\' || endsPath c
  | _ => false

/-- Whether a text is a drive letter. -/
def isDrive (text : List Char) : Bool :=
  text.length == 2 && startsWithDrive text

/-- Whether a segment is `.`, in one of its spellings. -/
def isSingleDot (segment : List Char) : Bool :=
  [".", "%2e", "%2E"].contains (String.ofList segment)

/-- Whether a segment is `..`, in one of its spellings. -/
def isDoubleDot (segment : List Char) : Bool :=
  ["..", "%2e%2e", "%2e%2E", "%2E%2e", "%2E%2E", "%2e.", "%2E.", ".%2e", ".%2E"].contains
    (String.ofList segment)

/-- A path that is being built, its last character first, and the host, which a drive letter in the
path takes away. -/
structure PathBuilder where
  reversed : List Char
  host : Option String

namespace PathBuilder

/-- Whether the path ends with a slash. -/
def endsWithSlash (p : PathBuilder) : Bool :=
  p.reversed.head? == some '/'

/-- The path with a slash at its end. -/
def slashed (p : PathBuilder) : PathBuilder :=
  if p.endsWithSlash then p else { p with reversed := '/' :: p.reversed }

/-- Whether the slash at the end may go: it is not the first one, and the segment in front of it is
no drive letter. -/
def canDropSlash (p : PathBuilder) : Bool :=
  match p.reversed with
  | '/' :: before =>
    before.contains '/' && !startsWithDrive ((before.takeWhile (· ≠ '/')).reverse ++ ['/'])
  | _ => false

/-- Takes the last segment away, up to the slash in front of it. A drive letter of a file stays. -/
def dropSegment (kind : SchemeKind) (p : PathBuilder) : PathBuilder :=
  let segment := (p.reversed.takeWhile (· ≠ '/')).reverse
  if kind = .file ∧ isDrive segment ∧ segment.getLast? = some ':' then p
  else { p with reversed := p.reversed.dropWhile (· ≠ '/') }

/-- Adds a segment; `hasSlash` says whether a slash follows it. A drive letter as the first segment
of a file is written with a colon and stands for the whole file system, so there is no host then. -/
def addSegment (kind : SchemeKind) (p : PathBuilder) (segment : List Char) (hasSlash : Bool) :
    PathBuilder :=
  if isDoubleDot segment then
    let p := if p.canDropSlash then { p with reversed := p.reversed.tail } else p
    let p := p.dropSegment kind
    if hasSlash then p.slashed else p
  else if isSingleDot segment then p.slashed
  else
    let ending := if hasSlash then ['/'] else []
    if kind = .file ∧ p.reversed.length = 1 ∧ isDrive segment then
      ⟨ending ++ ':' :: segment.take 1 ++ p.reversed, none⟩
    else { p with reversed := ending ++ segment.reverse ++ p.reversed }

/-- Adds segments; all but the last one are followed by a slash. -/
def addSegments (kind : SchemeKind) (p : PathBuilder) : List (List Char) → PathBuilder
  | [] => p
  | [segment] => p.addSegment kind segment false
  | segment :: rest => (p.addSegment kind segment true).addSegments kind rest

/-- Adds the text of a path up to a query or a fragment. -/
def addText (kind : SchemeKind) (p : PathBuilder) (text : List Char) : PathBuilder :=
  p.addSegments kind
    (splitOnSeparator kind.isSlash (text.takeWhile fun c => !endsPath c))

/-- The path in order. The path of a file begins with one slash. -/
def finish (kind : SchemeKind) (p : PathBuilder) : List Char :=
  match kind with
  | .file => '/' :: p.reversed.reverse.dropWhile (· == '/')
  | _ => p.reversed.reverse

end PathBuilder

end ArgdownLens.Uri
