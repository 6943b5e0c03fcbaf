import ArgdownLens.Query.Rename

/-!
# Completion

What to offer behind a character that was just typed: titles behind an opening bracket, the known
texts of an entity behind the colon of its definition, and tags behind a hash.
-/

namespace ArgdownLens

/-- What a completion inserts. -/
inductive CompletionKind where
  | variableName | value | keyword
  deriving DecidableEq, Repr, Inhabited

/-- The number of the kind in the language server protocol. -/
def CompletionKind.toLsp : CompletionKind → Nat
  | .variableName => 6
  | .value => 12
  | .keyword => 14

/-- One thing to offer. -/
structure CompletionItem where
  label : String
  kind : CompletionKind
  detail : Option String := none
  insertText : Option String := none
  textEdit : Option TextEdit := none
  deriving DecidableEq, Repr, Inhabited

namespace CompletionItem

/-- Offers a title, to be put over the brackets around the cursor. -/
def ofTitle (window : Range) (entity : EntityRef) (detail : Option String) : CompletionItem :=
  { label := entity.toArgdown, kind := .variableName, detail := detail,
    textEdit := some ⟨window, entity.toArgdown⟩ }

/-- Offers a text that an entity already has. -/
def ofKnownText (entity : EntityRef) (m : Member) : CompletionItem :=
  { label := m.text, kind := .value, detail := some (entity.toArgdown ++ ": " ++ m.text),
    insertText := some (" " ++ m.text ++ "\n") }

/-- Offers a tag. -/
def ofTag (tag : String) : CompletionItem :=
  { label := "#(" ++ tag ++ ")", kind := .keyword, insertText := some ("(" ++ tag ++ ")") }

end CompletionItem

/-- The characters on both sides of the cursor: the bracket typed and the one that editors add. -/
def triggerWindow (p : Position) : Range :=
  .ofCoordinates p.line (p.character - 1) p.line (p.character + 1)

/-- The title that is closed at the end of the text: what stands between the last opening bracket
and a closing bracket at the very end, unless that is nothing. -/
def closedTitle? (opening closing : Char) (before : List Char) : Option String :=
  match before.reverse with
  | [] => none
  | last :: rest =>
    let title := rest.takeWhile (· ≠ opening)
    if last = closing ∧ title ≠ [] ∧ title.length < rest.length then
      some (String.ofList title.reverse)
    else none

/-- The known texts of the entity whose title is closed at the end of the text. -/
def Response.knownTexts (r : Response) (before : List Char) : List CompletionItem :=
  match closedTitle? '[' ']' before with
  | some title =>
    match r.statement? title with
    | none => []
    | some c => c.members.map (.ofKnownText (.statement title))
  | none =>
    match closedTitle? '<' '>' before with
    | some title =>
      match r.argument? title with
      | none => []
      | some a => a.descriptions.map (.ofKnownText (.argument title))
    | none => []

/-- What to offer when `trigger` was typed at a position of a text. `offset` is the byte behind the
character typed; the text that counts ends one byte earlier. -/
def Response.completions (r : Response) (trigger : Char) (p : Position) (text : String)
    (offset : Nat) : List CompletionItem :=
  match trigger with
  | '[' => r.statements.values.map fun c =>
      .ofTitle (triggerWindow p) (.statement c.title) c.canonicalText?
  | '<' => r.arguments.values.map fun a =>
      .ofTitle (triggerWindow p) (.argument a.title) (a.canonicalDescription?.map Member.text)
  | ':' =>
    match Text.upTo? (offset - 1) text.toList with
    | none => []
    | some before => r.knownTexts before
  | '#' => (r.tags.map OrderedMap.keys).getD [] |>.map .ofTag
  | _ => []

end ArgdownLens
