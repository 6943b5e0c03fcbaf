import ArgdownLens.Model.Entity
import ArgdownLens.Wire.Decoder

/-!
# Statements and arguments on the wire

The decoders of everything that the engine sends besides the tree. A member and a premise-conclusion
structure carry the four fields of their span among their own.
-/

namespace ArgdownLens.Wire

open Json

/-- The fields of a span. -/
def spanRecord : Record Span where
  title := "struct Span"
  blank := ⟨0, 0, 0, 0⟩
  fields := [
    .mandatory "startLine" coordinate fun n s => { s with startLine := n },
    .mandatory "startColumn" coordinate fun n s => { s with startColumn := n },
    .mandatory "endLine" coordinate fun n s => { s with endLine := n },
    .mandatory "endColumn" coordinate fun n s => { s with endColumn := n }]

/-- A span. -/
def span : Decoder Span :=
  spanRecord.decoder

/-- The fields of a member besides those of its span. -/
def memberRecord : Record Member where
  title := "struct Member"
  blank := { text := "", span := spanRecord.blank }
  fields := [
    .standard "text" string fun s m => { m with text := s },
    .standard "isCanonical" boolean fun b m => { m with isCanonical := b }]

/-- A member. -/
def member : Decoder Member
  | room, v => do
    let (m, s) ← flattened memberRecord spanRecord room v
    return { m with span := s }

/-- The fields of a premise-conclusion structure besides those of its span. -/
def reconstructionRecord : Record Reconstruction where
  title := "struct Pcs"
  blank := { span := spanRecord.blank }
  fields := [.standard "statements" (list string) fun ss r => { r with statements := ss }]

/-- A premise-conclusion structure. -/
def reconstruction : Decoder Reconstruction
  | room, v => do
    let (r, s) ← flattened reconstructionRecord spanRecord room v
    return { r with span := s }

/-! ## Relations -/

/-- The value of a name that must be one of those listed. -/
def oneOf {α : Type} (choices : List (String × α)) (name : String) : Except Fault α :=
  match choices.lookup name with
  | some a => .ok a
  | none => .error (.mismatch (.unknownVariant name (choices.map Prod.fst)))

/-- The names of the types of relations. -/
def relationNames : List (String × RelationType) :=
  [("support", .support), ("attack", .attack), ("undercut", .undercut), ("entails", .entails),
    ("contrary", .contrary), ("contradictory", .contradictory)]

/-- What the name of a choice is called where it is missing. -/
def variantName : String := "variant identifier"

/-- What a token is where the name of a choice should stand. -/
def tokenFound : Token → Except Fault Found
  | .null => .ok .null
  | .bool b => .ok (.bool b)
  | .number l => return .number (← l.value)
  | .openArray => .ok .sequence
  | .openObject => .ok .map
  | t => .error (valueFault (some t))

/-- The contents of an object that is to hold one name with the value `null` and nothing else. -/
def soleName {α : Type} (choices : List (String × α)) :
    List (List Piece × Raw) → Ending → Except Fault α
  | [], .keyless _ (some t) => do
    .error (.mismatch (.wrongType (← tokenFound t) variantName))
  | [], .closed => .error .malformed
  | [], ending => do
    ending.check
    .error .malformed
  | (key, v) :: more, ending => do
    let a ← oneOf choices (← textOf key)
    match v with
    | .null => pure ()
    | v => refuse "unit" v
    match more, ending with
    | [], .closed => return a
    | [], .stopped none => .error .ended
    | _, _ => .error .malformed

/-- The type of a relation: its name, or an object whose only member has that name and the value
`null`. Anything else is no JSON to this decoder. -/
def relationType : Decoder RelationType
  | _, .string pieces => do oneOf relationNames (← textOf pieces)
  | room, .object ms ending => do
    let _ ← openBracket room
    soleName relationNames ms ending
  | _, .broken none => .error .ended
  | _, .broken (some (.brokenString pieces fault)) => .error (brokenTextFault pieces fault)
  | _, _ => .error .malformed

/-- The kinds of entities: the name of the kind, how to refer to an entity of it, and what it is
called in messages. -/
def entityKinds : List (String × ((String → EntityRef) × String)) :=
  [("statement", (.statement, "struct variant EntityRef::Statement")),
    ("argument", (.argument, "struct variant EntityRef::Argument"))]

/-- The kind of an entity. -/
def entityKind : Decoder ((String → EntityRef) × String)
  | room, v => do oneOf entityKinds (← stringAs variantName room v)

/-- The title of an entity. -/
def titleRecord : Record String where
  title := "struct variant"
  blank := ""
  fields := [.mandatory "title" string fun s _ => s]

/-- The members of an object that refers to an entity: its kind, as soon as it is read, and all
other members in full. -/
def entityMembers (room : Nat) (kind : Option ((String → EntityRef) × String)) :
    List (List Piece × Raw) →
      Except Fault (Option ((String → EntityRef) × String) × List (String × Raw))
  | [] => .ok (kind, [])
  | (key, v) :: ms => do
    let name ← textOf key
    if name = "kind" then
      if kind.isSome then .error (.mismatch (.duplicateField "kind"))
      else entityMembers room (some (← entityKind room v)) ms
    else
      let _ ← v.read room
      let (kind, others) ← entityMembers room kind ms
      return (kind, (name, v) :: others)

/-- A reference to an entity: an object with its kind and its title, or an array of the two. The
title is looked at when everything has been read. -/
def entityRef : Decoder EntityRef
  | room, .array vs ending => do
    let room ← openBracket room
    match vs with
    | [] =>
      ending.check
      .error (.mismatch (.missingField "kind"))
    | v :: rest =>
      let (refer, title) ← entityKind room v
      let _ ← Raw.readItems room rest
      ending.check
      match rest with
      | [] => .error (.mismatch (.wrongLength 0 s!"{title} with 1 element"))
      | v :: more =>
        let name ← string room v
        if more.isEmpty then return refer name
        else .error (.mismatch (.wrongLength rest.length "1 element in sequence"))
  | room, .object ms ending => do
    let room ← openBracket room
    let (kind, others) ← entityMembers room none ms
    ending.check
    match kind with
    | none => .error (.mismatch (.missingField "kind"))
    | some (refer, _) =>
      let name ← titleRecord.finish (← titleRecord.giveNamed room titleRecord.start others)
      return refer name
  | _, v => refuse "internally tagged enum EntityRef" v

/-- The fields of a relation. -/
def relationRecord : Record Relation where
  title := "struct Relation"
  blank := ⟨.support, .statement "", .statement ""⟩
  fields := [
    .mandatory "type" relationType fun t r => { r with type := t },
    .mandatory "from" entityRef fun e r => { r with source := e },
    .mandatory "to" entityRef fun e r => { r with target := e }]

/-- A relation. -/
def relation : Decoder Relation :=
  relationRecord.decoder

/-! ## Statements, arguments and errors -/

/-- The fields of a class of statements. -/
def equivalenceClassRecord : Record EquivalenceClass where
  title := "struct EquivalenceClass"
  blank := { title := "" }
  fields := [
    .mandatory "title" string fun s c => { c with title := s },
    .standard "members" (list member) fun ms c => { c with members := ms },
    .standard "relations" (list relation) fun rs c => { c with relations := rs },
    .standard "tags" (list string) fun ts c => { c with tags := ts }]

/-- A class of statements. -/
def equivalenceClass : Decoder EquivalenceClass :=
  equivalenceClassRecord.decoder

/-- The fields of an argument. -/
def argumentRecord : Record Argument where
  title := "struct Argument"
  blank := { title := "" }
  fields := [
    .mandatory "title" string fun s a => { a with title := s },
    .standard "descriptions" (list member) fun ms a => { a with descriptions := ms },
    .standard "pcs" (optional reconstruction) fun r a => { a with reconstruction := r },
    .standard "relations" (list relation) fun rs a => { a with relations := rs },
    .standard "tags" (list string) fun ts a => { a with tags := ts }]

/-- An argument. -/
def argument : Decoder Argument :=
  argumentRecord.decoder

end ArgdownLens.Wire
