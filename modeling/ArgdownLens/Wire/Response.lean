import ArgdownLens.Model.Response
import ArgdownLens.Wire.Tree

/-!
# Answers of the engine on the wire

`decodeBytes` reads what an engine prints, and `decode` reads a text. A fault of the JSON text
anywhere comes before a node without a name anywhere.
-/

namespace ArgdownLens.Wire

open Json

/-- The fields of a parser error. -/
def parserErrorRecord : Record ParserError where
  title := "struct ParserError"
  blank := ⟨"", spanRecord.blank⟩
  fields := [
    .mandatory "message" string fun s e => { e with message := s },
    .mandatory "token" span fun s e => { e with token := s }]

/-- An answer as it is sent. -/
structure LooseResponse where
  ast : LooseNode := {}
  statements : OrderedMap EquivalenceClass := .empty
  arguments : OrderedMap Argument := .empty
  tags : Option OrderedSet := none
  parserErrors : List ParserError := []
  deriving Repr, Inhabited

/-- The fields of an answer. The values in the dictionary of tags are not looked at. -/
def responseRecord : Record LooseResponse where
  title := "struct WireResponse"
  blank := {}
  fields := [
    .mandatory "ast" node fun n r => { r with ast := n },
    .standard "statements" (map equivalenceClass) fun m r => { r with statements := m },
    .standard "arguments" (map argument) fun m r => { r with arguments := m },
    .standard "tagsDictionary" (optional (map ignored)) fun m r => { r with tags := m },
    .standard "parserErrors" (list parserErrorRecord.decoder)
      fun es r => { r with parserErrors := es }]

/-- Why an answer could not be decoded. -/
inductive DecodeError where
  | json (fault : Fault)
  | unnamed (node : Unnamed)
  deriving DecidableEq, Repr

/-- The answer with its tree closed. -/
def LooseResponse.close (r : LooseResponse) : Except DecodeError Response :=
  match r.ast.close with
  | .error e => .error (.unnamed e)
  | .ok ast => .ok ⟨ast, r.statements, r.arguments, r.tags, r.parserErrors⟩

/-- The answer that some symbols describe. -/
def decodeSymbols (text : List Symbol) : Except DecodeError Response :=
  match readWhole (responseRecord.decoder maxDepth) text with
  | .error fault => .error (.json fault)
  | .ok r => r.close

/-- The answer that a text describes. -/
def decode (text : String) : Except DecodeError Response :=
  decodeSymbols (symbolsOf text)

/-- The answer that some bytes describe. -/
def decodeBytes (bytes : List UInt8) : Except DecodeError Response :=
  decodeSymbols (Utf8.symbols bytes)

end ArgdownLens.Wire
