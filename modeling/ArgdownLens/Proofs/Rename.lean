import ArgdownLens.Proofs.Text.Offset
import ArgdownLens.Proofs.Tree.Preorder
import ArgdownLens.Query.Rename

/-!
# What a rename does to the text

A document is a sequence of fragments, some of which are tokens that name symbols. If the tree of an
answer has exactly these tokens where they stand in the text, then the edits of a rename, applied to
the text, write the tokens of the symbol anew and leave everything else as it is
(`applyEdits?_planRename`). The edits go by lines and UTF-16 columns and are applied to bytes, the
last one first; the induction goes over the fragments from the last one to the first, and the
characters in front of a fragment give both its position and its bytes.
-/

namespace ArgdownLens

open Text (positionBehind)

/-! ## Documents as sequences of fragments -/

/-- A token that names a symbol, as it is written in a document: on one line. -/
structure WrittenToken where
  kind : OccurrenceKind
  key : String
  spelling : String
  single_line : '\n' ∉ spelling.toList

/-- A fragment of a document. -/
inductive Fragment where
  | literal (text : String)
  | token (t : WrittenToken)

/-- Whether the token names the symbol of the occurrence. -/
def WrittenToken.names (t : WrittenToken) (o : Occurrence) : Bool :=
  t.kind.family = o.family ∧ t.key = o.key

/-- The text of a fragment. -/
def Fragment.text : Fragment → String
  | .literal text => text
  | .token t => t.spelling

/-- The text of a fragment after the symbol of the occurrence got a new name. -/
def Fragment.renamed (o : Occurrence) (newName : String) : Fragment → String
  | .literal text => text
  | .token t => if t.names o then t.kind.render newName else t.spelling

/-- The span that a token takes behind the characters `before`: its line and its first column,
counted from one, and its last column. -/
def WrittenToken.span (t : WrittenToken) (before : List Char) : Span :=
  let p := positionBehind before
  .onLine (p.line + 1) (p.character + 1) (p.character + Text.units t.spelling.toList)

/-- The tokens among some fragments, with the spans that they take if the fragments stand behind
the characters `before`. -/
def tokensBehind (before : List Char) : List Fragment → List (WrittenToken × Span)
  | [] => []
  | .literal text :: ps => tokensBehind (before ++ text.toList) ps
  | .token t :: ps => (t, t.span before) :: tokensBehind (before ++ t.spelling.toList) ps

/-- An answer describes a document if the occurrences of its tree are the tokens of the document, in
order, by kind, key and span. -/
def Response.Describes (r : Response) (document : List Fragment) : Prop :=
  r.occurrences.map (fun o => (o.kind, o.key, o.node.span)) =
    (tokensBehind [] document).map fun (t, span) => (t.kind, t.key, span)

instance (r : Response) (document : List Fragment) : Decidable (r.Describes document) :=
  inferInstanceAs (Decidable (_ = _))

/-! ## The edits of a rename -/

/-- The edits that write the tokens of a symbol anew. -/
def tokenEdits (o : Occurrence) (newName : String) (tokens : List (WrittenToken × Span)) :
    List TextEdit :=
  (tokens.filter fun x => x.1.names o).map fun x => ⟨x.2.toRange, x.1.kind.render newName⟩

/-- The edit of a token that names the symbol, in front of those of the others. -/
theorem tokenEdits_cons (o : Occurrence) (newName : String) (x : WrittenToken × Span)
    (tokens : List (WrittenToken × Span)) :
    tokenEdits o newName (x :: tokens) =
      if x.1.names o then ⟨x.2.toRange, x.1.kind.render newName⟩ :: tokenEdits o newName tokens
      else tokenEdits o newName tokens := by
  unfold tokenEdits
  rw [List.filter_cons]
  split_ifs <;> rfl

/-- Whether a kind and a key are those of the symbol of the occurrence. -/
def Occurrence.isNamedBy (o : Occurrence) (x : OccurrenceKind × String × Span) : Bool :=
  x.1.family = o.family ∧ x.2.1 = o.key

/-- The edit that writes a name in the form of the kind where the span is. -/
def editOf (newName : String) (x : OccurrenceKind × String × Span) : TextEdit :=
  ⟨x.2.2.toRange, x.1.render newName⟩

/-- The edits that an answer plans are those of the tokens of the document that it describes. -/
theorem editsFor_planRename {r : Response} {document : List Fragment} (h : r.Describes document)
    (uri : String) (o : Occurrence) (newName : String) :
    (r.planRename uri o newName).editsFor uri =
      tokenEdits o newName (tokensBehind [] document) := by
  -- The map of changes has the document as its only entry.
  have hplan : (r.planRename uri o newName).editsFor uri =
      (r.occurrencesOf o true).map (·.renameEdit newName) := by
    unfold WorkspaceEdit.editsFor Response.planRename
    rw [OrderedMap.get?_insert, if_pos rfl, Option.getD_some]
  -- Both sides only look at kinds, keys and spans, in which the answer describes the document.
  have hoccurrences : (r.occurrencesOf o true).map (·.renameEdit newName) =
      ((r.occurrences.map fun x => (x.kind, x.key, x.node.span)).filter o.isNamedBy).map
        (editOf newName) := by
    rw [List.filter_map, List.map_map]
    unfold Response.occurrencesOf
    simp only [Bool.true_or, Bool.and_true]
    rfl
  have htokens : tokenEdits o newName (tokensBehind [] document) =
      (((tokensBehind [] document).map fun (t, span) => (t.kind, t.key, span)).filter
        o.isNamedBy).map (editOf newName) := by
    rw [List.filter_map, List.map_map]
    rfl
  calc (r.planRename uri o newName).editsFor uri
      = ((r.occurrences.map fun x => (x.kind, x.key, x.node.span)).filter o.isNamedBy).map
          (editOf newName) := by rw [hplan, hoccurrences]
    _ = tokenEdits o newName (tokensBehind [] document) := by rw [htokens, h]

/-- A token takes the range from behind the characters in front of it to behind itself. -/
theorem toRange_span (t : WrittenToken) (before : List Char) :
    (t.span before).toRange =
      ⟨positionBehind before, positionBehind (before ++ t.spelling.toList)⟩ := by
  rw [Text.positionBehind_append, Text.foldl_advance_of_notMem t.single_line]
  rfl

/-- Tokens stand behind the characters in front of them. -/
theorem positionBehind_le_start {before : List Char} {ps : List Fragment} :
    ∀ x ∈ tokensBehind before ps, positionBehind before ≤ x.2.toRange.start := by
  induction ps generalizing before with
  | nil => simp [tokensBehind]
  | cons fragment ps ih =>
    cases fragment with
    | literal text =>
      intro x hx
      refine Position.le_trans ?_ (ih x hx)
      rw [Text.positionBehind_append]
      exact Text.le_foldl_advance _ _
    | token t =>
      intro x hx
      -- The token starts right here, and the others start behind it.
      rcases List.mem_cons.mp hx with rfl | hx
      · rw [toRange_span]
        exact Or.inr ⟨rfl, Nat.le_refl _⟩
      · refine Position.le_trans ?_ (ih x hx)
        rw [Text.positionBehind_append]
        exact Text.le_foldl_advance _ _

/-- The edits stand in the order of the text. -/
theorem pairwise_tokenEdits (o : Occurrence) (newName : String) (before : List Char)
    (ps : List Fragment) :
    (tokenEdits o newName (tokensBehind before ps)).Pairwise
      fun a b => decide (a.range.start ≤ b.range.start) := by
  unfold tokenEdits
  rw [List.pairwise_map]
  apply List.Pairwise.filter
  simp only [decide_eq_true_eq]
  induction ps generalizing before with
  | nil => exact List.Pairwise.nil
  | cons fragment ps ih =>
    cases fragment with
    | literal text => exact ih _
    | token t =>
      refine List.Pairwise.cons ?_ (ih _)
      -- A later token starts behind the text of this one.
      intro x hx
      refine Position.le_trans ?_ (positionBehind_le_start x hx)
      rw [toRange_span, Text.positionBehind_append]
      exact Text.le_foldl_advance _ _

/-! ## Applying them -/

/-- An edit replaces the stretch between two positions, whatever was done to the text behind it. -/
theorem apply?_between {text : String} {before old rest changed : List Char} {new : String}
    (h : text.toList = before ++ old ++ rest) :
    TextEdit.apply? ⟨⟨positionBehind before, positionBehind (before ++ old)⟩, new⟩
      (.ofText text) (before ++ old ++ changed) = some (before ++ new.toList ++ changed) := by
  have hbegins : text.toList = before ++ (old ++ rest) := by rw [h, List.append_assoc]
  have hstart := LineIndex.offset?_positionBehind hbegins
  have hstop := LineIndex.offset?_positionBehind h
  have hbefore := Text.upTo?_byteSize before (old ++ changed)
  have hreplaced := Text.upTo?_byteSize (before ++ old) changed
  rw [← List.append_assoc] at hbefore
  -- Up to the end of the old stretch nothing was done to the text, so both offsets still hold.
  have hle : Text.byteSize before ≤ Text.byteSize (before ++ old) := by
    rw [Text.byteSize_append]
    exact Nat.le_add_right _ _
  unfold TextEdit.apply? Text.splice?
  simp only [hstart, hstop, Option.bind_eq_bind, Option.bind_some, hbefore, hreplaced]
  rw [if_pos hle, List.drop_left]

/-- Applied from the last one to the first, the edits write the fragments anew in the same order. -/
theorem foldrM_apply? {text : String} (o : Occurrence) (newName : String) (ps : List Fragment) :
    ∀ before : List Char, text.toList = before ++ ps.flatMap (·.text.toList) →
      (tokenEdits o newName (tokensBehind before ps)).foldrM
          (fun e cs => e.apply? (.ofText text) cs) text.toList =
        some (before ++ ps.flatMap fun p => (p.renamed o newName).toList) := by
  induction ps with
  | nil =>
    intro before h
    rw [h]
    rfl
  | cons fragment ps ih =>
    intro before h
    rw [List.flatMap_cons, ← List.append_assoc] at h
    have hrest := ih _ h
    rw [List.flatMap_cons]
    cases fragment with
    | literal text =>
      rw [tokensBehind]
      rw [List.append_assoc] at hrest
      exact hrest
    | token t =>
      rw [Fragment.text] at h hrest
      rw [tokensBehind, tokenEdits_cons, Fragment.renamed]
      -- The text behind the token is renamed already. Now the token is, if it names the symbol.
      by_cases hnames : t.names o
      · rw [if_pos hnames, if_pos hnames, List.foldrM_cons, hrest]
        dsimp only [Option.bind_eq_bind, Option.bind_some]
        rw [toRange_span, ← List.append_assoc]
        exact apply?_between h
      · rw [if_neg hnames, if_neg hnames, hrest, List.append_assoc]

/-- Let an answer describe a document. Then the edits that rename a symbol, applied to the text of
the document, give the text in which every token of the symbol is written under the new name, in the
form of its own kind, and everything else is as before. -/
theorem applyEdits?_planRename (document : List Fragment) (r : Response) (h : r.Describes document)
    (uri : String) (o : Occurrence) (newName : String) :
    applyEdits? (String.join (document.map Fragment.text))
        ((r.planRename uri o newName).editsFor uri) =
      some (String.join (document.map (Fragment.renamed o newName))) := by
  have htext : (String.join (document.map Fragment.text)).toList =
      [] ++ document.flatMap (·.text.toList) := by
    rw [String.toList_join, List.flatMap_map]
    rfl
  have hrenamed : String.ofList (document.flatMap fun p => (p.renamed o newName).toList) =
      String.join (document.map (Fragment.renamed o newName)) := by
    rw [← String.toList_inj, String.toList_ofList, String.toList_join, List.flatMap_map]
  -- The edits are sorted already, so that the order to apply them in is the reverse one.
  unfold applyEdits?
  rw [editsFor_planRename h, List.mergeSort_of_pairwise (pairwise_tokenEdits o newName [] document)]
  dsimp only
  rw [List.foldlM_reverse, foldrM_apply? o newName document [] htext, List.nil_append,
    Option.map_some, hrenamed]

/-- A definition behind a character of two code units, and a tag and a mention without anything
between them, all under the key `S1`. -/
def mixedDocument : List Fragment :=
  [.literal "😀 ", .token ⟨.statementDefinition, "S1", "[S1]:", by decide⟩, .literal " ä.\n",
    .token ⟨.tag, "S1", "#S1", by decide⟩, .token ⟨.statementMention, "S1", "@[S1]", by decide⟩]

/-- The tree of the document. -/
def mixedAnswer : Response where
  ast := ⟨.rule "argdown", ⟨1, 1, 2, 8⟩,
    [⟨.statement ⟨.definition, some "S1", none⟩, .onLine 1 4 8, []⟩,
      ⟨.tag (some "S1"), .onLine 2 1 3, []⟩,
      ⟨.statement ⟨.mention, none, some "S1"⟩, .onLine 2 4 8, []⟩]⟩

/-- Renaming the statement there leaves the tag alone. -/
theorem mixedDocument_renamed :
    mixedAnswer.Describes mixedDocument ∧
      applyEdits? "😀 [S1]: ä.\n#S1@[S1]"
          ((mixedAnswer.planRename "file:///a" ⟨.statementReference, "S1", default⟩ "𝕏").editsFor
            "file:///a") =
        some "😀 [𝕏]: ä.\n#S1@[𝕏]" := by
  have hdescribes : mixedAnswer.Describes mixedDocument := by decide
  exact ⟨hdescribes, applyEdits?_planRename mixedDocument mixedAnswer hdescribes "file:///a"
    ⟨.statementReference, "S1", default⟩ "𝕏"⟩

end ArgdownLens
