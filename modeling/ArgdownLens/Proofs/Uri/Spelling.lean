import ArgdownLens.Proofs.Text.Utf8
import ArgdownLens.Proofs.Uri.FilePath
import Mathlib.Data.List.Forall2

/-!
# Paths in file URIs

A path is written into the URI of a file segment by segment, each byte of it either as it is or as
two hexadecimal digits behind a percent sign (`Spelled`). What is written like this has no character
that divides the parts of a URI (`spec_of_isSegmentChar`), and it is no dot segment and no drive
letter, unless the segment is a dot segment itself (`Spelled.isOrdinary`). So the path of the URI is
the text as it was written (`locator?_path`), and decoding it gives the bytes of the path
(`percentDecode_path`).

`filePath_of_spelled` says this of all ways to write a path, and `filePath?_ofSegments` of the one
that the URIs of files are made with.
-/

namespace ArgdownLens.Uri

/-! ## Percent encoding -/

/-- The ways to write a byte in a URI: as a character if it never needs encoding, and else as a
percent sign and its two hexadecimal digits, each of them of either case. -/
inductive ByteSpelled (b : UInt8) : List Char → Prop where
  | plain (h : isUnreserved b) : ByteSpelled b [Char.ofNat b.toNat]
  | escaped {high low : Char} (h : isUnreserved b = false)
    (hhigh : Json.hexDigit? high = some (b.toNat / 16))
    (hlow : Json.hexDigit? low = some (b.toNat % 16)) : ByteSpelled b ['%', high, low]

/-- The ways to write some bytes in a URI, one after the other. -/
inductive Spelled : List UInt8 → List Char → Prop where
  | nil : Spelled [] []
  | cons {b : UInt8} {bytes : List UInt8} {text rest : List Char} (hb : ByteSpelled b text)
    (h : Spelled bytes rest) : Spelled (b :: bytes) (text ++ rest)

/-- The characters that bytes are written with. -/
def isSegmentChar (c : Char) : Bool :=
  c.isAlphanum || c == '-' || c == '_' || c == '.' || c == '~' || c == '%'

/-- The numbers of letters and digits. -/
theorem isAlphanum_iff {c : Char} : c.isAlphanum ↔
    65 ≤ c.toNat ∧ c.toNat ≤ 90 ∨ 97 ≤ c.toNat ∧ c.toNat ≤ 122 ∨ 48 ≤ c.toNat ∧ c.toNat ≤ 57 := by
  have hdef : c.isAlphanum = (decide (c.val ≥ 65 ∧ c.val ≤ 90) ||
      decide (c.val ≥ 97) && decide (c.val ≤ 122) ||
      decide (c.val ≥ 48) && decide (c.val ≤ 57)) := rfl
  rw [hdef]
  simp only [Bool.or_eq_true, Bool.and_eq_true, decide_eq_true_eq, or_assoc]
  rfl

/-- The characters that bytes are written with are ASCII. -/
theorem toNat_lt_of_isSegmentChar {c : Char} (h : isSegmentChar c) : c.toNat < 128 := by
  simp only [isSegmentChar, Bool.or_eq_true, beq_iff_eq, or_assoc] at h
  rcases h with h | rfl | rfl | rfl | rfl | rfl
  · have hletter := isAlphanum_iff.mp h
    omega
  all_goals decide

/-- What holds of the ASCII characters that bytes are written with holds of all of them. -/
theorem forall_isSegmentChar {P : Char → Prop}
    (h : ∀ n < 128, isSegmentChar (Char.ofNat n) → P (Char.ofNat n)) {c : Char}
    (hc : isSegmentChar c) : P c := by
  have hofNat := h c.toNat (toNat_lt_of_isSegmentChar hc)
  rw [Char.ofNat_toNat] at hofNat
  exact hofNat hc

/-- None of the characters that bytes are written with divides the parts of a URI, and none is left
out of it. -/
theorem spec_of_isSegmentChar {c : Char} (hc : isSegmentChar c) :
    ' ' < c ∧ SchemeKind.file.isSlash c = false ∧ endsPath c = false ∧ c ≠ ':' ∧ c ≠ '|' := by
  revert c
  apply forall_isSegmentChar
  decide

/-- Letters and digits are among the characters that bytes are written with. -/
theorem isSegmentChar_of_isAlphanum {c : Char} (h : c.isAlphanum) : isSegmentChar c := by
  unfold isSegmentChar
  rw [h]
  rfl

/-- Hexadecimal digits are among the characters that bytes are written with. -/
theorem isSegmentChar_of_hexDigit? {c : Char} {d : Nat} (h : Json.hexDigit? c = some d) :
    isSegmentChar c := by
  have halphanum : c.isAlphanum := by
    rw [isAlphanum_iff]
    unfold Json.hexDigit? at h
    simp only [Char.le_def, UInt32.le_iff_toNat_le] at h
    have hval : c.toNat = c.val.toNat := rfl
    have hf : 'f'.val.toNat = 102 := rfl
    have hF : 'F'.val.toNat = 70 := rfl
    have ha : 'a'.val.toNat = 97 := rfl
    have hA : 'A'.val.toNat = 65 := rfl
    have hzero : '0'.val.toNat = 48 := rfl
    have hnine : '9'.val.toNat = 57 := rfl
    split_ifs at h <;> omega
  exact isSegmentChar_of_isAlphanum halphanum

/-- Bytes are written with the characters for it. -/
theorem ByteSpelled.isSegmentChar {b : UInt8} {text : List Char} (h : ByteSpelled b text) :
    ∀ c ∈ text, isSegmentChar c := by
  cases h with
  | plain h =>
    rw [List.forall_mem_singleton]
    simp only [isUnreserved, Bool.and_eq_true] at h
    exact Bool.or_eq_true_iff.mpr (.inl h.2)
  | escaped h hhigh hlow =>
    intro c hc
    simp only [List.mem_cons, List.not_mem_nil, or_false] at hc
    rcases hc with rfl | rfl | rfl
    · rfl
    · exact isSegmentChar_of_hexDigit? hhigh
    · exact isSegmentChar_of_hexDigit? hlow

/-- Bytes are written with the characters for it. -/
theorem Spelled.isSegmentChar {bytes : List UInt8} {text : List Char} (h : Spelled bytes text) :
    ∀ c ∈ text, isSegmentChar c := by
  induction h with
  | nil => exact List.forall_mem_nil _
  | cons hb _ ih => exact List.forall_mem_append.mpr ⟨hb.isSegmentChar, ih⟩

/-! ## Percent decoding -/

/-- A byte that is no percent sign stands for itself. -/
theorem percentDecode_cons {b : UInt8} (hb : b ≠ 0x25) (rest : List UInt8) :
    percentDecode (b :: rest) = b :: percentDecode rest := by
  match rest with
  | [] | [_] => rfl
  | _ :: _ :: _ => rw [percentDecode, if_neg hb]

/-- A percent sign and two hexadecimal digits stand for a byte. -/
theorem percentDecode_escape {high low : UInt8} {h l : Nat} (hhigh : hexByte? high = some h)
    (hlow : hexByte? low = some l) (rest : List UInt8) :
    percentDecode (0x25 :: high :: low :: rest) =
      UInt8.ofNat (h * 16 + l) :: percentDecode rest := by
  rw [percentDecode, if_pos rfl, hhigh, hlow]

/-- An ASCII character is one byte, which is the character of its number. -/
theorem exists_byte_of_isSegmentChar {c : Char} (hc : isSegmentChar c) :
    ∃ b : UInt8, String.utf8EncodeChar c = [b] ∧ Char.ofNat b.toNat = c := by
  have hlt := toNat_lt_of_isSegmentChar hc
  have hnat : (UInt8.ofNat c.toNat).toNat = c.toNat := by
    rw [UInt8.toNat_ofNat', Nat.mod_eq_of_lt (by omega)]
  have hchar : Char.ofNat (UInt8.ofNat c.toNat).toNat = c := by
    rw [hnat, Char.ofNat_toNat]
  have hbyte : UInt8.ofNat c.toNat < 0x80 := by
    rw [UInt8.lt_iff_toNat_lt, hnat]
    exact hlt
  have hencode := Utf8.utf8EncodeChar_of_ascii hbyte
  rw [hchar] at hencode
  exact ⟨_, hencode, hchar⟩

/-- A written byte stands for the byte. -/
theorem ByteSpelled.percentDecode {b : UInt8} {text : List Char} (h : ByteSpelled b text)
    (rest : List UInt8) :
    percentDecode (text.flatMap String.utf8EncodeChar ++ rest) = b :: percentDecode rest := by
  cases h with
  | plain h =>
    have hascii : b < 0x80 := by
      simp only [isUnreserved, Bool.and_eq_true, decide_eq_true_eq] at h
      exact h.1
    -- A byte that stands for itself is no percent sign.
    have hpercent : b ≠ 0x25 := by
      rintro rfl
      revert h
      decide
    rw [List.flatMap_singleton, Utf8.utf8EncodeChar_of_ascii hascii]
    exact percentDecode_cons hpercent rest
  | @escaped high low h hhigh hlow =>
    obtain ⟨bh, hbh, hch⟩ := exists_byte_of_isSegmentChar (isSegmentChar_of_hexDigit? hhigh)
    obtain ⟨bl, hbl, hcl⟩ := exists_byte_of_isSegmentChar (isSegmentChar_of_hexDigit? hlow)
    have hpercent : String.utf8EncodeChar '%' = [0x25] := by decide
    rw [List.flatMap_cons, List.flatMap_cons, List.flatMap_singleton, hpercent, hbh, hbl]
    rw [← hch] at hhigh
    rw [← hcl] at hlow
    have hdecode := percentDecode_escape hhigh hlow rest
    rw [Nat.div_add_mod', UInt8.ofNat_toNat] at hdecode
    exact hdecode

/-- Written bytes stand for the bytes. -/
theorem Spelled.percentDecode {bytes : List UInt8} {text : List Char} (h : Spelled bytes text)
    (rest : List UInt8) :
    percentDecode (text.flatMap String.utf8EncodeChar ++ rest) = bytes ++ percentDecode rest := by
  induction h with
  | nil => rfl
  | cons hb _ ih =>
    rw [List.flatMap_append, List.append_assoc, hb.percentDecode, ih, List.cons_append]

/-! ## Segments -/

/-- A segment that is neither a dot segment nor a drive letter, so that it goes into a path as it
is. -/
structure IsOrdinary (segment : List Char) : Prop where
  notDouble : isDoubleDot segment = false
  notSingle : isSingleDot segment = false
  notDrive : isDrive segment = false

/-- All spellings of the segment `.` stand for a dot. -/
theorem percentDecode_of_isSingleDot {segment : List Char} (h : isSingleDot segment) :
    percentDecode (Utf8.encode (String.ofList segment)) = Utf8.encode "." := by
  have hspellings : ∀ s ∈ [".", "%2e", "%2E"],
      percentDecode (Utf8.encode s) = Utf8.encode "." := by
    decide
  exact hspellings _ (List.contains_iff_mem.mp h)

/-- All spellings of the segment `..` stand for two dots. -/
theorem percentDecode_of_isDoubleDot {segment : List Char} (h : isDoubleDot segment) :
    percentDecode (Utf8.encode (String.ofList segment)) = Utf8.encode ".." := by
  have hspellings : ∀ s ∈ ["..", "%2e%2e", "%2e%2E", "%2E%2e", "%2E%2E", "%2e.", "%2E.", ".%2e",
      ".%2E"], percentDecode (Utf8.encode s) = Utf8.encode ".." := by
    decide
  exact hspellings _ (List.contains_iff_mem.mp h)

/-- A drive letter has a colon or a bar. -/
theorem exists_mark_of_isDrive {segment : List Char} (h : isDrive segment) :
    ∃ c ∈ segment, c = ':' ∨ c = '|' := by
  simp only [isDrive, startsWithDrive, Bool.and_eq_true] at h
  match segment with
  | [] | [_] => exact absurd h.2 nofun
  | letter :: mark :: rest =>
    refine ⟨mark, List.mem_cons_of_mem _ List.mem_cons_self, ?_⟩
    simp only [Bool.and_eq_true, Bool.or_eq_true, beq_iff_eq] at h
    exact h.2.1.2

/-- A written text other than `.` and `..` is an ordinary segment. -/
theorem Spelled.isOrdinary {segment : String} {text : List Char}
    (h : Spelled (Utf8.encode segment) text) (hsingle : segment ≠ ".") (hdouble : segment ≠ "..") :
    IsOrdinary text := by
  have hbytes : Uri.percentDecode (Utf8.encode (String.ofList text)) = Utf8.encode segment := by
    have hdecode := h.percentDecode []
    unfold Utf8.encode at hdecode ⊢
    rw [String.toList_ofList]
    rwa [List.append_nil, Uri.percentDecode, List.append_nil] at hdecode
  refine ⟨?_, ?_, ?_⟩ <;> rw [← Bool.not_eq_true] <;> intro hspecial
  · exact hdouble (Utf8.encode_inj.mp (hbytes.symm.trans (percentDecode_of_isDoubleDot hspecial)))
  · exact hsingle (Utf8.encode_inj.mp (hbytes.symm.trans (percentDecode_of_isSingleDot hspecial)))
  · obtain ⟨c, hc, hmark⟩ := exists_mark_of_isDrive hspecial
    obtain ⟨-, -, -, hcolon, hbar⟩ := spec_of_isSegmentChar (h.isSegmentChar c hc)
    exact hmark.elim hcolon hbar

/-! ## Paths -/

/-- The segments as a path: a slash in front of each of them. -/
def pathOf (segments : List (List Char)) : List Char :=
  segments.flatMap ('/' :: ·)

section

variable {isSeparator : Char → Bool}

/-- A text without separators belongs to the first part. -/
theorem splitOnSeparator_append {text rest part : List Char} {parts : List (List Char)}
    (htext : ∀ c ∈ text, isSeparator c = false)
    (hrest : splitOnSeparator isSeparator rest = part :: parts) :
    splitOnSeparator isSeparator (text ++ rest) = (text ++ part) :: parts := by
  induction text with
  | nil => exact hrest
  | cons c cs ih =>
    rw [List.forall_mem_cons] at htext
    rw [List.cons_append, splitOnSeparator, htext.1, ih htext.2]
    rfl

/-- Segments without separators are the parts of their path. -/
theorem splitOnSeparator_pathOf (hslash : isSeparator '/') {first : List Char}
    {segments : List (List Char)}
    (h : ∀ segment ∈ first :: segments, ∀ c ∈ segment, isSeparator c = false) :
    splitOnSeparator isSeparator (first ++ pathOf segments) = first :: segments := by
  induction segments generalizing first with
  | nil =>
    have hnil : splitOnSeparator isSeparator [] = [[]] := rfl
    unfold pathOf
    rw [List.flatMap_nil, splitOnSeparator_append (h first List.mem_cons_self) hnil,
      List.append_nil]
  | cons second rest ih =>
    rw [List.forall_mem_cons] at h
    have hrest : splitOnSeparator isSeparator (pathOf (second :: rest)) =
        [] :: second :: rest := by
      unfold pathOf
      rw [List.flatMap_cons, List.cons_append, splitOnSeparator, if_pos hslash]
      exact congrArg ([] :: ·) (ih h.2)
    rw [splitOnSeparator_append h.1 hrest, List.append_nil]

end

namespace PathBuilder

/-- An ordinary segment goes to the end of the path. -/
theorem addSegment_of_isOrdinary {segment : List Char} (h : IsOrdinary segment) (kind : SchemeKind)
    (p : PathBuilder) (hasSlash : Bool) :
    p.addSegment kind segment hasSlash =
      { p with reversed := (if hasSlash then ['/'] else []) ++ segment.reverse ++ p.reversed } := by
  unfold addSegment
  simp [h.notDouble, h.notSingle, h.notDrive]

/-- Ordinary segments go to the end of the path, with slashes between them. -/
theorem addSegments_of_isOrdinary {first : List Char} {segments : List (List Char)}
    (h : ∀ segment ∈ first :: segments, IsOrdinary segment) (kind : SchemeKind)
    (p : PathBuilder) :
    p.addSegments kind (first :: segments) =
      { p with reversed := (first ++ pathOf segments).reverse ++ p.reversed } := by
  induction segments generalizing first p with
  | nil =>
    rw [addSegments, addSegment_of_isOrdinary (h first List.mem_cons_self)]
    simp [pathOf]
  | cons second rest ih =>
    rw [List.forall_mem_cons] at h
    rw [addSegments, addSegment_of_isOrdinary h.1, ih h.2]
    · simp [pathOf]
    · exact nofun

/-- The path of a file is built of written segments as they are. -/
theorem locator_addText_pathOf {segments : List (List Char)} (hne : segments ≠ [])
    (h : ∀ segment ∈ segments,
      segment ≠ [] ∧ IsOrdinary segment ∧ ∀ c ∈ segment, isSegmentChar c) :
    (addText .file ⟨['/'], none⟩ (pathOf segments)).locator .file = ⟨none, pathOf segments⟩ := by
  have hchars : ∀ segment ∈ [] :: segments, ∀ c ∈ segment, SchemeKind.file.isSlash c = false :=
    List.forall_mem_cons.mpr ⟨List.forall_mem_nil _, fun segment hmem c hc =>
      (spec_of_isSegmentChar ((h segment hmem).2.2 c hc)).2.1⟩
  have hordinary : ∀ segment ∈ [] :: segments, IsOrdinary segment :=
    List.forall_mem_cons.mpr ⟨⟨rfl, rfl, rfl⟩, fun segment hmem => (h segment hmem).2.1⟩
  have hwhole : (pathOf segments).takeWhile (fun c => !endsPath c) = pathOf segments := by
    rw [List.takeWhile_eq_self_iff]
    intro c hc
    obtain ⟨segment, hmem, hc⟩ := List.mem_flatMap.mp hc
    obtain rfl | hc := List.mem_cons.mp hc
    · rfl
    · rw [(spec_of_isSegmentChar ((h segment hmem).2.2 c hc)).2.2.1]
      rfl
  have hsplit := splitOnSeparator_pathOf rfl hchars
  rw [List.nil_append] at hsplit
  unfold addText locator finish
  rw [hwhole, hsplit, addSegments_of_isOrdinary hordinary]
  dsimp only
  rw [List.nil_append, List.reverse_append, List.reverse_reverse]
  -- Of the slashes in front, one is of the first segment, which begins with something else.
  obtain ⟨first, rest, rfl⟩ := List.exists_cons_of_ne_nil hne
  obtain ⟨hfirst, -, hfirstChars⟩ := h first List.mem_cons_self
  obtain ⟨c, cs, rfl⟩ := List.exists_cons_of_ne_nil hfirst
  have hc : (c == '/') = false := by
    rw [beq_eq_false_iff_ne]
    rintro rfl
    exact absurd (hfirstChars '/' List.mem_cons_self) (by decide)
  unfold pathOf
  rw [List.flatMap_cons]
  simp [hc]

end PathBuilder

variable (domains : DomainMapping)

/-- Every mapping of domains leaves `localhost` as it is. -/
theorem domain?_localhost : domain? domains "localhost".toList = some "localhost" := by
  have hdecoded : Utf8.decode? (percentDecode (Utf8.encode (String.ofList "localhost".toList))) =
      some "localhost" := by decide
  have hplain : isPlainDomain "localhost".toList := by decide
  have hlower : "localhost".toList.map Char.toLower = "localhost".toList := by decide
  have hhead : "localhost".toList.head? ≠ some '[' := by decide
  unfold domain?
  rw [if_neg hhead, hdecoded]
  simp only [Option.bind_eq_bind, Option.bind_some, domains.map_plain _ hplain, hlower]
  decide

/-- A file's URI with the host `localhost` or none, and a path behind it. -/
theorem fileLocator?_localhost {host : List Char} (hhost : host ∈ [[], "localhost".toList])
    (inner : List Char) :
    fileLocator? domains ('/' :: '/' :: host ++ '/' :: inner) =
      some ((PathBuilder.addText .file ⟨['/'], none⟩ ('/' :: inner)).locator .file) := by
  have hdrive : ∀ host ∈ [[], "localhost".toList], isDrive host = false := by decide
  have hchars : ∀ host ∈ [[], "localhost".toList], ∀ c ∈ host,
      (!(SchemeKind.file.isSlash c || endsPath c)) = true := by
    simp [SchemeKind.isSlash, endsPath]
  have htake : (host ++ '/' :: inner).takeWhile
      (fun c => !(SchemeKind.file.isSlash c || endsPath c)) = host := by
    rw [List.takeWhile_append_of_pos (hchars host hhost)]
    exact List.append_nil host
  have hdrop : (host ++ '/' :: inner).dropWhile
      (fun c => !(SchemeKind.file.isSlash c || endsPath c)) = '/' :: inner :=
    List.dropWhile_append_of_pos (hchars host hhost)
  -- What is taken for the host ends at the slash in front of the path.
  rw [List.cons_append, List.cons_append, fileLocator?]
  dsimp only
  rw [htake, hdrop, hdrive host hhost]
  simp only [List.mem_cons, List.not_mem_nil, or_false] at hhost
  rcases hhost with rfl | rfl
  · rfl
  · rw [domain?_localhost domains]
    rfl

/-- A text without blanks and controls is left as it is. -/
theorem clean_of_forall {text : List Char} (h : ∀ c ∈ text, ' ' < c) : clean text = text := by
  have hkeep (cs : List Char) (hcs : ∀ c ∈ cs, ' ' < c) :
      cs.dropWhile (fun c => decide (c ≤ ' ')) = cs := by
    cases cs with
    | nil => rfl
    | cons c cs =>
      rw [List.dropWhile_cons_of_neg]
      simpa using hcs c List.mem_cons_self
  have hreverse : ∀ c ∈ text.reverse, ' ' < c := fun c hc => h c (List.mem_reverse.mp hc)
  unfold clean
  dsimp only
  rw [hkeep text h, hkeep _ hreverse, List.reverse_reverse, List.filter_eq_self]
  intro c hc
  have hspace := h c hc
  simp only [Bool.not_eq_true', Bool.or_eq_false_iff, beq_eq_false_iff_ne]
  refine ⟨⟨?_, ?_⟩, ?_⟩ <;> rintro rfl <;> exact absurd hspace (by decide)

/-- The scheme of files. -/
theorem scheme?_file (rest : List Char) :
    scheme? ("file:".toList ++ rest) = some ("file", rest) := by
  rfl

/-! ## Files -/

/-- The absolute path of some segments. -/
def path (segments : List String) : String :=
  String.ofList (pathOf (segments.map String.toList))

/-- The characters of a path. -/
theorem toList_path (segments : List String) :
    (path segments).toList = pathOf (segments.map String.toList) :=
  String.toList_ofList

/-- A path begins with a slash. -/
theorem exists_toList_path {segments : List String} (h : segments ≠ []) :
    ∃ inner, (path segments).toList = '/' :: inner := by
  obtain ⟨segment, rest, rfl⟩ := List.exists_cons_of_ne_nil h
  exact ⟨_, toList_path _⟩

/-- Whether a path ends with an ASCII letter and a colon or a bar. -/
def endsInDrive (path : String) : Bool :=
  match path.toList.reverse with
  | mark :: letter :: _ => letter.isAlpha && (mark == ':' || mark == '|')
  | _ => false

/-- The bytes of a path end like a drive only if the path does. -/
theorem endsInDrive_of_endsLikeDrive {path : String} (h : endsLikeDrive (Utf8.encode path)) :
    endsInDrive path := by
  unfold endsLikeDrive at h
  split at h
  case h_2 => cases h
  case h_1 mark letter before more hreverse =>
    simp only [Bool.and_eq_true, Bool.or_eq_true, beq_iff_eq] at h
    obtain ⟨hletter, hmark⟩ := h
    have hbytes := congrArg List.reverse hreverse
    rw [List.reverse_reverse, List.reverse_cons, List.reverse_cons] at hbytes
    have hmarkAscii : mark < 0x80 := by rcases hmark with rfl | rfl <;> decide
    have hletterAscii : letter < 0x80 := by
      have hlt := toNat_lt_of_isSegmentChar (isSegmentChar_of_isAlphanum
        (Bool.or_eq_true_iff.mpr (.inl hletter)))
      have hvalid : letter.toNat.isValidChar := .inl (by have := letter.toNat_lt; omega)
      exact (Utf8.toNat_ofNat_of_valid hvalid).symm.trans_lt hlt
    -- In UTF-8 a byte below 128 is a character of its own.
    obtain ⟨front, hfront, hletterBytes⟩ := Utf8.eq_append_of_ascii hmarkAscii hbytes
    obtain ⟨start, rfl, -⟩ := Utf8.eq_append_of_ascii hletterAscii hletterBytes
    unfold endsInDrive
    rw [hfront, List.reverse_concat, List.reverse_concat]
    dsimp only
    rw [hletter]
    rcases hmark with rfl | rfl <;> rfl

/-- The pieces of a path that are written for its segments, from the segments. -/
theorem forall_texts {segments texts : List String}
    (hsegments : ∀ s ∈ segments, s ≠ "" ∧ s ≠ "." ∧ s ≠ "..")
    (hspelled : List.Forall₂ (fun s t => Spelled (Utf8.encode s) t.toList) segments texts) :
    ∀ text ∈ texts.map String.toList,
      text ≠ [] ∧ IsOrdinary text ∧ ∀ c ∈ text, isSegmentChar c := by
  induction hspelled with
  | nil => exact List.forall_mem_nil _
  | @cons s t segments texts hst _ ih =>
    rw [List.forall_mem_cons] at hsegments
    obtain ⟨⟨hempty, hsingle, hdouble⟩, hrest⟩ := hsegments
    refine List.forall_mem_cons.mpr ⟨⟨?_, hst.isOrdinary hsingle hdouble, hst.isSegmentChar⟩,
      ih hrest⟩
    intro ht
    rw [ht] at hst
    have hdecode := hst.percentDecode []
    rw [percentDecode, List.append_nil, List.append_nil] at hdecode
    exact hempty (Utf8.encode_inj.mp hdecode.symm)

/-- A path written segment by segment stands for the path. -/
theorem percentDecode_path {segments texts : List String}
    (hspelled : List.Forall₂ (fun s t => Spelled (Utf8.encode s) t.toList) segments texts) :
    percentDecode (Utf8.encode (path texts)) = Utf8.encode (path segments) := by
  unfold Utf8.encode
  rw [toList_path, toList_path]
  unfold pathOf
  induction hspelled with
  | nil => rfl
  | @cons s t segments texts hst _ ih =>
    have hslash : String.utf8EncodeChar '/' = [0x2F] := by decide
    simp only [List.map_cons, List.flatMap_cons, List.flatMap_append, hslash, List.cons_append,
      List.nil_append]
    rw [percentDecode_cons (by decide), hst.percentDecode, ih]
    rfl

/-- The path that is written for segments, as the path of a URI. -/
theorem locator?_path {texts : List String} {host : List Char}
    (hhost : host ∈ [[], "localhost".toList]) (hne : texts ≠ [])
    (htexts : ∀ text ∈ texts.map String.toList,
      text ≠ [] ∧ IsOrdinary text ∧ ∀ c ∈ text, isSegmentChar c)
    {uri : String} (huri : uri.toList = "file://".toList ++ host ++ (path texts).toList) :
    locator? domains uri = some ⟨none, (path texts).toList⟩ := by
  -- No character is a blank or a control character, so none is taken off.
  have hclean : clean uri.toList = uri.toList := by
    have hhosts : ∀ host ∈ [[], "localhost".toList], ∀ c ∈ host, ' ' < c := by simp
    apply clean_of_forall
    rw [huri, List.forall_mem_append, List.forall_mem_append]
    refine ⟨⟨by simp, hhosts host hhost⟩, fun c hc => ?_⟩
    rw [toList_path] at hc
    obtain ⟨text, hmem, hc⟩ := List.mem_flatMap.mp hc
    obtain rfl | hc := List.mem_cons.mp hc
    · decide
    · exact (spec_of_isSegmentChar ((htexts text hmem).2.2 c hc)).1
  have hmap : texts.map String.toList ≠ [] := fun h => hne (List.map_eq_nil_iff.mp h)
  obtain ⟨inner, hinner⟩ := exists_toList_path hne
  refine locator?_eq_some_iff.mpr ⟨"file", '/' :: '/' :: host ++ '/' :: inner, ?_, ?_⟩
  · rw [hclean, huri, hinner]
    exact scheme?_file _
  · have hfile : SchemeKind.ofName "file" = .file := rfl
    have hlocator := fileLocator?_localhost domains hhost inner
    rw [← hinner] at hlocator
    rw [hfile, ← hinner]
    refine hlocator.trans ?_
    rw [toList_path, PathBuilder.locator_addText_pathOf hmap htexts]

/-- A path written segment by segment behind the scheme of files and the host `localhost`, or none,
is the path of the file. -/
theorem filePath?_path {segments texts : List String} {host : List Char}
    (hhost : host ∈ [[], "localhost".toList]) (hne : segments ≠ [])
    (hsegments : ∀ s ∈ segments, s ≠ "" ∧ s ≠ "." ∧ s ≠ "..")
    (hspelled : List.Forall₂ (fun s t => Spelled (Utf8.encode s) t.toList) segments texts)
    (hdrive : ¬ endsInDrive (path segments)) {uri : String}
    (huri : uri.toList = "file://".toList ++ host ++ (path texts).toList) :
    filePath? domains uri = some (Utf8.encode (path segments)) := by
  have htexts : texts ≠ [] := by
    rintro rfl
    cases hspelled
    exact hne rfl
  have hlocator := locator?_path domains hhost htexts (forall_texts hsegments hspelled) huri
  obtain ⟨inner, hinner⟩ := exists_toList_path htexts
  have hends : endsLikeDrive (Utf8.encode (path segments)) = false := by
    rw [← Bool.not_eq_true]
    exact fun h => hdrive (endsInDrive_of_endsLikeDrive h)
  unfold filePath?
  rw [hlocator]
  simp [congrArg List.head? hinner, percentDecode_path hspelled, hends]

/-- A hexadecimal digit in upper case is read as its value. -/
theorem hexDigit?_digitChar {d : Nat} (h : d < 16) :
    Json.hexDigit? (Nat.digitChar d).toUpper = some d := by
  revert d
  decide

/-- A byte is written in one of its ways. -/
theorem byteSpelled_percentEncodeByte (b : UInt8) : ByteSpelled b (percentEncodeByte b) := by
  unfold percentEncodeByte
  split_ifs with h
  · exact .plain h
  · have hlt := b.toNat_lt
    exact .escaped (Bool.eq_false_iff.mpr h) (hexDigit?_digitChar (by omega))
      (hexDigit?_digitChar (by omega))

/-- A text is written in one of its ways. -/
theorem spelled_percentEncode (text : String) :
    Spelled (Utf8.encode text) (percentEncode text) := by
  unfold percentEncode
  induction Utf8.encode text with
  | nil => exact .nil
  | cons b bytes ih => exact .cons (byteSpelled_percentEncodeByte b) ih

/-- The URI of a file, by the segments of its path. -/
def ofSegments (segments : List String) : String :=
  String.ofList ("file://".toList ++ segments.flatMap fun s => '/' :: percentEncode s)

/-- The URI of a file names this file. -/
theorem filePath?_ofSegments {segments : List String} (hne : segments ≠ [])
    (hsegments : ∀ s ∈ segments, s ≠ "" ∧ s ≠ "." ∧ s ≠ "..")
    (hdrive : ¬ endsInDrive (path segments)) :
    filePath? domains (ofSegments segments) = some (Utf8.encode (path segments)) := by
  have hspelled : List.Forall₂ (fun s t => Spelled (Utf8.encode s) t.toList) segments
      (segments.map fun s => String.ofList (percentEncode s)) := by
    rw [List.forall₂_map_right_iff, List.forall₂_same]
    intro s _
    rw [String.toList_ofList]
    exact spelled_percentEncode s
  refine filePath?_path domains List.mem_cons_self hne hsegments hspelled hdrive ?_
  unfold ofSegments
  rw [String.toList_ofList, toList_path, List.append_nil, List.map_map]
  unfold pathOf
  rw [List.flatMap_map]
  simp only [Function.comp_apply, String.toList_ofList]

/-- A path is written into the URI of a file segment by segment, every byte that can be taken for
something else by its two hexadecimal digits of either case. The file that the URI names has exactly
this path, whether the host is left out or `localhost`. Only a path that ends like a drive is not
kept. -/
theorem filePath_of_spelled {segments texts : List String} (hne : segments ≠ [])
    (hsegments : ∀ s ∈ segments, s ≠ "" ∧ s ≠ "." ∧ s ≠ "..")
    (hspelled : List.Forall₂ (fun s t => Spelled (Utf8.encode s) t.toList) segments texts)
    (hdrive : ¬ endsInDrive (path segments)) :
    filePath? domains ("file://" ++ path texts) = some (Utf8.encode (path segments)) ∧
      filePath? domains ("file://localhost" ++ path texts) =
        some (Utf8.encode (path segments)) := by
  constructor
  · have hnone : ([] : List Char) ∈ [[], "localhost".toList] := List.mem_cons_self
    refine filePath?_path domains hnone hne hsegments hspelled hdrive ?_
    rw [String.toList_append, List.append_nil]
  · have hlocalhost : "localhost".toList ∈ [[], "localhost".toList] := by decide
    refine filePath?_path domains hlocalhost hne hsegments hspelled hdrive ?_
    rw [String.toList_append]
    rfl

/-- The segments of this path are a drive letter, two dots in front of a percent sign, and a text
with a letter of two bytes and the delimiters of a URI. -/
theorem delimitersPath_filePath :
    filePath? .plain "file:///C%3a/..%25/%c3%A9%20%23%3f" = some (Utf8.encode "/C:/..%/é #?") ∧
      filePath? .plain "file://localhost/C%3a/..%25/%c3%A9%20%23%3f" =
        some (Utf8.encode "/C:/..%/é #?") := by
  have hdrive : Spelled (Utf8.encode "C:") "C%3a".toList :=
    .cons (.plain rfl : ByteSpelled 0x43 ['C']) (.cons (.escaped rfl rfl rfl) .nil)
  have hdots : Spelled (Utf8.encode "..%") "..%25".toList := spelled_percentEncode "..%"
  have haccent : Spelled (Utf8.encode "é #?") "%c3%A9%20%23%3f".toList :=
    .cons (.escaped rfl rfl rfl) (.cons (.escaped rfl rfl rfl) (.cons (.escaped rfl rfl rfl)
      (.cons (.escaped rfl rfl rfl) (.cons (.escaped rfl rfl rfl) .nil))))
  have hspelled : List.Forall₂ (fun s t => Spelled (Utf8.encode s) t.toList)
      ["C:", "..%", "é #?"] ["C%3a", "..%25", "%c3%A9%20%23%3f"] :=
    .cons hdrive (.cons hdots (.cons haccent .nil))
  have hpath : path ["C:", "..%", "é #?"] = "/C:/..%/é #?" := by decide
  have htext : path ["C%3a", "..%25", "%c3%A9%20%23%3f"] = "/C%3a/..%25/%c3%A9%20%23%3f" := by
    decide
  have hnames := filePath_of_spelled .plain (by decide) (by decide) hspelled (by decide)
  rw [hpath, htext] at hnames
  exact hnames

end ArgdownLens.Uri
