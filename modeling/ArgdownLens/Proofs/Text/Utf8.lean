import ArgdownLens.Text.Utf8
import Mathlib.Tactic.SplitIfs

/-!
# The bytes of a text spell the text

A character of one to four bytes is read back from its bytes (`Utf8.foldl_step_utf8EncodeChar`): the
first byte says how many follow and shuts out no character, and each further byte adds six bits. So
the symbols of the bytes of a text are its characters (`Utf8.symbols_encode`), and bytes with a
broken stretch are the bytes of no text (`Utf8.encode_ne`).

The other way around, a character begun holds the bytes read into it: whatever comes next within its
bounds completes the bytes of a character (`Utf8.Begun.Holds`). So bytes that are read without a
break are the bytes of the text read (`Utf8.decode?_eq_some_iff`), and of no other one
(`Utf8.encode_inj`).
-/

namespace ArgdownLens.Utf8

/-! ## First bytes -/

/-- What a character begun is to know of its first byte: the bits in it, how many bytes are left,
and that `b` may be the next one. -/
structure Leads (p : Begun) (bits left : Nat) (b : UInt8) : Prop where
  bits : p.bits = bits
  left : p.left = left
  low : p.low.toNat ≤ b.toNat
  high : b.toNat ≤ p.high.toNat

/-- The first byte of a longer form begins a character. -/
theorem step_first {b : UInt8} {p : Begun} (h : Begun.ofLead? b = some p) (done : List Symbol) :
    Reader.step ⟨done, none⟩ b = ⟨done, some p⟩ := by
  have hascii : ¬ b < 0x80 := by
    intro hlt
    have hnone : Begun.ofLead? b = none := by
      unfold Begun.ofLead?
      simp only [UInt8.lt_iff_toNat_lt, UInt8.le_iff_toNat_le, ← UInt8.toNat_inj,
        UInt8.reduceToNat] at hlt ⊢
      split_ifs <;> first | omega | rfl
    rw [hnone] at h
    cases h
  simp only [Reader.step, Reader.start, if_neg hascii, h]

/-- A byte behind the first one holds six bits. -/
theorem toNat_tail (n : Nat) : (UInt8.ofNat (n % 64 + 128)).toNat = n % 64 + 128 := by
  rw [UInt8.toNat_ofNat']
  omega

/-- The first byte of a form of two bytes. -/
theorem ofLead?_two {v : Nat} (hlow : 0x80 ≤ v) (hhigh : v ≤ 0x7FF) :
    ∃ p, Begun.ofLead? (.ofNat (v / 64 % 32 + 192)) = some p ∧
      Leads p (v / 64) 1 (.ofNat (v % 64 + 128)) := by
  have hlead : (UInt8.ofNat (v / 64 % 32 + 192)).toNat = v / 64 + 192 := by
    rw [UInt8.toNat_ofNat']
    omega
  unfold Begun.ofLead?
  simp only [UInt8.le_iff_toNat_le, ← UInt8.toNat_inj, hlead, UInt8.reduceToNat]
  split_ifs
  all_goals first | omega | exact ⟨_, rfl, by constructor <;> simp <;> omega⟩

/-- The first byte of a form of three bytes. Overlong forms and surrogates are shut out by the
bounds of the second byte. -/
theorem ofLead?_three {v : Nat} (hlow : 0x800 ≤ v) (hhigh : v ≤ 0xFFFF)
    (hvalid : v < 0xD800 ∨ 0xDFFF < v) :
    ∃ p, Begun.ofLead? (.ofNat (v / 4096 % 16 + 224)) = some p ∧
      Leads p (v / 4096) 2 (.ofNat (v / 64 % 64 + 128)) := by
  have hlead : (UInt8.ofNat (v / 4096 % 16 + 224)).toNat = v / 4096 + 224 := by
    rw [UInt8.toNat_ofNat']
    omega
  unfold Begun.ofLead?
  simp only [UInt8.le_iff_toNat_le, ← UInt8.toNat_inj, hlead, UInt8.reduceToNat]
  split_ifs
  all_goals first | omega | exact ⟨_, rfl, by constructor <;> simp <;> omega⟩

/-- The first byte of a form of four bytes. -/
theorem ofLead?_four {v : Nat} (hlow : 0x10000 ≤ v) (hhigh : v < 0x110000) :
    ∃ p, Begun.ofLead? (.ofNat (v / 262144 % 8 + 240)) = some p ∧
      Leads p (v / 262144) 3 (.ofNat (v / 4096 % 64 + 128)) := by
  have hlead : (UInt8.ofNat (v / 262144 % 8 + 240)).toNat = v / 262144 + 240 := by
    rw [UInt8.toNat_ofNat']
    omega
  unfold Begun.ofLead?
  simp only [UInt8.le_iff_toNat_le, ← UInt8.toNat_inj, hlead, UInt8.reduceToNat]
  split_ifs
  all_goals first | omega | exact ⟨_, rfl, by constructor <;> simp <;> omega⟩

/-! ## Further bytes -/

/-- A byte that others follow adds its bits. -/
theorem step_more {p : Begun} {bits left n : Nat}
    (h : Leads p bits (left + 2) (.ofNat (n % 64 + 128))) (next : Nat) (done : List Symbol) :
    ∃ q, Reader.step ⟨done, some p⟩ (.ofNat (n % 64 + 128)) = ⟨done, some q⟩ ∧
      Leads q (bits * 64 + n % 64) (left + 1) (.ofNat (next % 64 + 128)) := by
  have hbounds : p.low ≤ .ofNat (n % 64 + 128) ∧ .ofNat (n % 64 + 128) ≤ p.high := ⟨h.low, h.high⟩
  have hmore : ¬ left + 2 ≤ 1 := by omega
  simp only [Reader.step, if_pos hbounds, h.left, if_neg hmore, toNat_tail, h.bits,
    Nat.add_sub_cancel]
  refine ⟨_, rfl, ?_⟩
  constructor <;> simp <;> omega

/-- The last byte completes the character. -/
theorem step_last {p : Begun} {bits n : Nat} (h : Leads p bits 1 (.ofNat (n % 64 + 128)))
    (done : List Symbol) :
    Reader.step ⟨done, some p⟩ (.ofNat (n % 64 + 128)) =
      ⟨.char (Char.ofNat (bits * 64 + n % 64)) :: done, none⟩ := by
  have hbounds : p.low ≤ .ofNat (n % 64 + 128) ∧ .ofNat (n % 64 + 128) ≤ p.high := ⟨h.low, h.high⟩
  simp only [Reader.step, if_pos hbounds, h.left, Nat.le_refl, if_true, toNat_tail, h.bits,
    Nat.add_sub_cancel]

/-! ## Characters and texts -/

/-- The bytes of a character are read as the character. -/
theorem foldl_step_utf8EncodeChar (c : Char) (done : List Symbol) :
    (String.utf8EncodeChar c).foldl Reader.step ⟨done, none⟩ = ⟨.char c :: done, none⟩ := by
  have hvalid : c.toNat < 0xD800 ∨ 0xDFFF < c.toNat ∧ c.toNat < 0x110000 := c.valid
  have hchar : ∀ n, n = c.toNat → Char.ofNat n = c := by
    rintro n rfl
    exact Char.ofNat_toNat c
  unfold String.utf8EncodeChar
  have hval : c.val.toNat = c.toNat := rfl
  rw [hval]
  dsimp only
  -- By the number of bytes. In each form they add up to the number of the character.
  split_ifs with hone htwo hthree
  · have hbyte : (UInt8.ofNat c.toNat).toNat = c.toNat := by
      rw [UInt8.toNat_ofNat']
      omega
    have hascii : UInt8.ofNat c.toNat < 0x80 := by
      rw [UInt8.lt_iff_toNat_lt, hbyte]
      exact Nat.lt_succ_of_le hone
    simp only [List.foldl_cons, List.foldl_nil, Reader.step, Reader.start, if_pos hascii, hbyte,
      Char.ofNat_toNat]
  · obtain ⟨p, hlead, hp⟩ := ofLead?_two (v := c.toNat) (by omega) htwo
    rw [List.foldl_cons, step_first hlead, List.foldl_cons, step_last hp, List.foldl_nil,
      hchar _ (by omega)]
  · obtain ⟨p, hlead, hp⟩ := ofLead?_three (v := c.toNat) (by omega) hthree (by omega)
    obtain ⟨q, hq, hqs⟩ := step_more hp c.toNat done
    rw [List.foldl_cons, step_first hlead, List.foldl_cons, hq, List.foldl_cons, step_last hqs,
      List.foldl_nil, hchar _ (by omega)]
  · obtain ⟨p, hlead, hp⟩ := ofLead?_four (v := c.toNat) (by omega) (by omega)
    obtain ⟨q, hq, hqs⟩ := step_more hp (c.toNat / 64) done
    obtain ⟨r, hr, hrs⟩ := step_more hqs c.toNat done
    rw [List.foldl_cons, step_first hlead, List.foldl_cons, hq, List.foldl_cons, hr,
      List.foldl_cons, step_last hrs, List.foldl_nil, hchar _ (by omega)]

/-- The symbols of the bytes of a text are its characters. -/
theorem symbols_encode (text : String) : symbols (encode text) = text.toList.map .char := by
  have hfold (cs : List Char) (done : List Symbol) :
      (cs.flatMap String.utf8EncodeChar).foldl Reader.step ⟨done, none⟩ =
        ⟨(cs.map Symbol.char).reverse ++ done, none⟩ := by
    induction cs generalizing done with
    | nil => rfl
    | cons c cs ih =>
      rw [List.flatMap_cons, List.foldl_append, foldl_step_utf8EncodeChar, ih, List.map_cons,
        List.reverse_cons, List.append_assoc, List.singleton_append]
  unfold symbols encode
  rw [hfold, List.append_nil, Reader.finish, List.reverse_reverse]

/-- Bytes with a broken stretch are the bytes of no text. -/
theorem encode_ne {bytes : List UInt8} {n : Nat} (h : .broken n ∈ symbols bytes) (text : String) :
    encode text ≠ bytes := by
  rintro rfl
  rw [symbols_encode, List.mem_map] at h
  obtain ⟨c, -, hc⟩ := h
  cases hc

/-! ## Bytes that are read without a break -/

/-- A number that is a character is the number of this character. -/
theorem toNat_ofNat_of_valid {n : Nat} (h : n.isValidChar) : (Char.ofNat n).val.toNat = n := by
  rw [Char.ofNat, dif_pos h]
  rfl

/-- A byte of 7 bits is a character of its own. -/
theorem utf8EncodeChar_of_ascii {b : UInt8} (h : b < 0x80) :
    String.utf8EncodeChar (Char.ofNat b.toNat) = [b] := by
  have hlt : b.toNat < 128 := h
  unfold String.utf8EncodeChar
  rw [toNat_ofNat_of_valid (Or.inl (by omega))]
  dsimp only
  rw [if_pos (by omega), UInt8.ofNat_toNat]

/-- The number that some further bytes complete, with six bits each. -/
def complete (bits : Nat) (tail : List UInt8) : Nat :=
  tail.foldl (fun n b => n * 64 + (b.toNat - 0x80)) bits

/-- The first of these bytes adds its bits, and the others complete the number. -/
theorem complete_cons (bits : Nat) (b : UInt8) (tail : List UInt8) :
    complete bits (b :: tail) = complete (bits * 64 + (b.toNat - 0x80)) tail := by
  rw [complete, List.foldl_cons, complete]

/-- The bytes `bs` have been read into `p`: with any bytes behind them, as many as are left and
within the bounds, they are the bytes of a character, the one whose bits all these add up to. -/
structure Begun.Holds (p : Begun) (bs : List UInt8) : Prop where
  left : 1 ≤ p.left
  spells : ∀ b tail, tail.length + 1 = p.left → p.low ≤ b → b ≤ p.high →
    (∀ b' ∈ tail, 0x80 ≤ b' ∧ b' ≤ 0xBF) →
    String.utf8EncodeChar (Char.ofNat (complete p.bits (b :: tail))) = bs ++ b :: tail

/-- The first byte of a form of two bytes is held. -/
theorem holds_two {a : UInt8} {p : Begun} (ha : 0xC2 ≤ a.toNat ∧ a.toNat ≤ 0xDF)
    (hbits : p.bits = a.toNat - 0xC0) (hleft : p.left = 1)
    (hbounds : p.low = 0x80 ∧ p.high = 0xBF) : p.Holds [a] := by
  refine ⟨by omega, ?_⟩
  intro b tail hlength hlow hhigh _
  rw [hleft] at hlength
  obtain rfl := List.eq_nil_of_length_eq_zero (Nat.succ_inj.mp hlength)
  simp only [hbounds, UInt8.le_iff_toNat_le, UInt8.reduceToNat] at hlow hhigh
  -- The bits of both bytes are those of a character, and from its number come the bytes again.
  have hv : (Char.ofNat (complete p.bits [b])).val.toNat =
      (a.toNat - 0xC0) * 64 + (b.toNat - 0x80) := by
    rw [toNat_ofNat_of_valid]
    · simp only [complete, List.foldl_cons, List.foldl_nil, hbits]
    · left
      simp only [complete, List.foldl_cons, List.foldl_nil, hbits]
      omega
  unfold String.utf8EncodeChar
  rw [hv]
  dsimp only
  rw [if_neg (by omega), if_pos (by omega)]
  simp only [List.cons_append, List.nil_append, List.cons.injEq, and_true, ← UInt8.toNat_inj,
    UInt8.toNat_ofNat']
  omega

/-- The first byte of a form of three bytes is held, since the bounds of the second byte shut out
overlong forms and surrogates. -/
theorem holds_three {a : UInt8} {p : Begun} (ha : 0xE0 ≤ a.toNat ∧ a.toNat ≤ 0xEF)
    (hbits : p.bits = a.toNat - 0xE0) (hleft : p.left = 2)
    (hbounds : 0x80 ≤ p.low.toNat ∧ p.high.toNat ≤ 0xBF)
    (hshort : a.toNat = 0xE0 → 0xA0 ≤ p.low.toNat)
    (hsurrogate : a.toNat = 0xED → p.high.toNat ≤ 0x9F) : p.Holds [a] := by
  refine ⟨by omega, ?_⟩
  intro b tail hlength hlow hhigh htail
  rw [hleft] at hlength
  obtain ⟨c, rfl⟩ := List.length_eq_one_iff.mp (Nat.succ_inj.mp hlength)
  have hc := htail c (List.mem_singleton_self c)
  simp only [UInt8.le_iff_toNat_le, UInt8.reduceToNat] at hlow hhigh hc
  have hv : (Char.ofNat (complete p.bits [b, c])).val.toNat =
      ((a.toNat - 0xE0) * 64 + (b.toNat - 0x80)) * 64 + (c.toNat - 0x80) := by
    rw [toNat_ofNat_of_valid]
    · simp only [complete, List.foldl_cons, List.foldl_nil, hbits]
    · -- Behind 0xED the bounds of the second byte keep the number below the surrogates.
      simp only [complete, List.foldl_cons, List.foldl_nil, hbits, Nat.isValidChar]
      omega
  unfold String.utf8EncodeChar
  rw [hv]
  dsimp only
  rw [if_neg (by omega), if_neg (by omega), if_pos (by omega)]
  simp only [List.cons_append, List.nil_append, List.cons.injEq, and_true, ← UInt8.toNat_inj,
    UInt8.toNat_ofNat']
  omega

/-- The first byte of a form of four bytes is held, since the bounds of the second byte shut out
overlong forms and numbers above the greatest character. -/
theorem holds_four {a : UInt8} {p : Begun} (ha : 0xF0 ≤ a.toNat ∧ a.toNat ≤ 0xF4)
    (hbits : p.bits = a.toNat - 0xF0) (hleft : p.left = 3)
    (hbounds : 0x80 ≤ p.low.toNat ∧ p.high.toNat ≤ 0xBF)
    (hshort : a.toNat = 0xF0 → 0x90 ≤ p.low.toNat)
    (hgreat : a.toNat = 0xF4 → p.high.toNat ≤ 0x8F) : p.Holds [a] := by
  refine ⟨by omega, ?_⟩
  intro b tail hlength hlow hhigh htail
  rw [hleft] at hlength
  obtain ⟨c, tail, rfl⟩ := List.exists_cons_of_length_eq_add_one (Nat.succ_inj.mp hlength)
  obtain ⟨d, rfl⟩ := List.length_eq_one_iff.mp (Nat.succ_inj.mp (Nat.succ_inj.mp hlength))
  have hc := htail c (List.mem_cons_self ..)
  have hd := htail d (List.mem_cons_of_mem _ (List.mem_singleton_self d))
  simp only [UInt8.le_iff_toNat_le, UInt8.reduceToNat] at hlow hhigh hc hd
  have hv : (Char.ofNat (complete p.bits [b, c, d])).val.toNat =
      (((a.toNat - 0xF0) * 64 + (b.toNat - 0x80)) * 64 + (c.toNat - 0x80)) * 64 +
        (d.toNat - 0x80) := by
    rw [toNat_ofNat_of_valid]
    · simp only [complete, List.foldl_cons, List.foldl_nil, hbits]
    · -- Four bytes are for numbers above the surrogates.
      right
      simp only [complete, List.foldl_cons, List.foldl_nil, hbits]
      omega
  unfold String.utf8EncodeChar
  rw [hv]
  dsimp only
  rw [if_neg (by omega), if_neg (by omega), if_neg (by omega)]
  simp only [List.cons_append, List.nil_append, List.cons.injEq, and_true, ← UInt8.toNat_inj,
    UInt8.toNat_ofNat']
  omega

/-- The first byte of every longer form is held. -/
theorem holds_of_ofLead? {a : UInt8} {p : Begun} (h : Begun.ofLead? a = some p) : p.Holds [a] := by
  unfold Begun.ofLead? at h
  simp only [UInt8.le_iff_toNat_le, ← UInt8.toNat_inj, UInt8.reduceToNat] at h
  -- Behind 0xE0, 0xED, 0xF0 and 0xF4 the bounds of the second byte are narrower than elsewhere.
  split_ifs at h with h2 hE0 hED h3 hF0 hF4 h4
  all_goals obtain rfl := Option.some.inj h
  · exact holds_two h2 rfl rfl ⟨rfl, rfl⟩
  · apply holds_three <;> simp [hE0]
  · apply holds_three <;> simp [hED]
  · exact holds_three ⟨by omega, h3.2⟩ rfl rfl ⟨Nat.le_refl _, Nat.le_refl _⟩ (absurd · hE0)
      (absurd · hED)
  · apply holds_four <;> simp [hF0]
  · apply holds_four <;> simp [hF4]
  · exact holds_four ⟨by omega, by omega⟩ rfl rfl ⟨Nat.le_refl _, Nat.le_refl _⟩ (absurd · hF0)
      (absurd · hF4)

/-- A further byte within the bounds is held, too, unless it is the last one. -/
theorem Begun.Holds.more {p q : Begun} {bs : List UInt8} {b : UInt8} (h : p.Holds bs)
    (hb : p.low ≤ b ∧ b ≤ p.high) (hleft : p.left = q.left + 1) (hmore : 1 ≤ q.left)
    (hbits : q.bits = p.bits * 64 + (b.toNat - 0x80)) (hbounds : q.low = 0x80 ∧ q.high = 0xBF) :
    q.Holds (bs ++ [b]) := by
  refine ⟨hmore, ?_⟩
  intro b' tail hlength hlow hhigh htail
  rw [hbounds.1] at hlow
  rw [hbounds.2] at hhigh
  have hspells := h.spells b (b' :: tail) (by rw [List.length_cons, hlength, hleft]) hb.1 hb.2
    (List.forall_mem_cons.mpr ⟨⟨hlow, hhigh⟩, htail⟩)
  rw [List.append_assoc, List.singleton_append, ← hspells, complete_cons p.bits, ← hbits]

/-- The last byte completes the bytes of the character. -/
theorem Begun.Holds.last {p : Begun} {bs : List UInt8} {b : UInt8} (h : p.Holds bs)
    (hb : p.low ≤ b ∧ b ≤ p.high) (hleft : p.left = 1) :
    String.utf8EncodeChar (Char.ofNat (p.bits * 64 + (b.toNat - 0x80))) = bs ++ [b] :=
  h.spells b [] (by rw [hleft]; rfl) hb.1 hb.2 (by simp)

/-- A further symbol stands behind those that were read. -/
theorem isPrefix_cons (s : Symbol) (done : List Symbol) :
    done.reverse <+: (s :: done).reverse := by
  rw [List.reverse_cons]
  exact List.prefix_append _ _

/-- No symbol that was read is lost. -/
theorem isPrefix_finish (r : Reader) : r.done.reverse <+: r.finish := by
  unfold Reader.finish
  split
  · exact List.prefix_refl _
  · exact isPrefix_cons _ _

/-- A byte that begins a symbol adds symbols behind those that were read. -/
theorem isPrefix_start (done : List Symbol) (b : UInt8) :
    done.reverse <+: (Reader.start done b).done.reverse := by
  unfold Reader.start
  split_ifs
  · exact isPrefix_cons _ _
  · split
    · exact List.prefix_refl _
    · exact isPrefix_cons _ _

/-- A byte adds symbols behind those that were read. -/
theorem isPrefix_step (r : Reader) (b : UInt8) : r.done.reverse <+: (r.step b).done.reverse := by
  unfold Reader.step
  split
  · exact isPrefix_start r.done b
  · dsimp only
    split_ifs
    · exact isPrefix_cons _ _
    · exact List.prefix_refl _
    · exact (isPrefix_cons _ _).trans (isPrefix_start _ b)

/-- Bytes add symbols behind those that were read. -/
theorem isPrefix_finish_foldl (bytes : List UInt8) (r : Reader) :
    r.done.reverse <+: (bytes.foldl Reader.step r).finish := by
  induction bytes generalizing r with
  | nil => exact isPrefix_finish r
  | cons b bytes ih => exact (isPrefix_step r b).trans (ih (r.step b))

/-- A symbol that stands behind some others is the first one of the characters behind them. -/
theorem exists_char_of_isPrefix {s : Symbol} {done whole : List Symbol} {cs : List Char}
    (hpre : (s :: done).reverse <+: whole) (h : whole = done.reverse ++ cs.map .char) :
    ∃ c cs', s = .char c ∧ cs = c :: cs' ∧ whole = (s :: done).reverse ++ cs'.map .char := by
  obtain ⟨more, rfl⟩ := hpre
  rw [List.reverse_cons, List.append_assoc, List.singleton_append] at h ⊢
  have hsymbols := List.append_cancel_left h
  cases cs with
  | nil => cases hsymbols
  | cons c cs' =>
    rw [List.map_cons, List.cons.injEq] at hsymbols
    refine ⟨c, cs', hsymbols.1, rfl, ?_⟩
    rw [hsymbols.2, List.append_assoc, List.singleton_append]

/-- The bytes of a character that is not complete. -/
def Pending : Option Begun → List UInt8 → Prop
  | none, bs => bs = []
  | some p, bs => p.Holds bs

/-- What one byte does behind the bytes `bs` of a character that is not complete: it completes the
character, or it is held with them, or a broken stretch ends in front of it or with it. -/
theorem step_pending {begun : Option Begun} {bs : List UInt8} (h : Pending begun bs)
    (done : List Symbol) (b : UInt8) :
    (∃ c, Reader.step ⟨done, begun⟩ b = ⟨.char c :: done, none⟩ ∧
        String.utf8EncodeChar c = bs ++ [b]) ∨
      (∃ p, Reader.step ⟨done, begun⟩ b = ⟨done, some p⟩ ∧ Pending (some p) (bs ++ [b])) ∨
      ∃ n, (.broken n :: done).reverse <+: (Reader.step ⟨done, begun⟩ b).done.reverse := by
  unfold Reader.step
  cases begun with
  | none =>
    obtain rfl : bs = [] := h
    simp only [Reader.start]
    split_ifs with hascii
    · exact .inl ⟨_, rfl, utf8EncodeChar_of_ascii hascii⟩
    · split
      · next p hlead => exact .inr (.inl ⟨p, rfl, holds_of_ofLead? hlead⟩)
      · exact .inr (.inr ⟨1, List.prefix_refl _⟩)
  | some p =>
    dsimp only
    split_ifs with hb hleft
    · exact .inl ⟨_, rfl, h.last hb (Nat.le_antisymm hleft h.left)⟩
    · refine .inr (.inl ⟨_, rfl, ?_⟩)
      exact h.more hb (by dsimp only; omega) (by dsimp only; omega) rfl ⟨rfl, rfl⟩
    · -- A byte out of bounds begins a symbol itself, behind the broken stretch.
      exact .inr (.inr ⟨p.taken, isPrefix_start _ b⟩)

/-- Bytes that are read as characters throughout are the bytes of these characters, together with
the bytes `bs` of a character begun in front of them. -/
theorem append_eq_of_finish (bytes : List UInt8) {done : List Symbol} {begun : Option Begun}
    {bs : List UInt8} {cs : List Char} (hpending : Pending begun bs)
    (h : (bytes.foldl Reader.step ⟨done, begun⟩).finish = done.reverse ++ cs.map .char) :
    bs ++ bytes = cs.flatMap String.utf8EncodeChar := by
  -- The induction is on the bytes. A symbol that one of them completes is the first one of the
  -- characters to come, so it is not broken.
  induction bytes generalizing done begun bs cs with
  | nil =>
    cases begun with
    | none =>
      obtain rfl : bs = [] := hpending
      have hnil : cs.map Symbol.char = [] := List.self_eq_append_right.mp h
      rw [List.map_eq_nil_iff.mp hnil]
      rfl
    | some p =>
      -- A character that is cut off is a broken stretch.
      obtain ⟨c, -, hc, -⟩ := exists_char_of_isPrefix (List.prefix_refl _) h
      cases hc
  | cons b bytes ih =>
    rw [List.foldl_cons] at h
    rcases step_pending hpending done b with ⟨c, hstep, hbytes⟩ | ⟨p, hstep, hheld⟩ | ⟨n, hbroken⟩
    · rw [hstep] at h
      obtain ⟨c', cs', hc, rfl, hrest⟩ :=
        exists_char_of_isPrefix (isPrefix_finish_foldl bytes ⟨.char c :: done, none⟩) h
      have hnone : Pending none [] := rfl
      rw [List.flatMap_cons, ← Symbol.char.inj hc, hbytes, ← ih hnone hrest, List.append_assoc]
      rfl
    · rw [hstep] at h
      rw [← ih hheld h, List.append_assoc, List.singleton_append]
    · obtain ⟨c, -, hc, -⟩ :=
        exists_char_of_isPrefix (hbroken.trans (isPrefix_finish_foldl bytes _)) h
      cases hc

/-- Bytes whose symbols are characters throughout are the bytes of the text of these. -/
theorem encode_of_symbols {bytes : List UInt8} {text : String}
    (h : symbols bytes = text.toList.map .char) : encode text = bytes := by
  have hnone : Pending none [] := rfl
  exact (append_eq_of_finish bytes hnone h).symm

/-- Symbols that are all characters are these characters. -/
theorem mapM_char?_eq_some {ss : List Symbol} {cs : List Char} :
    ss.mapM Symbol.char? = some cs ↔ ss = cs.map .char := by
  induction ss generalizing cs with
  | nil => cases cs <;> simp
  | cons s ss ih =>
    rw [List.mapM_cons]
    cases s with
    | broken n => cases cs <;> simp [Symbol.char?]
    | char c =>
      cases cs with
      | nil => simp [Symbol.char?, Option.bind_eq_some_iff]
      | cons d cs =>
        simp only [Symbol.char?, Option.bind_eq_bind, Option.bind_some, Option.pure_def,
          Option.bind_eq_some_iff, Option.some.injEq, List.cons.injEq, List.map_cons,
          Symbol.char.injEq, ← ih]
        constructor
        · rintro ⟨_, hcs, rfl, rfl⟩
          exact ⟨rfl, hcs⟩
        · rintro ⟨rfl, hcs⟩
          exact ⟨cs, hcs, rfl, rfl⟩

/-- Bytes spell a text exactly if they are its bytes. -/
theorem decode?_eq_some_iff {bytes : List UInt8} {text : String} :
    decode? bytes = some text ↔ bytes = encode text := by
  unfold decode?
  rw [Option.map_eq_some_iff]
  constructor
  · rintro ⟨cs, hcs, rfl⟩
    apply Eq.symm
    apply encode_of_symbols
    rw [String.toList_ofList]
    exact mapM_char?_eq_some.mp hcs
  · rintro rfl
    refine ⟨text.toList, ?_, String.ofList_toList⟩
    rw [symbols_encode]
    exact mapM_char?_eq_some.mpr rfl

/-! ## ASCII characters at the end -/

/-- A text has the bytes of no other one. -/
theorem encode_inj {s t : String} : encode s = encode t ↔ s = t := by
  refine ⟨fun h => ?_, fun h => congrArg encode h⟩
  have hs : decode? (encode s) = some s := decode?_eq_some_iff.mpr rfl
  rw [h, decode?_eq_some_iff.mpr rfl] at hs
  exact (Option.some.inj hs).symm

/-- A byte of 7 bits is in no other character than its own. -/
theorem eq_of_ascii_mem {c : Char} {b : UInt8} (hascii : b < 0x80)
    (hb : b ∈ String.utf8EncodeChar c) : c = Char.ofNat b.toNat := by
  have hlt : b.toNat < 128 := hascii
  have hchar : c = Char.ofNat c.val.toNat := (Char.ofNat_toNat c).symm
  unfold String.utf8EncodeChar at hb
  dsimp only at hb
  split_ifs at hb with hone
  · rw [List.mem_singleton] at hb
    rw [hb, UInt8.toNat_ofNat', Nat.mod_eq_of_lt (by omega)]
    exact hchar
  all_goals
    -- The bytes of longer forms have their first bit set.
    simp only [List.mem_cons, List.not_mem_nil, or_false] at hb
    rcases hb with rfl | rfl | rfl | rfl
  all_goals
    rw [UInt8.toNat_ofNat'] at hlt
    omega

/-- Bytes that end with a byte of 7 bits are of characters that end with its character. -/
theorem eq_append_of_ascii {cs : List Char} {bytes : List UInt8} {b : UInt8} (hascii : b < 0x80)
    (h : cs.flatMap String.utf8EncodeChar = bytes ++ [b]) :
    ∃ front, cs = front ++ [Char.ofNat b.toNat] ∧
      front.flatMap String.utf8EncodeChar = bytes := by
  obtain rfl | ⟨front, c, rfl⟩ := cs.eq_nil_or_concat
  · simp at h
  · rw [List.concat_eq_append] at h ⊢
    rw [List.flatMap_append, List.flatMap_singleton] at h
    have hlast := congrArg List.getLast? h
    have hne : String.utf8EncodeChar c ≠ [] := String.utf8EncodeChar_ne_nil
    rw [List.getLast?_append, List.getLast?_concat, List.getLast?_eq_some_getLast hne] at hlast
    have hmem := List.mem_of_getLast? ((List.getLast?_eq_some_getLast hne).trans hlast)
    obtain rfl := eq_of_ascii_mem hascii hmem
    rw [utf8EncodeChar_of_ascii hascii, List.append_left_inj] at h
    exact ⟨front, rfl, h⟩

/-! ## Controls -/

/-- A character that is no control has no byte of a control. -/
theorem le_of_mem_utf8EncodeChar {c : Char} (h : ' ' ≤ c) {b : UInt8}
    (hb : b ∈ String.utf8EncodeChar c) : 0x20 ≤ b := by
  have hlow : 0x20 ≤ c.val.toNat := h
  unfold String.utf8EncodeChar at hb
  dsimp only at hb
  have hspace : (0x20 : UInt8).toNat = 32 := rfl
  rw [UInt8.le_iff_toNat_le, hspace]
  split_ifs at hb
  all_goals
    simp only [List.mem_cons, List.not_mem_nil, or_false] at hb
    rcases hb with rfl | rfl | rfl | rfl
  all_goals
    rw [UInt8.toNat_ofNat']
    omega

/-- A text without controls has no byte of a control. -/
theorem le_of_mem_encode {text : String} (h : ∀ c ∈ text.toList, ' ' ≤ c) :
    ∀ b ∈ encode text, 0x20 ≤ b := by
  intro b hb
  obtain ⟨c, hc, hb⟩ := List.mem_flatMap.mp hb
  exact le_of_mem_utf8EncodeChar (h c hc) hb

end ArgdownLens.Utf8
