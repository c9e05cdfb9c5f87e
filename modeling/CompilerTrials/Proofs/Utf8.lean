import CompilerTrials.Text.Utf8

/-!
# Readings of UTF-8

The reader goes byte by byte. What it makes of the bytes of one character is a small grammar,
`Utf8.Completes`; every reading of a byte string is then a matter of whole characters.

* `Utf8.completes_iff`: the bytes that complete a character are its encoding and no others.
* `Utf8.decode?_eq_some_iff`: a byte string has a text exactly when it is the encoding of that text.
* `Utf8.decodeLossy_encode`: the lossy reading of such a byte string is that text.
-/

namespace CompilerTrials.Utf8

variable {held : Option Partial} {p q : Partial} {b : UInt8} {bs : ByteString} {c : Char}

/-- The bytes take the reader from what it holds to the end of a character. -/
inductive Completes : Option Partial → ByteString → Char → Prop where
  | last {held : Option Partial} {b : UInt8} {c : Char} (h : next held b = .complete c) :
      Completes held [b] c
  | more {held : Option Partial} {b : UInt8} {p : Partial} {bs : ByteString} {c : Char}
      (h : next held b = .begun p) (hrest : Completes (some p) bs c) : Completes held (b :: bs) c

/-! ## Bytes after the first -/

theorem feed_eq_complete_iff :
    p.feed b = .complete c ↔
      (p.low ≤ b ∧ b ≤ p.high) ∧ p.missing ≤ 1 ∧
        Char.ofNat (p.bits * 64 + (b.toNat - 0x80)) = c := by
  unfold Partial.feed
  split
  · next hb =>
    by_cases hlast : p.missing ≤ 1
    · simp only [hlast, if_true, Progress.complete.injEq, hb, and_self, true_and]
    · simp only [hlast, if_false, reduceCtorEq, false_and, and_false]
  · next hb => simp only [hb, reduceCtorEq, false_and]

theorem feed_eq_begun_iff :
    p.feed b = .begun q ↔
      (p.low ≤ b ∧ b ≤ p.high) ∧ 1 < p.missing ∧
        ⟨p.bits * 64 + (b.toNat - 0x80), p.missing - 1, 0x80, 0xBF⟩ = q := by
  unfold Partial.feed
  split
  · next hb =>
    by_cases hlast : p.missing ≤ 1
    · simp only [hlast, if_true, reduceCtorEq, Nat.not_lt.mpr hlast, false_and, and_false]
    · simp only [hlast, if_false, Progress.begun.injEq, hb, Nat.lt_of_not_le hlast, and_self,
        true_and]
  · next hb => simp only [hb, reduceCtorEq, false_and]

theorem completes_one_iff {bits : Nat} {low high : UInt8} :
    Completes (some ⟨bits, 1, low, high⟩) bs c ↔
      ∃ b, bs = [b] ∧ (low ≤ b ∧ b ≤ high) ∧ Char.ofNat (bits * 64 + (b.toNat - 0x80)) = c := by
  constructor
  · rintro (⟨h⟩ | ⟨h, -⟩)
    · obtain ⟨hb, -, hc⟩ := feed_eq_complete_iff.mp h
      exact ⟨_, rfl, hb, hc⟩
    · exact absurd (feed_eq_begun_iff.mp h).2.1 (Nat.lt_irrefl 1)
  · rintro ⟨b, rfl, hb, hc⟩
    exact .last (feed_eq_complete_iff.mpr ⟨hb, Nat.le_refl 1, hc⟩)

theorem completes_succ_iff {bits missing : Nat} {low high : UInt8} :
    Completes (some ⟨bits, missing + 2, low, high⟩) bs c ↔
      ∃ b rest, bs = b :: rest ∧ (low ≤ b ∧ b ≤ high) ∧
        Completes (some ⟨bits * 64 + (b.toNat - 0x80), missing + 1, 0x80, 0xBF⟩) rest c := by
  constructor
  · rintro (⟨h⟩ | ⟨h, hrest⟩)
    · exact absurd (feed_eq_complete_iff.mp h).2.1 (by simp)
    · obtain ⟨hb, -, rfl⟩ := feed_eq_begun_iff.mp h
      exact ⟨_, _, rfl, hb, hrest⟩
  · rintro ⟨b, rest, rfl, hb, hrest⟩
    exact .more (feed_eq_begun_iff.mpr ⟨hb, by simp, rfl⟩) hrest

/-! ## Whole characters -/

/-- The value of a character whose value is in range. -/
theorem toNat_ofNat {n : Nat} (h : n < 0xD800 ∨ 0xDFFF < n ∧ n < 0x110000) :
    (Char.ofNat n).toNat = n := by
  have hvalid : n.isValidChar := h
  rw [Char.ofNat, dif_pos hvalid]
  rfl

theorem encode_one {n : Nat} (h : n < 0x80) :
    String.utf8EncodeChar (Char.ofNat n) = [UInt8.ofNat n] := by
  have hn : (Char.ofNat n).val.toNat = n := toNat_ofNat (by omega)
  rw [String.utf8EncodeChar, hn, if_pos (by omega)]

theorem encode_two {n : Nat} (hlow : 0x80 ≤ n) (hhigh : n < 0x800) :
    String.utf8EncodeChar (Char.ofNat n) =
      [UInt8.ofNat (n / 64 + 0xC0), UInt8.ofNat (n % 64 + 0x80)] := by
  have hn : (Char.ofNat n).val.toNat = n := toNat_ofNat (.inl (by omega))
  rw [String.utf8EncodeChar, hn, if_neg (by omega), if_pos (by omega),
    Nat.mod_eq_of_lt (by omega)]

theorem encode_three {n : Nat} (hlow : 0x800 ≤ n) (hhigh : n < 0x10000)
    (h : n < 0xD800 ∨ 0xDFFF < n) :
    String.utf8EncodeChar (Char.ofNat n) =
      [UInt8.ofNat (n / 4096 + 0xE0), UInt8.ofNat (n / 64 % 64 + 0x80),
        UInt8.ofNat (n % 64 + 0x80)] := by
  have hn : (Char.ofNat n).val.toNat = n := toNat_ofNat (by omega)
  rw [String.utf8EncodeChar, hn, if_neg (by omega), if_neg (by omega), if_pos (by omega),
    Nat.mod_eq_of_lt (by omega)]

theorem encode_four {n : Nat} (hlow : 0x10000 ≤ n) (hhigh : n < 0x110000) :
    String.utf8EncodeChar (Char.ofNat n) =
      [UInt8.ofNat (n / 262144 + 0xF0), UInt8.ofNat (n / 4096 % 64 + 0x80),
        UInt8.ofNat (n / 64 % 64 + 0x80), UInt8.ofNat (n % 64 + 0x80)] := by
  have hn : (Char.ofNat n).val.toNat = n := toNat_ofNat (by omega)
  rw [String.utf8EncodeChar, hn, if_neg (by omega), if_neg (by omega), if_neg (by omega),
    Nat.mod_eq_of_lt (by omega)]

/-- The byte is one after the first. -/
def IsTail (x : UInt8) : Prop := 0x80 ≤ x.toNat ∧ x.toNat < 0xC0

/-- The bounds let a byte pass exactly if it is one after the first and its bits are valid. -/
def Bounds (low high : UInt8) (Valid : Nat → Prop) : Prop :=
  ∀ x : UInt8, low ≤ x ∧ x ≤ high ↔ IsTail x ∧ Valid (x.toNat - 0x80)

/-- What a byte is as the first of a character. The bounds on the second byte keep the value, of
which the lower bits are not known yet, in range. -/
inductive Leads (b : UInt8) : Prop where
  | one (hb : b.toNat < 0x80) (h : lead b = .complete (Char.ofNat b.toNat))
  | two (hb : 0xC2 ≤ b.toNat ∧ b.toNat < 0xE0) (h : lead b = .begun ⟨b.toNat - 0xC0, 1, 0x80, 0xBF⟩)
  | three (low high : UInt8) (hb : 0xE0 ≤ b.toNat ∧ b.toNat < 0xF0)
      (h : lead b = .begun ⟨b.toNat - 0xE0, 2, low, high⟩)
      (hbounds : Bounds low high fun y =>
        0x20 ≤ (b.toNat - 0xE0) * 64 + y ∧
          ((b.toNat - 0xE0) * 64 + y < 0x360 ∨ 0x380 ≤ (b.toNat - 0xE0) * 64 + y))
  | four (low high : UInt8) (hb : 0xF0 ≤ b.toNat ∧ b.toNat < 0xF5)
      (h : lead b = .begun ⟨b.toNat - 0xF0, 3, low, high⟩)
      (hbounds : Bounds low high fun y =>
        0x10 ≤ (b.toNat - 0xF0) * 64 + y ∧ (b.toNat - 0xF0) * 64 + y < 0x110)
  | malformed (hb : 0x80 ≤ b.toNat ∧ b.toNat < 0xC2 ∨ 0xF5 ≤ b.toNat) (h : lead b = .malformed)

theorem leads (b : UInt8) : Leads b := by
  have hb : b.toNat < 256 := b.toNat_lt
  have hlead := lead.eq_1 b
  simp only [UInt8.lt_iff_toNat_lt, ← UInt8.toNat_inj, UInt8.reduceToNat] at hlead
  split at hlead
  · exact .one ‹_› hlead
  split at hlead
  · exact .malformed (by omega) hlead
  split at hlead
  · exact .two (by omega) hlead
  split at hlead
  · next h =>
    refine .three _ _ (by omega) (by rw [h]; exact hlead) fun x => ?_
    simp only [IsTail, UInt8.le_iff_toNat_le, UInt8.reduceToNat]
    omega
  split at hlead
  · next h =>
    refine .three _ _ (by omega) (by rw [h]; exact hlead) fun x => ?_
    simp only [IsTail, UInt8.le_iff_toNat_le, UInt8.reduceToNat]
    omega
  split at hlead
  · refine .three _ _ (by omega) hlead fun x => ?_
    simp only [IsTail, UInt8.le_iff_toNat_le, UInt8.reduceToNat]
    omega
  split at hlead
  · next h =>
    refine .four _ _ (by omega) (by rw [h]; exact hlead) fun x => ?_
    simp only [IsTail, UInt8.le_iff_toNat_le, UInt8.reduceToNat]
    omega
  split at hlead
  · refine .four _ _ (by omega) hlead fun x => ?_
    simp only [IsTail, UInt8.le_iff_toNat_le, UInt8.reduceToNat]
    omega
  split at hlead
  · next h =>
    refine .four _ _ (by omega) (by rw [h]; exact hlead) fun x => ?_
    simp only [IsTail, UInt8.le_iff_toNat_le, UInt8.reduceToNat]
    omega
  · exact .malformed (by omega) hlead

theorem tail_iff {x : UInt8} : 0x80 ≤ x ∧ x ≤ 0xBF ↔ IsTail x := by
  simp only [IsTail, UInt8.le_iff_toNat_le, UInt8.reduceToNat]
  omega

theorem eq_ofNat {n : Nat} (h : n = b.toNat) : UInt8.ofNat n = b := by
  rw [h, UInt8.ofNat_toNat]

theorem toNat_byte {n : Nat} (h : n < 256) : (UInt8.ofNat n).toNat = n :=
  UInt8.toNat_ofNat_of_lt h

theorem isTail_ofNat (y : Nat) : IsTail (UInt8.ofNat (y % 64 + 0x80)) := by
  rw [IsTail, toNat_byte (by omega)]
  omega

/-- The bytes that complete a character encode it. -/
theorem Completes.eq_encode (h : Completes none bs c) : bs = String.utf8EncodeChar c := by
  cases h with
  | @last _ b _ h =>
    cases leads b with
    | one hb hlead =>
      obtain rfl : Char.ofNat b.toNat = c := Progress.complete.inj (hlead.symm.trans h)
      rw [encode_one hb, UInt8.ofNat_toNat]
    | two hb hlead => cases hlead.symm.trans h
    | three low high hb hlead => cases hlead.symm.trans h
    | four low high hb hlead => cases hlead.symm.trans h
    | malformed hb hlead => cases hlead.symm.trans h
  | @more _ b p rest _ h hrest =>
    -- the first byte tells how many are to come, so `hrest` opens into that many bytes
    cases leads b with
    | one hb hlead => cases hlead.symm.trans h
    | two hb hlead =>
      obtain rfl := Progress.begun.inj (hlead.symm.trans h)
      obtain ⟨x, rfl, hx, rfl⟩ := completes_one_iff.mp hrest
      obtain ⟨hx, hx'⟩ := tail_iff.mp hx
      rw [encode_two (by omega) (by omega), eq_ofNat (b := b) (by omega),
        eq_ofNat (b := x) (by omega)]
    | three low high hb hlead hbounds =>
      obtain rfl := Progress.begun.inj (hlead.symm.trans h)
      obtain ⟨x, rest, rfl, hx, hrest⟩ := completes_succ_iff.mp hrest
      obtain ⟨y, rfl, hy, rfl⟩ := completes_one_iff.mp hrest
      obtain ⟨⟨hx, hx'⟩, hvalid⟩ := (hbounds x).mp hx
      obtain ⟨hy, hy'⟩ := tail_iff.mp hy
      rw [encode_three (by omega) (by omega) (by omega), eq_ofNat (b := b) (by omega),
        eq_ofNat (b := x) (by omega), eq_ofNat (b := y) (by omega)]
    | four low high hb hlead hbounds =>
      obtain rfl := Progress.begun.inj (hlead.symm.trans h)
      obtain ⟨x, rest, rfl, hx, hrest⟩ := completes_succ_iff.mp hrest
      obtain ⟨y, rest, rfl, hy, hrest⟩ := completes_succ_iff.mp hrest
      obtain ⟨z, rfl, hz, rfl⟩ := completes_one_iff.mp hrest
      obtain ⟨⟨hx, hx'⟩, hvalid⟩ := (hbounds x).mp hx
      obtain ⟨hy, hy'⟩ := tail_iff.mp hy
      obtain ⟨hz, hz'⟩ := tail_iff.mp hz
      rw [encode_four (by omega) (by omega), eq_ofNat (b := b) (by omega),
        eq_ofNat (b := x) (by omega), eq_ofNat (b := y) (by omega), eq_ofNat (b := z) (by omega)]
    | malformed hb hlead => cases hlead.symm.trans h

theorem completes_one {n : Nat} (h : n < 0x80) :
    Completes none (String.utf8EncodeChar (Char.ofNat n)) (Char.ofNat n) := by
  rw [encode_one h]
  cases leads (UInt8.ofNat n) with
  | one hb hlead =>
    rw [toNat_byte (by omega)] at hlead
    exact .last hlead
  | two hb | three _ _ hb | four _ _ hb | malformed hb =>
    rw [toNat_byte (by omega)] at hb
    omega

theorem completes_two {n : Nat} (hlow : 0x80 ≤ n) (hhigh : n < 0x800) :
    Completes none (String.utf8EncodeChar (Char.ofNat n)) (Char.ofNat n) := by
  have hbyte := toNat_byte (n := n / 64 + 0xC0) (by omega)
  rw [encode_two hlow hhigh]
  cases leads (UInt8.ofNat (n / 64 + 0xC0)) with
  | two hb hlead =>
    refine .more hlead (completes_one_iff.mpr ⟨_, rfl, tail_iff.mpr (isTail_ofNat _), ?_⟩)
    rw [hbyte, toNat_byte (by omega)]
    exact congrArg Char.ofNat (by omega)
  | one hb | three _ _ hb | four _ _ hb | malformed hb =>
    rw [hbyte] at hb
    omega

theorem completes_three {n : Nat} (hlow : 0x800 ≤ n) (hhigh : n < 0x10000)
    (h : n < 0xD800 ∨ 0xDFFF < n) :
    Completes none (String.utf8EncodeChar (Char.ofNat n)) (Char.ofNat n) := by
  have hbyte := toNat_byte (n := n / 4096 + 0xE0) (by omega)
  have hnext := toNat_byte (n := n / 64 % 64 + 0x80) (by omega)
  rw [encode_three hlow hhigh h]
  cases leads (UInt8.ofNat (n / 4096 + 0xE0)) with
  | three low high hb hlead hbounds =>
    refine .more hlead (completes_succ_iff.mpr ⟨_, _, rfl, (hbounds _).mpr ⟨isTail_ofNat _, ?_⟩,
      completes_one_iff.mpr ⟨_, rfl, tail_iff.mpr (isTail_ofNat _), ?_⟩⟩)
    · rw [hbyte, hnext]
      omega
    · rw [hbyte, hnext, toNat_byte (by omega)]
      exact congrArg Char.ofNat (by omega)
  | one hb | two hb | four _ _ hb | malformed hb =>
    rw [hbyte] at hb
    omega

theorem completes_four {n : Nat} (hlow : 0x10000 ≤ n) (hhigh : n < 0x110000) :
    Completes none (String.utf8EncodeChar (Char.ofNat n)) (Char.ofNat n) := by
  have hbyte := toNat_byte (n := n / 262144 + 0xF0) (by omega)
  have hnext := toNat_byte (n := n / 4096 % 64 + 0x80) (by omega)
  have hthird := toNat_byte (n := n / 64 % 64 + 0x80) (by omega)
  rw [encode_four hlow hhigh]
  cases leads (UInt8.ofNat (n / 262144 + 0xF0)) with
  | four low high hb hlead hbounds =>
    refine .more hlead (completes_succ_iff.mpr ⟨_, _, rfl, (hbounds _).mpr ⟨isTail_ofNat _, ?_⟩,
      completes_succ_iff.mpr ⟨_, _, rfl, tail_iff.mpr (isTail_ofNat _),
        completes_one_iff.mpr ⟨_, rfl, tail_iff.mpr (isTail_ofNat _), ?_⟩⟩⟩)
    · rw [hbyte, hnext]
      omega
    · rw [hbyte, hnext, hthird, toNat_byte (by omega)]
      exact congrArg Char.ofNat (by omega)
  | one hb | two hb | three _ _ hb | malformed hb =>
    rw [hbyte] at hb
    omega

theorem completes_encode_ofNat {n : Nat} (h : n < 0xD800 ∨ 0xDFFF < n ∧ n < 0x110000) :
    Completes none (String.utf8EncodeChar (Char.ofNat n)) (Char.ofNat n) := by
  by_cases hone : n < 0x80
  · exact completes_one hone
  by_cases htwo : n < 0x800
  · exact completes_two (by omega) htwo
  by_cases hthree : n < 0x10000
  · exact completes_three (by omega) hthree (by omega)
  · exact completes_four (by omega) (by omega)

theorem completes_encode (c : Char) : Completes none (String.utf8EncodeChar c) c := by
  have hvalid : c.toNat < 0xD800 ∨ 0xDFFF < c.toNat ∧ c.toNat < 0x110000 := c.valid
  have hcompletes := completes_encode_ofNat hvalid
  rwa [Char.ofNat_toNat] at hcompletes

/-- The bytes that complete a character are its encoding and no others. -/
theorem completes_iff : Completes none bs c ↔ bs = String.utf8EncodeChar c :=
  ⟨Completes.eq_encode, fun h => h ▸ completes_encode c⟩

theorem lead_of_isTail (h : IsTail b) : lead b = .malformed := by
  obtain ⟨hlow, hhigh⟩ := h
  cases leads b with
  | malformed hb hlead => exact hlead
  | one hb | two hb | three _ _ hb | four _ _ hb => omega

/-- A character is one byte of its own, or a first byte that is none and bytes after it. -/
theorem encodeChar_cases (c : Char) :
    c.toNat < 0x80 ∧ String.utf8EncodeChar c = [UInt8.ofNat c.toNat] ∨
      ∃ b tails, String.utf8EncodeChar c = b :: tails ∧ 0x80 ≤ b.toNat ∧ ∀ x ∈ tails, IsTail x := by
  have hvalid : c.toNat < 0xD800 ∨ 0xDFFF < c.toNat ∧ c.toNat < 0x110000 := c.valid
  rw [← Char.ofNat_toNat c, toNat_ofNat hvalid]
  generalize c.toNat = n at hvalid
  by_cases hone : n < 0x80
  · exact .inl ⟨hone, encode_one hone⟩
  by_cases htwo : n < 0x800
  · refine .inr ⟨_, _, encode_two (by omega) htwo, ?_, ?_⟩
    · rw [toNat_byte (by omega)]
      omega
    · exact List.forall_mem_singleton.mpr (isTail_ofNat _)
  by_cases hthree : n < 0x10000
  · refine .inr ⟨_, _, encode_three (by omega) hthree (by omega), ?_, ?_⟩
    · rw [toNat_byte (by omega)]
      omega
    · exact List.forall_mem_cons.mpr ⟨isTail_ofNat _, List.forall_mem_singleton.mpr (isTail_ofNat _)⟩
  · refine .inr ⟨_, _, encode_four (by omega) (by omega), ?_, ?_⟩
    · rw [toNat_byte (by omega)]
      omega
    · exact List.forall_mem_cons.mpr ⟨isTail_ofNat _, List.forall_mem_cons.mpr ⟨isTail_ofNat _,
        List.forall_mem_singleton.mpr (isTail_ofNat _)⟩⟩

/-! ## Texts -/

@[simp] theorem encode_nil : encode [] = [] := rfl

@[simp] theorem encode_cons (t : Text) :
    encode (c :: t) = String.utf8EncodeChar c ++ encode t := rfl

theorem splitFrom_of_completes (h : Completes held bs c) (raw rest : ByteString) :
    splitFrom raw held (bs ++ rest) = (c :: (split rest).1, (split rest).2) := by
  induction h generalizing raw with
  | last h => simp only [List.singleton_append, splitFrom, h, split]
  | more h _ ih =>
    rw [List.cons_append, splitFrom, h]
    exact ih _

theorem split_encode_append (t : Text) (rest : ByteString) :
    split (encode t ++ rest) = (t ++ (split rest).1, (split rest).2) := by
  induction t with
  | nil => rfl
  | cons c t ih =>
    rw [encode_cons, List.append_assoc, split, splitFrom_of_completes (completes_encode c), ih]
    rfl

/-- Splitting takes nothing away. What the reader holds stands for the bytes in `raw`. -/
theorem encode_append_splitFrom (held : Option Partial) (raw v : ByteString)
    (hraw : ∀ bs c, Completes held bs c → Completes none (raw ++ bs) c) :
    encode (splitFrom raw held v).1 ++ (splitFrom raw held v).2 = raw ++ v := by
  induction v generalizing held raw with
  | nil => simp [splitFrom]
  | cons b rest ih =>
    rw [splitFrom]
    split
    · next c h =>
      have hread : raw ++ [b] = String.utf8EncodeChar c := (hraw [b] c (.last h)).eq_encode
      have hrest := ih none [] fun _ _ hc => hc
      rw [encode_cons, ← hread, List.append_assoc, hrest]
      simp
    · next p h =>
      have hmore : ∀ bs c, Completes (some p) bs c → Completes none ((raw ++ [b]) ++ bs) c := by
        intro bs c hc
        rw [List.append_assoc]
        exact hraw (b :: bs) c (.more h hc)
      rw [ih (some p) (raw ++ [b]) hmore]
      simp
    · simp

/-- A byte string has a text exactly when it is the encoding of that text. -/
theorem decode?_eq_some_iff {v : ByteString} {t : Text} : decode? v = some t ↔ v = encode t := by
  constructor
  · intro h
    have hsplit := encode_append_splitFrom none [] v fun _ _ hc => hc
    unfold decode? split at h
    split at h
    · next text heq =>
      cases h
      rw [heq] at hsplit
      simpa using hsplit.symm
    · cases h
  · rintro rfl
    have hsplit := split_encode_append t []
    rw [List.append_nil] at hsplit
    rw [decode?, hsplit]
    simp [split, splitFrom]

theorem decodeLossyFrom_of_completes (h : Completes held bs c) (rest : ByteString) :
    decodeLossyFrom held (bs ++ rest) = c :: decodeLossyFrom none rest := by
  induction h with
  | @last held b c h =>
    have hstep : stepLossy held b = ([c], none) := by
      cases held with
      | none =>
        simp only [next] at h
        simp only [stepLossy, stepLossyLead, h]
      | some p =>
        simp only [next] at h
        simp only [stepLossy, h]
    rw [List.singleton_append, decodeLossyFrom, hstep]
    rfl
  | @more held b p bs c h _ ih =>
    have hstep : stepLossy held b = ([], some p) := by
      cases held with
      | none =>
        simp only [next] at h
        simp only [stepLossy, stepLossyLead, h]
      | some q =>
        simp only [next] at h
        simp only [stepLossy, h]
    rw [List.cons_append, decodeLossyFrom, hstep, List.nil_append]
    exact ih

/-- Nothing in the bytes of a text is replaced. -/
theorem decodeLossy_encode (t : Text) : decodeLossy (encode t) = t := by
  induction t with
  | nil => rfl
  | cons c t ih =>
    rw [encode_cons, decodeLossy, decodeLossyFrom_of_completes (completes_encode c)]
    exact congrArg (c :: ·) ih

theorem encode_injective : Function.Injective encode := fun _ _ h =>
  Option.some.inj ((decode?_eq_some_iff.mpr rfl).symm.trans (decode?_eq_some_iff.mpr h))

end CompilerTrials.Utf8
