import N2Kafka.Lib.CString

namespace N2Kafka.Lib.Utf8

open Lib.CString

def encode (text : List Char) : Bytes := text.flatMap String.utf8EncodeChar

/-- The bytes that are a sequence of well-formed encodings. -/
def Valid (s : Bytes) : Prop := ∃ text, s = encode text

theorem valid_nil : Valid [] := ⟨[], rfl⟩

theorem valid_encodeChar (c : Char) : Valid (String.utf8EncodeChar c) := ⟨[c], by simp [encode]⟩

theorem Valid.append {s t : Bytes} (hs : Valid s) (ht : Valid t) : Valid (s ++ t) := by
  obtain ⟨text, rfl⟩ := hs
  obtain ⟨text', rfl⟩ := ht
  exact ⟨text ++ text', by simp [encode]⟩

theorem encodeChar_append_inj {c d : Char} {s t : Bytes}
    (h : String.utf8EncodeChar c ++ s = String.utf8EncodeChar d ++ t) : c = d ∧ s = t := by
  have hdecode (e : Char) (r : Bytes) :
      ((String.utf8EncodeChar e ++ r).toByteArray).utf8DecodeChar? 0 = some e := by
    rw [List.toByteArray_append]
    exact ByteArray.utf8DecodeChar?_utf8EncodeChar_append
  have hcd : c = d := Option.some.inj (by rw [← hdecode c s, h, hdecode d t])
  subst hcd
  exact ⟨rfl, List.append_cancel_left h⟩

theorem valid_cases {s : Bytes} (h : Valid s) :
    s = [] ∨ ∃ c t, s = String.utf8EncodeChar c ++ t ∧ Valid t := by
  obtain ⟨text, rfl⟩ := h
  cases text with
  | nil => exact .inl rfl
  | cons c text => exact .inr ⟨c, encode text, by simp [encode], text, rfl⟩

theorem Valid.of_encodeChar_append {c : Char} {s : Bytes}
    (h : Valid (String.utf8EncodeChar c ++ s)) : Valid s := by
  obtain hnil | ⟨d, t, heq, ht⟩ := valid_cases h
  · simp [String.utf8EncodeChar_ne_nil] at hnil
  · obtain ⟨-, rfl⟩ := encodeChar_append_inj heq
    exact ht

theorem Valid.of_append {s t : Bytes} (hs : Valid s) (h : Valid (s ++ t)) : Valid t := by
  obtain ⟨text, rfl⟩ := hs
  induction text with
  | nil => simpa [encode] using h
  | cons c text ih =>
    have hcons : encode (c :: text) ++ t = String.utf8EncodeChar c ++ (encode text ++ t) := by
      simp [encode]
    rw [hcons] at h
    exact ih h.of_encodeChar_append

def tailLength (lead : UInt8) : Option ℕ :=
  if lead.toNat < 0x80 then some 0
  else if lead.toNat < 0xc0 then none
  else if lead.toNat < 0xe0 then some 1
  else if lead.toNat < 0xf0 then some 2
  else if lead.toNat < 0xf8 then some 3
  else none

def IsTail (b : UInt8) : Prop := 0x80 ≤ b.toNat ∧ b.toNat < 0xc0

theorem isTail_ofNat (n : ℕ) : IsTail (UInt8.ofNat (n % 0x40 + 0x80)) := by
  unfold IsTail
  rw [UInt8.toNat_ofNat']
  omega

theorem tailLength_ofNat {n k : ℕ} (base size : ℕ) (hk : n = k % size + base)
    (hsize : 0 < size) (hbyte : base + size ≤ 256) {l : Option ℕ}
    (hl : ∀ b : UInt8, base ≤ b.toNat → b.toNat < base + size → tailLength b = l) :
    tailLength (UInt8.ofNat n) = l := by
  have hmod := Nat.mod_lt k hsize
  have hnat : (UInt8.ofNat n).toNat = n := by
    rw [UInt8.toNat_ofNat']
    exact Nat.mod_eq_of_lt (by omega)
  exact hl _ (by omega) (by omega)

theorem encodeChar_shape (c : Char) : ∃ lead tail, String.utf8EncodeChar c = lead :: tail ∧
    tailLength lead = some tail.length ∧ ∀ b ∈ tail, IsTail b := by
  unfold String.utf8EncodeChar
  simp only
  split_ifs with h1 h2 h3
  · refine ⟨_, _, rfl, ?_, by simp⟩
    refine tailLength_ofNat 0 0x80 (k := c.val.toNat) (by omega) (by omega) (by omega) ?_
    intro b _ hb
    exact if_pos hb
  · refine ⟨_, _, rfl, ?_, List.forall_mem_singleton.mpr (isTail_ofNat _)⟩
    refine tailLength_ofNat 0xc0 0x20 rfl (by omega) (by omega) ?_
    intro b hb hb'
    unfold tailLength
    rw [if_neg (by omega), if_neg (by omega), if_pos hb']
    rfl
  · refine ⟨_, _, rfl, ?_,
      List.forall_mem_cons.mpr ⟨isTail_ofNat _, List.forall_mem_singleton.mpr (isTail_ofNat _)⟩⟩
    refine tailLength_ofNat 0xe0 0x10 rfl (by omega) (by omega) ?_
    intro b hb hb'
    unfold tailLength
    rw [if_neg (by omega), if_neg (by omega), if_neg (by omega), if_pos hb']
    rfl
  · refine ⟨_, _, rfl, ?_,
      List.forall_mem_cons.mpr ⟨isTail_ofNat _, List.forall_mem_cons.mpr
        ⟨isTail_ofNat _, List.forall_mem_singleton.mpr (isTail_ofNat _)⟩⟩⟩
    refine tailLength_ofNat 0xf0 0x08 rfl (by omega) (by omega) ?_
    intro b hb hb'
    unfold tailLength
    rw [if_neg (by omega), if_neg (by omega), if_neg (by omega), if_neg (by omega), if_pos hb']
    rfl

theorem val_ofNat {v : ℕ} (hvalid : v.isValidChar) : (Char.ofNat v).val.toNat = v := by
  unfold Char.ofNat
  rw [dif_pos hvalid]
  rfl

theorem encodeChar_of_lt {b : UInt8} (hb : b.toNat < 0x80) :
    String.utf8EncodeChar (Char.ofNat b.toNat) = [b] := by
  have hval : (Char.ofNat b.toNat).val.toNat = b.toNat := val_ofNat (.inl (by omega))
  unfold String.utf8EncodeChar
  simp only [hval]
  rw [if_pos (by omega)]
  simp

theorem encodeChar_cases (c : Char) :
    c.toNat < 0x80 ∧ String.utf8EncodeChar c = [UInt8.ofNat c.toNat] ∨
      0x80 ≤ c.toNat ∧ ∀ b ∈ String.utf8EncodeChar c, 0x80 ≤ b.toNat := by
  have hval : c.val.toNat = c.toNat := rfl
  by_cases hc : c.toNat < 0x80
  · refine .inl ⟨hc, ?_⟩
    unfold String.utf8EncodeChar
    simp only
    rw [if_pos (by omega), hval]
  · refine .inr ⟨Nat.not_lt.mp hc, ?_⟩
    obtain ⟨lead, tail, heq, hlen, htail⟩ := encodeChar_shape c
    have hlead : 0x80 ≤ lead.toNat := by
      by_contra hlt
      have hnil : tail.length = 0 := by
        unfold tailLength at hlen
        rw [if_pos (Nat.not_le.mp hlt)] at hlen
        exact (Option.some.inj hlen).symm
      have hone : c.utf8Size = 1 := by
        rw [← String.length_utf8EncodeChar, heq, List.length_cons, hnil]
      rw [Char.utf8Size_eq_one_iff, UInt32.le_iff_toNat_le] at hone
      have h127 : (127 : UInt32).toNat = 127 := rfl
      omega
    rw [heq]
    exact List.forall_mem_cons.mpr ⟨hlead, fun b hb ↦ (htail b hb).1⟩

/-- The first two bytes with which a sequence looks like an encoding but is none: it is too long for
its character, that would be a surrogate, or it would be above U+10FFFF. -/
def Excluded (lead second : UInt8) : Prop :=
  lead.toNat = 0xc0 ∨ lead.toNat = 0xc1 ∨
    lead.toNat = 0xe0 ∧ second.toNat < 0xa0 ∨ lead.toNat = 0xed ∧ 0xa0 ≤ second.toNat ∨
    lead.toNat = 0xf0 ∧ second.toNat < 0x90 ∨ lead.toNat = 0xf4 ∧ 0x90 ≤ second.toNat ∨
    0xf5 ≤ lead.toNat

theorem not_excluded_encodeChar {c : Char} {lead : UInt8} {tail : Bytes}
    (h : String.utf8EncodeChar c = lead :: tail) : ¬ Excluded lead (tail.headD 0) := by
  have hvalid : c.val.toNat < 0xd800 ∨ 0xdfff < c.val.toNat ∧ c.val.toNat < 0x110000 := c.valid
  unfold String.utf8EncodeChar at h
  unfold Excluded
  simp only at h
  split_ifs at h with h1 h2 h3
  all_goals
    obtain ⟨rfl, rfl⟩ := List.cons.inj h
    simp only [List.headD_cons, List.headD_nil, UInt8.toNat_ofNat']
    omega

theorem ofNat_eq_byte {n : ℕ} {b : UInt8} (h : n = b.toNat) : UInt8.ofNat n = b := by
  rw [h, UInt8.ofNat_toNat]

/-- A sequence that looks like an encoding is one, unless its first two bytes exclude it. -/
theorem exists_encodeChar {lead : UInt8} {tail : Bytes} (hlen : tailLength lead = some tail.length)
    (htail : ∀ b ∈ tail, IsTail b) (hexcluded : ¬ Excluded lead (tail.headD 0)) :
    ∃ c, String.utf8EncodeChar c = lead :: tail := by
  unfold tailLength at hlen
  unfold Excluded at hexcluded
  unfold IsTail at htail
  split_ifs at hlen with h1 h2 h3 h4 h5
  · obtain rfl := List.length_eq_zero_iff.mp (Option.some.inj hlen).symm
    exact ⟨_, encodeChar_of_lt h1⟩
  · obtain ⟨b, rfl⟩ := List.length_eq_one_iff.mp (Option.some.inj hlen).symm
    have hb := htail b (by simp)
    rw [List.headD_cons] at hexcluded
    generalize hv : (lead.toNat - 0xc0) * 0x40 + (b.toNat - 0x80) = v
    have hval : (Char.ofNat v).val.toNat = v := val_ofNat (.inl (by omega))
    refine ⟨Char.ofNat v, ?_⟩
    unfold String.utf8EncodeChar
    simp only [hval]
    rw [if_neg (by omega), if_pos (by omega), ofNat_eq_byte (b := lead) (by omega),
      ofNat_eq_byte (b := b) (by omega)]
  · obtain ⟨b, b', rfl⟩ := List.length_eq_two.mp (Option.some.inj hlen).symm
    have hb := htail b (by simp)
    have hb' := htail b' (by simp)
    rw [List.headD_cons] at hexcluded
    generalize hv : (lead.toNat - 0xe0) * 0x1000 + (b.toNat - 0x80) * 0x40 + (b'.toNat - 0x80) = v
    have hvalid : v < 0xd800 ∨ 0xdfff < v ∧ v < 0x110000 := by omega
    have hval : (Char.ofNat v).val.toNat = v := val_ofNat hvalid
    refine ⟨Char.ofNat v, ?_⟩
    unfold String.utf8EncodeChar
    simp only [hval]
    rw [if_neg (by omega), if_neg (by omega), if_pos (by omega), ofNat_eq_byte (b := lead) (by omega),
      ofNat_eq_byte (b := b) (by omega), ofNat_eq_byte (b := b') (by omega)]
  · obtain ⟨b, b', b'', rfl⟩ := List.length_eq_three.mp (Option.some.inj hlen).symm
    have hb := htail b (by simp)
    have hb' := htail b' (by simp)
    have hb'' := htail b'' (by simp)
    rw [List.headD_cons] at hexcluded
    generalize hv : (lead.toNat - 0xf0) * 0x40000 + (b.toNat - 0x80) * 0x1000 +
      (b'.toNat - 0x80) * 0x40 + (b''.toNat - 0x80) = v
    have hval : (Char.ofNat v).val.toNat = v := val_ofNat (.inr (by omega))
    refine ⟨Char.ofNat v, ?_⟩
    unfold String.utf8EncodeChar
    simp only [hval]
    rw [if_neg (by omega), if_neg (by omega), if_neg (by omega),
      ofNat_eq_byte (b := lead) (by omega), ofNat_eq_byte (b := b) (by omega),
      ofNat_eq_byte (b := b') (by omega), ofNat_eq_byte (b := b'') (by omega)]

end N2Kafka.Lib.Utf8
