import N2Kafka.Util.StringAppendJson

namespace N2Kafka.Util.Utf8Recognition

open Lib.CString Lib.Utf8
open StringAppendJson (forall_byte and_eq_iff_isTail multibyteUtf8UnicodeSize_eq_iff)

/-- A `char`, which may be negative, as an `int`. -/
def promote (c : UInt8) : BitVec 32 := c.toBitVec.signExtend 32

/-- The loop over the trailing bytes from `i` on, so many of them. There is no result if a byte is
examined that is not among the data. -/
def trailingBytes (data : Bytes) : ℕ → ℕ → Option Bool
  | 0, _ => some true
  | left + 1, i => do
    let b ← data[i]?
    if promote b &&& 0xc0 ≠ 0x80 then return false
    trailingBytes data left (i + 1)

def multibyteUtf8UnicodeSize (data : Bytes) : Option ℕ := do
  let first ← data[0]?
  let leadingOnes := (~~~ (promote first <<< 24)).clz.toNat
  if leadingOnes = 0 then return 1
  if leadingOnes ≠ 2 ∧ leadingOnes ≠ 3 ∧ leadingOnes ≠ 4 then return 0
  if data.length < leadingOnes then return 0
  if ← trailingBytes data (leadingOnes - 1) 1 then return leadingOnes
  return 0

/-- What is returned is the length of an encoding that the data begin with, if they do, and no byte
behind the data is examined. -/
def Exact (data : Bytes) : Prop :=
  ∃ size, multibyteUtf8UnicodeSize data = some size ∧
    ∀ n, 0 < n → (size = n ↔
      ∃ c, String.utf8EncodeChar c <+: data ∧ (String.utf8EncodeChar c).length = n)

/-- The data begin with what looks like an encoding, but its first two bytes exclude it. -/
def Misleading : Bytes → Prop
  | [] => False
  | lead :: rest => ∃ n, tailLength lead = some n ∧ n ≤ rest.length ∧
    (∀ b ∈ rest.take n, IsTail b) ∧ Excluded lead (rest.headD 0)

theorem leadingOnes_eq (c : UInt8) :
    (~~~ (promote c <<< 24)).clz.toNat = JsonString.leadingOnes c :=
  forall_byte (P := fun c ↦ (~~~ (promote c <<< 24)).clz.toNat = JsonString.leadingOnes c)
    (by decide +kernel) c

theorem promote_and (b : UInt8) : promote b &&& 0xc0 = 0x80 ↔ b &&& 0xc0 = 0x80 :=
  forall_byte (P := fun b ↦ promote b &&& 0xc0 = 0x80 ↔ b &&& 0xc0 = 0x80) (by decide +kernel) b

theorem trailingBytes_eq (data : Bytes) {left i : ℕ} (h : i + left ≤ data.length) :
    trailingBytes data left i =
      some (((data.drop i).take left).all fun b ↦ b &&& 0xc0 = 0x80) := by
  induction left generalizing i with
  | zero => simp [trailingBytes]
  | succ left ih =>
    have hi : i < data.length := by omega
    rw [trailingBytes, List.getElem?_eq_getElem hi, List.drop_eq_getElem_cons hi,
      List.take_succ_cons, List.all_cons, Option.bind_eq_bind, Option.bind_some]
    by_cases hb : data[i] &&& 0xc0 = 0x80
    · rw [if_neg (not_not.mpr ((promote_and _).mpr hb)), ih (by omega), decide_eq_true hb,
        Bool.true_and]
    · rw [if_pos (fun h ↦ hb ((promote_and _).mp h)), decide_eq_false hb, Bool.false_and]
      rfl

theorem multibyteUtf8UnicodeSize_eq (c : UInt8) (rest : Bytes) :
    multibyteUtf8UnicodeSize (c :: rest) =
      some (JsonString.multibyteUtf8UnicodeSize (c :: rest)) := by
  have hfirst : (c :: rest)[0]? = some c := rfl
  have hrange : (JsonString.leadingOnes c ≠ 2 ∧ JsonString.leadingOnes c ≠ 3 ∧
      JsonString.leadingOnes c ≠ 4) ↔
      JsonString.leadingOnes c < 2 ∨ 4 < JsonString.leadingOnes c := by omega
  unfold multibyteUtf8UnicodeSize
  rw [hfirst, Option.bind_eq_bind, Option.bind_some]
  simp only [leadingOnes_eq, hrange, List.length_cons]
  rw [JsonString.multibyteUtf8UnicodeSize]
  by_cases hzero : JsonString.leadingOnes c = 0
  · rw [if_pos hzero, if_pos hzero]
    rfl
  rw [if_neg hzero, if_neg hzero]
  by_cases hbad : JsonString.leadingOnes c < 2 ∨ 4 < JsonString.leadingOnes c
  · rw [if_pos hbad, if_pos hbad]
    rfl
  rw [if_neg hbad, if_neg hbad]
  by_cases hlen : rest.length + 1 < JsonString.leadingOnes c
  · rw [if_pos hlen, if_pos hlen]
    rfl
  have hread : 1 + (JsonString.leadingOnes c - 1) ≤ (c :: rest).length := by
    rw [List.length_cons]
    omega
  rw [if_neg hlen, if_neg hlen, trailingBytes_eq _ hread, Option.bind_eq_bind, Option.bind_some,
    List.drop_one, List.tail_cons]
  split_ifs
  · rfl
  · rfl

theorem recognised_of_encodeChar {c : Char} {data : Bytes}
    (h : String.utf8EncodeChar c <+: data) :
    JsonString.multibyteUtf8UnicodeSize data = (String.utf8EncodeChar c).length := by
  obtain ⟨rest, rfl⟩ := h
  exact StringAppendJson.multibyteUtf8UnicodeSize_encodeChar c rest

theorem excluded_take_iff {lead : UInt8} {rest : Bytes} {n : ℕ} (hn : tailLength lead = some n) :
    Excluded lead ((rest.take n).headD 0) ↔ Excluded lead (rest.headD 0) := by
  cases n with
  | zero =>
    have hlt : lead.toNat < 0x80 := by
      unfold tailLength at hn
      split_ifs at hn with hlt
      · exact hlt
      all_goals cases hn
    have hnot (second : UInt8) : ¬ Excluded lead second := by
      unfold Excluded
      omega
    exact iff_of_false (hnot _) (hnot _)
  | succ n =>
    cases rest with
    | nil => exact Iff.rfl
    | cons b rest => exact Iff.rfl

theorem misleading_iff {lead : UInt8} {rest : Bytes} {n : ℕ} (hn : tailLength lead = some n)
    (hle : n ≤ rest.length) (htails : ∀ b ∈ rest.take n, IsTail b) :
    Misleading (lead :: rest) ↔ ¬ ∃ c, String.utf8EncodeChar c = lead :: rest.take n := by
  have hlen : tailLength lead = some (rest.take n).length := by
    rw [List.length_take, min_eq_left hle, hn]
  constructor
  · intro ⟨k, hk, _, _, hexcluded⟩ ⟨c, hc⟩
    exact not_excluded_encodeChar hc ((excluded_take_iff hn).mpr hexcluded)
  · intro hno
    refine ⟨n, hn, hle, htails, ?_⟩
    by_contra hexcluded
    exact hno (exists_encodeChar hlen htails fun h ↦ hexcluded ((excluded_take_iff hn).mp h))

theorem exact_iff (first : UInt8) (rest : Bytes) :
    Exact (first :: rest) ↔ ¬ Misleading (first :: rest) := by
  have hexact : Exact (first :: rest) ↔
      ∀ n, 0 < n → (JsonString.multibyteUtf8UnicodeSize (first :: rest) = n ↔
        ∃ c, String.utf8EncodeChar c <+: first :: rest ∧
          (String.utf8EncodeChar c).length = n) := by
    unfold Exact
    rw [multibyteUtf8UnicodeSize_eq]
    simp
  have hrecognised {c : Char} (hc : String.utf8EncodeChar c <+: first :: rest) :=
    recognised_of_encodeChar hc
  rw [hexact]
  cases hsize : JsonString.multibyteUtf8UnicodeSize (first :: rest) with
  | zero =>
    refine iff_of_true ?_ ?_
    · intro n hpos
      refine iff_of_false hpos.ne ?_
      intro ⟨c, hc, hlen⟩
      have hzero := hsize.symm.trans (hrecognised hc)
      omega
    · intro ⟨n, hn, hle, htails, _⟩
      have hsucc := multibyteUtf8UnicodeSize_eq_iff.mpr ⟨hn, hle, htails⟩
      omega
  | succ k =>
    obtain ⟨hk, hle, htails⟩ := multibyteUtf8UnicodeSize_eq_iff.mp hsize
    have hlength : (first :: rest.take k).length = k + 1 := by
      rw [List.length_cons, List.length_take, min_eq_left hle]
    have htake : first :: rest.take k <+: first :: rest :=
      List.cons_prefix_cons.mpr ⟨rfl, List.take_prefix k rest⟩
    rw [misleading_iff hk hle htails, not_not]
    constructor
    · intro h
      obtain ⟨c, hc, hlen⟩ := (h (k + 1) k.succ_pos).mp rfl
      exact ⟨c, (List.prefix_of_prefix_length_le hc htake (hlen.trans hlength.symm).le).eq_of_length
        (hlen.trans hlength.symm)⟩
    · intro ⟨c, hc⟩ n _
      constructor
      · intro hn
        exact ⟨c, hc ▸ htake, by rw [hc, hlength, hn]⟩
      · intro ⟨d, hd, hlen⟩
        exact hsize.symm.trans ((hrecognised hd).trans hlen)

/-- An overlong null byte. -/
theorem overlong_not_exact :
    multibyteUtf8UnicodeSize [0xc0, 0x80] = some 2 ∧ ¬ Exact [0xc0, 0x80] := by
  have hsize : multibyteUtf8UnicodeSize [0xc0, 0x80] = some 2 := by decide
  refine ⟨hsize, ?_⟩
  intro ⟨size, hsome, h⟩
  rw [hsize] at hsome
  obtain ⟨c, hc, hlen⟩ := (h 2 (by decide)).mp (Option.some.inj hsome).symm
  have heq : String.utf8EncodeChar c = [0xc0, 0x80] := hc.eq_of_length hlen
  exact not_excluded_encodeChar heq (.inl rfl)

end N2Kafka.Util.Utf8Recognition
