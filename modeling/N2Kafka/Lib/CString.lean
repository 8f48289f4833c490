import Mathlib.Data.List.Basic
import Mathlib.Data.List.TakeWhile

namespace N2Kafka.Lib.CString

abbrev Bytes := List UInt8

def ascii (s : String) : Bytes := s.toList.map fun c ↦ c.toNat.toUInt8

/-- The bytes of a terminated string, without the terminator. -/
abbrev CStr := {s : Bytes // (0 : UInt8) ∉ s}

def lit (s : String) : CStr := ⟨(ascii s).filter (· ≠ 0), by simp⟩

def tolower (c : UInt8) : UInt8 := if 65 ≤ c ∧ c ≤ 90 then c + 32 else c

/-- Comparison of two strings up to their terminators, after mapping every byte by `fold`. -/
def compareBy (fold : UInt8 → UInt8) : Bytes → Bytes → Int
  | [], [] => 0
  | [], b :: _ => -(fold b).toNat
  | a :: _, [] => (fold a).toNat
  | a :: s, b :: t =>
    if fold a = fold b then compareBy fold s t else (fold a).toNat - (fold b).toNat

def strcmp (s t : CStr) : Int := compareBy id s.1 t.1

def strcasecmp (s t : CStr) : Int := compareBy tolower s.1 t.1

theorem compareBy_eq_zero_iff (fold : UInt8 → UInt8) (hf : ∀ c, fold c = 0 → c = 0) :
    ∀ s t : Bytes, (0 : UInt8) ∉ s → (0 : UInt8) ∉ t →
      (compareBy fold s t = 0 ↔ s.map fold = t.map fold)
  | [], [], _, _ => by simp [compareBy]
  | [], b :: t, _, ht => by
    have hb : fold b ≠ 0 := fun h ↦ ht (by simp [hf b h])
    have hn : (fold b).toNat ≠ 0 := fun h ↦ hb (UInt8.toNat_inj.mp h)
    simp only [compareBy, List.map_nil, List.map_cons]
    constructor
    · intro h; omega
    · intro h; cases h
  | a :: s, [], hs, _ => by
    have ha : fold a ≠ 0 := fun h ↦ hs (by simp [hf a h])
    have hn : (fold a).toNat ≠ 0 := fun h ↦ ha (UInt8.toNat_inj.mp h)
    simp only [compareBy, List.map_nil, List.map_cons]
    constructor
    · intro h; omega
    · intro h; cases h
  | a :: s, b :: t, hs, ht => by
    have ih := compareBy_eq_zero_iff fold hf s t (fun h ↦ hs (.tail _ h)) (fun h ↦ ht (.tail _ h))
    simp only [compareBy, List.map_cons, List.cons.injEq]
    by_cases h : fold a = fold b
    · rw [if_pos h, ih, and_iff_right h]
    · have hn : (fold a).toNat ≠ (fold b).toNat := fun e ↦ h (UInt8.toNat_inj.mp e)
      rw [if_neg h]
      constructor
      · intro hd; omega
      · intro hd; exact absurd hd.1 h

@[simp] theorem strcmp_eq_zero_iff (s t : CStr) : strcmp s t = 0 ↔ s = t := by
  unfold strcmp
  rw [compareBy_eq_zero_iff id (fun _ h ↦ h) s.1 t.1 s.2 t.2]
  simp only [List.map_id, Subtype.ext_iff]

theorem eq_zero_of_tolower {c : UInt8} (h : tolower c = 0) : c = 0 := by
  unfold tolower at h
  split_ifs at h with hupper
  · have hlow : 65 ≤ c.toNat := UInt8.le_iff_toNat_le.mp hupper.1
    have hhigh : c.toNat ≤ 90 := UInt8.le_iff_toNat_le.mp hupper.2
    have hsum : (c.toNat + 32) % 256 = 0 := congrArg UInt8.toNat h
    omega
  · exact h

theorem strcasecmp_eq_zero_iff (s t : CStr) :
    strcasecmp s t = 0 ↔ s.1.map tolower = t.1.map tolower :=
  compareBy_eq_zero_iff tolower (fun _ ↦ eq_zero_of_tolower) s.1 t.1 s.2 t.2

/-- The string stored at an address: what lies before the first terminator. -/
def strAt (mem : Bytes) : CStr :=
  ⟨mem.takeWhile (· ≠ 0), fun h ↦ by simpa using List.mem_takeWhile_imp h⟩

def strncmp (s t : CStr) (n : ℕ) : Int := compareBy id (s.1.take n) (t.1.take n)

def strncasecmp (s t : CStr) (n : ℕ) : Int := compareBy tolower (s.1.take n) (t.1.take n)

def CStr.drop (s : CStr) (n : ℕ) : CStr := ⟨s.1.drop n, fun h ↦ s.2 (List.mem_of_mem_drop h)⟩

def strrchr (s : CStr) (c : UInt8) : Option ℕ :=
  (s.1.reverse.findIdx? (· = c)).map fun i ↦ s.1.length - 1 - i

/-- Offset of the first `c`, or of the terminator when there is none before it. -/
def strchrnul (mem : Bytes) (c : UInt8) : ℕ := mem.findIdx fun b ↦ b = c ∨ b = 0

def strchr (mem : Bytes) (c : UInt8) : Option ℕ :=
  if mem[strchrnul mem c]? = some c then some (strchrnul mem c) else none

def memWrite (mem : Bytes) (offset : ℕ) (data : Bytes) : Bytes :=
  mem.take offset ++ data ++ mem.drop (offset + data.length)

theorem strncmp_eq_zero_iff (s t : CStr) (n : ℕ) : strncmp s t n = 0 ↔ s.1.take n = t.1.take n := by
  unfold strncmp
  rw [compareBy_eq_zero_iff id (fun _ h ↦ h) _ _ (fun h ↦ s.2 (List.mem_of_mem_take h))
    (fun h ↦ t.2 (List.mem_of_mem_take h)), List.map_id, List.map_id]

theorem strAt_append (s rest : Bytes) (hs : (0 : UInt8) ∉ s) : (strAt (s ++ 0 :: rest)).1 = s := by
  have h : ∀ b ∈ s, b ≠ 0 := fun b hb e ↦ hs (e ▸ hb)
  simp only [strAt]
  rw [List.takeWhile_append_of_pos (by simpa using h)]
  simp

theorem strchrnul_append (s rest : Bytes) (c b : UInt8) (hc : c ∉ s) (hs : (0 : UInt8) ∉ s)
    (hb : b = c ∨ b = 0) : strchrnul (s ++ b :: rest) c = s.length := by
  have h : ∀ x ∈ s, ¬ (x = c ∨ x = 0) := by
    rintro x hx (rfl | rfl)
    · exact hc hx
    · exact hs hx
  have hn : s.findIdx (fun x ↦ x = c ∨ x = 0) = s.length := by
    rw [List.findIdx_eq_length]
    simpa using h
  unfold strchrnul
  rw [List.findIdx_append, hn, if_neg (lt_irrefl _)]
  simp only [List.findIdx_cons, decide_eq_true hb, cond_true, Nat.zero_add]

theorem strchr_append (s rest : Bytes) (c : UInt8) (hc : c ∉ s) (hs : (0 : UInt8) ∉ s) :
    strchr (s ++ c :: rest) c = some s.length := by
  unfold strchr
  rw [strchrnul_append s rest c c hc hs (.inl rfl)]
  simp

theorem strchr_terminated (s rest : Bytes) (c : UInt8) (h0 : c ≠ 0) (hc : c ∉ s)
    (hs : (0 : UInt8) ∉ s) : strchr (s ++ 0 :: rest) c = none := by
  unfold strchr
  rw [strchrnul_append s rest c 0 hc hs (.inr rfl)]
  simp [h0.symm]

theorem memWrite_append (before old behind data : Bytes) (h : old.length = data.length) :
    memWrite (before ++ old ++ behind) before.length data = before ++ data ++ behind := by
  have htake : (before ++ old ++ behind).take before.length = before := by
    rw [List.append_assoc, List.take_left]
  have hdrop : (before ++ old ++ behind).drop (before.length + data.length) = behind := by
    rw [← h, ← List.length_append, List.drop_left]
  unfold memWrite
  rw [htake, hdrop]

theorem memWrite_zeros (done data : Bytes) (z : ℕ) :
    memWrite (done ++ List.replicate z 0) done.length data =
      done ++ data ++ List.replicate (z - data.length) 0 := by
  simp [memWrite, List.drop_append, List.drop_replicate]

theorem memWrite_zero (done : Bytes) (z k : ℕ) (hk : k < z) :
    memWrite (done ++ List.replicate z 0) (done.length + k) [0] =
      done ++ List.replicate z 0 := by
  have hz : List.replicate z (0 : UInt8) =
      List.replicate k 0 ++ [0] ++ List.replicate (z - (k + 1)) 0 := by
    rw [← List.replicate_succ', ← List.replicate_add]
    congr 1
    omega
  simp only [memWrite, List.length_singleton]
  rw [List.take_length_add_append, Nat.add_assoc, List.drop_length_add_append,
    List.take_replicate, List.drop_replicate, Nat.min_eq_left (by omega)]
  conv_rhs => rw [hz]
  simp [List.append_assoc]

theorem isDigit_of_mem_toString {n : ℕ} {c : Char} (h : c ∈ (toString n).toList) :
    48 ≤ c.toNat ∧ c.toNat ≤ 57 := by
  have hc : c ∈ Nat.toDigits 10 n := by simpa using h
  have hdigit := Nat.isDigit_of_mem_toDigits (by decide) (by decide) hc
  simp only [Char.isDigit, Bool.and_eq_true, decide_eq_true_eq, UInt32.le_iff_toNat_le] at hdigit
  exact hdigit

theorem mem_ascii_toString {n : ℕ} {b : UInt8} (h : b ∈ ascii (toString n)) :
    48 ≤ b.toNat ∧ b.toNat ≤ 57 := by
  obtain ⟨c, hc, rfl⟩ := List.mem_map.mp h
  have hdigit := isDigit_of_mem_toString hc
  have htoNat : c.toNat.toUInt8.toNat = c.toNat := Nat.mod_eq_of_lt (by omega)
  rwa [htoNat]

theorem ascii_toString_injective : Function.Injective fun n : ℕ ↦ ascii (toString n) := by
  intro m n h
  have hback (k : ℕ) : (ascii (toString k)).map (fun b ↦ Char.ofNat b.toNat) = Nat.toDigits 10 k := by
    rw [ascii, List.map_map]
    have hid : ∀ c ∈ (toString k).toList,
        ((fun b : UInt8 ↦ Char.ofNat b.toNat) ∘ fun c : Char ↦ c.toNat.toUInt8) c = id c := by
      intro c hc
      have hdigit := isDigit_of_mem_toString hc
      have htoNat : c.toNat.toUInt8.toNat = c.toNat := Nat.mod_eq_of_lt (by omega)
      rw [Function.comp_apply, htoNat, Char.ofNat_toNat, id]
    rw [List.map_congr_left hid]
    simp
  have hdigits : Nat.toDigits 10 m = Nat.toDigits 10 n := by
    rw [← hback, ← hback]
    exact congrArg _ h
  have hvalue := congrArg (fun digits ↦ Nat.ofDigitChars 10 digits 0) hdigits
  simpa using hvalue

end N2Kafka.Lib.CString
