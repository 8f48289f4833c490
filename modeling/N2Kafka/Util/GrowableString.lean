import Mathlib.Algebra.Group.Nat.Defs
import Mathlib.Data.Nat.Size
import N2Kafka.Lib.CString

namespace N2Kafka.Util.GrowableString

open Lib.CString

/-- The block `buf` points to, as long as it was really allocated, and `size`. -/
structure Str where
  buf : Option Bytes
  size : ℕ
  deriving DecidableEq

def Str.initializer : Str := ⟨none, 0⟩

def Str.block (s : Str) : Bytes := s.buf.getD []

def Str.contents (s : Str) : Bytes := s.block.take s.size

def stringMinSize : ℕ := 4096

/-- The shifted one has 32 bits, and a shift by more bits than that is undefined. -/
def nextPow2 (x : ℕ) : Option ℕ :=
  if x ≠ 0 ∧ x - 1 ≠ 0 then if (x - 1).size < 32 then some (2 ^ (x - 1).size) else none
  else some 1

def stringAllocated (s : Str) : Option ℕ :=
  match s.buf with
  | none => some 0
  | some _ => if s.size < stringMinSize then some stringMinSize else nextPow2 s.size

/-- What is behind the old bytes is unspecified, and nothing reads it. -/
def resize (block : Bytes) (n : ℕ) : Bytes := block.take n ++ List.replicate (n - block.length) 0

structure Growth where
  allocated : ℕ
  failed : Bool
  str : Str

/-- `served` is whether a reallocation, if it is asked for, succeeds. -/
def stringGrow (served : Bool) (s : Str) (delta : ℕ) : Option Growth := do
  let newAllocatedSize ← nextPow2 (s.size + delta)
  let allocated ← stringAllocated s
  if ¬ allocated < newAllocatedSize then return ⟨allocated, false, s⟩
  let newAllocated := max newAllocatedSize stringMinSize
  if served then
    return ⟨newAllocated, false, { s with buf := some (resize s.block newAllocated) }⟩
  else return ⟨allocated, true, s⟩

def Str.write (s : Str) (offset : ℕ) (data : Bytes) : Option Str :=
  match s.buf, data with
  | none, [] => some s
  | none, _ :: _ => none
  | some block, data =>
    if offset + data.length ≤ block.length then
      some { s with buf := some (memWrite block offset data) }
    else none

def stringAppend (served : Bool) (s : Str) (data : Bytes) : Option (ℤ × Str) := do
  let g ← stringGrow served s data.length
  if g.allocated < g.str.size + data.length then return (-1, g.str)
  let s ← g.str.write g.str.size data
  return (0, { s with size := s.size + data.length })

def stringPopBack (s : Str) : Option Str :=
  if s.buf = none ∨ s.size = 0 then none else { s with size := s.size - 1 }.write (s.size - 1) [0]

/-- What is printed: its length is returned as an `int`. -/
abbrev Printed := {t : Bytes // t.length < 2 ^ 31}

/-- With no space at all nothing is written, else what fits in front of the terminator. -/
def vsnprintf (s : Str) (available : ℕ) (t : Printed) : Option Str :=
  if available = 0 then some s else s.write s.size (t.1.take (available - 1) ++ [0])

inductive PrintfEnd
  | returned (rc : ℤ) (failed : Bool) (str : Str)
  | undefined

/-- The loop of `string_printf` from a turn on, which gets `served turn` if it reallocates; `failed`
is whether a reallocation failed before. There is no result if the fuel does not last. -/
def stringPrintfLoop (t : Printed) (served : ℕ → Bool) (initialLen : ℕ) :
    ℕ → ℕ → Bool → Str → Option PrintfEnd
  | 0, _, _, _ => none
  | fuel + 1, turn, failed, s =>
    match (stringAllocated s).bind fun allocated ↦
        (vsnprintf s (allocated - s.size) t).map (allocated - s.size, ·) with
    | none => some .undefined
    | some (available, s) =>
      if t.1.length + 1 < available then
        some (.returned t.1.length failed { s with size := s.size + t.1.length })
      else
        match stringGrow (served turn) s (initialLen + t.1.length) with
        | none => some .undefined
        | some g =>
          if g.allocated = initialLen then
            match g.str.write initialLen [0] with
            | none => some .undefined
            | some s => some (.returned (-1) (failed || g.failed) s)
          else stringPrintfLoop t served initialLen fuel (turn + 1) (failed || g.failed) g.str

def stringPrintf (fuel : ℕ) (served : ℕ → Bool) (s : Str) (t : Printed) : Option PrintfEnd :=
  stringPrintfLoop t served s.size fuel 0 false s

/-- The strings that the calls of this file make of an empty one. -/
inductive Reachable : Str → Prop
  | initializer : Reachable .initializer
  | append {s s' : Str} {served : Bool} {data : Bytes} {rc : ℤ} :
    Reachable s → stringAppend served s data = some (rc, s') → Reachable s'
  | popBack {s s' : Str} : Reachable s → stringPopBack s = some s' → Reachable s'
  | printf {s s' : Str} {fuel : ℕ} {served : ℕ → Bool} {t : Printed} {rc : ℤ} {failed : Bool} :
    Reachable s → stringPrintf fuel served s t = some (.returned rc failed s') → Reachable s'

abbrev ReachableStr := {s : Str // Reachable s}

/-- A call that appends what it prints, or says that it could not. -/
def Appends (served : ℕ → Bool) (s : Str) (t : Printed) : Prop :=
  ∃ fuel rc failed s', stringPrintf fuel served s t = some (.returned rc failed s') ∧
    (failed = false → rc = t.1.length ∧ s'.contents = s.contents ++ t.1) ∧
    (failed = true → rc < 0 ∧ s'.contents = s.contents)

theorem nextPow2_eq (x : ℕ) :
    nextPow2 x = if x ≤ 2 ^ 31 then some (2 ^ (x - 1).size) else none := by
  have hsize : (x - 1).size < 32 ↔ x ≤ 2 ^ 31 := by
    rw [Nat.lt_succ_iff, Nat.size_le]
    omega
  unfold nextPow2
  simp only [hsize]
  split_ifs with h1 h2 h2
  · rfl
  · rfl
  · have h0 : x - 1 = 0 := by omega
    rw [h0]
    rfl
  · omega

theorem le_nextPow2 {x p : ℕ} (h : nextPow2 x = some p) : x ≤ p := by
  rw [nextPow2_eq] at h
  split_ifs at h
  obtain rfl := Option.some.inj h
  have := Nat.lt_size_self (x - 1)
  omega

theorem nextPow2_le {x p j : ℕ} (h : nextPow2 x = some p) (hj : x ≤ 2 ^ j) : p ≤ 2 ^ j := by
  rw [nextPow2_eq] at h
  split_ifs at h
  obtain rfl := Option.some.inj h
  have hpos := Nat.two_pow_pos j
  exact Nat.pow_le_pow_right (by omega) (Nat.size_le.mpr (by omega))

theorem exists_nextPow2 {x : ℕ} (h : x ≤ 2 ^ 31) : ∃ p, nextPow2 x = some p :=
  ⟨_, by rw [nextPow2_eq, if_pos h]⟩

theorem nextPow2_le_max {x p : ℕ} (h : nextPow2 x = some p) : x ≤ 2 ^ 31 := by
  rw [nextPow2_eq] at h
  split_ifs at h with hx
  exact hx

/-- A string whose block is at least as long as its size makes `string_allocated` believe. -/
structure Valid (s : Str) (a : ℕ) : Prop where
  allocated : stringAllocated s = some a
  size_le : s.size ≤ a
  le_block : a ≤ s.block.length

theorem Valid.contents_length {s : Str} {a : ℕ} (h : Valid s a) : s.contents.length = s.size := by
  have hsize := h.size_le
  have hblock := h.le_block
  rw [Str.contents, List.length_take]
  omega

theorem stringAllocated_some {s : Str} {block : Bytes} (hbuf : s.buf = some block) :
    stringAllocated s = if s.size < stringMinSize then some stringMinSize else nextPow2 s.size := by
  unfold stringAllocated
  rw [hbuf]

theorem stringAllocated_pow {s : Str} {a : ℕ} (hbuf : s.buf ≠ none)
    (h : stringAllocated s = some a) : stringMinSize ≤ a ∧ ∃ j, a = 2 ^ j := by
  obtain ⟨block, hblock⟩ := Option.ne_none_iff_exists'.mp hbuf
  rw [stringAllocated_some hblock] at h
  split_ifs at h with hsize
  · exact ⟨(Option.some.inj h).le, 12, (Option.some.inj h).symm⟩
  · refine ⟨by have := le_nextPow2 h; omega, ?_⟩
    rw [nextPow2_eq] at h
    split_ifs at h
    exact ⟨_, (Option.some.inj h).symm⟩

theorem stringAllocated_none {s : Str} (hbuf : s.buf = none) : stringAllocated s = some 0 := by
  unfold stringAllocated
  rw [hbuf]

theorem Valid.of_none {s : Str} {a : ℕ} (h : Valid s a) (hbuf : s.buf = none) :
    a = 0 ∧ s.size = 0 := by
  have ha := Option.some.inj (h.allocated.symm.trans (stringAllocated_none hbuf))
  have hsize := h.size_le
  exact ⟨ha, by omega⟩

theorem Valid.resized {s s' : Str} {a : ℕ} (h : Valid s a) (hbuf : s.buf ≠ none)
    (hbuf' : s'.buf ≠ none) (hsize : s'.size ≤ a) (hblock : a ≤ s'.block.length) :
    ∃ a', Valid s' a' := by
  obtain ⟨hmin, j, hj⟩ := stringAllocated_pow hbuf h.allocated
  obtain ⟨block', hblock'⟩ := Option.ne_none_iff_exists'.mp hbuf'
  have ha := stringAllocated_some hblock'
  by_cases hlt : s'.size < stringMinSize
  · rw [if_pos hlt] at ha
    exact ⟨_, ha, hlt.le, hmin.trans hblock⟩
  · rw [if_neg hlt] at ha
    have hmax : a ≤ 2 ^ 31 := by
      obtain ⟨block, hb⟩ := Option.ne_none_iff_exists'.mp hbuf
      have hold := (stringAllocated_some hb).symm.trans h.allocated
      split_ifs at hold
      · rw [← Option.some.inj hold]
        decide
      · exact nextPow2_le hold (nextPow2_le_max hold)
    obtain ⟨p, hp⟩ := exists_nextPow2 (hsize.trans hmax)
    have hpa : p ≤ a := hj ▸ nextPow2_le hp (hj ▸ hsize)
    exact ⟨p, ha.trans hp, le_nextPow2 hp, hpa.trans hblock⟩

theorem exists_write {s : Str} {offset : ℕ} {data : Bytes} (hbuf : s.buf ≠ none)
    (hroom : offset + data.length ≤ s.block.length) : ∃ s', s.write offset data = some s' := by
  obtain ⟨block, hblock⟩ := Option.ne_none_iff_exists'.mp hbuf
  have hlen : offset + data.length ≤ block.length := by simpa [Str.block, hblock] using hroom
  refine ⟨{ s with buf := some (memWrite block offset data) }, ?_⟩
  unfold Str.write
  simp only [hblock]
  exact if_pos hlen

structure Written (s s' : Str) (offset : ℕ) (data : Bytes) : Prop where
  size : s'.size = s.size
  none_iff : s'.buf = none ↔ s.buf = none
  block_length : s'.block.length = s.block.length
  inside : offset + data.length ≤ s.block.length ∨ data = []
  before : s'.block.take offset = s.block.take offset
  written : s'.block.take (offset + data.length) = s.block.take offset ++ data ∨ data = []

theorem written_of_write {s s' : Str} {offset : ℕ} {data : Bytes}
    (h : s.write offset data = some s') : Written s s' offset data := by
  unfold Str.write at h
  split at h
  case h_1 hbuf =>
    obtain rfl := Option.some.inj h
    exact ⟨rfl, Iff.rfl, rfl, .inr rfl, rfl, .inr rfl⟩
  case h_2 => cases h
  case h_3 block hbuf =>
    split_ifs at h with hroom
    obtain rfl := Option.some.inj h
    have hblock : s.block = block := by simp [Str.block, hbuf]
    refine ⟨rfl, by simp [hbuf], ?_, .inl (hblock ▸ hroom), ?_, .inl ?_⟩
    · simp only [Str.block, hbuf, Option.getD_some, memWrite, List.length_append, List.length_take,
        List.length_drop]
      omega
    · have hlen : offset ≤ (block.take offset).length := by
        rw [List.length_take]
        omega
      simp only [Str.block, hbuf, Option.getD_some, memWrite, List.append_assoc]
      rw [List.take_append_of_le_length hlen, List.take_take, min_self]
    · have hlen (d : Bytes) : (block.take offset ++ d).length = offset + d.length := by
        rw [List.length_append, List.length_take]
        omega
      simp only [Str.block, hbuf, Option.getD_some, memWrite]
      rw [List.take_append_of_le_length (hlen _).ge, List.take_of_length_le (hlen _).le]

theorem Written.contents {s s' : Str} {offset : ℕ} {data : Bytes} (h : Written s s' offset data)
    (hoffset : s.size ≤ offset) : s'.contents = s.contents := by
  have htake := congrArg (List.take s.size) h.before
  rw [List.take_take, List.take_take, min_eq_left hoffset] at htake
  unfold Str.contents
  rw [h.size, htake]

theorem Written.append {s s' : Str} {data : Bytes} (h : Written s s' s.size data) :
    ({ s' with size := s'.size + data.length } : Str).contents = s.contents ++ data := by
  show s'.block.take (s'.size + data.length) = _
  rw [h.size]
  obtain hwritten | rfl := h.written
  · exact hwritten
  · simpa [Str.contents] using h.before

theorem Written.valid {s s' : Str} {offset a : ℕ} {data : Bytes} (h : Written s s' offset data)
    (hs : Valid s a) : Valid s' a := by
  refine ⟨?_, h.size ▸ hs.size_le, h.block_length ▸ hs.le_block⟩
  rw [← hs.allocated]
  cases hbuf : s.buf with
  | none => rw [stringAllocated_none hbuf, stringAllocated_none (h.none_iff.mpr hbuf)]
  | some block =>
    have hbuf' : s'.buf ≠ none := fun e ↦ by simp [h.none_iff.mp e] at hbuf
    obtain ⟨block', hblock'⟩ := Option.ne_none_iff_exists'.mp hbuf'
    rw [stringAllocated_some hbuf, stringAllocated_some hblock', h.size]

inductive Grown (served : Bool) (s : Str) (a p : ℕ) : Growth → Prop
  | enough (h : p ≤ a) : Grown served s a p ⟨a, false, s⟩
  | served (h : a < p) (hserved : served = true) : Grown served s a p
      ⟨max p stringMinSize, false, { s with buf := some (resize s.block (max p stringMinSize)) }⟩
  | refused (h : a < p) (hserved : served = false) : Grown served s a p ⟨a, true, s⟩

theorem stringGrow_grown {s : Str} {a p delta : ℕ} (served : Bool)
    (ha : stringAllocated s = some a) (hp : nextPow2 (s.size + delta) = some p) :
    ∃ g, stringGrow served s delta = some g ∧ Grown served s a p g := by
  unfold stringGrow
  simp only [hp, ha, Option.bind_eq_bind, Option.bind_some]
  by_cases h : a < p
  · rw [if_neg (not_not.mpr h)]
    cases served with
    | false => exact ⟨_, rfl, .refused h rfl⟩
    | true => exact ⟨_, rfl, .served h rfl⟩
  · rw [if_pos h]
    exact ⟨_, rfl, .enough (Nat.not_lt.mp h)⟩

theorem stringGrow_eq_none {s : Str} {delta : ℕ} (served : Bool)
    (h : 2 ^ 31 < s.size + delta) : stringGrow served s delta = none := by
  unfold stringGrow
  rw [nextPow2_eq, if_neg (by omega)]
  rfl

theorem length_resize {block : Bytes} {n : ℕ} : (resize block n).length = n := by
  simp only [resize, List.length_append, List.length_take, List.length_replicate]
  omega

theorem take_resize {block : Bytes} {n k : ℕ} (hk : k ≤ n) (hlen : k ≤ block.length) :
    (resize block n).take k = block.take k := by
  unfold resize
  rw [List.take_append_of_le_length (by simp; omega), List.take_take, min_eq_left hk]

theorem nextPow2_pos {x p : ℕ} (h : nextPow2 x = some p) : 0 < p := by
  rw [nextPow2_eq] at h
  split_ifs at h
  obtain rfl := Option.some.inj h
  exact Nat.two_pow_pos _

theorem Grown.size {served : Bool} {s : Str} {a p : ℕ} {g : Growth} (h : Grown served s a p g) :
    g.str.size = s.size := by
  cases h <;> rfl

theorem Grown.contents {served : Bool} {s : Str} {a p : ℕ} {g : Growth}
    (h : Grown served s a p g) (hs : Valid s a) : g.str.contents = s.contents := by
  cases h with
  | enough _ => rfl
  | refused _ _ => rfl
  | served hlt _ =>
    have hsize := hs.size_le
    have hblock := hs.le_block
    have hmax := le_max_left p stringMinSize
    have htake : (resize s.block (max p stringMinSize)).take s.size = s.block.take s.size :=
      take_resize (by omega) (by omega)
    exact htake

theorem Grown.valid {served : Bool} {s : Str} {a p : ℕ} {g : Growth} (h : Grown served s a p g)
    (hs : Valid s a) (hbuf : s.buf ≠ none) : Valid g.str a ∧ g.str.buf ≠ none := by
  cases h with
  | enough _ => exact ⟨hs, hbuf⟩
  | refused _ _ => exact ⟨hs, hbuf⟩
  | served hlt _ =>
    obtain ⟨block, hblock⟩ := Option.ne_none_iff_exists'.mp hbuf
    refine ⟨⟨?_, hs.size_le, ?_⟩, by simp⟩
    · rw [← hs.allocated, stringAllocated_some hblock]
      rfl
    · simp only [Str.block, Option.getD_some, length_resize]
      omega

structure Appended (s s' : Str) (data : Bytes) : Prop where
  size : s'.size = s.size + data.length
  contents : s'.contents = s.contents ++ data

theorem Appended.trans {s s₁ s₂ : Str} {data data' : Bytes} (h : Appended s s₁ data)
    (h' : Appended s₁ s₂ data') : Appended s s₂ (data ++ data') := by
  constructor
  · rw [h'.size, h.size, List.length_append, Nat.add_assoc]
  · rw [h'.contents, h.contents, List.append_assoc]

theorem Written.appended {s s' : Str} {data : Bytes} (h : Written s s' s.size data) :
    Appended s { s' with size := s'.size + data.length } data :=
  ⟨congrArg (· + data.length) h.size, h.append⟩

theorem append_in_room {s s' : Str} {g : Growth} {data : Bytes} {served : Bool}
    (hgrow : stringGrow served s data.length = some g) (hroom : s.size + data.length ≤ g.allocated)
    (hsize : g.str.size = s.size) (hwrite : g.str.write s.size data = some s') :
    stringAppend served s data = some (0, { s' with size := s'.size + data.length }) := by
  unfold stringAppend
  simp only [hgrow, Option.bind_eq_bind, Option.bind_some, hsize]
  rw [if_neg (by omega), hwrite]
  rfl

theorem Valid.sized {s : Str} {block : Bytes} (hbuf : s.buf = some block) (hmax : s.size ≤ 2 ^ 31)
    (hmin : stringMinSize ≤ block.length)
    (hpow : ∀ p, nextPow2 s.size = some p → p ≤ block.length) : ∃ a, Valid s a := by
  have hblock : s.block = block := by simp [Str.block, hbuf]
  have ha := stringAllocated_some hbuf
  by_cases hlt : s.size < stringMinSize
  · rw [if_pos hlt] at ha
    exact ⟨_, ha, hlt.le, hblock ▸ hmin⟩
  · obtain ⟨p, hp⟩ := exists_nextPow2 hmax
    rw [if_neg hlt] at ha
    exact ⟨p, ha.trans hp, le_nextPow2 hp, hblock ▸ hpow p hp⟩

theorem stringAppend_spec {s : Str} {a : ℕ} (hs : Valid s a) (served : Bool) {data : Bytes}
    (hmax : s.size + data.length ≤ 2 ^ 31) :
    ∃ rc s', stringAppend served s data = some (rc, s') ∧ (∃ a', Valid s' a') ∧
      (rc = 0 ∧ Appended s s' data ∧ (served = true → s'.buf ≠ none) ∨
        rc = -1 ∧ served = false ∧ s' = s) := by
  obtain ⟨p, hp⟩ := exists_nextPow2 hmax
  obtain ⟨g, hgrow, hg⟩ := stringGrow_grown served hs.allocated hp
  have hle := le_nextPow2 hp
  have hcontents := hg.contents hs
  have hsize := hg.size
  cases hg with
  | enough h =>
    have hbuf : s.buf ≠ none := by
      intro hbuf
      have := (hs.of_none hbuf).1
      have := nextPow2_pos hp
      omega
    obtain ⟨s', hwrite⟩ := exists_write hbuf (hle.trans (h.trans hs.le_block))
    have hw := written_of_write hwrite
    have hbuf' : s'.buf ≠ none := fun e ↦ hbuf (hw.none_iff.mp e)
    refine ⟨0, _, append_in_room hgrow (hle.trans h) rfl hwrite, ?_,
      .inl ⟨rfl, hw.appended, fun _ ↦ hbuf'⟩⟩
    refine hs.resized hbuf hbuf' ?_ (hw.block_length ▸ hs.le_block)
    rw [hw.appended.size]
    exact hle.trans h
  | served h hserved =>
    have hmaxle := le_max_left p stringMinSize
    obtain ⟨s', hwrite⟩ : ∃ s', Str.write { s with buf := some (resize s.block (max p stringMinSize)) }
        s.size data = some s' := by
      refine exists_write (by simp) ?_
      simp only [Str.block, Option.getD_some, length_resize]
      omega
    have hw := written_of_write hwrite
    have hbuf' : s'.buf ≠ none := fun e ↦ by simpa using hw.none_iff.mp e
    have happended : Appended s { s' with size := s'.size + data.length } data :=
      ⟨hw.appended.size, hw.appended.contents.trans (congrArg (· ++ data) hcontents)⟩
    refine ⟨0, _, append_in_room hgrow (by simp only; omega) rfl hwrite, ?_,
      .inl ⟨rfl, happended, fun _ ↦ hbuf'⟩⟩
    obtain ⟨block', hblock'⟩ := Option.ne_none_iff_exists'.mp hbuf'
    have hlen : block'.length = max p stringMinSize := by
      have := hw.block_length
      simpa [Str.block, hblock', length_resize] using this
    refine Valid.sized hblock' (happended.size ▸ hmax) ?_ ?_
    · rw [hlen]
      exact le_max_right _ _
    · intro q hq
      rw [happended.size, hp] at hq
      rw [hlen, ← Option.some.inj hq]
      exact hmaxle
  | refused h hserved =>
    by_cases hroom : a < s.size + data.length
    · refine ⟨-1, s, ?_, ⟨a, hs⟩, .inr ⟨rfl, hserved, rfl⟩⟩
      unfold stringAppend
      simp only [hgrow, Option.bind_eq_bind, Option.bind_some]
      exact if_pos hroom
    · -- only an empty string without a block is asked to grow for nothing
      have hbuf : s.buf = none := by
        by_contra hbuf
        obtain ⟨_, j, rfl⟩ := stringAllocated_pow hbuf hs.allocated
        have := nextPow2_le hp (Nat.not_lt.mp hroom)
        omega
      obtain ⟨rfl, hzero⟩ := hs.of_none hbuf
      obtain rfl : data = [] := List.length_eq_zero_iff.mp (by omega)
      have hwrite : s.write s.size [] = some s := by
        unfold Str.write
        rw [hbuf]
      refine ⟨0, _, append_in_room hgrow (Nat.not_lt.mp hroom) rfl hwrite, ⟨0, hs⟩,
        .inl ⟨rfl, (written_of_write hwrite).appended, ?_⟩⟩
      simp [hserved]

theorem stringAppend_eq_none {s : Str} {data : Bytes} (served : Bool)
    (h : 2 ^ 31 < s.size + data.length) : stringAppend served s data = none := by
  unfold stringAppend
  rw [stringGrow_eq_none served h]
  rfl

theorem stringPopBack_valid {s s' : Str} {a : ℕ} (hs : Valid s a) (h : stringPopBack s = some s') :
    (∃ a', Valid s' a') ∧ s'.contents = s.contents.dropLast := by
  unfold stringPopBack at h
  split_ifs at h with hno
  obtain ⟨hbuf, hsize⟩ := not_or.mp hno
  have hw := written_of_write h
  have hbuf' : s'.buf ≠ none := fun e ↦ hbuf (hw.none_iff.mp e)
  have hle := hs.size_le
  have hblock := hs.le_block
  constructor
  · refine hs.resized hbuf hbuf' ?_ (hw.block_length ▸ hs.le_block)
    rw [hw.size]
    exact (Nat.sub_le _ _).trans hle
  · rw [hw.contents le_rfl]
    show s.block.take (s.size - 1) = (s.block.take s.size).dropLast
    rw [List.dropLast_eq_take, List.take_take, List.length_take]
    congr 1
    omega

theorem vsnprintf_spec {s : Str} {a : ℕ} (hs : Valid s a) (t : Printed) :
    ∃ s', vsnprintf s (a - s.size) t = some s' ∧ Valid s' a ∧ s'.size = s.size ∧
      s'.contents = s.contents ∧ (s'.buf = none ↔ s.buf = none) ∧
      s'.block.length = s.block.length ∧
      (t.1.length + 1 < a - s.size →
        ({ s' with size := s'.size + t.1.length } : Str).contents = s.contents ++ t.1) := by
  unfold vsnprintf
  split_ifs with hzero
  · exact ⟨s, rfl, hs, rfl, rfl, Iff.rfl, rfl, by omega⟩
  · have hbuf : s.buf ≠ none := by
      intro hbuf
      have := (hs.of_none hbuf).1
      omega
    have hblock := hs.le_block
    obtain ⟨s', hwrite⟩ : ∃ s', s.write s.size (t.1.take (a - s.size - 1) ++ [0]) = some s' := by
      refine exists_write hbuf ?_
      rw [List.length_append, List.length_take, List.length_singleton]
      omega
    have hw := written_of_write hwrite
    refine ⟨s', hwrite, hw.valid hs, hw.size, hw.contents le_rfl, hw.none_iff, hw.block_length, ?_⟩
    intro hfits
    have hlen : s.contents.length = s.size := by
      have := hs.size_le
      rw [Str.contents, List.length_take]
      omega
    have htext : t.1.take (a - s.size - 1) = t.1 := List.take_of_length_le (by omega)
    obtain hwritten | hnil := hw.written
    · rw [htext] at hwritten
      have htake := congrArg (List.take (s.size + t.1.length)) hwritten
      rw [List.take_take, ← List.append_assoc, List.length_append, min_eq_left (by omega)] at htake
      show s'.block.take (s'.size + t.1.length) = s.contents ++ t.1
      rw [hw.size, htake]
      refine List.take_left' ?_
      rw [List.length_append]
      exact congrArg (· + t.1.length) hlen
    · simp at hnil

end N2Kafka.Util.GrowableString
