import Mathlib.Algebra.Group.Nat.Defs
import Mathlib.Data.Finset.Card
import Mathlib.Data.Nat.Notation
import Mathlib.Logic.Function.Basic

namespace N2Kafka.Lib.RefCount

variable {ι : Type*}

/-- How far the owner of a reference has come in giving it up. The owner that drops the last
reference releases the parts of the resource one after the other. -/
inductive Ref
  | held | releasing (part : ℕ) | dropped
  deriving DecidableEq

structure Counted (ι : Type*) where
  count : ℕ
  frees : ℕ → ℕ
  ref : ι → Ref

def Counted.init (n : ℕ) : Counted ι := ⟨n, fun _ ↦ 0, fun _ ↦ .held⟩

/-- The next atomic step of the owner `i` in dropping its reference to a resource of `parts` parts
counted in a word of `w` bits. -/
def Counted.drop [DecidableEq ι] (w parts : ℕ) (c : Counted ι) (i : ι) : Counted ι :=
  match c.ref i with
  | .held =>
    let count := (c.count + (2 ^ w - 1)) % 2 ^ w
    { c with
      count := count
      ref := Function.update c.ref i (if count = 0 then .releasing 0 else .dropped) }
  | .releasing p =>
    { c with
      frees := Function.update c.frees p (c.frees p + 1)
      ref := Function.update c.ref i (if p + 1 < parts then .releasing (p + 1) else .dropped) }
  | .dropped => c

theorem Counted.drop_ref_of_ne [DecidableEq ι] (w parts : ℕ) (c : Counted ι) {i j : ι} (h : j ≠ i) :
    (c.drop w parts i).ref j = c.ref j := by
  unfold Counted.drop
  cases c.ref i with
  | held => exact Function.update_of_ne h _ _
  | releasing p => exact Function.update_of_ne h _ _
  | dropped => rfl

variable (parts : ℕ) (owners : Finset ι)

def Counted.holders (c : Counted ι) : Finset ι := owners.filter fun i ↦ c.ref i = .held

/-- The first `p` parts were released once each, and nothing else. -/
def Counted.Freed (c : Counted ι) (p : ℕ) : Prop := ∀ q, c.frees q = if q < p then 1 else 0

/-- The count is the number of holders, and once it is zero one owner releases the parts in order
until all are released. -/
structure Shared (c : Counted ι) : Prop where
  count : c.count = (c.holders owners).card
  freed : (c.Freed 0 ∧ 0 < c.count ∧ ∀ i ∈ owners, ∀ p, c.ref i ≠ .releasing p) ∨
    (∃ i ∈ owners, ∃ p < parts, c.Freed p ∧ c.ref i = .releasing p ∧
      ∀ j ∈ owners, j ≠ i → c.ref j = .dropped) ∨
    (c.Freed parts ∧ ∀ i ∈ owners, c.ref i = .dropped)

variable {parts owners}

theorem Counted.mem_holders {c : Counted ι} {i : ι} :
    i ∈ c.holders owners ↔ i ∈ owners ∧ c.ref i = .held := by
  simp [Counted.holders]

theorem shared_init (parts : ℕ) {owners : Finset ι} (h : owners.Nonempty) :
    Shared parts owners (.init owners.card) where
  count := by simp [Counted.init, Counted.holders]
  freed := .inl ⟨fun q ↦ by simp [Counted.init], h.card_pos, fun i _ p ↦ by simp [Counted.init]⟩

theorem Shared.count_pos {c : Counted ι} (h : Shared parts owners c) {i : ι} (hi : i ∈ owners)
    (hr : c.ref i = .held) : 0 < c.count := by
  rw [h.count]
  exact Finset.card_pos.mpr ⟨i, Counted.mem_holders.mpr ⟨hi, hr⟩⟩

theorem Shared.freed_zero {c : Counted ι} (h : Shared parts owners c) {i : ι} (hi : i ∈ owners)
    (hr : c.ref i = .held) : c.Freed 0 ∧ ∀ j ∈ owners, ∀ p, c.ref j ≠ .releasing p := by
  rcases h.freed with ⟨hf, -, hn⟩ | ⟨j, -, p, -, -, hj, hd⟩ | ⟨-, hd⟩
  · exact ⟨hf, hn⟩
  · by_cases hij : i = j
    · rw [hij, hj] at hr
      cases hr
    · rw [hd i hi hij] at hr
      cases hr
  · rw [hd i hi] at hr
    cases hr

theorem Shared.freed_releasing {c : Counted ι} (h : Shared parts owners c) {i : ι} {p : ℕ}
    (hi : i ∈ owners) (hr : c.ref i = .releasing p) :
    p < parts ∧ c.Freed p ∧ ∀ j ∈ owners, j ≠ i → c.ref j = .dropped := by
  rcases h.freed with ⟨-, -, hn⟩ | ⟨j, -, q, hq, hf, hj, hd⟩ | ⟨-, hd⟩
  · exact absurd hr (hn i hi p)
  · by_cases hij : i = j
    · subst hij
      rw [hj] at hr
      cases hr
      exact ⟨hq, hf, hd⟩
    · rw [hd i hi hij] at hr
      cases hr
  · rw [hd i hi] at hr
    cases hr

theorem Shared.alive {c : Counted ι} (h : Shared parts owners c) {i : ι} (hi : i ∈ owners)
    (hr : c.ref i ≠ .dropped) : c.frees (parts - 1) = 0 := by
  cases hc : c.ref i with
  | held =>
    rw [(h.freed_zero hi hc).1]
    simp
  | releasing p =>
    obtain ⟨hp, hf, -⟩ := h.freed_releasing hi hc
    rw [hf, if_neg (by omega)]
  | dropped => exact absurd hc hr

theorem Shared.frees_le_one {c : Counted ι} (h : Shared parts owners c) (p : ℕ) :
    c.frees p ≤ 1 := by
  have hle (q : ℕ) (hf : c.Freed q) : c.frees p ≤ 1 := by
    rw [hf]
    split <;> omega
  rcases h.freed with ⟨hf, -⟩ | ⟨-, -, q, -, hf, -⟩ | ⟨hf, -⟩
  · exact hle 0 hf
  · exact hle q hf
  · exact hle parts hf

theorem Shared.not_held_of_freed {c : Counted ι} (h : Shared parts owners c) {p : ℕ}
    (hp : 0 < c.frees p) {i : ι} (hi : i ∈ owners) : c.ref i ≠ .held := by
  intro hr
  rw [(h.freed_zero hi hr).1] at hp
  simp at hp

theorem Shared.freed_all {c : Counted ι} (h : Shared parts owners c) (hne : owners.Nonempty)
    (hd : ∀ i ∈ owners, c.ref i = .dropped) : c.Freed parts := by
  obtain ⟨i, hi⟩ := hne
  rcases h.freed with ⟨-, hc, -⟩ | ⟨j, hj, p, -, -, hr, -⟩ | ⟨hf, -⟩
  · rw [h.count] at hc
    obtain ⟨j, hj⟩ := Finset.card_pos.mp hc
    obtain ⟨hj, hr⟩ := Counted.mem_holders.mp hj
    rw [hd j hj] at hr
    cases hr
  · rw [hd j hj] at hr
    cases hr
  · exact hf

theorem Counted.holders_update [DecidableEq ι] {c : Counted ι} {i : ι} {r : Ref}
    (hr : r ≠ .held) (count : ℕ) (frees : ℕ → ℕ) :
    (Counted.mk count frees (Function.update c.ref i r)).holders owners =
      (c.holders owners).erase i := by
  ext j
  by_cases hij : j = i
  · simp [Counted.holders, hij, hr]
  · simp [Counted.holders, hij]

theorem Shared.drop_held [DecidableEq ι] {c : Counted ι} (h : Shared parts owners c) {w : ℕ}
    (hw : owners.card < 2 ^ w) (hparts : 0 < parts) {i : ι} (hi : i ∈ owners)
    (hr : c.ref i = .held) : Shared parts owners (c.drop w parts i) := by
  unfold Counted.drop
  rw [hr]
  have hpos := h.count_pos hi hr
  obtain ⟨hf, hn⟩ := h.freed_zero hi hr
  have hle : (c.holders owners).card ≤ owners.card := Finset.card_filter_le _ _
  have hcount : (c.count + (2 ^ w - 1)) % 2 ^ w = c.count - 1 := by
    have hsplit : c.count + (2 ^ w - 1) = c.count - 1 + 2 ^ w := by omega
    have hc := h.count
    rw [hsplit, Nat.add_mod_right, Nat.mod_eq_of_lt (by omega)]
  have hcard := Finset.card_erase_of_mem (Counted.mem_holders.mpr ⟨hi, hr⟩)
  simp only [hcount]
  refine ⟨?_, ?_⟩
  · rw [Counted.holders_update (by split <;> simp), hcard, h.count]
  · by_cases hlast : c.count - 1 = 0
    · -- the last holder: every other owner has dropped its reference already
      have hothers : ∀ j ∈ owners, j ≠ i → c.ref j = .dropped := by
        intro j hj hji
        have hempty : (c.holders owners).erase i = ∅ := by
          rw [← Finset.card_eq_zero, hcard, ← h.count, hlast]
        cases hcj : c.ref j with
        | held =>
          have hmem := Finset.mem_erase.mpr ⟨hji, Counted.mem_holders.mpr ⟨hj, hcj⟩⟩
          rw [hempty] at hmem
          exact absurd hmem (Finset.notMem_empty j)
        | releasing p => exact absurd hcj (hn j hj p)
        | dropped => rfl
      refine .inr (.inl ⟨i, hi, 0, hparts, hf, by simp [hlast], fun j hj hji ↦ ?_⟩)
      simpa [hji] using hothers j hj hji
    · refine .inl ⟨hf, by simpa using by omega, fun j hj p ↦ ?_⟩
      by_cases hji : j = i
      · simp [hji, hlast]
      · simpa [hji] using hn j hj p

theorem Shared.drop_releasing [DecidableEq ι] {c : Counted ι} (h : Shared parts owners c) (w : ℕ)
    {i : ι} (hi : i ∈ owners) {p : ℕ} (hr : c.ref i = .releasing p) :
    Shared parts owners (c.drop w parts i) := by
  unfold Counted.drop
  rw [hr]
  obtain ⟨hp, hf, hd⟩ := h.freed_releasing hi hr
  have hfreed : Counted.Freed (ι := ι) ⟨c.count, Function.update c.frees p (c.frees p + 1),
      Function.update c.ref i (if p + 1 < parts then .releasing (p + 1) else .dropped)⟩
      (p + 1) := by
    intro q
    by_cases hq : q = p
    · simp [hq, hf p]
    · simp only [Function.update_of_ne hq, hf q]
      split <;> split <;> omega
  refine ⟨?_, ?_⟩
  · rw [Counted.holders_update (by split <;> simp), h.count, Finset.erase_eq_of_notMem]
    rw [Counted.mem_holders, hr]
    simp
  · by_cases hlast : p + 1 < parts
    · refine .inr (.inl ⟨i, hi, p + 1, hlast, hfreed, by simp [hlast], fun j hj hji ↦ ?_⟩)
      simpa [hji] using hd j hj hji
    · refine .inr (.inr ⟨?_, fun j hj ↦ ?_⟩)
      · rwa [show p + 1 = parts by omega] at hfreed
      · by_cases hji : j = i
        · simp [hji, hlast]
        · simpa [hji] using hd j hj hji

theorem Shared.drop [DecidableEq ι] {c : Counted ι} (h : Shared parts owners c) {w : ℕ}
    (hw : owners.card < 2 ^ w) (hparts : 0 < parts) {i : ι} (hi : i ∈ owners) :
    Shared parts owners (c.drop w parts i) := by
  cases hr : c.ref i with
  | held => exact h.drop_held hw hparts hi hr
  | releasing p => exact h.drop_releasing w hi hr
  | dropped =>
    unfold Counted.drop
    rw [hr]
    exact h

end N2Kafka.Lib.RefCount
