import Mathlib.Algebra.Group.Nat.Defs
import Mathlib.Data.Nat.Size
import Mathlib.Tactic.ByContra
import N2Kafka.Lib.CString

namespace N2Kafka.Lib.MachineWords

open CString

theorem toNat_clz {w : ℕ} (x : BitVec w) : x.clz.toNat = w - x.toNat.size := by
  by_cases hx : x = 0#w
  · have hclz : x.clz.toNat = w % 2 ^ w := congrArg BitVec.toNat (BitVec.clz_eq_iff_eq_zero.mpr hx)
    rw [hclz, Nat.mod_eq_of_lt Nat.lt_two_pow_self, hx]
    simp
  · have hw : 0 < w := by
      by_contra h0
      obtain rfl : w = 0 := by omega
      exact hx (BitVec.of_length_zero)
    have hlt : x.clz.toNat < w := by
      have h := BitVec.lt_def.mp (BitVec.clz_lt_iff_ne_zero.mpr hx)
      rwa [show ((w : BitVec w)).toNat = w % 2 ^ w from rfl,
        Nat.mod_eq_of_lt Nat.lt_two_pow_self] at h
    have hlow := Nat.lt_size.mpr (BitVec.two_pow_sub_clz_le_toNat_of_ne_zero hw hx)
    have hhigh := Nat.size_le.mpr (BitVec.toNat_lt_two_pow_sub_clz (x := x))
    omega

theorem size_toNat_le {w : ℕ} (x : BitVec w) : x.toNat.size ≤ w := Nat.size_le.mpr x.isLt

theorem sub_toNat_clz {w : ℕ} (x : BitVec w) : w - x.clz.toNat = x.toNat.size := by
  have hle := size_toNat_le x
  rw [toNat_clz]
  omega

/-- `p` is the power of two next to `x`, not below it. -/
structure IsNextPow2 (x p : ℕ) : Prop where
  isPowerOfTwo : p.isPowerOfTwo
  le : x ≤ p
  half_lt : p / 2 < x

theorem isNextPow2_two_pow_size {x : ℕ} (hx : 0 < x) : IsNextPow2 x (2 ^ (x - 1).size) := by
  have hlt := Nat.lt_size_self (x - 1)
  refine ⟨⟨_, rfl⟩, by omega, ?_⟩
  cases hk : (x - 1).size with
  | zero =>
    show 1 / 2 < x
    omega
  | succ k =>
    have hle : 2 ^ k ≤ x - 1 := Nat.lt_size.mp (by omega)
    rw [Nat.pow_succ]
    omega

/-- A number in so many bytes, the lowest one first. -/
def littleEndian : ℕ → ℕ → Bytes
  | 0, _ => []
  | k + 1, n => n.toUInt8 :: littleEndian k (n / 256)

def ofLittleEndian (bytes : Bytes) : ℕ := bytes.foldr (fun b n ↦ b.toNat + 256 * n) 0

@[simp]
theorem length_littleEndian (k n : ℕ) : (littleEndian k n).length = k := by
  induction k generalizing n with
  | zero => rfl
  | succ k ih => exact congrArg (· + 1) (ih (n / 256))

theorem ofLittleEndian_littleEndian (k n : ℕ) :
    ofLittleEndian (littleEndian k n) = n % 256 ^ k := by
  induction k generalizing n with
  | zero => exact (Nat.mod_one n).symm
  | succ k ih =>
    have hlow : n.toUInt8.toNat = n % 256 := UInt8.toNat_ofNat'
    calc
      ofLittleEndian (littleEndian (k + 1) n)
      _ = n.toUInt8.toNat + 256 * ofLittleEndian (littleEndian k (n / 256)) := rfl
      _ = n % 256 + 256 * (n / 256 % 256 ^ k) := by rw [hlow, ih]
      _ = n % 256 ^ (k + 1) := by rw [Nat.pow_succ', Nat.mod_mul]

theorem littleEndian_zero (k : ℕ) : littleEndian k 0 = List.replicate k 0 := by
  induction k with
  | zero => rfl
  | succ k ih => exact congrArg (0 :: ·) ih

end N2Kafka.Lib.MachineWords
