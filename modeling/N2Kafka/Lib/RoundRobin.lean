import Mathlib.Algebra.Order.BigOperators.Group.Finset
import Mathlib.Data.List.Induction
import Mathlib.Data.Nat.ModEq

namespace N2Kafka.Lib.RoundRobin

variable {α : Type*} {n i j : ℕ}

/-- What comes to the hand `i` when the items are dealt in turn to `n` hands. -/
def dealt (n i : ℕ) (xs : List α) : List α :=
  (xs.zipIdx.filter fun p ↦ p.2 % n = i).map Prod.fst

@[simp]
theorem dealt_nil (n i : ℕ) : dealt n i ([] : List α) = [] := rfl

theorem dealt_concat (n i : ℕ) (xs : List α) (x : α) :
    dealt n i (xs ++ [x]) = dealt n i xs ++ if xs.length % n = i then [x] else [] := by
  unfold dealt
  rw [List.zipIdx_append, List.filter_append, List.map_append]
  congr 1
  split
  · rename_i h
    simp [h]
  · rename_i h
    simp [h]

theorem length_dealt (hi : i < n) (xs : List α) :
    (dealt n i xs).length = (xs.length + (n - 1 - i)) / n := by
  induction xs using List.reverseRecOn with
  | nil =>
    have hlt : n - 1 - i < n := by omega
    simp [Nat.div_eq_of_lt hlt]
  | append_singleton xs x ih =>
    have hdvd : n ∣ xs.length + (n - 1 - i) + 1 ↔ xs.length % n = i := by
      have hmod : xs.length % n < n := Nat.mod_lt _ (by omega)
      have hsplit := Nat.div_add_mod xs.length n
      have hshift :
          xs.length + (n - 1 - i) + 1 = (xs.length % n + (n - i)) + n * (xs.length / n) := by
        omega
      rw [hshift, Nat.dvd_add_left (Nat.dvd_mul_right _ _)]
      constructor
      · intro ⟨q, hq⟩
        have hq1 : q = 1 := by
          rcases Nat.lt_or_ge q 1 with h | h
          · obtain rfl : q = 0 := by omega
            omega
          · rcases Nat.lt_or_ge q 2 with h' | h'
            · omega
            · have hle : n * 2 ≤ n * q := Nat.mul_le_mul_left n h'
              omega
        subst hq1
        omega
      · intro h
        exact ⟨1, by omega⟩
    rw [dealt_concat, List.length_append, ih, List.length_append, List.length_singleton,
      Nat.add_right_comm, Nat.succ_div]
    congr 1
    simp only [hdvd]
    split <;> rfl

theorem length_dealt_le (hi : i < n) (hj : j < n) (xs : List α) :
    (dealt n i xs).length ≤ (dealt n j xs).length + 1 := by
  rw [length_dealt hi, length_dealt hj, ← Nat.add_div_right _ (by omega)]
  apply Nat.div_le_div_right
  omega

end N2Kafka.Lib.RoundRobin
