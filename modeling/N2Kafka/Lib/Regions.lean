import Mathlib.Algebra.BigOperators.Group.List.Basic
import Mathlib.Algebra.Group.Nat.Defs
import Mathlib.Algebra.GroupWithZero.Nat

namespace N2Kafka.Lib.Regions

variable {α : Type*} [DecidableEq α] {size : α → ℕ} {xs : List α} {cursor m n : ℕ} {x y : α}

/-- Where an item stands when the items are laid out one behind the other from the cursor on. -/
def place (size : α → ℕ) : List α → ℕ → α → Option ℕ
  | [], _, _ => none
  | x :: xs, cursor, y => if y = x then some cursor else place size xs (cursor + size x) y

theorem place_isSome_iff : (place size xs cursor y).isSome ↔ y ∈ xs := by
  induction xs generalizing cursor with
  | nil => simp [place]
  | cons x xs ih =>
    rw [place, List.mem_cons]
    by_cases h : y = x
    · simp [h]
    · simp [h, ih]

theorem place_eq_none (h : y ∉ xs) : place size xs cursor y = none := by
  rw [← Option.not_isSome_iff_eq_none, place_isSome_iff]
  exact h

theorem place_within (h : place size xs cursor y = some m) :
    cursor ≤ m ∧ m + size y ≤ cursor + (xs.map size).sum := by
  induction xs generalizing cursor with
  | nil => cases h
  | cons x xs ih =>
    rw [List.map_cons, List.sum_cons]
    rw [place] at h
    split at h
    case isTrue heq =>
      obtain rfl := Option.some.inj h
      subst heq
      omega
    case isFalse =>
      have hrest := ih h
      omega

theorem place_disjoint (hne : x ≠ y) (hx : place size xs cursor x = some m)
    (hy : place size xs cursor y = some n) : m + size x ≤ n ∨ n + size y ≤ m := by
  induction xs generalizing cursor with
  | nil => cases hx
  | cons z xs ih =>
    rw [place] at hx hy
    split at hx
    case isTrue hxz =>
      obtain rfl := Option.some.inj hx
      subst hxz
      rw [if_neg hne.symm] at hy
      exact .inl (place_within hy).1
    case isFalse =>
      split at hy
      case isTrue hyz =>
        obtain rfl := Option.some.inj hy
        subst hyz
        exact .inr (place_within hx).1
      case isFalse => exact ih hx hy

end N2Kafka.Lib.Regions
