import Mathlib.Algebra.Group.Int.Defs
import Mathlib.Order.Lattice

namespace Library.Slots
variable {len len' : Nat → Int} {n : Nat}

-- Slots one after the other: what comes before the slot `i`.
def before (len : Nat → Int) : Nat → Int
  | 0 => 0
  | i+1 => before len i + len i

theorem before_congr (same : ∀ i, i < n → len i = len' i) : before len n = before len' n := by
  induction n with
  | zero => rfl
  | succ n ih => rw [before,before,ih fun i near => same i (Nat.lt_succ_of_lt near),same n (Nat.lt_succ_self n)]

theorem before_mono {i j : Nat} (positive : ∀ i, i < n → 0 < len i) (order : i ≤ j) (inside : j ≤ n) : before len i ≤ before len j := by
  induction j with
  | zero =>
    have first : i = 0 := Nat.le_zero.mp order
    rw [first]
  | succ j ih =>
    cases Nat.eq_or_lt_of_le order with
    | inl same => rw [same]
    | inr below =>
      have earlier := ih (Nat.le_of_lt_succ below) (Nat.le_of_succ_le inside)
      have longer := positive j inside
      rw [before]
      omega

theorem before_nonneg {i : Nat} (positive : ∀ i, i < n → 0 < len i) (inside : i ≤ n) : 0 ≤ before len i :=
  before_mono positive (Nat.zero_le i) inside

-- A time lies in one slot only, or behind all of them.
theorem slot_iff {i j : Nat} {t : Int} (positive : ∀ i, i < n → 0 < len i) (inside : i ≤ n) (low : before len i ≤ t)
    (high : i < n → t < before len (i + 1)) (slot : j < n) : i = j ↔ before len j ≤ t ∧ t < before len (j + 1) := by
  constructor
  · intro same
    rw [← same] at slot ⊢
    exact ⟨low,high slot⟩
  · rintro ⟨low',high'⟩
    by_contra apart
    cases Nat.lt_or_gt_of_ne apart with
    | inl earlier =>
      have past := before_mono positive (Nat.succ_le_of_lt earlier) (Nat.le_of_lt slot)
      have ended := high (Nat.lt_trans earlier slot)
      rw [Nat.succ_eq_add_one] at past
      omega
    | inr later =>
      have past := before_mono positive (Nat.succ_le_of_lt later) inside
      rw [Nat.succ_eq_add_one] at past
      omega

end Library.Slots
