import Mathlib.Data.Nat.Factorization.Basic
import XenAet.Vmap

namespace XenAet.VmapSearch
open Library Library.Bitmaps Vmap
variable {a : Area} {v v' : Vm} {nr align start hi i k fuel : Nat}

section Align

theorem odd_part (n : Nat) (some_ : 0 < n) : ∃ k m, n = 2^(k + 1) * m + 2^k := by
  obtain ⟨k,m,odd,rfl⟩ := Nat.exists_eq_two_pow_mul_odd (Nat.pos_iff_ne_zero.mp some_)
  obtain ⟨m,rfl⟩ := odd
  exact ⟨k,m,by rw [Nat.pow_succ,Nat.mul_add,Nat.mul_one,Nat.mul_assoc]⟩

theorem power_low (k : Nat) : 2^k < 2^(k + 1) := Nat.pow_lt_pow_right (by decide) (Nat.lt_succ_self k)

-- The lowest one of a number, and what borrowing leaves of it.
theorem testBit_odd (k m i : Nat) : (2^(k + 1) * m + 2^k).testBit i = if i < k + 1 then decide (i = k) else m.testBit (i - (k + 1)) := by
  rw [Nat.testBit_two_pow_mul_add _ (power_low k)]
  split
  · rw [Nat.testBit_two_pow]
    simp [eq_comm]
  · rfl

theorem testBit_borrow (k m i : Nat) :
    (2^(k + 1) * m + 2^k - 1).testBit i = if i < k + 1 then decide (i < k) else m.testBit (i - (k + 1)) := by
  have positive := Nat.two_pow_pos k
  have less := power_low k
  rw [Nat.add_sub_assoc positive,Nat.testBit_two_pow_mul_add _ (by omega)]
  split
  · rw [Nat.testBit_two_pow_sub_one]
  · rfl

theorem effectiveAlign_power (align : Nat) (small : align < 2^32) : ∃ k < 32, effectiveAlign align = 2^k := by
  rw [effectiveAlign]
  by_cases zero : align = 0
  · exact ⟨0,by decide,if_pos zero⟩
  rw [if_neg zero]
  obtain ⟨k,m,is⟩ := odd_part align (Nat.pos_of_ne_zero zero)
  have low : k < 32 := by
    have : 2^k ≤ align := by omega
    exact (Nat.pow_lt_pow_iff_right (by decide)).mp (Nat.lt_of_le_of_lt this small)
  refine ⟨k,low,?_⟩
  by_cases several : align &&& (align - 1) ≠ 0
  · rw [if_pos several]
    refine Nat.eq_of_testBit_eq fun i => ?_
    have negated : (2^32 - align).testBit i = (decide (i < 32) && !(align - 1).testBit i) := by
      have := Nat.testBit_two_pow_sub_succ (x:=align - 1) (n:=32) (by omega) i
      rwa [show align - 1 + 1 = align by omega] at this
    rw [Nat.testBit_and,negated,is,testBit_odd,testBit_borrow,Nat.testBit_two_pow]
    by_cases at_ : i < k + 1
    · rw [if_pos at_,if_pos at_]
      by_cases here : i = k
      · subst here
        simp [low]
      · have : k ≠ i := fun same => here same.symm
        simp [here,this]
    · have : k ≠ i := by omega
      rw [if_neg at_,if_neg at_]
      cases m.testBit (i - (k + 1)) <;> simp [this]
  · rw [if_neg several]
    have none : m = 0 := by
      refine Nat.eq_of_testBit_eq fun i => ?_
      have bit : (align &&& (align - 1)).testBit (i + (k + 1)) = false := by rw [not_not.mp several,Nat.zero_testBit]
      rw [Nat.testBit_and,is,testBit_odd,testBit_borrow,if_neg (by omega),if_neg (by omega),Nat.add_sub_cancel,Bool.and_self] at bit
      rw [bit,Nat.zero_testBit]
    rw [is,none]
    simp

theorem alignAbove_spec (below : start < 2^31) (small : k < 32) : start < alignAbove start (2^k) ∧ 2^k ∣ alignAbove start (2^k) := by
  have power : 2^k ≤ 2^31 := Nat.pow_le_pow_right (by decide) (by omega)
  have positive := Nat.two_pow_pos k
  have is : alignAbove start (2^k) = (start + 2^k) / 2^k * 2^k := by
    rw [alignAbove,Nat.mod_eq_of_lt (by omega)]
    refine Nat.eq_of_testBit_eq fun i => ?_
    have negated : (2^32 - 2^k).testBit i = (decide (i < 32) && !(2^k - 1).testBit i) := by
      have := Nat.testBit_two_pow_sub_succ (x:=2^k - 1) (n:=32) (by omega) i
      rwa [show 2^k - 1 + 1 = 2^k by omega] at this
    rw [Nat.testBit_and,negated,Nat.testBit_two_pow_sub_one,Nat.mul_comm,Nat.testBit_two_pow_mul,Nat.testBit_div_two_pow]
    by_cases high : k ≤ i
    · rw [Nat.sub_add_cancel high]
      by_cases inside : i < 32
      · simp [high,inside]
      · have : (start + 2^k).testBit i = false :=
          Nat.testBit_lt_two_pow (Nat.lt_of_lt_of_le (by omega) (Nat.pow_le_pow_right (by decide) (Nat.le_of_not_lt inside)))
        simp [this]
    · have : i < k := by omega
      simp [high,this]
  rw [is]
  refine ⟨?_,Nat.dvd_mul_left _ _⟩
  have := Nat.lt_div_mul_add (a:=start + 2^k) positive
  omega

end Align

-- The bits from `lo` on up to `hi` are clear.
def Clear (bits : Nat → Bool) (lo hi : Nat) : Prop := ∀ i, lo ≤ i → i < hi → bits i = false

-- A range the search may give: aligned, in the mapped part, and clear with
-- the page before it and the page behind.
structure Gap (a : Area) (v : Vm) (nr align start : Nat) : Prop where
  above : bitmapPages a.vmEnd < start
  below : start + nr ≤ v.vmTop
  aligned : align ∣ start
  clear : Clear v.bitmap (start - 1) (start + nr + 1)

section Search
variable (top : v.vmTop ≤ a.vmEnd) (unused : ∀ i, v.vmTop ≤ i → v.bitmap i = false) (fits : nr + a.vmEnd ≤ 2^32) (small : k < 32)
include top unused fits small

-- From a clear bit the bits up to the next one that is set are clear, and the
-- range taken there starts behind the first of them.
theorem gap_of_run (above : bitmapPages a.vmEnd ≤ start) (below : start < v.vmTop) (clear : Clear v.bitmap start hi)
    (room : (alignAbove start (2^k) + nr) % 2^32 < hi ∨ (alignAbove start (2^k) + nr) % 2^32 ≤ hi ∧ hi = v.vmTop)
    (upto : hi ≤ v.vmTop) (found : alignAbove start (2^k) < v.vmTop) : Gap a v nr (2^k) (alignAbove start (2^k)) := by
  obtain ⟨more,aligned⟩ := alignAbove_spec (Nat.lt_trans (Nat.lt_of_lt_of_le below top) a.small) small
  -- The sum does not wrap, since the start is in the area.
  rw [Nat.mod_eq_of_lt (by omega)] at room
  refine ⟨by omega,by omega,aligned,fun i low high => ?_⟩
  by_cases inside : i < hi
  · exact clear i (by omega) inside
  · exact unused i (by omega)

theorem search_gap (above : bitmapPages a.vmEnd ≤ start) (first : start < v.vmTop → v.bitmap start = false)
    (found : search v nr (2^k) fuel start < v.vmTop) (enough : v.vmTop ≤ fuel + start) :
    Gap a v nr (2^k) (search v nr (2^k) fuel start) := by
  induction fuel generalizing start with
  | zero => exact absurd found (by rw [search]; omega)
  | succ fuel ih =>
    by_cases over_ : v.vmTop ≤ start
    · rw [search,if_pos over_] at found
      omega
    have below := Nat.lt_of_not_le over_
    obtain ⟨after,upto,_,before⟩ := next_spec v.bitmap (start + 1) (v.vmTop - (start + 1))
    rw [show start + 1 + (v.vmTop - (start + 1)) = v.vmTop by omega] at upto
    have bit : min (findNextBit v (start + 1)) v.vmTop = next v.bitmap (start + 1) (v.vmTop - (start + 1)) := Nat.min_eq_left upto
    have run : Clear v.bitmap start (next v.bitmap (start + 1) (v.vmTop - (start + 1))) := by
      intro i low high
      rcases Nat.eq_or_lt_of_le low with rfl | low
      · exact first below
      · exact before i low high
    rw [search,if_neg over_] at found ⊢
    simp only [bit] at found ⊢
    by_cases inner : next v.bitmap (start + 1) (v.vmTop - (start + 1)) < v.vmTop
    · rw [if_pos inner] at found ⊢
      by_cases room : (alignAbove start (2^k) + nr) % 2^32 < next v.bitmap (start + 1) (v.vmTop - (start + 1))
      · rw [if_pos room] at found ⊢
        exact gap_of_run top unused fits small above below run (.inl room) upto found
      · rw [if_neg room] at found ⊢
        obtain ⟨later,_,zero,_⟩ := next_spec (fun i => !v.bitmap i) (next v.bitmap (start + 1) (v.vmTop - (start + 1)) + 1)
          (v.vmTop - (next v.bitmap (start + 1) (v.vmTop - (start + 1)) + 1))
        refine ih (Nat.le_trans (by omega) later) (fun less => ?_) found (Nat.le_trans (by omega) (Nat.add_le_add_left later fuel))
        have := zero (Nat.lt_of_lt_of_le less (by omega))
        simpa [findNextZeroBit] using this
    · rw [if_neg inner] at found ⊢
      by_cases room : (alignAbove start (2^k) + nr) % 2^32 ≤ next v.bitmap (start + 1) (v.vmTop - (start + 1))
      · rw [if_pos room] at found ⊢
        exact gap_of_run top unused fits small above below run (.inr ⟨room,by omega⟩) upto found
      · rw [if_neg room] at found ⊢
        exact ih (by omega) (fun less => absurd less inner) found (by omega)

end Search

-- Nothing is set behind the bit that the search is at.
theorem search_tail (below : start < v.vmTop) (none : findNextBit v (start + 1) = v.vmTop)
    (room : (alignAbove start align + nr) % 2^32 ≤ v.vmTop) : search v nr align (fuel + 1) start = alignAbove start align := by
  rw [search,if_neg (by omega)]
  simp only [none,Nat.min_self,Nat.lt_irrefl,if_false,if_pos room]

end XenAet.VmapSearch
