import Mathlib.Data.Finset.Card
import Mathlib.Order.Interval.Finset.Nat

namespace Library.Zones
variable {P : Type} {frames : Finset Nat} {zone : Nat → P} {p q : P} {b n : Nat}

-- Numbered frames, each in one zone, and runs of frames that change zone.
def moved (zone : Nat → P) (b n : Nat) (p : P) : Nat → P := fun m => if b ≤ m ∧ m < b + n then p else zone m

theorem moved_inside (low : b ≤ m) (high : m < b + n) : moved zone b n p m = p := if_pos ⟨low,high⟩

theorem moved_outside (out : ¬(b ≤ m ∧ m < b + n)) : moved zone b n p m = zone m := if_neg out

theorem moved_self (zone : Nat → P) (m : Nat) (p : P) : moved zone m 1 p m = p := moved_inside (Nat.le_refl m) (Nat.lt_succ_self m)

theorem moved_ne {m m' : Nat} (differ : m' ≠ m) : moved zone m 1 p m' = zone m' := moved_outside (by omega)

variable [DecidableEq P]

def count (frames : Finset Nat) (zone : Nat → P) (p : P) : Nat := (frames.filter fun m => zone m = p).card

-- The run is counted where it comes from before and where it goes to after.
theorem count_leave (known : ∀ m, b ≤ m → m < b + n → m ∈ frames) (were : ∀ m, b ≤ m → m < b + n → zone m = q) (differ : p ≠ q) :
    count frames (moved zone b n p) q + n = count frames zone q := by
  have apart : Disjoint (frames.filter fun m => moved zone b n p m = q) (Finset.Ico b (b + n)) := by
    rw [Finset.disjoint_left]
    intro m kept inside
    obtain ⟨low,high⟩ := Finset.mem_Ico.mp inside
    have now := (Finset.mem_filter.mp kept).2
    rw [moved_inside low high] at now
    exact differ now
  have parts : (frames.filter fun m => moved zone b n p m = q) ∪ Finset.Ico b (b + n) = frames.filter fun m => zone m = q := by
    ext m
    rw [Finset.mem_union,Finset.mem_filter,Finset.mem_filter,Finset.mem_Ico]
    by_cases inside : b ≤ m ∧ m < b + n
    · exact ⟨fun _ => ⟨known m inside.1 inside.2,were m inside.1 inside.2⟩,fun _ => .inr inside⟩
    · rw [moved_outside inside]
      exact ⟨fun either => either.resolve_right inside,.inl⟩
  rw [count,count,← parts,Finset.card_union_of_disjoint apart,Nat.card_Ico,Nat.add_sub_cancel_left]

theorem count_arrive (known : ∀ m, b ≤ m → m < b + n → m ∈ frames) (were : ∀ m, b ≤ m → m < b + n → zone m ≠ p) :
    count frames (moved zone b n p) p = count frames zone p + n := by
  have apart : Disjoint (frames.filter fun m => zone m = p) (Finset.Ico b (b + n)) := by
    rw [Finset.disjoint_left]
    intro m kept inside
    obtain ⟨low,high⟩ := Finset.mem_Ico.mp inside
    exact were m low high (Finset.mem_filter.mp kept).2
  have parts : (frames.filter fun m => zone m = p) ∪ Finset.Ico b (b + n) = frames.filter fun m => moved zone b n p m = p := by
    ext m
    rw [Finset.mem_union,Finset.mem_filter,Finset.mem_filter,Finset.mem_Ico]
    by_cases inside : b ≤ m ∧ m < b + n
    · rw [moved_inside inside.1 inside.2]
      exact ⟨fun _ => ⟨known m inside.1 inside.2,rfl⟩,fun _ => .inr inside⟩
    · rw [moved_outside inside]
      exact ⟨fun either => either.resolve_right inside,.inl⟩
  rw [count,count,← parts,Finset.card_union_of_disjoint apart,Nat.card_Ico,Nat.add_sub_cancel_left]

theorem count_other (were : ∀ m, b ≤ m → m < b + n → zone m ≠ q) (differ : p ≠ q) :
    count frames (moved zone b n p) q = count frames zone q := by
  refine congrArg Finset.card (Finset.filter_congr fun m _ => ?_)
  by_cases inside : b ≤ m ∧ m < b + n
  · rw [moved_inside inside.1 inside.2]
    exact iff_of_false differ (were m inside.1 inside.2)
  · rw [moved_outside inside]

end Library.Zones
