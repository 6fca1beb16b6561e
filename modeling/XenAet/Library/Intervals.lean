import Mathlib.Data.List.Basic
import Mathlib.Data.List.InsertIdx
import Mathlib.Data.List.Pairwise
import Mathlib.Order.Interval.Set.Basic
import Mathlib.Data.Nat.Bitwise
import Mathlib.Tactic.Ring
import Mathlib.Algebra.Order.Ring.Nat

namespace Library.Positions
variable {α : Type} {A B : List α} {x y : α} {f : α → α} {p : α → Bool}

theorem modify_middle : (A ++ x :: B).modify A.length f = A ++ f x :: B := by
  induction A with
  | nil => rfl
  | cons a A ih => simpa [List.modify] using ih

theorem erase_middle : (A ++ x :: B).eraseIdx A.length = A ++ B := by
  simp [List.eraseIdx_append_of_length_le]

theorem insert_middle : (A ++ B).insertIdx A.length y = A ++ y :: B := by
  induction A with
  | nil => rfl
  | cons a A ih => simpa using ih

-- The last position of a leading part, `none` when that part is empty.
def lastOf (A : List α) : Option Nat := if A = [] then none else some (A.length - 1)

@[simp] theorem lastOf_nil : lastOf ([] : List α) = none := rfl

@[simp] theorem lastOf_concat : lastOf (A ++ [x]) = some A.length := by simp [lastOf]

end Library.Positions

namespace Library.Intervals

structure Interval where
  s : Nat
  e : Nat
deriving DecidableEq, Repr, Inhabited

-- Closed intervals of the naturals below `limit`, in ascending order and with
-- a gap of at least one value between any two of them.
structure Canonical (limit : Nat) (l : List Interval) : Prop where
  inside : ∀ i ∈ l, i.s ≤ i.e ∧ i.e < limit
  apart : l.Pairwise fun i j => i.e+1 < j.s

instance : Decidable (Canonical limit l) :=
  decidable_of_iff ((∀ i ∈ l, i.s ≤ i.e ∧ i.e < limit) ∧ l.Pairwise fun i j => i.e+1 < j.s)
    ⟨fun ⟨inside,apart⟩ => ⟨inside,apart⟩,fun c => ⟨c.inside,c.apart⟩⟩

def values (l : List Interval) : Set Nat := {v | ∃ i ∈ l, i.s ≤ v ∧ v ≤ i.e}

variable {limit : Nat} {A B : List Interval} {i j : Interval} {v : Nat}

@[simp] theorem mem_values_nil : ¬ v ∈ values [] := by simp [values]

@[simp] theorem mem_values_cons : v ∈ values (i :: B) ↔ (i.s ≤ v ∧ v ≤ i.e) ∨ v ∈ values B := by
  simp [values]

@[simp] theorem mem_values_append : v ∈ values (A ++ B) ↔ v ∈ values A ∨ v ∈ values B := by
  simp only [values,Set.mem_ofPred_eq,List.mem_append]
  constructor
  · rintro ⟨i,left | right,within⟩
    · exact .inl ⟨i,left,within⟩
    · exact .inr ⟨i,right,within⟩
  · rintro (⟨i,left,within⟩ | ⟨i,right,within⟩)
    · exact ⟨i,.inl left,within⟩
    · exact ⟨i,.inr right,within⟩

@[simp] theorem canonical_nil : Canonical limit [] := ⟨by simp,.nil⟩

theorem canonical_cons :
    Canonical limit (i :: B) ↔ (i.s ≤ i.e ∧ i.e < limit) ∧ (∀ j ∈ B, i.e+1 < j.s) ∧ Canonical limit B := by
  constructor
  · rintro ⟨inside,apart⟩
    obtain ⟨first,rest⟩ := List.pairwise_cons.mp apart
    exact ⟨inside i (by simp),first,fun j at_j => inside j (by simp [at_j]),rest⟩
  · rintro ⟨inside,first,rest⟩
    refine ⟨fun j at_j => ?_,List.pairwise_cons.mpr ⟨first,rest.apart⟩⟩
    rcases List.mem_cons.mp at_j with rfl | later
    · exact inside
    · exact rest.inside j later

theorem canonical_append :
    Canonical limit (A ++ B) ↔ Canonical limit A ∧ Canonical limit B ∧ ∀ i ∈ A, ∀ j ∈ B, i.e+1 < j.s := by
  constructor
  · rintro ⟨inside,apart⟩
    obtain ⟨left,right,across⟩ := List.pairwise_append.mp apart
    exact ⟨⟨fun i at_i => inside i (by simp [at_i]),left⟩,⟨fun i at_i => inside i (by simp [at_i]),right⟩,across⟩
  · rintro ⟨left,right,across⟩
    refine ⟨fun i at_i => ?_,List.pairwise_append.mpr ⟨left.apart,right.apart,across⟩⟩
    exact (List.mem_append.mp at_i).elim (left.inside i) (right.inside i)

-- Neighbours never touch: the value after an interval is in none.
theorem succ_end_not_mem (canonical : Canonical limit (A ++ i :: B)) : i.e+1 ∉ values (A ++ i :: B) := by
  obtain ⟨_,right,across⟩ := canonical_append.mp canonical
  obtain ⟨inside,apart,_⟩ := canonical_cons.mp right
  rintro ⟨j,at_j,within⟩
  rcases List.mem_append.mp at_j with before | later
  · have := across j before i (by simp)
    omega
  · rcases List.mem_cons.mp later with rfl | after
    · omega
    · have := apart j after
      omega

-- Values without a gap are all in one interval.
theorem within_one {a b : Nat} (canonical : Canonical limit A) (order : a ≤ b) (all : ∀ v, a ≤ v → v ≤ b → v ∈ values A) :
    ∃ i ∈ A, i.s ≤ a ∧ b ≤ i.e := by
  obtain ⟨i,at_i,within⟩ := all a (Nat.le_refl a) order
  refine ⟨i,at_i,within.1,?_⟩
  by_contra short
  have next := all (i.e+1) (by omega) (by omega)
  obtain ⟨before,later,rfl⟩ := List.append_of_mem at_i
  exact succ_end_not_mem canonical next

theorem eq_of_common (canonical : Canonical limit A) (at_i : i ∈ A) (at_j : j ∈ A) (here : i.s ≤ v ∧ v ≤ i.e)
    (there : j.s ≤ v ∧ v ≤ j.e) : i = j := by
  obtain ⟨before,later,rfl⟩ := List.append_of_mem at_i
  obtain ⟨_,right,across⟩ := canonical_append.mp canonical
  obtain ⟨_,apart,_⟩ := canonical_cons.mp right
  rcases List.mem_append.mp at_j with first | rest
  · have := across j first i (by simp)
    omega
  · rcases List.mem_cons.mp rest with same | after
    · exact same.symm
    · have := apart j after
      omega

-- What is left of one interval when `[s,e]` is taken out.
def cut (s e : Nat) (i : Interval) : List Interval :=
  (if i.s < s then [⟨i.s,min i.e (s-1)⟩] else []) ++ (if e < i.e then [⟨max i.s (e+1),i.e⟩] else [])

theorem mem_cut (piece : j ∈ cut s e i) : i.s ≤ j.s ∧ j.e ≤ i.e := by
  simp only [cut,List.mem_append,List.mem_ite_nil_right,List.mem_singleton] at piece
  rcases piece with ⟨_,rfl⟩ | ⟨_,rfl⟩
  · exact ⟨Nat.le_refl _,Nat.min_le_left ..⟩
  · exact ⟨Nat.le_max_left ..,Nat.le_refl _⟩

theorem mem_values_cut : v ∈ values (cut s e i) ↔ (i.s ≤ v ∧ v ≤ i.e) ∧ ¬ (s ≤ v ∧ v ≤ e) := by
  unfold cut
  split <;> split <;> simp <;> omega

theorem values_flatMap_cut : values (A.flatMap (cut s e)) = values A \ Set.Icc s e := by
  ext v
  induction A with
  | nil => simp
  | cons i A ih =>
    simp only [List.flatMap_cons,mem_values_append,mem_values_cut,mem_values_cons,Set.mem_sdiff,Set.mem_Icc,ih]
    tauto

theorem canonical_cut (le : s ≤ e) (inside : i.s ≤ i.e ∧ i.e < limit) : Canonical limit (cut s e i) := by
  unfold cut
  split <;> split <;> simp [canonical_cons] <;> omega

theorem canonical_flatMap_cut (le : s ≤ e) (canonical : Canonical limit A) :
    Canonical limit (A.flatMap (cut s e)) := by
  induction A with
  | nil => simp
  | cons i A ih =>
    obtain ⟨inside,apart,rest⟩ := canonical_cons.mp canonical
    refine canonical_append.mpr ⟨canonical_cut le inside,ih rest,fun j at_j k at_k => ?_⟩
    obtain ⟨later,at_later,piece⟩ := List.mem_flatMap.mp at_k
    have gap := apart later at_later
    have left := mem_cut at_j
    have right := mem_cut piece
    omega

theorem cut_below (below : i.s ≤ i.e ∧ i.e < s) (le : s ≤ e) : cut s e i = [i] := by
  have first : i.s < s := by omega
  have second : ¬ e < i.e := by omega
  have whole : min i.e (s-1) = i.e := by omega
  simp [cut,first,second,whole]

theorem cut_above (above : e < i.s ∧ i.s ≤ i.e) (le : s ≤ e) : cut s e i = [i] := by
  have first : ¬ i.s < s := by omega
  have second : e < i.e := by omega
  have whole : max i.s (e+1) = i.s := by omega
  simp [cut,first,second,whole]

theorem cut_inside (inside : s ≤ i.s ∧ i.e ≤ e) : cut s e i = [] := by
  simp [cut,Nat.not_lt.mpr inside.1,Nat.not_lt.mpr inside.2]

theorem flatMap_cut_self (kept : ∀ i ∈ A, cut s e i = [i]) : A.flatMap (cut s e) = A := by
  induction A with
  | nil => rfl
  | cons i A ih => simp [kept i (by simp),ih fun j at_j => kept j (by simp [at_j])]

end Library.Intervals

namespace Library.AlignedBlocks

-- The 2^j numbers from `b` on. A block is aligned when 2^j divides `b`.
def Inside (b j f : Nat) : Prop := b ≤ f ∧ f < b + 2^j

instance : Decidable (Inside b j f) := inferInstanceAs (Decidable (_ ∧ _))

end Library.AlignedBlocks
