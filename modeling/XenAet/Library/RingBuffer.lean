import Mathlib.Data.List.Infix
import Mathlib.Data.List.Basic
import Mathlib.Data.Nat.ModEq

namespace Library.RingBuffer
variable {α : Type} {buffer : Nat → α} {stream bytes : List α} {size from_ at_ n : Nat}

-- The cells of a ring of `size` cells. Place `k` of a stream lies in cell
-- `k % size`, so the ring can hold a window of at most `size` places.
def store (buffer : Nat → α) (start : Nat) (bytes : List α) (cell : Nat) : α :=
  if start ≤ cell then (bytes[cell - start]?).getD (buffer cell) else buffer cell

def fetch (buffer : Nat → α) (start n : Nat) : List α := (List.range n).map fun i => buffer (start + i)

@[simp] theorem length_fetch : (fetch buffer at_ n).length = n := by simp [fetch]

def Held (size : Nat) (buffer : Nat → α) (stream : List α) (from_ : Nat) : Prop :=
  ∀ k, from_ ≤ k → ∀ below : k < stream.length, buffer (k % size) = stream[k]

theorem Held.later {later : Nat} (held : Held size buffer stream from_) (le : from_ ≤ later) :
    Held size buffer stream later := fun k after below => held k (Nat.le_trans le after) below

theorem Held.of_append {tail : List α} (held : Held size buffer (stream ++ tail) from_) : Held size buffer stream from_ := by
  intro k after below
  rw [held k after (by rw [List.length_append]; omega),List.getElem_append_left below]

-- Two places less than `size` apart lie in different cells.
theorem cell_ne {j k : Nat} (before : j < k) (near : k < j + size) : j % size ≠ k % size := by
  intro same
  have divides : size ∣ k - j := (Nat.modEq_iff_dvd' (Nat.le_of_lt before)).mp same
  have := Nat.le_of_dvd (by omega) divides
  omega

theorem cell_add (fits : at_ % size + n < size) : (at_ + n) % size = at_ % size + n := by
  rw [Nat.add_mod,Nat.mod_eq_of_lt (Nat.lt_of_le_of_lt (Nat.le_add_left n _) fits),Nat.mod_eq_of_lt fits]

-- The next bytes of the stream go in behind it, up to the end of the ring.
theorem held_store (held : Held size buffer stream from_) (contiguous : stream.length % size + bytes.length ≤ size)
    (room : stream.length + bytes.length ≤ from_ + size) :
    Held size (store buffer (stream.length % size) bytes) (stream ++ bytes) from_ := by
  intro k after below
  rw [List.length_append] at below
  by_cases old : k < stream.length
  · rw [List.getElem_append_left old,← held k after old,store]
    split
    · rename_i from_start
      by_cases inside : k % size - stream.length % size < bytes.length
      · have place : k % size = (stream.length + (k % size - stream.length % size)) % size := by
          rw [cell_add (by omega)]
          omega
        exact absurd place (cell_ne (by omega) (by omega))
      · rw [List.getElem?_eq_none (by omega),Option.getD_none]
    · rfl
  · have place : k % size = stream.length % size + (k - stream.length) := by
      rw [← cell_add (by omega)]
      congr 1
      omega
    rw [List.getElem_append_right (by omega),store,place,if_pos (Nat.le_add_right _ _),Nat.add_sub_cancel_left,
      List.getElem?_eq_getElem (by omega),Option.getD_some]

theorem fetch_held (held : Held size buffer stream from_) (after : from_ ≤ at_) (contiguous : at_ % size + n ≤ size)
    (there : at_ + n ≤ stream.length) : fetch buffer (at_ % size) n = (stream.drop at_).take n := by
  refine List.ext_getElem (by simp; omega) fun i inside _ => ?_
  rw [length_fetch] at inside
  have here := held (at_ + i) (by omega) (by omega)
  rw [cell_add (by omega)] at here
  simp [fetch,here]

end Library.RingBuffer
