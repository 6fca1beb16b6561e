import Mathlib.Order.Interval.Finset.Nat
import Mathlib.Tactic.Ring

namespace Library.Buckets

-- Bands of `w` buckets each; every bucket of band `k` holds `2^k` values.
-- Bucket `j` ends at `edge w j`, and bucket 0 holds the value 0 alone.
def size (w j : Nat) : Nat := 2^(j/w)

def edge (w j : Nat) : Nat := w*(2^(j/w)-1) + (j%w)*2^(j/w)

theorem size_pos (w j : Nat) : 0 < size w j := Nat.two_pow_pos _

theorem edge_band (w k r : Nat) (inside : r < w) : edge w (k*w+r) = w*(2^k-1) + r*2^k := by
  have band : (k*w+r)/w = k := by
    rw [Nat.mul_comm,Nat.mul_add_div (by omega),Nat.div_eq_of_lt inside,Nat.add_zero]
  have place : (k*w+r)%w = r := by
    rw [Nat.mul_comm,Nat.mul_add_mod,Nat.mod_eq_of_lt inside]
  simp [edge,band,place]

theorem edge_band_le (w k r : Nat) (positive : 0 < w) (inside : r ≤ w) :
    edge w (k*w+r) = w*(2^k-1) + r*2^k := by
  rcases Nat.lt_or_eq_of_le inside with small | rfl
  · exact edge_band w k r small
  · have next := edge_band r (k+1) 0 positive
    have power := Nat.two_pow_pos k
    obtain ⟨p,same⟩ : ∃ p, 2^k = p+1 := ⟨2^k-1,by omega⟩
    rw [show k*r+r = (k+1)*r+0 by ring,next,pow_succ,same,
      show (p+1)*2-1 = 2*p+1 by omega,show p+1-1 = p by omega]
    ring

theorem edge_succ (w j : Nat) (positive : 0 < w) : edge w (j+1) = edge w j + size w j := by
  have split : j/w*w + j%w = j := by rw [Nat.mul_comm]; exact Nat.div_add_mod j w
  have inside := Nat.mod_lt j positive
  have here := edge_band w (j/w) (j%w) inside
  have next := edge_band_le w (j/w) (j%w+1) positive inside
  rw [← Nat.add_assoc,split] at next
  rw [split] at here
  rw [next,here,size]
  ring

theorem edge_lt (w : Nat) (positive : 0 < w) : StrictMono (edge w) :=
  strictMono_nat_of_lt_succ fun j => by
    rw [edge_succ w j positive]; exact Nat.lt_add_of_pos_right (size_pos w j)

theorem le_edge (w j : Nat) (positive : 0 < w) : j ≤ edge w j := (edge_lt w positive).le_apply

def bucket (w v : Nat) : Nat :=
  if positive : 0 < w then Nat.find (p:=fun j => v ≤ edge w j) ⟨v,le_edge w v positive⟩ else 0

theorem bucket_spec (w v : Nat) (positive : 0 < w) :
    v ≤ edge w (bucket w v) ∧ ∀ i, i < bucket w v → edge w i < v := by
  have some : ∃ j, v ≤ edge w j := ⟨v,le_edge w v positive⟩
  have same : bucket w v = Nat.find some := dif_pos positive
  rw [same]
  refine ⟨Nat.find_spec some,fun i small => ?_⟩
  have missed : ¬ v ≤ edge w i := Nat.find_min some small
  omega

theorem bucket_eq (positive : 0 < w) (reach : v ≤ edge w j) (above : ∀ i, i < j → edge w i < v) :
    bucket w v = j := by
  obtain ⟨reached,before⟩ := bucket_spec w v positive
  apply le_antisymm
  · by_contra late
    exact absurd reach (Nat.not_le_of_lt (before j (by omega)))
  · by_contra early
    exact absurd reached (Nat.not_le_of_lt (above _ (by omega)))

theorem bucket_eq_succ (positive : 0 < w) :
    bucket w v = j+1 ↔ edge w j < v ∧ v ≤ edge w (j+1) := by
  constructor
  · intro same
    obtain ⟨reached,before⟩ := bucket_spec w v positive
    exact ⟨before j (by omega),by rwa [same] at reached⟩
  · rintro ⟨above,reach⟩
    refine bucket_eq positive reach fun i small => ?_
    exact lt_of_le_of_lt ((edge_lt w positive).monotone (by omega)) above

theorem bucket_zero (positive : 0 < w) : bucket w 0 = 0 :=
  bucket_eq positive (Nat.zero_le _) fun _ small => absurd small (Nat.not_lt_zero _)

theorem bucket_fiber (positive : 0 < w) :
    {v | bucket w v = j+1} = (Finset.Ioc (edge w j) (edge w (j+1)) : Set Nat) := by
  ext v
  simp [bucket_eq_succ positive]

theorem fiber_card (positive : 0 < w) :
    (Finset.Ioc (edge w j) (edge w (j+1))).card = size w j := by
  rw [Nat.card_Ioc,edge_succ w j positive,Nat.add_sub_cancel_left]

end Library.Buckets
