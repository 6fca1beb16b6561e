import Mathlib.Data.Set.Card
import XenAet.AetControl
import XenAet.Library.Loops
import XenAet.Library.Buckets

namespace XenAet.AetHistogram
open AetControl Library

def domain : Nat := 256

structure Cursor where
  loc : U64
  step : U64
  index : U64
  deriving DecidableEq,Repr

def bandGo (value : U64) (s : Cursor) : Bool := s.loc + s.step * BitVec.ofNat 64 domain < value
def bandTurn (s : Cursor) : Cursor :=
  ⟨s.loc + s.step * BitVec.ofNat 64 domain,s.step * 2,s.index + BitVec.ofNat 64 domain⟩
def bucketGo (value : U64) (s : Cursor) : Bool := s.loc < value
def bucketTurn (s : Cursor) : Cursor := ⟨s.loc + s.step,s.step,s.index + 1⟩

def start : Cursor := ⟨0,1,0⟩

def domainValueToIndexWith (fuel : Nat) (value : U64) : Option U64 := do
  let band ← While.loop (bandGo value) bandTurn fuel start
  let last ← While.loop (bucketGo value) bucketTurn fuel band
  return last.index

-- 512 turns are enough for every value on which the code returns at all, so
-- `none` is a call that never returns: see `index_exact` and `index_hangs`.
def domainValueToIndex (value : U64) : Option U64 := domainValueToIndexWith 512 value

def lastValue : Nat := 2^64 - 256

def bandCursor (k : Nat) : Cursor :=
  ⟨BitVec.ofNat 64 (256*(2^k-1)),BitVec.ofNat 64 (2^k),BitVec.ofNat 64 (256*k)⟩

theorem band_loc (k : Nat) : 256*(2^k-1) + 2^k*256 = 256*(2^(k+1)-1) := by
  have power := Nat.two_pow_pos k
  rw [pow_succ]; omega

theorem band_turns (k : Nat) : bandTurn^[k] start = bandCursor k := by
  induction k with
  | zero => rfl
  | succ k ih =>
    rw [Function.iterate_succ_apply',ih]
    simp only [bandTurn,bandCursor,domain]
    rw [← band_loc k]
    simp only [pow_succ,Nat.mul_succ 256 k,BitVec.ofNat_add,BitVec.ofNat_mul]
    rfl

theorem power_le (small : k ≤ 55) : 2^k ≤ 2^55 := Nat.pow_le_pow_right (by decide) small

theorem band_edge (k : Nat) : Buckets.edge 256 (k*256) = 256*(2^k-1) := by
  simpa using Buckets.edge_band 256 k 0 (by decide)

theorem band_go (value : U64) (small : k ≤ 55) :
    bandGo value (bandCursor k) = decide (Buckets.edge 256 ((k+1)*256) < value.toNat) := by
  have bound := power_le small
  have fits : 256*(2^(k+1)-1) < 2^64 := by rw [pow_succ]; omega
  simp only [band_edge,bandGo,bandCursor,domain,← BitVec.ofNat_add,← BitVec.ofNat_mul,band_loc,
    BitVec.lt_def,BitVec.toNat_ofNat,Nat.mod_eq_of_lt fits]

def bucketCursor (k r : Nat) : Cursor :=
  ⟨BitVec.ofNat 64 (256*(2^k-1)+r*2^k),BitVec.ofNat 64 (2^k),BitVec.ofNat 64 (256*k+r)⟩

theorem bucket_turns (k r : Nat) : bucketTurn^[r] (bandCursor k) = bucketCursor k r := by
  induction r with
  | zero => simp [bucketCursor,bandCursor]
  | succ r ih =>
    rw [Function.iterate_succ_apply',ih]
    have loc : 256*(2^k-1)+(r+1)*2^k = 256*(2^k-1)+r*2^k + 2^k := by ring
    simp only [bucketTurn,bucketCursor,loc,← Nat.add_assoc (256*k) r 1,BitVec.ofNat_add]
    rfl

theorem bucket_go (value : U64) (small : k ≤ 55) (inside : r ≤ 256) :
    bucketGo value (bucketCursor k r) = decide (Buckets.edge 256 (k*256+r) < value.toNat) := by
  have bound := power_le small
  have product : r*2^k ≤ 256*2^k := Nat.mul_le_mul_right _ inside
  have fits : 256*(2^k-1)+r*2^k < 2^64 := by omega
  rw [Buckets.edge_band_le 256 k r (by decide) inside]
  simp only [bucketGo,bucketCursor,BitVec.lt_def,BitVec.toNat_ofNat,Nat.mod_eq_of_lt fits]

theorem edge_mono (le : i ≤ j) : Buckets.edge 256 i ≤ Buckets.edge 256 j :=
  (Buckets.edge_lt 256 (by decide)).monotone le

theorem last_edge : Buckets.edge 256 (56*256) = lastValue := by rw [band_edge]; rfl

theorem bucket_le_last (fits : v ≤ lastValue) : Buckets.bucket 256 v ≤ 56*256 := by
  by_contra larger
  have above := (Buckets.bucket_spec 256 v (by decide)).2 (56*256) (by omega)
  rw [last_edge] at above
  omega

theorem bucket_place (j : Nat) : ∃ k r, j = k*256+r ∧ r ≤ 256 ∧ (k = 0 ∨ 1 ≤ r) := by
  cases j with
  | zero => exact ⟨0,0,by simp⟩
  | succ j => exact ⟨j/256,j%256+1,by omega,by omega,by omega⟩

theorem index_with (value : U64) (fits : value.toNat ≤ lastValue) (enough : 256 ≤ fuel) :
    domainValueToIndexWith fuel value = some (BitVec.ofNat 64 (Buckets.bucket 256 value.toNat)) := by
  obtain ⟨reached,before⟩ := Buckets.bucket_spec 256 value.toNat (by decide)
  have last := bucket_le_last fits
  obtain ⟨k,r,place,inside,base⟩ := bucket_place (Buckets.bucket 256 value.toNat)
  rw [place] at reached before last
  have small : k ≤ 55 := by omega
  have bandEnd : While.loop (bandGo value) bandTurn fuel start = some (bandCursor k) := by
    rw [← band_turns k]
    apply While.loop_exits k (by omega)
    · intro i early
      rw [band_turns,band_go value (by omega),decide_eq_true_iff]
      exact before _ (by omega)
    · rw [band_turns,band_go value small,decide_eq_false_iff_not,Nat.not_lt]
      have next : k*256+r ≤ (k+1)*256 := by rw [Nat.succ_mul]; exact Nat.add_le_add_left inside _
      exact le_trans reached (edge_mono next)
  have bucketEnd : While.loop (bucketGo value) bucketTurn fuel (bandCursor k) = some (bucketCursor k r) := by
    rw [← bucket_turns k r]
    apply While.loop_exits r (by omega)
    · intro i early
      rw [bucket_turns,bucket_go value small (by omega),decide_eq_true_iff]
      exact before _ (by omega)
    · rw [bucket_turns,bucket_go value small inside,decide_eq_false_iff_not,Nat.not_lt]
      exact reached
  simp [domainValueToIndexWith,bandEnd,bucketEnd,bucketCursor,place,Nat.mul_comm k 256]

-- Past the end of band 55 the band width is 2^64 and vanishes: the first loop
-- neither advances nor stops.
def Stuck (s : Cursor) : Prop := s.loc = BitVec.ofNat 64 lastValue ∧ s.step * BitVec.ofNat 64 domain = 0

theorem band_stuck : Stuck (bandCursor 56) := ⟨by decide,by decide⟩

theorem index_hangs (value : U64) (larger : lastValue < value.toNat) (fuel : Nat) :
    domainValueToIndexWith fuel value = none := by
  have never : While.loop (bandGo value) bandTurn fuel start = none := by
    apply While.loop_forever (P:=fun s => (∃ k, k ≤ 55 ∧ s = bandCursor k) ∨ Stuck s)
    · exact .inl ⟨0,by decide,rfl⟩
    · rintro s (⟨k,small,rfl⟩ | ⟨loc,width⟩)
      · have within : Buckets.edge 256 ((k+1)*256) ≤ lastValue := by
          rw [← last_edge]; exact edge_mono (by omega)
        rw [band_go value small,decide_eq_true_iff]
        omega
      · simp only [bandGo,width,loc,BitVec.lt_def,decide_eq_true_iff]
        simpa [lastValue] using larger
    · rintro s (⟨k,small,rfl⟩ | ⟨loc,width⟩)
      · have turned : bandTurn (bandCursor k) = bandCursor (k+1) := by
          rw [← band_turns k,← band_turns (k+1),Function.iterate_succ_apply']
        rw [turned]
        rcases Nat.lt_or_eq_of_le small with more | rfl
        · exact .inl ⟨k+1,more,rfl⟩
        · exact .inr band_stuck
      · refine .inr ⟨?_,?_⟩
        · simp [bandTurn,width,loc]
        · rw [bandTurn,mul_right_comm,width,zero_mul]
  simp [domainValueToIndexWith,never]

theorem index_exact (value : U64) (fits : value.toNat ≤ lastValue) :
    domainValueToIndex value = some (BitVec.ofNat 64 (Buckets.bucket 256 value.toNat)) :=
  index_with value fits (by decide)

theorem index_some (value : U64) (returned : domainValueToIndex value = some i) :
    value.toNat ≤ lastValue ∧ i.toNat = Buckets.bucket 256 value.toNat := by
  by_cases fits : value.toNat ≤ lastValue
  · rw [index_exact value fits] at returned
    cases returned
    have last := bucket_le_last fits
    exact ⟨fits,by rw [BitVec.toNat_ofNat,Nat.mod_eq_of_lt (by omega)]⟩
  · rw [domainValueToIndex,index_hangs value (by omega)] at returned
    cases returned

theorem index_in_range (returned : domainValueToIndex value = some i) : i.toNat < maxPageNum := by
  obtain ⟨fits,same⟩ := index_some value returned
  have last := bucket_le_last fits
  rw [same,maxPageNum]
  omega

end XenAet.AetHistogram
