import Mathlib.Algebra.BigOperators.Field
import XenAet.AetProcess
import XenAet.AetTable

namespace XenAet.AetCurve
open AetControl AetHistogram AetProcess Library
variable {a : AetCtrl} {dom : Int} {n b : U64} {p : Process ℚ} {acts : List Act} {hist : Nat → U64} {t : Nat}

-- What the turn that takes `T` to `t` adds to the sum.
def share (hist : Nat → U64) (t : Nat) : ℚ :=
  ((hist (Buckets.bucket 256 t)).toNat : ℚ) / Buckets.size 256 (Buckets.bucket 256 t - 1)

theorem bucket_pos (t : Nat) : 1 ≤ Buckets.bucket 256 (t+1) := bucket_after (show Buckets.edge 256 0 < t+1 by simp [Buckets.edge])

theorem turn_share (N : ℚ) (early : t < lastAgreed) (here : p.place = placeTurn^[t] .start) :
    (whileTurn hist N p).sum = p.sum + share hist (t+1) := by
  have place : placeTurn p.place = placeAt (t+1) (Buckets.bucket 256 (t+1)) := by
    rw [here,← Function.iterate_succ_apply' placeTurn,walk_agrees early]
  have inside : inHist (placeAt (t+1) (Buckets.bucket 256 (t+1))) = true := by
    rw [← walk_agrees early]
    exact turns_in_hist (by omega)
  have small := bucket_agreed (show t+1 ≤ lastAgreed from early)
  have index : (placeAt (t+1) (Buckets.bucket 256 (t+1))).dT.toNat = Buckets.bucket 256 (t+1) := by
    rw [placeAt,BitVec.toNat_ofNat,Nat.mod_eq_of_lt (by omega)]
  have width : Buckets.size 256 (Buckets.bucket 256 (t+1) - 1) ≤ 2^23 := Nat.pow_le_pow_right (by decide) (by omega)
  have step : (placeAt (t+1) (Buckets.bucket 256 (t+1))).step.toNat = Buckets.size 256 (Buckets.bucket 256 (t+1) - 1) := by
    have some_ := bucket_pos t
    rw [placeAt,if_neg (by omega),BitVec.toNat_ofNat,Nat.mod_eq_of_lt (by omega)]
  simp only [whileTurn,place,inside,if_true]
  rw [index,step,share,one_mul]

theorem run_shares (ran : Run.run (aetProcess a dom n) (Process.start (F:=ℚ)) acts = some p) (early : turns acts ≤ lastAgreed) :
    p.sum = ∑ t ∈ Finset.range (turns acts), share (a.aetHist dom) (t+1) := by
  have both := Run.run_history (P:=fun past (q : Process ℚ) => q.place = placeTurn^[turns past] .start ∧
    (turns past ≤ lastAgreed → q.sum = ∑ t ∈ Finset.range (turns past), share (a.aetHist dom) (t+1)))
    ?_ ⟨rfl,fun _ => rfl⟩ ran
  · exact both.2 early
  intro past q act next ⟨place,sum⟩ taken
  refine ⟨?_,fun early => ?_⟩
  · rw [process_place taken,place]
    cases act with
    | turn => simp [turns,Function.iterate_succ_apply']
    | next => simp [turns]
  · cases act with
    | turn =>
      have more : turns (past ++ [.turn]) = turns past + 1 := by simp [turns]
      rw [more] at early ⊢
      simp only [aetProcess] at taken
      split at taken
      · cases taken
        rw [turn_share _ early place,sum (by omega),Finset.sum_range_succ]
      · cases taken
    | next =>
      have same : turns (past ++ [.next]) = turns past := by simp [turns]
      rw [same] at early ⊢
      simp only [aetProcess] at taken
      split at taken
      · cases taken
        exact sum early
      · cases taken

-- The shares of one bucket add up to what it holds.
theorem shares_to_edge (hist : Nat → U64) (j : Nat) :
    ∑ t ∈ Finset.range (Buckets.edge 256 j), share hist (t+1) = ∑ i ∈ Finset.range j, ((hist (i+1)).toNat : ℚ) := by
  induction j with
  | zero => simp [Buckets.edge]
  | succ j ih =>
    have wide : (Buckets.size 256 j : ℚ) ≠ 0 := Nat.cast_ne_zero.mpr (Buckets.size_pos 256 j).ne'
    have inside : ∀ x ∈ Finset.range (Buckets.size 256 j),
        share hist (Buckets.edge 256 j + x + 1) = ((hist (j+1)).toNat : ℚ) / Buckets.size 256 j := by
      intro x small
      have here : Buckets.bucket 256 (Buckets.edge 256 j + x + 1) = j+1 := by
        rw [Buckets.bucket_eq_succ (by decide),Buckets.edge_succ 256 j (by decide)]
        rw [Finset.mem_range] at small
        omega
      rw [share,here,Nat.add_sub_cancel]
    rw [Buckets.edge_succ 256 j (by decide),Finset.sum_range_add,ih,Finset.sum_congr rfl inside,
      Finset.sum_const,Finset.card_range,nsmul_eq_mul,mul_div_cancel₀ _ wide,Finset.sum_range_succ]

-- `T` is the last value with index `b`.
def LastOf (b T : U64) : Prop := domainValueToIndex T = some b ∧ domainValueToIndex (T+1) ≠ some b

theorem last_edge_of (early : t ≤ lastAgreed) (last : LastOf b (BitVec.ofNat 64 t)) : t = Buckets.edge 256 b.toNat := by
  have fits : lastAgreed + 1 ≤ lastValue ∧ lastValue < 2^64 := by decide
  have word (s) (small : s ≤ lastAgreed + 1) : (BitVec.ofNat 64 s).toNat = s := by
    rw [BitVec.toNat_ofNat,Nat.mod_eq_of_lt (by omega)]
  obtain ⟨here,there⟩ := last
  have index := (index_some _ here).2
  rw [word t (by omega)] at index
  have next := index_exact (BitVec.ofNat 64 (t+1)) (by rw [word _ (by omega)]; omega)
  rw [word _ (by omega)] at next
  rw [word_succ,next] at there
  rw [index]
  refine le_antisymm (Buckets.bucket_spec 256 t (by decide)).1 ?_
  by_contra inner
  refine there ?_
  rw [bucket_same (by omega),← index]
  simp

-- Up to the last time at which the tool still agrees with the encoder the sum
-- holds every bucket but the first.
theorem run_mass (ran : Run.run (aetProcess a dom n) (Process.start (F:=ℚ)) acts = some p)
    (early : turns acts ≤ lastAgreed) (last : LastOf b p.place.T) :
    p.sum = ∑ i ∈ Finset.range b.toNat, ((a.aetHist dom (i+1)).toNat : ℚ) := by
  have time : p.place.T = BitVec.ofNat 64 (turns acts) := by rw [run_place ran,turns_time]
  rw [time] at last
  rw [run_shares ran early,last_edge_of early last,shares_to_edge]

theorem curve_mass_iff (ran : Run.run (aetProcess a dom n) (Process.start (F:=ℚ)) acts = some p)
    (early : turns acts ≤ lastAgreed) (last : LastOf b p.place.T) :
    p.sum = ∑ j ∈ Finset.range (b.toNat+1), ((a.aetHist dom j).toNat : ℚ) ↔ a.aetHist dom 0 = 0 := by
  rw [run_mass ran early last,Finset.sum_range_succ']
  constructor
  · intro same
    have zero : ((a.aetHist dom 0).toNat : ℚ) = 0 := by linarith
    exact BitVec.eq_of_toNat_eq (Nat.cast_eq_zero.mp zero)
  · intro zero
    rw [zero]
    simp

theorem last_of_one : LastOf 1 1 := ⟨by decide +kernel,by decide +kernel⟩

theorem curve_mass_iff_sparse : (sparseAt 0).sum = ∑ j ∈ Finset.range 2, ((sparse.aetHist 0 j).toNat : ℚ) :=
  (curve_mass_iff sparse_first (by decide) last_of_one).mpr rfl

-- A page is seen twice at the same count of references, which is bucket 0.
theorem five_ne : (5 : U64) ≠ 0#64 := by decide

def sameCount : List AetTrack.Event := [AetTable.visitOf 5 100 five_ne,AetTable.visitOf 5 100 five_ne]

theorem first_bucket_lost : ∃ c p, Run.run AetTrack.step zeroed sameCount = some c ∧
    Run.run (aetProcess (F:=ℚ) c 0 1256) Process.start [.turn] = some p ∧ LastOf 1 p.place.T ∧
      p.sum ≠ ∑ j ∈ Finset.range 2, ((c.aetHist 0 j).toNat : ℚ) := by
  obtain ⟨c,ran,first,refs,nodes⟩ := Run.run_reaches (s:=zeroed)
    (P:=fun c => c.aetHist 0 0 = 1 ∧ c.totRef 0 = 1 ∧ c.nodeCount 0 = 1)
    (show (Run.run AetTrack.step _ sameCount).any _ = true by decide +kernel)
  have others : ((1256 : U64) - 1 * stepPages).toNat = 1000 := by decide
  have pages : ((1 : U64) * stepPages).toNat = 256 := by decide
  have one : (1 : U64).toNat = 1 := by decide
  have mass : totalMass c 0 1256 = (157/125 : ℚ) := by
    simp only [totalMass,refs,nodes,others,pages,one]
    norm_num
  have opens : (running (Process.start (F:=ℚ)) && whileGo 1256 (157/125 : ℚ) Process.start) = true := by
    have start : running (Process.start (F:=ℚ)) = true := by decide
    rw [start]
    norm_num [whileGo,Process.start,Place.start]
    decide
  have turned : Run.run (aetProcess (F:=ℚ) c 0 1256) Process.start [.turn] =
      some (whileTurn (c.aetHist 0) (157/125) Process.start) := by
    rw [Run.run_cons,aetProcess,mass,if_pos opens]
    rfl
  have place : (whileTurn (c.aetHist 0) (157/125 : ℚ) Process.start).place.T = 1 := by
    simp only [whileTurn]
    split <;> rfl
  refine ⟨c,_,ran,turned,by rw [place]; exact last_of_one,?_⟩
  rw [run_mass turned (by decide) (by rw [place]; exact last_of_one)]
  simp [Finset.sum_range_succ,first]

end XenAet.AetCurve
