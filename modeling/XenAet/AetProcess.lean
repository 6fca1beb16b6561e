import Mathlib.Algebra.Order.Field.Rat
import Mathlib.Tactic.Linarith
import XenAet.AetHistogram
import XenAet.Library.Run

namespace XenAet.AetProcess
open AetControl AetHistogram Library

abbrev I32 := BitVec 32

def stepPages : U64 := 256
def lastCache : U64 := 512000

structure Place where
  T : U64
  step : U64
  dom : I32
  dT : I32
  loc : I32
  deriving DecidableEq,Repr

def Place.start : Place := ⟨0,1,0,0,0⟩

-- `T > loc` extends the sign of `loc` to 64 bits before it compares, and
-- `loc += step` adds in 64 bits and keeps the low 32.
def enter (s : Place) : Place :=
  let full := BitVec.slt 256 (s.dom+1)
  let step := if full then s.step*2 else s.step
  let loc := (s.loc.signExtend 64 + step).setWidth 32
  ⟨s.T,step,if full then 1 else s.dom+1,s.dT+1,loc⟩

def placeTurn (s : Place) : Place :=
  let s := {s with T := s.T+1}
  if s.loc.signExtend 64 < s.T then enter s else s

structure Line (F : Type) where
  dT : I32
  sum : F
  miss : F

structure Process (F : Type) where
  c : U64
  place : Place
  tot : F
  sum : F
  out : List (Line F)

-- The arithmetic of C `double` enters only through these operations.
section
variable {F : Type} [NatCast F] [Zero F] [One F] [Add F] [Sub F] [Mul F] [Div F]
  [LT F] [LE F] [DecidableLT F] [DecidableLE F]

def totalMass (a : AetCtrl) (dom : Int) (n : U64) : F :=
  let m := a.nodeCount dom * stepPages
  let tott : F := ((a.totRef dom).toNat : F)
  tott + 1 * tott / ((n-m).toNat : F) * (m.toNat : F)

def Process.start : Process F := ⟨1,.start,0,0,[]⟩

def inHist (s : Place) : Bool := BitVec.slt s.dT (BitVec.ofNat 32 maxPageNum)

def running (p : Process F) : Bool := p.c ≤ lastCache && inHist p.place

def whileGo (n : U64) (N : F) (p : Process F) : Bool :=
  p.place.T ≤ n && decide (p.tot/N < (p.c.toNat : F)) && decide (p.sum < N)

def whileTurn (hist : Nat → U64) (N : F) (p : Process F) : Process F :=
  let place := placeTurn p.place
  let tot := p.tot + (N - p.sum)
  if inHist place then
    {p with place,tot,sum := p.sum + 1 * ((hist place.dT.toNat).toNat : F) / (place.step.toNat : F)}
  else {p with place,tot}

def forTurn (N : F) (p : Process F) : Process F :=
  let line : Line F := ⟨p.place.dT,p.sum,if p.sum ≤ N then 1 * (N - p.sum) / N else 0⟩
  {p with c := p.c+1,out := if p.c % 256 = 0 then p.out ++ [line] else p.out}

inductive Act where
  | turn | next
  deriving DecidableEq,Repr

def aetProcess (a : AetCtrl) (dom : Int) (n : U64) (p : Process F) : Act → Option (Process F)
  | .turn => if running p && whileGo n (totalMass a dom n) p then
      some (whileTurn (a.aetHist dom) (totalMass a dom n) p) else none
  | .next => if running p && !whileGo n (totalMass a dom n) p then
      some (forTurn (totalMass a dom n) p) else none

end

def turns (acts : List Act) : Nat := acts.count .turn

section
variable {F : Type} [NatCast F] [Zero F] [One F] [Add F] [Sub F] [Mul F] [Div F]
  [LT F] [LE F] [DecidableLT F] [DecidableLE F] {a : AetCtrl} {dom : Int} {n : U64} {p next : Process F}

theorem process_place (ran : aetProcess a dom n p act = some next) :
    next.place = if act = .turn then placeTurn p.place else p.place := by
  cases act with
  | turn =>
    simp only [aetProcess] at ran
    split at ran
    · cases ran
      simp only [whileTurn]
      split <;> rfl
    · cases ran
  | next =>
    simp only [aetProcess] at ran
    split at ran
    · cases ran; rfl
    · cases ran

theorem run_place (ran : Run.run (aetProcess a dom n) (Process.start (F:=F)) acts = some p) :
    p.place = placeTurn^[turns acts] .start := by
  apply Run.run_history (P:=fun past (q : Process F) => q.place = placeTurn^[turns past] .start) ?_ rfl ran
  intro past q act next held taken
  rw [process_place taken,held]
  cases act with
  | turn => simp [turns,Function.iterate_succ_apply']
  | next => simp [turns]

end

def placeAt (t j : Nat) : Place where
  T := BitVec.ofNat 64 t
  step := BitVec.ofNat 64 (if j = 0 then 1 else Buckets.size 256 (j-1))
  dom := BitVec.ofNat 32 (if j = 0 then 0 else (j-1)%256+1)
  dT := BitVec.ofNat 32 j
  loc := BitVec.ofNat 32 (Buckets.edge 256 j)

def lastAgreed : Nat := 2155872000

theorem edge_5888 : Buckets.edge 256 5888 = 2147483392 := by decide +kernel
theorem agreed_edge : Buckets.edge 256 5889 = lastAgreed := by decide +kernel

theorem word_succ (x : Nat) : BitVec.ofNat w x + 1 = BitVec.ofNat w (x+1) := (BitVec.ofNat_add x 1).symm

theorem msb_small (small : x < 2^31) : (BitVec.ofNat 32 x).msb = false := by
  rw [BitVec.msb_eq_false_iff_two_mul_lt,BitVec.toNat_ofNat,Nat.mod_eq_of_lt (by omega)]
  omega

theorem sign_extend_small (small : x < 2^31) :
    (BitVec.ofNat 32 x).signExtend 64 = BitVec.ofNat 64 x := by
  rw [BitVec.signExtend_eq_setWidth_of_msb_false (msb_small small)]
  apply BitVec.eq_of_toNat_eq
  rw [BitVec.toNat_setWidth,BitVec.toNat_ofNat,BitVec.toNat_ofNat,Nat.mod_eq_of_lt (by omega : x < 2^32)]

theorem turn_stays (behind : ¬ s.loc.signExtend 64 < s.T + 1) : placeTurn s = {s with T := s.T+1} := by
  simp only [placeTurn]
  rw [if_neg behind]

theorem turn_enters (past : s.loc.signExtend 64 < s.T + 1) :
    placeTurn s = enter {s with T := s.T+1} := by
  simp only [placeTurn]
  rw [if_pos past]

theorem full_iff (small : x < 2^31) : BitVec.slt 256 (BitVec.ofNat 32 x) = decide (256 < x) := by
  have value : (BitVec.ofNat 32 x).toInt = x := by
    rw [BitVec.toInt_eq_toNat_of_msb (msb_small small),BitVec.toNat_ofNat,Nat.mod_eq_of_lt (by omega)]
  have limit : (256 : I32).toInt = 256 := by decide
  rw [BitVec.slt,value,limit,decide_eq_decide]
  omega

theorem size_next (j : Nat) : Buckets.size 256 (j+1) =
    if 256 < j%256+2 then Buckets.size 256 j * 2 else Buckets.size 256 j := by
  split
  · have band : (j+1)/256 = j/256+1 := by omega
    rw [Buckets.size,Buckets.size,band,pow_succ]
  · have band : (j+1)/256 = j/256 := by omega
    rw [Buckets.size,Buckets.size,band]

theorem enter_next (t : Nat) (small : j ≤ 5888) :
    enter {placeAt t j with T := BitVec.ofNat 64 (t+1)} = placeAt (t+1) (j+1) := by
  have fits : Buckets.edge 256 j < 2^31 := by
    have le := edge_mono small
    rw [edge_5888] at le
    omega
  have loc : (BitVec.ofNat 64 (Buckets.edge 256 j) + BitVec.ofNat 64 (Buckets.size 256 j)).setWidth 32 =
      BitVec.ofNat 32 (Buckets.edge 256 (j+1)) := by
    rw [Buckets.edge_succ 256 j (by decide),← BitVec.ofNat_add]
    apply BitVec.eq_of_toNat_eq
    rw [BitVec.toNat_setWidth,BitVec.toNat_ofNat,BitVec.toNat_ofNat]
    exact Nat.mod_mod_of_dvd _ (by decide)
  cases j with
  | zero => rfl
  | succ i =>
    have width : (if 256 < i%256+2 then BitVec.ofNat 64 (Buckets.size 256 i) * 2
        else BitVec.ofNat 64 (Buckets.size 256 i)) = BitVec.ofNat 64 (Buckets.size 256 (i+1)) := by
      rw [size_next]
      split
      · exact (BitVec.ofNat_mul _ 2).symm
      · rfl
    have place : (if 256 < i%256+2 then 1 else BitVec.ofNat 32 (i%256+2)) =
        BitVec.ofNat 32 ((i+1)%256+1) := by
      split
      · rw [show (i+1)%256 = 0 by omega]; rfl
      · rw [show (i+1)%256+1 = i%256+2 by omega]
    simp only [enter,placeAt,Nat.succ_ne_zero,if_false,Nat.add_sub_cancel,word_succ,sign_extend_small fits,
      full_iff (show i%256+1+1 < 2^31 by omega),decide_eq_true_iff,width,place,loc]

theorem bucket_same (le : t+1 ≤ Buckets.edge 256 (Buckets.bucket 256 t)) :
    Buckets.bucket 256 (t+1) = Buckets.bucket 256 t := by
  refine Buckets.bucket_eq (by decide) le fun i small => ?_
  have before := (Buckets.bucket_spec 256 t (by decide)).2 i small
  omega

theorem bucket_next (past : Buckets.edge 256 (Buckets.bucket 256 t) < t+1) :
    Buckets.bucket 256 (t+1) = Buckets.bucket 256 t + 1 := by
  rw [Buckets.bucket_eq_succ (by decide),Buckets.edge_succ _ _ (by decide)]
  have reached := (Buckets.bucket_spec 256 t (by decide)).1
  have wide := Buckets.size_pos 256 (Buckets.bucket 256 t)
  omega

theorem bucket_agreed (early : t ≤ lastAgreed) : Buckets.bucket 256 t ≤ 5889 := by
  by_contra larger
  have before := (Buckets.bucket_spec 256 t (by decide)).2 5889 (by omega)
  rw [agreed_edge] at before
  omega

theorem bucket_after (late : Buckets.edge 256 j < t) : j < Buckets.bucket 256 t := by
  by_contra larger
  have le := edge_mono (Nat.le_of_not_lt larger)
  have reached := (Buckets.bucket_spec 256 t (by decide)).1
  omega

def wrapped : Nat := 2^64 - 2139095296

theorem loc_ahead (small : j ≤ 5889) (ahead : t+1 ≤ Buckets.edge 256 j) (within : t < lastAgreed) :
    ¬ (placeAt t j).loc.signExtend 64 < BitVec.ofNat 64 (t+1) := by
  have word : (BitVec.ofNat 64 (t+1)).toNat = t+1 := by
    rw [BitVec.toNat_ofNat,Nat.mod_eq_of_lt (by rw [lastAgreed] at within; omega)]
  rw [BitVec.not_lt,BitVec.le_def,word]
  rcases Nat.lt_or_eq_of_le small with inside | rfl
  · have le := edge_mono (show j ≤ 5888 by omega)
    rw [placeAt,sign_extend_small (by rw [edge_5888] at le; omega),BitVec.toNat_ofNat,
      Nat.mod_eq_of_lt (by rw [edge_5888] at le; omega)]
    exact ahead
  · have far : ((placeAt t 5889).loc.signExtend 64).toNat = wrapped := by
      simp only [placeAt,agreed_edge]; decide
    rw [far]
    rw [lastAgreed] at within
    rw [wrapped]
    omega

theorem loc_behind (small : j ≤ 5888) (past : Buckets.edge 256 j < t+1) (within : t < lastAgreed) :
    (placeAt t j).loc.signExtend 64 < BitVec.ofNat 64 (t+1) := by
  have le := edge_mono small
  rw [edge_5888] at le
  rw [lastAgreed] at within
  rw [placeAt,sign_extend_small (by omega),BitVec.lt_def,BitVec.toNat_ofNat,BitVec.toNat_ofNat,
    Nat.mod_eq_of_lt (by omega),Nat.mod_eq_of_lt (by omega)]
  exact past

-- Up to the last agreed time the walk is exact: induction on the turns, with
-- `loc` the edge of the bucket the walk stands in. In the last bucket that edge
-- has wrapped to a negative `int`, which as a 64-bit word is far ahead of `T`.
theorem walk_agrees (within : t ≤ lastAgreed) :
    placeTurn^[t] .start = placeAt t (Buckets.bucket 256 t) := by
  induction t with
  | zero => rw [Buckets.bucket_zero (by decide)]; rfl
  | succ t ih =>
    rw [Function.iterate_succ_apply',ih (by omega)]
    by_cases past : Buckets.edge 256 (Buckets.bucket 256 t) < t+1
    · have small : Buckets.bucket 256 t ≤ 5888 := by
        by_contra larger
        have le := edge_mono (show 5889 ≤ Buckets.bucket 256 t by omega)
        rw [agreed_edge] at le
        omega
      rw [turn_enters (by rw [placeAt,word_succ]; exact loc_behind small past within),bucket_next past,
        ← enter_next t small,placeAt,word_succ]
    · have small : Buckets.bucket 256 t ≤ 5889 := bucket_agreed (by omega)
      rw [turn_stays (by rw [placeAt,word_succ]; exact loc_ahead small (by omega) within),
        bucket_same (by omega),placeAt,word_succ]
      rfl

-- From there the walk stalls in bucket 5889 until `T` has passed the wrapped
-- `loc`, and then counts on in the same band while `loc` climbs back to zero.
def stalledAt (t i : Nat) : Place where
  T := BitVec.ofNat 64 t
  step := BitVec.ofNat 64 (2^23)
  dom := BitVec.ofNat 32 (i+1)
  dT := BitVec.ofNat 32 (5889+i)
  loc := BitVec.ofNat 32 (lastAgreed+i*2^23)

theorem stalled_loc (small : i ≤ 255) :
    ((stalledAt t i).loc.signExtend 64).toNat = wrapped + i*2^23 := by
  have all : ∀ i : Fin 256, ((BitVec.ofNat 32 (lastAgreed+i*2^23)).signExtend 64).toNat = wrapped + i*2^23 := by
    decide +kernel
  exact all ⟨i,by omega⟩

theorem stalled_enter (t : Nat) (small : i < 255) :
    enter {stalledAt t i with T := BitVec.ofNat 64 (t+1)} = stalledAt (t+1) (i+1) := by
  have loc : ((stalledAt t i).loc.signExtend 64 + BitVec.ofNat 64 (2^23)).setWidth 32 =
      BitVec.ofNat 32 (lastAgreed+(i+1)*2^23) := by
    apply BitVec.eq_of_toNat_eq
    rw [BitVec.toNat_setWidth,BitVec.toNat_add,stalled_loc (by omega),BitVec.toNat_ofNat,BitVec.toNat_ofNat,
      wrapped,lastAgreed]
    omega
  have inside : ¬ 256 < i+1+1 := by omega
  simp only [stalledAt] at loc
  simp only [enter,stalledAt,word_succ,full_iff (show i+1+1 < 2^31 by omega),decide_eq_true_iff,
    if_neg inside,loc]
  rfl

structure Stalled (t : Nat) (s : Place) (i : Nat) : Prop where
  place : s = stalledAt t i
  small : i ≤ 255
  ahead : t ≤ wrapped + i*2^23
  late : i = 0 ∨ wrapped ≤ t

theorem stalled_start : Stalled lastAgreed (placeTurn^[lastAgreed] .start) 0 := by
  have here : Buckets.bucket 256 lastAgreed = 5889 := by
    rw [Buckets.bucket_eq_succ (by decide),edge_5888,agreed_edge]
    decide
  refine ⟨?_,by omega,by decide,.inl rfl⟩
  rw [walk_agrees (Nat.le_refl _),here]
  decide +kernel

theorem stalled_turn (held : Stalled t s i) (within : t < lastValue) :
    ∃ i, Stalled (t+1) (placeTurn s) i := by
  obtain ⟨rfl,small,ahead,late⟩ := held
  have bounds : wrapped + 255*2^23 = lastValue ∧ lastValue < 2^64 := by decide
  have word : (BitVec.ofNat 64 (t+1)).toNat = t+1 := by
    rw [BitVec.toNat_ofNat,Nat.mod_eq_of_lt (by omega)]
  by_cases past : wrapped + i*2^23 < t+1
  · have inside : i < 255 := by
      by_contra full
      have last : i = 255 := by omega
      subst last
      omega
    refine ⟨i+1,?_,by omega,by omega,.inr (by omega)⟩
    have behind : (stalledAt t i).loc.signExtend 64 < (stalledAt t i).T + 1 := by
      rw [BitVec.lt_def,stalled_loc small,stalledAt,word_succ,word]; exact past
    rw [turn_enters behind,← stalled_enter t inside,← word_succ]
    rfl
  · refine ⟨i,?_,small,by omega,by omega⟩
    have stay : ¬ (stalledAt t i).loc.signExtend 64 < (stalledAt t i).T + 1 := by
      rw [BitVec.lt_def,stalled_loc small,stalledAt,word_succ,word]; exact past
    rw [turn_stays stay]
    simp only [stalledAt,word_succ]

theorem walk_stalls (late : lastAgreed ≤ t) (within : t ≤ lastValue) :
    ∃ i, Stalled t (placeTurn^[t] .start) i := by
  induction t, late using Nat.le_induction with
  | base => exact ⟨0,stalled_start⟩
  | succ t late ih =>
    obtain ⟨i,held⟩ := ih (by omega)
    rw [Function.iterate_succ_apply']
    exact stalled_turn held (by omega)

def Agrees (t : Nat) (s : Place) : Prop :=
  domainValueToIndex (BitVec.ofNat 64 t) = some (s.dT.signExtend 64) ∧
    (1 ≤ s.dT.toNat → s.step.toNat = {v : U64 | domainValueToIndex v = some (s.dT.signExtend 64)}.ncard)

theorem index_count (small : j+1 ≤ 5889) :
    {v : U64 | domainValueToIndex v = some (BitVec.ofNat 64 (j+1))}.ncard = Buckets.size 256 j := by
  have top : Buckets.edge 256 (j+1) ≤ lastAgreed := by rw [← agreed_edge]; exact edge_mono small
  have fits : lastAgreed ≤ lastValue ∧ lastValue < 2^64 := by decide
  have image : BitVec.toNat '' {v : U64 | domainValueToIndex v = some (BitVec.ofNat 64 (j+1))} =
      (Finset.Ioc (Buckets.edge 256 j) (Buckets.edge 256 (j+1)) : Set Nat) := by
    rw [← Buckets.bucket_fiber (by decide)]
    ext v
    constructor
    · rintro ⟨v,placed,rfl⟩
      have same := (index_some v placed).2
      rw [BitVec.toNat_ofNat,Nat.mod_eq_of_lt (by omega)] at same
      exact same.symm
    · intro placed
      have upper := (Buckets.bucket_eq_succ (by decide)).mp placed
      have word : (BitVec.ofNat 64 v).toNat = v := by
        rw [BitVec.toNat_ofNat,Nat.mod_eq_of_lt (by omega)]
      refine ⟨BitVec.ofNat 64 v,?_,word⟩
      have exact_ := index_exact (BitVec.ofNat 64 v) (by omega)
      rw [word,placed] at exact_
      exact exact_
  rw [← Buckets.fiber_card (by decide),← Set.ncard_coe_finset,← image,
    Set.ncard_image_of_injective _ fun _ _ => BitVec.eq_of_toNat_eq]

theorem agrees_early (early : t ≤ lastAgreed) : Agrees t (placeAt t (Buckets.bucket 256 t)) := by
  have small := bucket_agreed early
  have fits : lastAgreed ≤ lastValue ∧ lastValue < 2^64 := by decide
  have word : (BitVec.ofNat 64 t).toNat = t := by rw [BitVec.toNat_ofNat,Nat.mod_eq_of_lt (by omega)]
  have index : (placeAt t (Buckets.bucket 256 t)).dT.signExtend 64 = BitVec.ofNat 64 (Buckets.bucket 256 t) :=
    sign_extend_small (by omega)
  refine ⟨?_,fun positive => ?_⟩
  · rw [index,index_exact _ (by omega),word]
  · rw [index]
    cases at_ : Buckets.bucket 256 t with
    | zero => rw [at_] at positive; simp [placeAt] at positive
    | succ j =>
      rw [at_] at small
      rw [index_count small]
      have width : Buckets.size 256 j ≤ 2^23 := Nat.pow_le_pow_right (by decide) (by omega)
      have step : (placeAt t (j+1)).step = BitVec.ofNat 64 (Buckets.size 256 j) := rfl
      rw [step,BitVec.toNat_ofNat,Nat.mod_eq_of_lt (by omega)]

theorem differs_late (held : Stalled t s i) (late : lastAgreed < t) :
    (s.dT.signExtend 64).toNat ≠ Buckets.bucket 256 t := by
  obtain ⟨rfl,small,ahead,reached⟩ := held
  have index : ((stalledAt t i).dT.signExtend 64).toNat = 5889+i := by
    rw [stalledAt,sign_extend_small (by omega),BitVec.toNat_ofNat,Nat.mod_eq_of_lt (by omega)]
  rw [index]
  rcases reached with rfl | passed
  · have larger : 5889 < Buckets.bucket 256 t := bucket_after (by rw [agreed_edge]; exact late)
    omega
  · have low : Buckets.edge 256 6144 < wrapped := by decide +kernel
    have larger : 6144 < Buckets.bucket 256 t := bucket_after (by omega)
    omega

theorem walk_agrees_iff (within : t < 2^64) :
    Agrees t (placeTurn^[t] .start) ↔ t ≤ lastAgreed := by
  constructor
  · rintro ⟨placed,_⟩
    by_contra late
    obtain ⟨fits,same⟩ := index_some _ placed
    rw [BitVec.toNat_ofNat,Nat.mod_eq_of_lt within] at fits same
    obtain ⟨i,held⟩ := walk_stalls (by omega) fits
    exact differs_late held (by omega) same
  · intro early
    rw [walk_agrees early]
    exact agrees_early early

section
variable {F : Type} [NatCast F] [Zero F] [One F] [Add F] [Sub F] [Mul F] [Div F]
  [LT F] [LE F] [DecidableLT F] [DecidableLE F] {a : AetCtrl} {dom : Int} {n : U64} {p : Process F}

-- Whatever the histogram and however the tool's `double`s round, encoder and
-- decoder agree on a reuse time the loop reaches exactly up to the last edge
-- that fits the tool's 32-bit `loc` and one bucket further.
theorem process_agrees_iff (ran : Run.run (aetProcess a dom n) (Process.start (F:=F)) acts = some p)
    (within : turns acts ≤ n.toNat) : Agrees (turns acts) p.place ↔ turns acts ≤ lastAgreed := by
  rw [run_place ran]
  exact walk_agrees_iff (lt_of_le_of_lt within n.isLt)

end

-- One page seen twice, at reuse time 1, among 2^44 further references. Every
-- value the loop stores on it is a multiple of 2^-36 below 2, so the rationals
-- here are the very numbers a `double` holds.
def sparse : AetCtrl :=
  {zeroed with nodeCount := fun _ => 1,totRef := fun _ => 1,aetHist := fun _ b => if b = 1 then 1 else 0}

def sparseRefs : U64 := BitVec.ofNat 64 (2^44+256)

def sparseMass : ℚ := 1 + 1/2^36

theorem sparse_mass : totalMass sparse 0 sparseRefs = sparseMass := by
  have others : (sparseRefs - 1 * stepPages).toNat = 2^44 := by decide
  have pages : (1 * stepPages).toNat = 256 := by decide
  have one : (1 : U64).toNat = 1 := by decide
  simp only [totalMass,sparse,others,pages,one,sparseMass]
  norm_num

def sparseAt (k : Nat) : Process ℚ :=
  ⟨2,placeTurn^[k+1] .start,sparseMass + k*(1/2^36),1,[]⟩

theorem turns_time (t : Nat) : (placeTurn^[t] .start).T = BitVec.ofNat 64 t := by
  induction t with
  | zero => rfl
  | succ t ih =>
    have time : ∀ s, (placeTurn s).T = s.T+1 := by
      intro s
      simp only [placeTurn]
      split <;> rfl
    rw [Function.iterate_succ_apply',time,ih,word_succ]

theorem turns_index (early : t ≤ lastAgreed+1) :
    ∃ j, (placeTurn^[t] .start).dT = BitVec.ofNat 32 j ∧ j ≤ 6144 ∧ (2 ≤ t → 2 ≤ j) := by
  rcases Nat.lt_or_eq_of_le early with early | rfl
  · refine ⟨Buckets.bucket 256 t,by rw [walk_agrees (by omega)]; rfl,?_,fun two => ?_⟩
    · have small := bucket_agreed (show t ≤ lastAgreed by omega)
      omega
    · exact bucket_after (by rw [show Buckets.edge 256 1 = 1 by decide]; omega)
  · obtain ⟨i,held⟩ := walk_stalls (t:=lastAgreed+1) (by omega) (by decide)
    exact ⟨5889+i,by rw [held.place]; rfl,by have := held.small; omega,fun _ => by omega⟩

theorem turns_in_hist (early : t ≤ lastAgreed+1) : inHist (placeTurn^[t] .start) = true := by
  obtain ⟨j,index,small,_⟩ := turns_index early
  have value : (BitVec.ofNat 32 j).toInt = j := by
    rw [BitVec.toInt_eq_toNat_of_msb (msb_small (by omega)),BitVec.toNat_ofNat,Nat.mod_eq_of_lt (by omega)]
  have limit : (BitVec.ofNat 32 maxPageNum).toInt = 50000 := by decide
  rw [inHist,index,BitVec.slt,value,limit,decide_eq_true_iff]
  omega

theorem sparse_first :
    Run.run (aetProcess sparse 0 sparseRefs) Process.start [.turn,.next] = some (sparseAt 0) := by
  have opened : ∀ c s, c = 1 → inHist s = true → ∀ tot sum,
      running (F:=ℚ) ⟨c,s,tot,sum,[]⟩ = true := by
    rintro _ s rfl inside tot sum
    simp [running,inside,lastCache]
  have opens : whileGo sparseRefs sparseMass Process.start = true := by
    norm_num [whileGo,Process.start,Place.start,sparseMass,sparseRefs]
    decide
  have first : whileTurn (sparse.aetHist 0) sparseMass Process.start =
      ⟨1,placeTurn .start,sparseMass,1,[]⟩ := by
    have place : placeTurn .start = ⟨1,1,1,1,1⟩ := by decide
    have inside : inHist ⟨1,1,1,1,1⟩ = true := by decide
    simp only [whileTurn,Process.start,place,inside,if_true]
    simp [sparse]
  have closes : whileGo sparseRefs sparseMass ⟨1,placeTurn .start,sparseMass,1,[]⟩ = false := by
    have unit : sparseMass/sparseMass = 1 := div_self (by norm_num [sparseMass])
    simp [whileGo,unit]
  have start := opened 1 .start rfl (by decide) 0 0
  have after := opened 1 (placeTurn .start) rfl (by decide) sparseMass 1
  rw [Process.start] at opens first ⊢
  simp only [Run.run_cons,Run.run_nil,aetProcess,sparse_mass,start,opens,Bool.and_self,if_true,first,
    Option.bind_some,after,closes,Bool.not_false]
  simp [forTurn,sparseAt]

theorem sparse_go (early : k < lastAgreed) : whileGo sparseRefs sparseMass (sparseAt k) = true := by
  have time : (sparseAt k).place.T ≤ sparseRefs := by
    rw [sparseAt,turns_time,BitVec.le_def,BitVec.toNat_ofNat,sparseRefs,BitVec.toNat_ofNat]
    rw [lastAgreed] at early
    omega
  have small : (k : ℚ) ≤ 2^32 := by
    have bound : k ≤ 2^32 := by rw [lastAgreed] at early; omega
    exact_mod_cast bound
  have mass : (sparseAt k).tot/sparseMass < ((sparseAt k).c.toNat : ℚ) := by
    have two : ((sparseAt k).c.toNat : ℚ) = 2 := by simp [sparseAt]
    rw [two,div_lt_iff₀ (by norm_num [sparseMass])]
    simp only [sparseAt,sparseMass]
    linarith
  have left : (sparseAt k).sum < sparseMass := by norm_num [sparseAt,sparseMass]
  simp [whileGo,time,mass,left]

theorem sparse_turn (early : k < lastAgreed) :
    aetProcess sparse 0 sparseRefs (sparseAt k) .turn = some (sparseAt (k+1)) := by
  have open_ : running (sparseAt k) = true := by
    have inside : inHist (sparseAt k).place = true := turns_in_hist (by omega)
    have first : (sparseAt k).c ≤ lastCache := show (2 : U64) ≤ lastCache by decide
    simp [running,inside,first]
  obtain ⟨j,index,small,later⟩ := turns_index (show k+2 ≤ lastAgreed+1 by omega)
  have empty : sparse.aetHist 0 (placeTurn^[k+2] .start).dT.toNat = 0 := by
    rw [index,BitVec.toNat_ofNat,Nat.mod_eq_of_lt (by omega)]
    have other : j ≠ 1 := by have := later (by omega); omega
    simp [sparse,other]
  have inside : inHist (placeTurn^[k+2] .start) = true := turns_in_hist (by omega)
  have place : placeTurn (sparseAt k).place = placeTurn^[k+2] .start := by
    rw [sparseAt,← Function.iterate_succ_apply' placeTurn]
  simp only [aetProcess,sparse_mass,open_,sparse_go early,Bool.and_self,if_true,whileTurn,place,inside,empty]
  simp [sparseAt,sparseMass]
  ring

theorem sparse_run (early : k ≤ lastAgreed) :
    Run.run (aetProcess sparse 0 sparseRefs) Process.start (.turn :: .next :: List.replicate k .turn) =
      some (sparseAt k) := by
  induction k with
  | zero => exact sparse_first
  | succ k ih =>
    rw [List.replicate_succ',← List.cons_append,← List.cons_append,Run.run_append,ih (by omega)]
    simp [sparse_turn early]

theorem process_agrees_iff_sparse : Agrees 1 (sparseAt 0).place :=
  (process_agrees_iff sparse_first (by decide)).mpr (by decide)

theorem wrapped_loc_disagrees :
    ∃ acts p, Run.run (aetProcess (F:=ℚ) sparse 0 sparseRefs) Process.start acts = some p ∧
      turns acts = 2155872001 ∧ turns acts ≤ sparseRefs.toNat ∧ ¬ Agrees (turns acts) p.place := by
  have count : turns (.turn :: .next :: List.replicate lastAgreed .turn) = lastAgreed+1 := by
    simp [turns]
  refine ⟨_,_,sparse_run (Nat.le_refl _),count,by rw [count]; decide,?_⟩
  rw [count,sparseAt,walk_agrees_iff (by decide)]
  decide

end XenAet.AetProcess
