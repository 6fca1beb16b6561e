import Mathlib.Algebra.Group.Nat.Defs
import XenAet.Library.Run

namespace XenAet.LowMemVirq
open Library

def pageShift : Nat := 12
def defaultLowMemVirq : Nat := 64 * 2^20
def maxLowMemVirq : Nat := 1024 * 2^20
def ulongMax : Nat := 2^64 - 1

-- `1UL << k`
def shl (k : Nat) : Nat := 2^(k % 64)

structure State where
  high : Nat
  th : Nat
  orig : Nat
  thOrder : Nat
  deriving DecidableEq,Repr

def initial : State := ⟨ulongMax,0,0,0⟩

def halvings : Nat → Nat → Nat
  | 0,_ => 0
  | fuel+1,n => if n = 0 then 0 else halvings fuel (n/2) + 1

-- A word is zero after 64 shifts.
def getOrderFromPages (nrPages : Nat) : Nat := halvings 64 ((nrPages + ulongMax) % 2^64)

def setupLowMemVirq (optLowMemVirq totalAvailPages : Nat) : State :=
  if optLowMemVirq = 0 then {initial with th := ulongMax}
  else
    let halve := optLowMemVirq == ulongMax
    let avail := totalAvailPages * 2^pageShift % 2^64
    let threshold := if halve then defaultLowMemVirq else optLowMemVirq
    let threshold := min (min threshold avail) maxLowMemVirq
    let threshold := if halve && threshold == avail then threshold / 2 else threshold
    let th := max threshold (2^pageShift) / 2^pageShift
    let order := getOrderFromPages th
    let order := if th < shl order then order - 1 else order
    {initial with th := shl order,orig := shl order,thOrder := order}

-- With whether the VIRQ was sent.
def checkLowMemVirq (s : State) (availPages : Nat) : Bool × State :=
  if availPages ≤ s.th then
    let order := if 0 < s.thOrder then s.thOrder - 1 else s.thOrder
    (true,{s with high := shl (s.thOrder + 1),thOrder := order,th := shl order})
  else if s.high ≤ availPages then
    let order := s.thOrder + 1
    (false,{s with high := if shl order = s.orig then ulongMax else shl (order + 2),thOrder := order,th := shl order})
  else (false,s)

def step (s : State) (availPages : Nat) : Option State := some (checkLowMemVirq s availPages).2

structure Ordered (s : State) : Prop where
  power : s.th = 2^s.thOrder
  below : s.th < s.high
  most : s.th ≤ s.orig

-- The threshold is not brought up from where it was set at first.
def Settled (s : State) (availPages : Nat) : Prop := ¬(s.th < availPages ∧ s.high ≤ availPages ∧ s.th = s.orig)

instance (s : State) (availPages : Nat) : Decidable (Settled s availPages) := inferInstanceAs (Decidable (¬_))

-- `k` is the order of the threshold that was set at first.
structure Inv (k : Nat) (s : State) : Prop where
  small : k ≤ 18
  orig : s.orig = 2^k
  order : s.thOrder ≤ k
  power : s.th = 2^s.thOrder
  below : s.th < s.high

variable {s next : State} {k avail : Nat}

theorem Inv.ordered (inv : Inv k s) : Ordered s := by
  refine ⟨inv.power,inv.below,?_⟩
  rw [inv.power,inv.orig]
  exact Nat.pow_le_pow_right (by decide) inv.order

theorem shl_small (small : k < 64) : shl k = 2^k := by rw [shl,Nat.mod_eq_of_lt small]

theorem halvings_le (fuel : Nat) (bound : n < 2^k) : halvings fuel n ≤ k := by
  induction fuel generalizing n k with
  | zero => exact Nat.zero_le k
  | succ fuel ih =>
    unfold halvings
    split
    · exact Nat.zero_le k
    · cases k with
      | zero => omega
      | succ k =>
        have half : n / 2 < 2^k := by
          rw [Nat.pow_succ] at bound
          omega
        exact Nat.succ_le_succ (ih half)

theorem setup_inv (limit total : Nat) (nonzero : limit ≠ 0) : ∃ k, Inv k (setupLowMemVirq limit total) := by
  unfold setupLowMemVirq
  rw [if_neg nonzero]
  extract_lets halve avail threshold capped halved th order rounded
  have pages : 1 ≤ th ∧ th ≤ 2^18 := by
    have cap : halved ≤ maxLowMemVirq := by
      simp only [halved]
      split <;> simp only [capped] <;> omega
    simp only [th]
    simp only [maxLowMemVirq,pageShift] at cap ⊢
    omega
  have least : order ≤ 18 := by
    refine halvings_le _ ?_
    simp only [ulongMax]
    omega
  have small : rounded ≤ 18 := by
    simp only [rounded]
    split <;> omega
  clear_value rounded
  have value : shl rounded = 2^rounded := shl_small (by omega)
  refine ⟨rounded,small,value,Nat.le_refl rounded,value,?_⟩
  dsimp only [initial]
  rw [value]
  exact Nat.lt_of_le_of_lt (Nat.pow_le_pow_right (by decide) small) (show 2^18 < ulongMax by decide)

-- Down: the threshold is two orders below the new high mark, or one where the
-- order is 0 already. Up: the order was below `k`, or the step is not settled.
theorem step_inv (inv : Inv k s) (settled : Settled s avail) (taken : step s avail = some next) : Inv k next := by
  have small := inv.small
  have order := inv.order
  cases taken
  unfold checkLowMemVirq
  split
  · have lower : (if 0 < s.thOrder then s.thOrder - 1 else s.thOrder) ≤ s.thOrder := by split <;> omega
    dsimp only
    generalize (if 0 < s.thOrder then s.thOrder - 1 else s.thOrder) = order' at lower ⊢
    refine ⟨small,inv.orig,by dsimp only; omega,shl_small (by omega),?_⟩
    dsimp only
    rw [shl_small (by omega),shl_small (by omega)]
    exact Nat.pow_lt_pow_right (by decide) (by omega)
  · next above =>
    split
    · next grown =>
      have under : s.thOrder < k := by
        by_contra full
        refine settled ⟨by omega,grown,?_⟩
        rw [inv.power,inv.orig,Nat.le_antisymm order (Nat.not_lt.mp full)]
      have value : shl (s.thOrder + 1) = 2^(s.thOrder + 1) := shl_small (by omega)
      refine ⟨small,inv.orig,under,value,?_⟩
      dsimp only
      rw [value]
      split
      · have top : 2^(s.thOrder + 1) ≤ 2^18 := Nat.pow_le_pow_right (by decide) (by omega)
        simp only [ulongMax]
        omega
      · rw [shl_small (by omega)]
        exact Nat.pow_lt_pow_right (by decide) (by omega)
    · exact inv

theorem step_needs (inv : Inv k s) (taken : step s avail = some next) (ordered : Ordered next) : Settled s avail := by
  rintro ⟨above,grown,full⟩
  have small := inv.small
  have order := inv.order
  cases taken
  have most := ordered.most
  unfold checkLowMemVirq at most
  rw [if_neg (by omega),if_pos grown] at most
  dsimp only at most
  rw [shl_small (by omega),← full,inv.power] at most
  exact absurd most (Nat.not_le.mpr (Nat.pow_lt_pow_right (by decide) (Nat.lt_succ_self _)))

-- With room below the first threshold the high mark is out of reach whenever
-- the threshold is back there.
structure Roomy (k : Nat) (s : State) : Prop extends Inv k s where
  room : 1 ≤ k
  still : s.thOrder = k → s.high = ulongMax

theorem roomy_settled (roomy : Roomy k s) (fits : avail < ulongMax) : Settled s avail := by
  rintro ⟨_,grown,full⟩
  rw [roomy.power,roomy.orig] at full
  have back := roomy.still (Nat.pow_right_injective (Nat.le_refl 2) full)
  omega

theorem step_roomy (roomy : Roomy k s) (fits : avail < ulongMax) (taken : step s avail = some next) : Roomy k next := by
  refine ⟨step_inv roomy.toInv (roomy_settled roomy fits) taken,roomy.room,?_⟩
  have room := roomy.room
  have order := roomy.order
  have small := roomy.small
  cases taken
  unfold checkLowMemVirq
  split
  · intro back
    dsimp only at back
    split at back <;> omega
  · split
    · intro back
      dsimp only at back ⊢
      rw [if_pos]
      rw [roomy.orig,back,shl_small (by omega)]
    · exact roomy.still

theorem setup_roomy (limit total : Nat) (nonzero : limit ≠ 0) (wide : 2 ≤ (setupLowMemVirq limit total).orig) :
    ∃ k, Roomy k (setupLowMemVirq limit total) := by
  obtain ⟨k,inv⟩ := setup_inv limit total nonzero
  refine ⟨k,inv,?_,fun _ => ?_⟩
  · rw [inv.orig] at wide
    cases k with
    | zero => omega
    | succ k => omega
  · unfold setupLowMemVirq
    rw [if_neg nonzero]
    rfl

-- The thresholds are in order in every state of a run just when its checks are
-- all settled, and they are when the first threshold has at least two pages.
theorem thresholds_ordered_iff (limit total : Nat) (values : List Nat) (nonzero : limit ≠ 0) :
    ((∀ first, first <+: values → ∀ s, Run.run step (setupLowMemVirq limit total) first = some s → Ordered s) ↔
      Run.Guarded Settled step (setupLowMemVirq limit total) values) ∧
    (2 ≤ (setupLowMemVirq limit total).orig → (∀ avail ∈ values, avail < ulongMax) →
      Run.Guarded Settled step (setupLowMemVirq limit total) values) := by
  obtain ⟨k,inv⟩ := setup_inv limit total nonzero
  refine ⟨Run.guarded_exact (P:=Inv k) (fun _ inv => inv.ordered) (fun s avail => ⟨_,rfl⟩)
    (fun s avail next inv settled taken => step_inv inv settled taken)
    (fun s avail next inv taken ordered => step_needs inv taken ordered) inv,?_⟩
  intro wide fit
  obtain ⟨k,roomy⟩ := setup_roomy limit total nonzero wide
  clear wide inv
  generalize setupLowMemVirq limit total = s at roomy
  induction values generalizing s with
  | nil => trivial
  | cons avail rest ih =>
    have fits := fit avail (by simp)
    exact ⟨roomy_settled roomy fits,fun next taken => ih (fun other later => fit other (by simp [later])) next (step_roomy roomy fits taken)⟩

theorem thresholds_ordered_iff_default :
    ∃ s, Run.run step (setupLowMemVirq ulongMax 0x40000) [100,0x10000] = some s ∧ Ordered s := by
  have exact_ := thresholds_ordered_iff ulongMax 0x40000 [100,0x10000] (by decide)
  have settled := exact_.2 (by decide +kernel) (by decide)
  exact ⟨_,rfl,exact_.1.mpr settled [100,0x10000] (List.prefix_refl _) _ rfl⟩

-- A limit of one page: after the clamp at order 0 the threshold passes it.
theorem one_page_limit_grows : (setupLowMemVirq 4096 1000).orig = 1 ∧
    ∃ s, Run.run step (setupLowMemVirq 4096 1000) [1,2] = some s ∧ s.orig < s.th := by
  exact ⟨by decide +kernel,_,rfl,by decide +kernel⟩

end XenAet.LowMemVirq
