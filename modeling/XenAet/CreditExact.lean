import XenAet.CreditTotals

namespace XenAet.CreditExact
open Library CreditSched CreditTotals
variable {k : Config} {s s' : State} {sdom : Dom} {p p' : Pass} {d w : Nat}

section Words

-- A quotient of a number that has wrapped is too small.
theorem mod_div_lt {x m w : Nat} (positive : 1 ≤ w) (fits : w ≤ m) (large : m ≤ x) : x % m / w < x / w := by
  have parts : x % m + m ≤ x := by
    have whole := Nat.mod_add_div x m
    have some_ : m * 1 ≤ m * (x / m) := Nat.mul_le_mul_left m ((Nat.one_le_div_iff (by omega)).mpr large)
    omega
  calc x % m / w < x % m / w + m / w := Nat.lt_add_of_pos_right (Nat.div_pos fits positive)
    _ ≤ (x % m + m) / w := Nat.div_add_div_le_add_div
    _ ≤ x / w := Nat.div_le_div_right parts

theorem mod_div_iff {x m w : Nat} (positive : 1 ≤ w) (fits : w ≤ m) : x % m / w = x / w ↔ x < m := by
  constructor
  · intro same
    by_contra large
    have less := mod_div_lt positive fits (Nat.not_lt.mp large)
    omega
  · intro small
    rw [Nat.mod_eq_of_lt small]

theorem mod_iff {x m : Nat} (positive : 0 < m) : x % m = x ↔ x < m := by
  constructor
  · intro same
    rw [← same]
    exact Nat.mod_lt x positive
  · exact Nat.mod_eq_of_lt

-- A sum with such a quotient.
theorem add_mod_div_iff {a x m w : Nat} (positive : 1 ≤ w) (fits : w ≤ m) :
    (a % m + x % m / w) % m = a + x / w ↔ x < m ∧ a + x / w < m := by
  constructor
  · intro same
    have below : a + x / w < m := by
      rw [← same]
      exact Nat.mod_lt _ (by omega)
    refine ⟨?_,below⟩
    by_contra large
    have less := mod_div_lt positive fits (Nat.not_lt.mp large)
    have first : a < m := Nat.lt_of_le_of_lt (Nat.le_add_right _ _) below
    rw [Nat.mod_eq_of_lt first,Nat.mod_eq_of_lt (Nat.lt_trans (Nat.add_lt_add_left less a) below)] at same
    exact absurd (Nat.add_left_cancel same) (Nat.ne_of_lt less)
  · rintro ⟨small,below⟩
    have first : a < m := Nat.lt_of_le_of_lt (Nat.le_add_right _ _) below
    rw [Nat.mod_eq_of_lt small,Nat.mod_eq_of_lt first,Nat.mod_eq_of_lt below]

end Words

-- `- prv->credit_balance` where that is positive.
def debt (s : State) : Nat := (-s.creditBalance).toNat

-- The expressions of `csched_acct` over the numbers. `w` is `weight_total`.
def owed (s : State) (sdom : Dom) (w : Nat) : Nat := debt s * sdom.weight * sdom.activeVcpuCount + (w - 1)

def peakSum (s : State) (sdom : Dom) (w : Nat) : Nat := sdom.activeVcpuCount * s.creditsPerTslice + owed s sdom w / w

def capOf (s : State) (sdom : Dom) : Nat := (sdom.cap * s.creditsPerTslice + 99) / 100

def peak (s : State) (sdom : Dom) (w : Nat) : Nat := if sdom.cap = 0 then peakSum s sdom w else min (peakSum s sdom w) (capOf s sdom)

def due (total : Nat) (sdom : Dom) (w : Nat) : Nat := total * sdom.weight * sdom.activeVcpuCount + (w - 1)

def fair (total : Nat) (sdom : Dom) (w : Nat) : Nat := due total sdom w / w

def surplus (p : Pass) (sdom : Dom) (w left : Nat) : Nat := (fair p.creditTotal sdom w - peak p.s sdom w) * w + (left - 1)

def extra (p : Pass) (sdom : Dom) (w left : Nat) : Nat := surplus p sdom w left / left

def left (p : Pass) (sdom : Dom) : Nat := p.weightLeft - sdom.weight * sdom.activeVcpuCount

-- The same as the code computes them, in words of 32 bits.
def peakSum32 (s : State) (sdom : Dom) (w : Nat) : Nat :=
  let peak := u32 (sdom.activeVcpuCount * s.creditsPerTslice)
  if s.creditBalance < 0 then u32 (peak + u32 (-s.creditBalance * sdom.weight * sdom.activeVcpuCount + (w - 1)) / w) else peak

def capOf32 (s : State) (sdom : Dom) : Nat := u32 (u32 (sdom.cap * s.creditsPerTslice) + 99) / 100

def peak32 (s : State) (sdom : Dom) (w : Nat) : Nat :=
  if sdom.cap = 0 then peakSum32 s sdom w else min (peakSum32 s sdom w) (capOf32 s sdom)

def fair32 (total : Nat) (sdom : Dom) (w : Nat) : Nat := u32 (total * sdom.weight * sdom.activeVcpuCount + (w - 1)) / w

def extra32 (p : Pass) (sdom : Dom) (w left : Nat) : Nat :=
  u32 ((fair32 p.creditTotal sdom w - peak32 p.s sdom w) * w + (left - 1)) / left

def total32 (p : Pass) (sdom : Dom) (w : Nat) : Nat :=
  if ¬fair32 p.creditTotal sdom w < peak32 p.s sdom w ∧ left p sdom ≠ 0 then u32 (p.creditTotal + extra32 p sdom w (left p sdom)) else p.creditTotal

theorem creditPeak_fst (s : State) (sdom : Dom) (w cap : Nat) : (creditPeak s sdom w cap).1 = peak32 s sdom w := by
  unfold creditPeak peak32
  dsimp only
  split
  · rfl
  · rfl

-- The checks that a domain passes before anything is computed for it.
structure Passes (p : Pass) (sdom : Dom) : Prop where
  active : sdom.activeVcpuCount ≠ 0
  weight : sdom.weight ≠ 0
  room : sdom.weight * sdom.activeVcpuCount ≤ p.weightLeft

structure Exact (w : Nat) (p : Pass) (sdom : Dom) : Prop where
  sums : peakSum32 p.s sdom w = peakSum p.s sdom w
  peaks : peak32 p.s sdom w = peak p.s sdom w
  fairs : fair32 p.creditTotal sdom w = fair p.creditTotal sdom w
  given : peak p.s sdom w ≤ fair p.creditTotal sdom w → left p sdom ≠ 0 →
    extra32 p sdom w (left p sdom) = extra p sdom w (left p sdom) ∧ total32 p sdom w = p.creditTotal + extra p sdom w (left p sdom)

structure Fits (w : Nat) (p : Pass) (sdom : Dom) : Prop where
  debts : owed p.s sdom w < 2^32
  sums : peakSum p.s sdom w < 2^32
  dues : due p.creditTotal sdom w < 2^32
  given : peak p.s sdom w ≤ fair p.creditTotal sdom w → left p sdom ≠ 0 →
    surplus p sdom w (left p sdom) < 2^32 ∧ p.creditTotal + extra p sdom w (left p sdom) < 2^32

-- What the words of the scheduler can hold at all.
structure Words (s : State) : Prop where
  credits : s.creditsPerTslice ≤ schedCreditsPerMsec * tsliceMax
  caps : ∀ d, (s.dom d).cap < 2^16
  weight : s.weight < 2^32
  credit : s.credit < 2^32

theorem debt_eq (negative : s.creditBalance < 0) : -s.creditBalance = debt s := by
  rw [debt]
  omega

theorem peakSum32_eq (s : State) (sdom : Dom) (positive : 1 ≤ w) :
    peakSum32 s sdom w = if s.creditBalance < 0 then (sdom.activeVcpuCount * s.creditsPerTslice % 2^32 + owed s sdom w % 2^32 / w) % 2^32
      else sdom.activeVcpuCount * s.creditsPerTslice % 2^32 := by
  have first : u32 (sdom.activeVcpuCount * s.creditsPerTslice) = sdom.activeVcpuCount * s.creditsPerTslice % 2^32 := by
    rw [← Int.natCast_mul,u32_nat]
  unfold peakSum32
  dsimp only
  rw [first]
  split
  · next negative =>
    have debts : -s.creditBalance * sdom.weight * sdom.activeVcpuCount + (w - 1) = (owed s sdom w : Nat) := by
      rw [debt_eq negative,owed]
      push_cast [positive]
      rfl
    rw [debts,u32_nat,← Int.natCast_ediv,← Int.natCast_add,u32_nat]
  · rfl

theorem peakSum32_iff (s : State) (sdom : Dom) (positive : 1 ≤ w) (small : w < 2^32) :
    peakSum32 s sdom w = peakSum s sdom w ↔ owed s sdom w < 2^32 ∧ peakSum s sdom w < 2^32 := by
  rw [peakSum32_eq s sdom positive,peakSum]
  split
  · exact add_mod_div_iff positive small.le
  · next credited =>
    have none_ : debt s = 0 := by
      rw [debt]
      omega
    have nothing : owed s sdom w = w - 1 := by rw [owed,none_,Nat.zero_mul,Nat.zero_mul,Nat.zero_add]
    have zero : (w - 1) / w = 0 := Nat.div_eq_of_lt (by omega)
    rw [nothing,zero,Nat.add_zero,mod_iff (by decide)]
    exact ⟨fun below => ⟨by omega,below⟩,fun both => both.2⟩

theorem capOf32_eq (words : Words s) (d : Nat) : capOf32 s (s.dom d) = capOf s (s.dom d) := by
  have below : (s.dom d).cap * s.creditsPerTslice ≤ (2^16 - 1) * (schedCreditsPerMsec * tsliceMax) :=
    Nat.mul_le_mul (Nat.le_pred_of_lt (words.caps d)) words.credits
  have limit : (2^16 - 1) * (schedCreditsPerMsec * tsliceMax) + 99 < 2^32 := by decide
  rw [capOf32,← Int.natCast_mul,u32_nat,Nat.mod_eq_of_lt (by omega)]
  change u32 (((s.dom d).cap * s.creditsPerTslice : Nat) + (99 : Nat)) / 100 = _
  rw [← Int.natCast_add,u32_nat,Nat.mod_eq_of_lt (by omega),capOf]

theorem peak32_eq (words : Words s) (d : Nat) (same : peakSum32 s (s.dom d) w = peakSum s (s.dom d) w) :
    peak32 s (s.dom d) w = peak s (s.dom d) w := by
  rw [peak32,peak,same,capOf32_eq words d]

theorem fair32_iff (total : Nat) (sdom : Dom) (positive : 1 ≤ w) (small : w < 2^32) :
    fair32 total sdom w = fair total sdom w ↔ due total sdom w < 2^32 := by
  have dues : (total * sdom.weight * sdom.activeVcpuCount + (w - 1) : Int) = (due total sdom w : Nat) := by
    rw [due]
    push_cast [positive]
    rfl
  rw [fair32,dues,u32_nat,fair]
  exact mod_div_iff positive small.le

theorem extra32_eq (p : Pass) (sdom : Dom) {left : Nat} (positive : 1 ≤ left) (peaks : peak32 p.s sdom w = peak p.s sdom w)
    (fairs : fair32 p.creditTotal sdom w = fair p.creditTotal sdom w) (enough : peak p.s sdom w ≤ fair p.creditTotal sdom w) :
    extra32 p sdom w left = surplus p sdom w left % 2^32 / left := by
  have surpluses : ((fair p.creditTotal sdom w : Int) - peak p.s sdom w) * w + (left - 1) = (surplus p sdom w left : Nat) := by
    rw [surplus]
    push_cast [positive,enough]
    rfl
  rw [extra32,peaks,fairs,surpluses,u32_nat]

theorem total32_given {p : Pass} {sdom : Dom} (peaks : peak32 p.s sdom w = peak p.s sdom w)
    (fairs : fair32 p.creditTotal sdom w = fair p.creditTotal sdom w) (enough : peak p.s sdom w ≤ fair p.creditTotal sdom w)
    (some_ : left p sdom ≠ 0) : total32 p sdom w = (p.creditTotal + extra32 p sdom w (left p sdom)) % 2^32 := by
  rw [total32,peaks,fairs,if_pos ⟨Nat.not_lt.mpr enough,some_⟩,← Int.natCast_add,u32_nat]

-- Nothing wraps if and only if everything is as over the numbers.
theorem exact_iff (words : Words p.s) (positive : 1 ≤ w) (small : w < 2^32) (room : p.weightLeft ≤ w) :
    Exact w p (p.s.dom d) ↔ Fits w p (p.s.dom d) := by
  have below : left p (p.s.dom d) ≤ 2^32 := Nat.le_trans (Nat.sub_le _ _) (by omega)
  constructor
  · intro is
    obtain ⟨debts,sums⟩ := (peakSum32_iff p.s (p.s.dom d) positive small).mp is.sums
    refine ⟨debts,sums,(fair32_iff _ _ positive small).mp is.fairs,?_⟩
    intro enough some_
    obtain ⟨extras,totals⟩ := is.given enough some_
    rw [total32_given is.peaks is.fairs enough some_,extras,mod_iff (by decide)] at totals
    refine ⟨?_,totals⟩
    rw [extra32_eq p _ (Nat.pos_of_ne_zero some_) is.peaks is.fairs enough] at extras
    exact (mod_div_iff (Nat.pos_of_ne_zero some_) below).mp extras
  · intro fits
    have sums := (peakSum32_iff p.s (p.s.dom d) positive small).mpr ⟨fits.debts,fits.sums⟩
    have peaks := peak32_eq words d sums
    have fairs := (fair32_iff _ _ positive small).mpr fits.dues
    refine ⟨sums,peaks,fairs,?_⟩
    intro enough some_
    obtain ⟨surpluses,totals⟩ := fits.given enough some_
    have extras : extra32 p (p.s.dom d) w (left p (p.s.dom d)) = extra p (p.s.dom d) w (left p (p.s.dom d)) := by
      rw [extra32_eq p _ (Nat.pos_of_ne_zero some_) peaks fairs enough]
      exact (mod_div_iff (Nat.pos_of_ne_zero some_) below).mpr surpluses
    refine ⟨extras,?_⟩
    rw [total32_given peaks fairs enough some_,extras,Nat.mod_eq_of_lt totals]

-- What the loops of the accounting leave alone, and that the weight only falls.
structure Kept (s s' : State) : Prop where
  credits : s'.creditsPerTslice = s.creditsPerTslice
  credit : s'.credit = s.credit
  balance : s'.creditBalance = s.creditBalance
  weight : s'.weight ≤ s.weight
  caps : ∀ d, (s'.dom d).cap = (s.dom d).cap

theorem Kept.refl (s : State) : Kept s s := ⟨rfl,rfl,rfl,Nat.le_refl _,fun _ => rfl⟩

theorem Kept.trans {s'' : State} (first : Kept s s') (second : Kept s' s'') : Kept s s'' :=
  ⟨second.credits.trans first.credits,second.credit.trans first.credit,second.balance.trans first.balance,
    Nat.le_trans second.weight first.weight,fun d => (second.caps d).trans (first.caps d)⟩

theorem Kept.words (kept : Kept s s') (words : Words s) : Words s' :=
  ⟨by rw [kept.credits]; exact words.credits,fun d => by rw [kept.caps]; exact words.caps d,Nat.lt_of_le_of_lt kept.weight words.weight,
    by rw [kept.credit]; exact words.credit⟩

theorem Kept.debt (kept : Kept s s') : debt s' = debt s := by rw [CreditExact.debt,CreditExact.debt,kept.balance]

-- A change of one domain that is not one of its cap.
theorem caps_update {doms : Nat → Dom} {sdom : Dom} (same : sdom.cap = (doms d).cap) (x : Nat) :
    (Function.update doms d sdom x).cap = (doms x).cap := by
  by_cases here : x = d
  · subst here
    rw [Function.update_self,same]
  · rw [Function.update_of_ne here]

theorem stop_kept {v : Nat} (stopped : vcpuAcctStopLocked k v s = some s') : Kept s s' := by
  unfold vcpuAcctStopLocked at stopped
  dsimp only at stopped
  split at stopped
  · cases stopped
  · split at stopped
    · cases stopped
    · cases stopped
      exact ⟨rfl,rfl,rfl,Nat.sub_le _ _,caps_update rfl⟩

theorem setVcpu_kept (s : State) (v : Nat) (svc : Vcpu) : Kept s (setVcpu s v svc) := ⟨rfl,rfl,rfl,Nat.le_refl _,fun _ => rfl⟩

theorem acctVcpu_kept {fair cap v : Nat} {q q' : State × Int} (taken : acctVcpu k d fair cap q v = some q') : Kept q.1 q'.1 := by
  unfold acctVcpu at taken
  dsimp only at taken
  split at taken
  · cases taken
  · split at taken
    · cases taken
      exact setVcpu_kept _ _ _
    · split at taken
      · obtain ⟨s,stopped,rfl⟩ := Option.map_eq_some_iff.mp taken
        exact (stop_kept stopped).trans (setVcpu_kept _ _ _)
      · cases taken
        exact setVcpu_kept _ _ _

theorem acctVcpus_kept {fair cap : Nat} {q q' : State × Int} {vcpus : List Nat} (ran : Run.run (acctVcpu k d fair cap) q vcpus = some q') :
    Kept q.1 q'.1 := by
  refine Run.run_history (P:=fun _ r => Kept q.1 r.1) (fun past r v next kept taken => ?_) (Kept.refl _) ran
  exact kept.trans (acctVcpu_kept taken)

-- What a step of the loop over the domains asks for and what it does.
theorem acctDom_taken (taken : acctDom k w p d = some p') :
    Passes p (p.s.dom d) ∧ p'.creditTotal = total32 p (p.s.dom d) w ∧ p'.weightLeft = left p (p.s.dom d) ∧ Kept p.s p'.s := by
  unfold acctDom at taken
  dsimp only at taken
  split at taken
  · cases taken
  · split at taken
    · cases taken
    · next active =>
      split at taken
      · cases taken
      · next weight =>
        split at taken
        · cases taken
        · next room =>
          obtain ⟨⟨s,balance⟩,ran,rfl⟩ := Option.map_eq_some_iff.mp taken
          refine ⟨⟨active,weight,Nat.not_lt.mp room⟩,?_,rfl,Kept.trans ?_ (acctVcpus_kept ran)⟩
          · dsimp only
            rw [creditPeak_fst]
            rfl
          · dsimp only
            split
            · exact ⟨rfl,rfl,rfl,Nat.le_refl _,fun _ => rfl⟩
            · exact Kept.refl _

def startTotal (s : State) : Nat := if s.creditBalance < 0 then u32 (s.credit - s.creditBalance) else s.credit

def firstPass (s : State) : Pass := ⟨s,startTotal s,s.weight,false,0,0⟩

theorem acct_loop (some_ : s.weight ≠ 0) : acct k s =
    (Run.run (acctDom k s.weight) (firstPass s) s.activeSdom).map fun p => {p.s with creditBalance := p.creditBalance} := by
  rw [acct]
  exact if_neg some_

def ExactAt (w : Nat) (p : Pass) (d : Nat) : Prop := Passes p (p.s.dom d) → Exact w p (p.s.dom d)

def FitsAt (w : Nat) (p : Pass) (d : Nat) : Prop := Passes p (p.s.dom d) → Fits w p (p.s.dom d)

-- All that one accounting computes is as over the numbers.
structure AllExact (k : Config) (s : State) : Prop where
  start : startTotal s = s.credit + debt s
  loop : Run.Guarded (ExactAt s.weight) (acctDom k s.weight) (firstPass s) s.activeSdom

structure AllFit (k : Config) (s : State) : Prop where
  start : s.credit + debt s < 2^32
  loop : Run.Guarded (FitsAt s.weight) (acctDom k s.weight) (firstPass s) s.activeSdom

theorem startTotal_iff (words : Words s) : startTotal s = s.credit + debt s ↔ s.credit + debt s < 2^32 := by
  rw [startTotal]
  split
  · next negative =>
    have sum : (s.credit : Int) - s.creditBalance = (s.credit + debt s : Nat) := by
      have owed := debt_eq negative
      push_cast
      omega
    rw [sum,u32_nat]
    exact mod_iff (by decide)
  · next credited =>
    have none_ : debt s = 0 := by
      rw [debt]
      omega
    rw [none_,Nat.add_zero]
    exact iff_of_true rfl words.credit

theorem allExact_iff (words : Words s) (some_ : s.weight ≠ 0) : AllExact k s ↔ AllFit k s := by
  have loops : Run.Guarded (ExactAt s.weight) (acctDom k s.weight) (firstPass s) s.activeSdom ↔
      Run.Guarded (FitsAt s.weight) (acctDom k s.weight) (firstPass s) s.activeSdom := by
    apply Run.guarded_congr (P:=fun p => Words p.s ∧ p.weightLeft ≤ s.weight)
    · intro p d inv
      exact imp_congr_right fun _ => exact_iff inv.1 (Nat.pos_of_ne_zero some_) words.weight inv.2
    · intro p d next inv taken
      obtain ⟨_,_,weightLeft,kept⟩ := acctDom_taken taken
      refine ⟨kept.words inv.1,?_⟩
      rw [weightLeft]
      exact Nat.le_trans (Nat.sub_le _ _) inv.2
    · exact ⟨words,Nat.le_refl _⟩
  constructor
  · intro is
    exact ⟨(startTotal_iff words).mp is.start,loops.mp is.loop⟩
  · intro fits
    exact ⟨(startTotal_iff words).mpr fits.start,loops.mpr fits.loop⟩

-- The credits left for the weight left grow by less than twice the weight of
-- all with each domain, as two quotients are rounded up.
structure Share (s : State) (p : Pass) (i : Nat) : Prop where
  kept : Kept s p.s
  room : p.weightLeft ≤ s.weight
  credits : p.creditTotal * p.weightLeft ≤ (s.credit + debt s + 2 * i) * s.weight

theorem share_dues {sdom : Dom} {i : Nat} (share : Share s p i) (passes : Passes p sdom) (some_ : s.weight ≠ 0) :
    due p.creditTotal sdom s.weight < (s.credit + debt s + 2 * i + 1) * s.weight := by
  have mine : p.creditTotal * (sdom.weight * sdom.activeVcpuCount) ≤ p.creditTotal * p.weightLeft := Nat.mul_le_mul_left _ passes.room
  have credits := share.credits
  rw [due,Nat.mul_assoc,Nat.add_mul _ 1,Nat.one_mul]
  omega

theorem share_surplus {sdom : Dom} {i : Nat} (share : Share s p i) (passes : Passes p sdom) (some_ : left p sdom ≠ 0) :
    surplus p sdom s.weight (left p sdom) + p.creditTotal * left p sdom + 2 ≤ (s.credit + debt s + 2 * (i + 1)) * s.weight := by
  have quotient : fair p.creditTotal sdom s.weight * s.weight ≤ due p.creditTotal sdom s.weight := Nat.div_mul_le_self _ _
  have less : (fair p.creditTotal sdom s.weight - peak p.s sdom s.weight) * s.weight ≤ fair p.creditTotal sdom s.weight * s.weight :=
    Nat.mul_le_mul_right _ (Nat.sub_le _ _)
  have parts : p.creditTotal * (sdom.weight * sdom.activeVcpuCount) + p.creditTotal * left p sdom = p.creditTotal * p.weightLeft := by
    rw [← Nat.mul_add,left,Nat.add_sub_cancel' passes.room]
  have below : left p sdom ≤ s.weight := Nat.le_trans (Nat.sub_le _ _) share.room
  have credits := share.credits
  have more : (s.credit + debt s + 2 * (i + 1)) * s.weight = (s.credit + debt s + 2 * i) * s.weight + (s.weight + s.weight) := by
    rw [Nat.mul_add_one,← Nat.add_assoc,Nat.add_mul,Nat.two_mul s.weight]
  rw [due,Nat.mul_assoc] at quotient
  rw [surplus,more]
  omega

theorem share_peak {sdom : Dom} {i : Nat} (share : Share s p i) (passes : Passes p sdom) (some_ : s.weight ≠ 0)
    (slice : s.creditsPerTslice ≤ s.credit) : owed p.s sdom s.weight < (debt s + 1) * s.weight ∧
      peakSum p.s sdom s.weight ≤ (s.credit + debt s) * s.weight := by
  have mine : sdom.weight * sdom.activeVcpuCount ≤ s.weight := Nat.le_trans passes.room share.room
  have debts : debt s * (sdom.weight * sdom.activeVcpuCount) ≤ debt s * s.weight := Nat.mul_le_mul_left _ mine
  have owes : owed p.s sdom s.weight < (debt s + 1) * s.weight := by
    rw [owed,share.kept.debt,Nat.mul_assoc,Nat.add_mul,Nat.one_mul]
    omega
  refine ⟨owes,?_⟩
  have quotient : owed p.s sdom s.weight / s.weight ≤ debt s := Nat.le_of_lt_succ (Nat.div_lt_of_lt_mul (by rw [Nat.mul_comm]; exact owes))
  have few : sdom.activeVcpuCount ≤ s.weight := Nat.le_trans (Nat.le_mul_of_pos_left _ (Nat.pos_of_ne_zero passes.weight)) mine
  have slices : sdom.activeVcpuCount * s.creditsPerTslice ≤ s.weight * s.credit := Nat.mul_le_mul few slice
  have whole : debt s ≤ debt s * s.weight := Nat.le_mul_of_pos_right _ (Nat.pos_of_ne_zero some_)
  rw [peakSum,share.kept.credits,Nat.add_mul,Nat.mul_comm s.credit]
  omega

theorem share_fits {sdom : Dom} {i : Nat} (share : Share s p i) (passes : Passes p sdom) (some_ : s.weight ≠ 0)
    (slice : s.creditsPerTslice ≤ s.credit) (limit : (s.credit + debt s + 2 * (i + 1)) * s.weight ≤ 2^32) : Fits s.weight p sdom := by
  obtain ⟨owes,sums⟩ := share_peak share passes some_ slice
  have within : ∀ n, n ≤ s.credit + debt s + 2 * (i + 1) → n * s.weight ≤ 2^32 := fun n low => Nat.le_trans (Nat.mul_le_mul_right _ low) limit
  have strictly : (s.credit + debt s) * s.weight < 2^32 := by
    have next := within (s.credit + debt s + 1) (by omega)
    rw [Nat.add_mul,Nat.one_mul] at next
    omega
  refine ⟨?_,?_,?_,?_⟩
  · exact Nat.lt_of_lt_of_le owes (within _ (by omega))
  · exact Nat.lt_of_le_of_lt sums strictly
  · exact Nat.lt_of_lt_of_le (share_dues share passes some_) (within _ (by omega))
  · intro enough rest
    have surpluses := share_surplus share passes rest
    have quotient : extra p sdom s.weight (left p sdom) ≤ surplus p sdom s.weight (left p sdom) := Nat.div_le_self _ _
    have whole : p.creditTotal ≤ p.creditTotal * left p sdom := Nat.le_mul_of_pos_right _ (Nat.pos_of_ne_zero rest)
    exact ⟨by omega,by omega⟩

theorem share_next {i : Nat} (share : Share s p i) (words : Words s) (some_ : s.weight ≠ 0) (fits : Fits s.weight p (p.s.dom d))
    (taken : acctDom k s.weight p d = some p') : Share s p' (i + 1) := by
  obtain ⟨passes,totals,weightLeft,kept⟩ := acctDom_taken taken
  have is := (exact_iff (share.kept.words words) (Nat.pos_of_ne_zero some_) words.weight share.room).mpr fits
  have below : left p (p.s.dom d) ≤ p.weightLeft := Nat.sub_le _ _
  refine ⟨share.kept.trans kept,?_,?_⟩
  · rw [weightLeft]
    exact Nat.le_trans below share.room
  · rw [totals,weightLeft]
    by_cases given : peak p.s (p.s.dom d) s.weight ≤ fair p.creditTotal (p.s.dom d) s.weight ∧ left p (p.s.dom d) ≠ 0
    · have surpluses := share_surplus share passes given.2
      have quotient : extra p (p.s.dom d) s.weight (left p (p.s.dom d)) * left p (p.s.dom d) ≤ surplus p (p.s.dom d) s.weight (left p (p.s.dom d)) :=
        Nat.div_mul_le_self _ _
      rw [(is.given given.1 given.2).2,Nat.add_mul]
      omega
    · have same : total32 p (p.s.dom d) s.weight = p.creditTotal := by
        rw [total32,is.peaks,is.fairs,if_neg]
        rintro ⟨enough,rest⟩
        exact given ⟨Nat.not_lt.mp enough,rest⟩
      rw [same]
      exact Nat.le_trans (Nat.mul_le_mul_left _ below) (Nat.le_trans share.credits (Nat.mul_le_mul_right _ (by omega)))

theorem loop_fits {n i : Nat} (doms : List Nat) (share : Share s p i) (words : Words s) (some_ : s.weight ≠ 0)
    (slice : s.creditsPerTslice ≤ s.credit) (limit : (s.credit + debt s + 2 * n) * s.weight ≤ 2^32) (few : i + doms.length ≤ n) :
    Run.Guarded (FitsAt s.weight) (acctDom k s.weight) p doms := by
  induction doms generalizing p i with
  | nil => trivial
  | cons d rest ih =>
    rw [List.length_cons] at few
    have here : (s.credit + debt s + 2 * (i + 1)) * s.weight ≤ 2^32 := Nat.le_trans (Nat.mul_le_mul_right _ (by omega)) limit
    have fits : FitsAt s.weight p d := fun passes => share_fits share passes some_ slice here
    refine ⟨fits,?_⟩
    intro next taken
    exact ih (share_next share words some_ (fits (acctDom_taken taken).1) taken) (by omega)

theorem allFit_of_bound (words : Words s) (some_ : s.weight ≠ 0) (slice : s.creditsPerTslice ≤ s.credit)
    (limit : (s.credit + debt s + 2 * s.activeSdom.length + 1) * s.weight ≤ 2^32) : AllFit k s := by
  have sums : s.credit + debt s < 2^32 := by
    have whole := Nat.le_trans (Nat.le_mul_of_pos_right _ (Nat.pos_of_ne_zero some_)) limit
    omega
  have limit := Nat.le_trans (Nat.mul_le_mul_right s.weight (Nat.le_succ _)) limit
  refine ⟨sums,loop_fits (i:=0) s.activeSdom ⟨Kept.refl _,Nat.le_refl _,?_⟩ words some_ slice limit (by omega)⟩
  change startTotal s * s.weight ≤ _
  rw [(startTotal_iff words).mpr sums]
  exact Nat.le_refl _

theorem acct_kept (ran : acct k s = some s') : Words s → Words s' := by
  intro words
  by_cases none_ : s.weight = 0
  · have is : acct k s = some {s with creditBalance := 0} := by
      rw [acct]
      exact if_pos none_
    rw [is] at ran
    cases ran
    exact ⟨words.credits,words.caps,words.weight,words.credit⟩
  · rw [acct_loop none_] at ran
    obtain ⟨p,looped,rfl⟩ := Option.map_eq_some_iff.mp ran
    have kept : Kept s p.s := Run.run_history (P:=fun _ q => Kept s q.s) (fun past q d next kept taken => kept.trans (acctDom_taken taken).2.2.2)
      (Kept.refl _) looped
    have words := kept.words words
    exact ⟨words.credits,words.caps,words.weight,words.credit⟩

-- Weights and caps are 16-bit numbers.
def Sized (_ : State) : Event → Prop
  | .domCntl _ (.putinfo w cap) => w < 2^16 ∧ cap < 2^16
  | _ => True

instance : ∀ s e, Decidable (Sized s e)
  | _,.domCntl _ (.putinfo w cap) => inferInstanceAs (Decidable (w < 2^16 ∧ cap < 2^16))
  | _,.domCntl _ .getinfo | _,.allocPdata _ _ | _,.freePdata _ _ | _,.acctStart _ | _,.acctStop _ | _,.vcpuRemove _ | _,.sysCntl _ | _,.acct =>
    .isTrue trivial

theorem domCntl_words (words : Words s) {op : DomOp} (sized : Sized s (.domCntl d op)) : Words (domCntl d op s) := by
  cases op with
  | getinfo => exact words
  | putinfo weight cap =>
    have cap_ : (if cap = 2^16 - 1 then (s.dom d).cap else cap) < 2^16 := by
      split
      · exact words.caps d
      · exact sized.2
    have caps : ∀ (sdom : Dom), sdom.cap < 2^16 → ∀ x, (Function.update s.dom d sdom x).cap < 2^16 := by
      intro sdom small x
      by_cases here : x = d
      · subst here
        rw [Function.update_self]
        exact small
      · rw [Function.update_of_ne here]
        exact words.caps x
    unfold domCntl
    dsimp only
    split
    · exact ⟨words.credits,caps _ cap_,words.weight,words.credit⟩
    · refine ⟨words.credits,caps _ cap_,?_,words.credit⟩
      dsimp only
      split
      · rw [u32]
        omega
      · exact words.weight

theorem step_words {e : Event} (words : Words s) (sized : Sized s e) (taken : step k s e = some s') : Words s' := by
  cases e with
  | allocPdata cpu found =>
    cases taken
    unfold allocPdata
    split
    · exact ⟨words.credits,words.caps,words.weight,Nat.mod_lt _ (by decide)⟩
    · exact words
  | freePdata cpu some_ =>
    cases taken
    unfold freePdata
    split
    · refine ⟨words.credits,words.caps,words.weight,?_⟩
      dsimp only
      rw [u32]
      omega
    · exact words
  | acctStart v =>
    cases taken
    unfold vcpuAcctStart
    dsimp only
    split
    · exact words
    · refine ⟨words.credits,?_,Nat.mod_lt _ (by decide),words.credit⟩
      intro x
      refine Nat.lt_of_le_of_lt (Nat.le_of_eq (caps_update ?_ x)) (words.caps x)
      rfl
  | acctStop v => exact (stop_kept taken).words words
  | vcpuRemove v =>
    have set_ := (setVcpu_kept s v {s.vcpu v with parked := false}).words words
    simp only [step,vcpuRemove] at taken
    split at taken
    · exact (stop_kept taken).words set_
    · cases taken
      exact set_
  | domCntl d op =>
    cases taken
    exact domCntl_words words sized
  | sysCntl op =>
    cases taken
    cases op with
    | getinfo => exact words
    | other => exact words
    | putinfo tsliceMs ratelimitUs =>
      simp only [sysCntl]
      split
      · next valid => exact ⟨Nat.mul_le_mul_left _ valid.2.1,words.caps,words.weight,words.credit⟩
      · exact words
  | acct => exact acct_kept taken words

theorem init_words (tslice ratelimit : Nat) (valid : tslice ≤ tsliceMax) : Words (init tslice ratelimit) :=
  ⟨Nat.mul_le_mul_left _ valid,fun _ => (by decide : 0 < 2^16),(by decide : 0 < 2^32),(by decide : 0 < 2^32)⟩

-- Two vcpus of the usual weight on two CPUs.
def ordinary : List Event := [.allocPdata 0 true,.allocPdata 1 true,.acctStart 8,.acctStart 16]

-- A domain of the largest weight with two vcpus, on four CPUs with the longest
-- time slice: it is alone and is to have all credits.
def heavy : List Event := [.allocPdata 0 true,.allocPdata 1 true,.allocPdata 2 true,.allocPdata 3 true,.domCntl 1 (.putinfo 65535 0),.acctStart 8,.acctStart 9]

end XenAet.CreditExact
