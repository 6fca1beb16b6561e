import Mathlib.Data.Nat.Log
import XenAet.Library.Run
import XenAet.VirtualApic

namespace XenAet.LapicService
open XenAet.VirtualApic Library Library.Eventually

-- `none` is a call that waits for the lock it holds.
def vlapicError (h : Hooks) (s : Vlapic) (errmask : BitVec 32) : Option Vlapic :=
  let esr := s.getReg apicEsr
  if esr &&& errmask ≠ errmask then
    let lvterr := s.getReg apicLvterr
    let s := s.setReg apicEsr (esr ||| errmask)
    if lvterr &&& apicLvtMasked = 0#32 then
      let vec := (lvterr &&& apicVectorMask).setWidth 8
      if vec < 16#8 then none else some (acceptVector h s vec false)
    else some s
  else some s

def vlapicSetIrq (h : Hooks) (s : Vlapic) (vec : BitVec 8) (trig : Bool) : Option Vlapic :=
  if vec < 16#8 then vlapicError h s apicEsrRecvill else some (acceptVector h s vec trig)

-- The calls below are those without virtual interrupt delivery, and posted
-- interrupts come only with it.
def noPosting : Hooks := ⟨false⟩

def vlapicHasPendingIrq (s : Vlapic) : Option (BitVec 8) :=
  if !vlapicEnabled s then none
  else
    match vlapicFindHighestVector s apicIrr with
    | none => none
    | some irr =>
      let isr := (vlapicFindHighestVector s apicIsr).getD 0#8
      if isr &&& 0xf0#8 ≥ irr &&& 0xf0#8 then none else some irr

def vlapicAckPendingIrq (s : Vlapic) (vector : BitVec 8) : Vlapic := vlapicClearVector vector (vlapicSetVector vector s apicIsr) apicIrr

-- `offered` is what `vlapic_has_pending_irq` returned last. The other two are
-- not of the code: `served` are the interrupts delivered and not yet ended, the
-- latest first, and `owed` those accepted and not delivered since.
structure State where
  apic : Vlapic
  offered : Option (BitVec 8)
  served : List (BitVec 8)
  owed : BitVec 8 → Bool

inductive Event where
  | setIrq (vec : BitVec 8) (trig : Bool)
  | hasPending
  | ackPending
  | eoi
deriving DecidableEq

def step (s : State) : Event → Option State
  | .setIrq vec trig => (vlapicSetIrq noPosting s.apic vec trig).map fun apic =>
      {s with apic := apic,owed := if vec < 16#8 then s.owed else Function.update s.owed vec true}
  | .hasPending => some {s with offered := vlapicHasPendingIrq s.apic}
  | .ackPending =>
    match s.offered with
    | none => some s
    | some vector => some ⟨vlapicAckPendingIrq s.apic vector,none,vector :: s.served,Function.update s.owed vector false⟩
  | .eoi => some {s with apic := vlapicEoiSet s.apic,served := s.served.tail}

def inIrr (s : State) (vec : BitVec 8) : Bool := vlapicTestVector vec s.apic apicIrr

def inIsr (s : State) (vec : BitVec 8) : Bool := vlapicTestVector vec s.apic apicIsr

def priClass (vec : BitVec 8) : Nat := vec.toNat / 16

section Machine
variable {h : Hooks} {s s' : Vlapic} {vec : BitVec 8} {trig : Bool} {errmask : BitVec 32} {rest : List Frame}

-- The two calls as the steps of the processor that they stand for.
theorem error_returns (returns : vlapicError h s errmask = some s') :
    Passes (VirtualApic.step h) Reacquires ⟨s,false,.error errmask :: rest⟩ ⟨s',false,rest⟩ := by
  apply passes_turn not_reacquires_free
  unfold vlapicError at returns
  dsimp only at returns
  split at returns
  next fresh =>
    split at returns
    next unmasked =>
      split at returns
      · cases returns
      next legal =>
        cases returns
        rw [step_told fresh unmasked]
        exact passes_trans (accept_passes (BitVec.not_lt.mp legal)) unlock_passes
    next masked =>
      cases returns
      rw [step_masked fresh masked]
      exact unlock_passes
  next recorded =>
    cases returns
    rw [step_recorded (not_not.mp recorded)]
    exact unlock_passes

theorem setIrq_returns (returns : vlapicSetIrq h s vec trig = some s') :
    Passes (VirtualApic.step h) Reacquires (Call.begin s (.setIrq vec trig)) ⟨s',false,[]⟩ := by
  unfold vlapicSetIrq at returns
  split at returns
  next illegal =>
    have next : VirtualApic.step h (Call.begin s (.setIrq vec trig)) = ⟨s,false,[.error apicEsrRecvill]⟩ := step_illegal illegal
    apply passes_turn (s:=Call.begin s (.setIrq vec trig)) not_reacquires_free
    rw [next]
    exact error_returns returns
  next legal =>
    cases returns
    exact accept_passes (BitVec.not_lt.mp legal)

theorem error_waits (waits : vlapicError h s errmask = none) : ¬Reports s errmask := by
  unfold vlapicError at waits
  dsimp only at waits
  split at waits
  next fresh =>
    split at waits
    next unmasked =>
      split at waits
      next illegal =>
        rintro (recorded | masked | legal)
        · exact fresh recorded
        · exact masked unmasked
        · exact BitVec.not_lt.mpr legal illegal
      · cases waits
    · cases waits
  · cases waits

theorem setIrq_waits (waits : vlapicSetIrq h s vec trig = none) : ¬Ever (VirtualApic.step h) Returned (Call.begin s (.setIrq vec trig)) := by
  unfold vlapicSetIrq at waits
  split at waits
  next illegal =>
    have next : VirtualApic.step h (Call.begin s (.setIrq vec trig)) = ⟨s,false,[.error apicEsrRecvill]⟩ := step_illegal illegal
    rw [ever_turn,next]
    rintro (ended | ended)
    · cases ended
    · exact (error_stuck (error_waits waits)).2 ended
  · cases waits

-- The call as one function against the steps of the processor: where it has a
-- result the steps come to it and never take the lock twice, and where it has
-- none they never return.
theorem setIrq_refines (h : Hooks) (s : Vlapic) (vec : BitVec 8) (trig : Bool) :
    match vlapicSetIrq h s vec trig with
    | some s' => Passes (VirtualApic.step h) Reacquires (Call.begin s (.setIrq vec trig)) ⟨s',false,[]⟩
    | none => ¬Ever (VirtualApic.step h) Returned (Call.begin s (.setIrq vec trig)) := by
  cases result : vlapicSetIrq h s vec trig with
  | none => exact setIrq_waits result
  | some s' => exact setIrq_returns result

end Machine

section Bits
variable {s : Vlapic} {v w : BitVec 8} {b b' : Nat}

theorem vecPos_lt (v : BitVec 8) : vecPos v < 32 := Nat.mod_lt _ (by decide)

theorem regPos_lt (v : BitVec 8) : regPos v < 0x80 := by
  unfold regPos
  omega

theorem one_bit {i k : Nat} (small : i < 32) : (1#32 <<< k).getLsbD i = decide (i = k) := by
  rw [BitVec.getLsbD_shiftLeft,BitVec.getLsbD_one]
  simp only [small,decide_true,Bool.true_and]
  by_cases same : i = k
  · simp [same]
  · simp [same]
    omega

-- A vector by its word and the bit in it.
theorem same_bit (word : regPos w = regPos v) : vecPos w = vecPos v ↔ w = v := by
  unfold regPos at word
  unfold vecPos
  constructor
  · intro bit
    apply BitVec.eq_of_toNat_eq
    omega
  · rintro rfl
    rfl

theorem test_set (s : Vlapic) (v w : BitVec 8) (b : Nat) :
    vlapicTestVector w (vlapicSetVector v s b) b = (decide (w = v) || vlapicTestVector w s b) := by
  by_cases word : regPos w = regPos v
  · simp only [vlapicTestVector,vlapicSetVector,Vlapic.getReg,Vlapic.setReg,word,Function.update_self,BitVec.getLsbD_or,
      one_bit (vecPos_lt w),same_bit word]
    exact Bool.or_comm ..
  · have other : b + regPos w ≠ b + regPos v := by omega
    have apart : w ≠ v := fun same => word (by rw [same])
    simp [vlapicTestVector,vlapicSetVector,Vlapic.getReg,Vlapic.setReg,Function.update_of_ne other,apart]

theorem test_clear (s : Vlapic) (v w : BitVec 8) (b : Nat) :
    vlapicTestVector w (vlapicClearVector v s b) b = (!decide (w = v) && vlapicTestVector w s b) := by
  by_cases word : regPos w = regPos v
  · simp only [vlapicTestVector,vlapicClearVector,Vlapic.getReg,Vlapic.setReg,word,Function.update_self,BitVec.getLsbD_and,BitVec.getLsbD_not,
      one_bit (vecPos_lt w),same_bit word,vecPos_lt w,decide_true,Bool.true_and]
    exact Bool.and_comm ..
  · have other : b + regPos w ≠ b + regPos v := by omega
    have apart : w ≠ v := fun same => word (by rw [same])
    simp [vlapicTestVector,vlapicClearVector,Vlapic.getReg,Vlapic.setReg,Function.update_of_ne other,apart]

-- A register outside of a bitmap.
theorem test_setReg (w : BitVec 8) (val : BitVec 32) {reg : Nat} (outside : reg < b ∨ b + 0x80 ≤ reg) :
    vlapicTestVector w (s.setReg reg val) b = vlapicTestVector w s b := by
  have bound := regPos_lt w
  have other : b + regPos w ≠ reg := by omega
  simp [vlapicTestVector,Vlapic.getReg,Vlapic.setReg,Function.update_of_ne other]

theorem test_set_other (s : Vlapic) (v w : BitVec 8) (apart : b' + 0x80 ≤ b ∨ b + 0x80 ≤ b') :
    vlapicTestVector w (vlapicSetVector v s b') b = vlapicTestVector w s b := by
  have bound := regPos_lt v
  exact test_setReg w _ (by omega)

theorem test_clear_other (s : Vlapic) (v w : BitVec 8) (apart : b' + 0x80 ≤ b ∨ b + 0x80 ≤ b') :
    vlapicTestVector w (vlapicClearVector v s b') b = vlapicTestVector w s b := by
  have bound := regPos_lt v
  exact test_setReg w _ (by omega)

-- The word that the search stops at: the last that is not zero.
theorem word_found {p : Nat → Bool} {n k : Nat} (found : (List.range n).reverse.find? p = some k) : k < n ∧ p k = true ∧ ∀ j, k < j → j < n → p j = false := by
  obtain ⟨hit,before,after,list,missed⟩ := List.find?_eq_some_iff_append.mp found
  have member : k ∈ (List.range n).reverse := by rw [list]; simp
  have order : (before ++ k :: after).Pairwise (· > ·) := by
    rw [← list,List.pairwise_reverse]
    exact List.pairwise_lt_range
  refine ⟨by simpa using member,hit,fun j above below => ?_⟩
  have listed : j ∈ (List.range n).reverse := by simpa using below
  rw [list] at listed
  rcases List.mem_append.mp listed with early | late
  · simpa using missed j early
  · rcases List.mem_cons.mp late with rfl | later
    · omega
    · have := (List.pairwise_cons.mp (List.pairwise_append.mp order).2.1).1 j later
      omega

theorem test_word (s : Vlapic) (w : BitVec 8) (b : Nat) :
    vlapicTestVector w s b = (s.getReg (b + w.toNat / 32 * 0x10)).getLsbD (w.toNat % 32) := rfl

theorem find_none (missing : vlapicFindHighestVector s b = none) (w : BitVec 8) : vlapicTestVector w s b = false := by
  rw [vlapicFindHighestVector,Option.map_eq_none_iff,List.find?_eq_none] at missing
  have zero := missing (w.toNat / 32) (by simp; omega)
  rw [test_word]
  simp at zero
  rw [zero]
  exact BitVec.getLsbD_zero

theorem find_some (found : vlapicFindHighestVector s b = some v) :
    vlapicTestVector v s b = true ∧ ∀ w, vlapicTestVector w s b = true → w.toNat ≤ v.toNat := by
  obtain ⟨k,word,rfl⟩ := Option.map_eq_some_iff.mp found
  obtain ⟨small,some_,last⟩ := word_found word
  have nonzero : (s.getReg (b + k * 0x10)).toNat ≠ 0 := by
    intro zero
    rw [bne_iff_ne] at some_
    exact some_ (BitVec.eq_of_toNat_eq zero)
  have high : Nat.log2 (s.getReg (b + k * 0x10)).toNat < 32 := (Nat.log2_lt nonzero).mpr (s.getReg (b + k * 0x10)).isLt
  have value : (BitVec.ofNat 8 (Nat.log2 (s.getReg (b + k * 0x10)).toNat + k * 32)).toNat = Nat.log2 (s.getReg (b + k * 0x10)).toNat + k * 32 := by
    rw [BitVec.toNat_ofNat]
    omega
  refine ⟨?_,fun w set => ?_⟩
  · have place : (Nat.log2 (s.getReg (b + k * 0x10)).toNat + k * 32) / 32 = k := by omega
    have bit : (Nat.log2 (s.getReg (b + k * 0x10)).toNat + k * 32) % 32 = Nat.log2 (s.getReg (b + k * 0x10)).toNat := by omega
    rw [test_word,value,place,bit]
    exact Nat.testBit_log2 nonzero
  · rw [test_word] at set
    rw [value]
    rcases Nat.lt_trichotomy k (w.toNat / 32) with above | here | below
    · have zero := last (w.toNat / 32) above (by omega)
      rw [bne_eq_false_iff_eq] at zero
      rw [zero,BitVec.getLsbD_zero] at set
      cases set
    · rw [← here] at set
      have most : w.toNat % 32 ≤ Nat.log2 (s.getReg (b + k * 0x10)).toNat := (Nat.le_log2 nonzero).mpr (Nat.ge_two_pow_of_testBit set)
      omega
    · omega

theorem class_mask (v : BitVec 8) : (v &&& 0xf0#8).toNat = priClass v * 16 := by
  have all : ∀ n : Fin 256, n.val &&& 0xf0 = n.val / 16 * 16 := by decide +kernel
  rw [BitVec.toNat_and]
  exact all ⟨v.toNat,v.isLt⟩

theorem class_le (v w : BitVec 8) : v &&& 0xf0#8 ≤ w &&& 0xf0#8 ↔ priClass v ≤ priClass w := by
  rw [BitVec.le_def,class_mask,class_mask]
  omega

end Bits

section Calls
variable {s s' : Vlapic} {v w : BitVec 8} {trig : Bool} {errmask : BitVec 32}

def leveled (s : Vlapic) (v : BitVec 8) (trig : Bool) : Vlapic := if trig then vlapicSetVector v s apicTmr else s

theorem accept_eq (s : Vlapic) (v : BitVec 8) (trig : Bool) : acceptVector noPosting s v trig =
    if vlapicTestVector v (leveled s v trig) apicIrr then leveled s v trig
    else {vlapicSetVector v (leveled s v trig) apicIrr with kicks := (leveled s v trig).kicks + 1} := rfl

theorem leveled_test (s : Vlapic) (v w : BitVec 8) (trig : Bool) {b : Nat} (apart : apicTmr + 0x80 ≤ b ∨ b + 0x80 ≤ apicTmr) :
    vlapicTestVector w (leveled s v trig) b = vlapicTestVector w s b := by
  cases trig with
  | false => rfl
  | true => exact test_set_other s v w apart

theorem accept_irr (s : Vlapic) (v w : BitVec 8) (trig : Bool) :
    vlapicTestVector w (acceptVector noPosting s v trig) apicIrr = (decide (w = v) || vlapicTestVector w s apicIrr) := by
  rw [accept_eq,← leveled_test s v w trig (b:=apicIrr) (by decide)]
  split
  next already =>
    by_cases same : w = v
    · rw [same,already]
      simp
    · simp [same]
  · exact test_set (leveled s v trig) v w apicIrr

theorem accept_isr (s : Vlapic) (v w : BitVec 8) (trig : Bool) :
    vlapicTestVector w (acceptVector noPosting s v trig) apicIsr = vlapicTestVector w s apicIsr := by
  rw [accept_eq,← leveled_test s v w trig (b:=apicIsr) (by decide)]
  split
  · rfl
  · exact test_set_other (leveled s v trig) v w (by decide)

-- What a call that returns does to the two bitmaps.
structure Accepts (s s' : Vlapic) : Prop where
  isr : ∀ w, vlapicTestVector w s' apicIsr = vlapicTestVector w s apicIsr
  irr : ∀ w, vlapicTestVector w s apicIrr = true → vlapicTestVector w s' apicIrr = true

theorem accept_accepts (s : Vlapic) (v : BitVec 8) (trig : Bool) : Accepts s (acceptVector noPosting s v trig) := by
  refine ⟨fun w => accept_isr s v w trig,fun w set => ?_⟩
  rw [accept_irr,set,Bool.or_true]

theorem error_accepts (returns : vlapicError noPosting s errmask = some s') : Accepts s s' := by
  have recorded (val : BitVec 32) : Accepts s (s.setReg apicEsr val) :=
    ⟨fun w => test_setReg w val (by decide),fun w set => (test_setReg w val (by decide)).trans set⟩
  unfold vlapicError at returns
  dsimp only at returns
  split at returns
  · split at returns
    · split at returns
      · cases returns
      · cases returns
        have told := accept_accepts (s.setReg apicEsr (s.getReg apicEsr ||| errmask)) ((s.getReg apicLvterr &&& apicVectorMask).setWidth 8) false
        exact ⟨fun w => (told.isr w).trans ((recorded _).isr w),fun w set => told.irr w ((recorded _).irr w set)⟩
    · cases returns
      exact recorded _
  · cases returns
    exact ⟨fun _ => rfl,fun _ set => set⟩

theorem setIrq_accepts (returns : vlapicSetIrq noPosting s v trig = some s') : Accepts s s' ∧ (16#8 ≤ v → vlapicTestVector v s' apicIrr = true) := by
  unfold vlapicSetIrq at returns
  split at returns
  next illegal => exact ⟨error_accepts returns,fun legal => absurd illegal (BitVec.not_lt.mpr legal)⟩
  next legal =>
    cases returns
    refine ⟨accept_accepts s v trig,fun _ => ?_⟩
    rw [accept_irr,decide_eq_true rfl,Bool.true_or]

theorem ack_isr (s : Vlapic) (v w : BitVec 8) :
    vlapicTestVector w (vlapicAckPendingIrq s v) apicIsr = (decide (w = v) || vlapicTestVector w s apicIsr) := by
  rw [vlapicAckPendingIrq,test_clear_other _ v w (by decide)]
  exact test_set s v w apicIsr

theorem ack_irr (s : Vlapic) (v w : BitVec 8) :
    vlapicTestVector w (vlapicAckPendingIrq s v) apicIrr = (!decide (w = v) && vlapicTestVector w s apicIrr) := by
  rw [vlapicAckPendingIrq,test_clear,test_set_other s v w (by decide)]

theorem unmark_level (s : Vlapic) (v w : BitVec 8) {b : Nat} (apart : apicTmr + 0x80 ≤ b ∨ b + 0x80 ≤ apicTmr) :
    vlapicTestVector w (if vlapicTestVector v s apicTmr then vlapicClearVector v s apicTmr else s) b = vlapicTestVector w s b := by
  split
  · exact test_clear_other s v w apart
  · rfl

theorem eoi_irr (s : Vlapic) (w : BitVec 8) : vlapicTestVector w (vlapicEoiSet s) apicIrr = vlapicTestVector w s apicIrr := by
  unfold vlapicEoiSet
  split
  · rfl
  next v _ =>
    dsimp only
    rw [unmark_level _ v w (by decide)]
    exact test_clear_other s v w (by decide)

theorem eoi_isr (found : vlapicFindHighestVector s apicIsr = some v) (w : BitVec 8) :
    vlapicTestVector w (vlapicEoiSet s) apicIsr = (!decide (w = v) && vlapicTestVector w s apicIsr) := by
  unfold vlapicEoiSet
  rw [found]
  dsimp only
  rw [unmark_level _ v w (by decide)]
  exact test_clear s v w apicIsr

theorem pending_class (offers : vlapicHasPendingIrq s = some v) :
    vlapicTestVector v s apicIrr = true ∧ ∀ u, vlapicTestVector u s apicIsr = true → priClass u < priClass v := by
  unfold vlapicHasPendingIrq at offers
  split at offers
  · cases offers
  split at offers
  · cases offers
  next irr found =>
    dsimp only at offers
    split at offers
    · cases offers
    next above =>
      cases offers
      refine ⟨(find_some found).1,fun u served => ?_⟩
      rw [ge_iff_le,class_le,Nat.not_le] at above
      cases isr : vlapicFindHighestVector s apicIsr with
      | none =>
        rw [find_none isr u] at served
        cases served
      | some w =>
        have most := (find_some isr).2 u served
        rw [isr,Option.getD_some] at above
        unfold priClass at above ⊢
        omega

end Calls

section Runs
variable {s s' : State} {event : Event}

structure Disciplined (s : State) : Prop where
  service : ∀ vec, inIsr s vec = true ↔ vec ∈ s.served
  classes : s.served.Pairwise fun later earlier => priClass earlier < priClass later
  owed : ∀ vec, s.owed vec = true → inIrr s vec = true

-- What was offered can be delivered whatever else has come since.
def Deliverable (s : State) : Prop :=
  ∀ vec, s.offered = some vec → inIrr s vec = true ∧ ∀ u ∈ s.served, priClass u < priClass vec

-- What one step does to the bitmaps.
structure Follows (s : State) (event : Event) (s' : State) : Prop where
  accepts : ∀ vec trig, event = .setIrq vec trig → 16#8 ≤ vec → inIrr s' vec = true
  keeps : ∀ vec, inIrr s vec = true → inIrr s' vec = false → event = .ackPending ∧ s.offered = some vec
  delivers : ∀ vec, event = .ackPending → s.offered = some vec → (∀ u, inIsr s u = true → priClass u < priClass vec) ∧
    ∀ u, inIsr s' u = true ↔ u = vec ∨ inIsr s u = true
  ends : event = .eoi → ∀ u, inIsr s' u = true ↔ inIsr s u = true ∧ s.served.head? ≠ some u

theorem highest_served (disciplined : Disciplined s) : vlapicFindHighestVector s.apic apicIsr = s.served.head? := by
  cases found : vlapicFindHighestVector s.apic apicIsr with
  | none =>
    cases served : s.served with
    | nil => rfl
    | cons top rest =>
      have set := (disciplined.service top).mpr (by simp [served])
      rw [inIsr,find_none found] at set
      cases set
  | some v =>
    obtain ⟨set,most⟩ := find_some found
    have listed := (disciplined.service v).mp set
    cases served : s.served with
    | nil => simp [served] at listed
    | cons top rest =>
      have first := most top ((disciplined.service top).mpr (by simp [served]))
      have classes := disciplined.classes
      rw [served] at listed classes
      rcases List.mem_cons.mp listed with rfl | later
      · rfl
      · have lower := (List.pairwise_cons.mp classes).1 v later
        unfold priClass at lower
        omega

theorem setIrq_follows {vec : BitVec 8} {trig : Bool} {apic : Vlapic} {owed : BitVec 8 → Bool} (disciplined : Disciplined s)
    (deliverable : Deliverable s) (returns : vlapicSetIrq noPosting s.apic vec trig = some apic)
    (owes : ∀ u, owed u = true → s.owed u = true ∨ u = vec ∧ 16#8 ≤ vec) :
    Follows s (.setIrq vec trig) {s with apic := apic,owed := owed} ∧ Disciplined {s with apic := apic,owed := owed} ∧
      Deliverable {s with apic := apic,owed := owed} := by
  obtain ⟨accepts,legal⟩ := setIrq_accepts returns
  refine ⟨⟨?_,?_,?_,?_⟩,⟨?_,disciplined.classes,?_⟩,?_⟩
  · rintro _ _ ⟨⟩ high
    exact legal high
  · intro u set clear
    have still : inIrr {s with apic := apic,owed := owed} u = true := accepts.irr u set
    rw [still] at clear
    cases clear
  · rintro _ ⟨⟩
  · rintro ⟨⟩
  · intro u
    rw [← disciplined.service u]
    exact Eq.congr_left (accepts.isr u)
  · intro u owing
    rcases owes u owing with before | ⟨rfl,high⟩
    · exact accepts.irr u (disciplined.owed u before)
    · exact legal high
  · intro u offered
    obtain ⟨set,above⟩ := deliverable u offered
    exact ⟨accepts.irr u set,above⟩

theorem ack_follows {vector : BitVec 8} (disciplined : Disciplined s) (deliverable : Deliverable s) (offered : s.offered = some vector)
    (is : s' = ⟨vlapicAckPendingIrq s.apic vector,none,vector :: s.served,Function.update s.owed vector false⟩) :
    Follows s .ackPending s' ∧ Disciplined s' ∧ Deliverable s' := by
  obtain ⟨_,above⟩ := deliverable vector offered
  have isr (u : BitVec 8) : inIsr s' u = true ↔ u = vector ∨ inIsr s u = true := by
    rw [inIsr,is,ack_isr,Bool.or_eq_true,decide_eq_true_iff,inIsr]
  have irr (u : BitVec 8) : inIrr s' u = true ↔ u ≠ vector ∧ inIrr s u = true := by
    rw [inIrr,is,ack_irr,Bool.and_eq_true,Bool.not_eq_true',decide_eq_false_iff_not,inIrr]
  refine ⟨⟨?_,?_,?_,?_⟩,⟨?_,?_,?_⟩,?_⟩
  · rintro _ _ ⟨⟩
  · intro u set clear
    refine ⟨rfl,?_⟩
    by_cases same : u = vector
    · rw [same]
      exact offered
    · rw [(irr u).mpr ⟨same,set⟩] at clear
      cases clear
  · intro u _ again
    cases offered.symm.trans again
    exact ⟨fun u set => above u ((disciplined.service u).mp set),isr⟩
  · rintro ⟨⟩
  · intro u
    rw [isr,is,List.mem_cons,disciplined.service]
  · rw [is]
    exact List.pairwise_cons.mpr ⟨above,disciplined.classes⟩
  · intro u owing
    rw [is] at owing
    dsimp only at owing
    by_cases same : u = vector
    · rw [same,Function.update_self] at owing
      cases owing
    · rw [Function.update_of_ne same] at owing
      exact (irr u).mpr ⟨same,disciplined.owed u owing⟩
  · intro u again
    rw [is] at again
    cases again

theorem eoi_follows (disciplined : Disciplined s) (deliverable : Deliverable s)
    (is : s' = {s with apic := vlapicEoiSet s.apic,served := s.served.tail}) : Follows s .eoi s' ∧ Disciplined s' ∧ Deliverable s' := by
  have irr (u : BitVec 8) : inIrr s' u = inIrr s u := by
    rw [inIrr,is]
    exact eoi_irr s.apic u
  have top := highest_served disciplined
  have isr (u : BitVec 8) : inIsr s' u = true ↔ inIsr s u = true ∧ s.served.head? ≠ some u := by
    rw [inIsr,is]
    cases head : s.served.head? with
    | none =>
      have none_ : vlapicEoiSet s.apic = s.apic := by
        unfold vlapicEoiSet
        rw [top,head]
      rw [none_]
      exact ⟨fun set => ⟨set,by simp⟩,And.left⟩
    | some v =>
      rw [eoi_isr (top.trans head) u,Bool.and_eq_true,Bool.not_eq_true',decide_eq_false_iff_not,inIsr,and_comm,ne_eq,Option.some_inj,eq_comm (a:=u)]
  refine ⟨⟨?_,?_,?_,?_⟩,⟨?_,?_,?_⟩,?_⟩
  · rintro _ _ ⟨⟩
  · intro u set clear
    rw [irr,set] at clear
    cases clear
  · rintro _ ⟨⟩
  · exact fun _ => isr
  · intro u
    rw [isr,is,disciplined.service]
    have classes := disciplined.classes
    cases served : s.served with
    | nil => simp
    | cons top rest =>
      rw [served] at classes
      have lower := (List.pairwise_cons.mp classes).1 u
      simp only [List.mem_cons,List.head?_cons,ne_eq,Option.some_inj,List.tail_cons]
      constructor
      · rintro ⟨rfl | later,other⟩
        · exact absurd rfl other
        · exact later
      · intro later
        refine ⟨.inr later,?_⟩
        rintro rfl
        exact absurd (lower later) (Nat.lt_irrefl _)
  · rw [is]
    exact disciplined.classes.sublist (List.tail_sublist _)
  · intro u owing
    rw [irr]
    rw [is] at owing
    exact disciplined.owed u owing
  · intro u offered
    rw [is] at offered
    obtain ⟨set,above⟩ := deliverable u offered
    rw [irr]
    refine ⟨set,fun w served => above w ?_⟩
    rw [is] at served
    exact List.mem_of_mem_tail served

theorem step_follows (disciplined : Disciplined s) (deliverable : Deliverable s) (taken : step s event = some s') :
    Follows s event s' ∧ Disciplined s' ∧ Deliverable s' := by
  cases event with
  | setIrq vec trig =>
    obtain ⟨apic,returns,rfl⟩ := Option.map_eq_some_iff.mp taken
    refine setIrq_follows disciplined deliverable returns fun u owing => ?_
    split at owing
    · exact .inl owing
    next legal =>
      by_cases same : u = vec
      · exact .inr ⟨same,BitVec.not_lt.mp legal⟩
      · rw [Function.update_of_ne same] at owing
        exact .inl owing
  | hasPending =>
    cases taken
    refine ⟨⟨by rintro _ _ ⟨⟩,?_,by rintro _ ⟨⟩,by rintro ⟨⟩⟩,⟨disciplined.service,disciplined.classes,disciplined.owed⟩,?_⟩
    · intro u set clear
      cases set.symm.trans clear
    · intro u offered
      obtain ⟨set,above⟩ := pending_class offered
      exact ⟨set,fun w served => above w ((disciplined.service w).mpr served)⟩
  | ackPending =>
    simp only [step] at taken
    split at taken
    next nothing =>
      cases taken
      refine ⟨⟨by rintro _ _ ⟨⟩,?_,?_,by rintro ⟨⟩⟩,disciplined,deliverable⟩
      · intro u set clear
        cases set.symm.trans clear
      · intro u _ offered
        cases nothing.symm.trans offered
    next vector offered => exact ack_follows disciplined deliverable offered (Option.some.inj taken).symm
  | eoi => exact eoi_follows disciplined deliverable (Option.some.inj taken).symm

-- The interrupts in service are those delivered and not yet ended, one for each
-- class; the end of interrupt is that of the latest, and nothing accepted is lost.
theorem service_discipline (start : Vlapic) (events : List Event) (s : State) (idle : ∀ vec, vlapicTestVector vec start apicIsr = false)
    (ran : Run.run step ⟨start,none,[],fun _ => false⟩ events = some s) :
    Disciplined s ∧ ∀ event s', step s event = some s' → Follows s event s' := by
  have begins : Disciplined ⟨start,none,[],fun _ => false⟩ ∧ Deliverable ⟨start,none,[],fun _ => false⟩ := by
    refine ⟨⟨fun vec => ?_,.nil,by rintro _ ⟨⟩⟩,by rintro _ ⟨⟩⟩
    rw [inIsr,idle vec]
    simp
  have held := Run.run_history (P:=fun _ s => Disciplined s ∧ Deliverable s)
    (fun _ s event next held taken => (step_follows held.1 held.2 taken).2) begins ran
  exact ⟨held.1,fun event s' taken => (step_follows held.1 held.2 taken).1⟩

-- Vector 0x31 is delivered, 0x52 comes while it is served and is delivered on top
-- of it; the end of interrupt is that of 0x52.
def nested : List Event := [.setIrq 0x31 false,.hasPending,.ackPending,.setIrq 0x52 true,.setIrq 0x35 false,.hasPending,.ackPending,.eoi]

def enabled : Vlapic := (vlapicRegWrite ⟨true,true⟩ (vlapicInit 0) apicSpiv 0x1ff#32).apic

theorem service_discipline_nested : ∃ s, Run.run step ⟨enabled,none,[],fun _ => false⟩ nested = some s ∧ s.served = [0x31] ∧
    Disciplined s ∧ ∀ event s', step s event = some s' → Follows s event s' := by
  have words : ∀ k : Fin 8, enabled.getReg (apicIsr + k.val * 0x10) = 0#32 := by decide +kernel
  have idle (vec : BitVec 8) : vlapicTestVector vec enabled apicIsr = false := by
    rw [test_word,words ⟨vec.toNat / 32,by omega⟩]
    exact BitVec.getLsbD_zero
  have seen : (Run.run step ⟨enabled,none,[],fun _ => false⟩ nested).any (fun s => decide (s.served = [0x31])) = true := by
    decide +kernel
  obtain ⟨s,ran,served⟩ := Run.run_reaches seen
  exact ⟨s,ran,served,service_discipline enabled nested s idle ran⟩

end Runs

end XenAet.LapicService
