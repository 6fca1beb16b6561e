import Mathlib.Data.BitVec
import Mathlib.Logic.Function.Basic
import XenAet.Library.Loops

namespace XenAet.VirtualApic
open Library.Eventually

def apicId : Nat := 0x20
def apicLvr : Nat := 0x30
def apicTaskpri : Nat := 0x80
def apicEoi : Nat := 0xb0
def apicLdr : Nat := 0xd0
def apicDfr : Nat := 0xe0
def apicSpiv : Nat := 0xf0
def apicIsr : Nat := 0x100
def apicTmr : Nat := 0x180
def apicIrr : Nat := 0x200
def apicEsr : Nat := 0x280
def apicIcr : Nat := 0x300
def apicIcr2 : Nat := 0x310
def apicLvtt : Nat := 0x320
def apicLvterr : Nat := 0x370
def apicTmict : Nat := 0x380
def apicTmcct : Nat := 0x390
def apicTdcr : Nat := 0x3e0

def apicLvtMasked : BitVec 32 := 0x10000#32
def apicSendPending : BitVec 32 := 0x1000#32
def apicVectorMask : BitVec 32 := 0xff#32
def apicModeMask : BitVec 32 := 0x700#32
def apicTimerModeMask : BitVec 32 := 0x60000#32
def apicTimerModePeriodic : BitVec 32 := 0x20000#32
def apicTimerModeOneshot : BitVec 32 := 0#32
def apicSpivApicEnabled : BitVec 32 := 0x100#32
def apicEsrSendill : BitVec 32 := 0x20#32
def apicEsrRecvill : BitVec 32 := 0x40#32
def apicDmFixed : BitVec 32 := 0#32
def apicDmLowest : BitVec 32 := 0x100#32
def apicDmInit : BitVec 32 := 0x500#32
def apicDmStartup : BitVec 32 := 0x600#32

def lvtMask : BitVec 32 := apicLvtMasked ||| apicSendPending ||| apicVectorMask

-- With the polarity, remote IRR and trigger bits of the two LINT entries.
def lintMask : BitVec 32 := lvtMask ||| apicModeMask ||| 0x2000#32 ||| 0x4000#32 ||| 0x8000#32

def vlapicLvtNum : Nat := 6

-- `vlapic_lvt_mask`, from `APIC_LVTT` to `APIC_LVTERR`.
def vlapicLvtMask : List (BitVec 32) :=
  [lvtMask ||| apicTimerModeMask,lvtMask ||| apicModeMask,lvtMask ||| apicModeMask,lintMask,lintMask,lvtMask]

-- `pir` stands for what `deliver_posted_intr` keeps, `kicks` for the calls of
-- `vcpu_kick`.
structure Vlapic where
  regs : Nat → BitVec 32
  hwDisabled : Bool
  swDisabled : Bool
  timerDivisor : Nat
  tdtMsr : BitVec 64
  ptIrq : BitVec 32
  pir : BitVec 8 → Bool
  kicks : Nat

def Vlapic.getReg (s : Vlapic) (reg : Nat) : BitVec 32 := s.regs reg

def Vlapic.setReg (s : Vlapic) (reg : Nat) (val : BitVec 32) : Vlapic := {s with regs := Function.update s.regs reg val}

def vlapicEnabled (s : Vlapic) : Bool := !s.hwDisabled && !s.swDisabled

def vecPos (vec : BitVec 8) : Nat := vec.toNat % 32

def regPos (vec : BitVec 8) : Nat := vec.toNat / 32 * 0x10

def vlapicTestVector (vec : BitVec 8) (s : Vlapic) (bitmap : Nat) : Bool := (s.getReg (bitmap + regPos vec)).getLsbD (vecPos vec)

def vlapicSetVector (vec : BitVec 8) (s : Vlapic) (bitmap : Nat) : Vlapic :=
  s.setReg (bitmap + regPos vec) (s.getReg (bitmap + regPos vec) ||| 1#32 <<< vecPos vec)

def vlapicClearVector (vec : BitVec 8) (s : Vlapic) (bitmap : Nat) : Vlapic :=
  s.setReg (bitmap + regPos vec) (s.getReg (bitmap + regPos vec) &&& ~~~(1#32 <<< vecPos vec))

-- The words from the last to the first; none has a bit when it answers -1.
def vlapicFindHighestVector (s : Vlapic) (bitmap : Nat) : Option (BitVec 8) :=
  ((List.range 8).reverse.find? fun word => s.getReg (bitmap + word * 0x10) != 0#32).map fun word =>
    BitVec.ofNat 8 (Nat.log2 (s.getReg (bitmap + word * 0x10)).toNat + word * 32)

-- Whether `hvm_funcs` has `deliver_posted_intr`.
structure Hooks where
  posted : Bool

-- What `vlapic_set_irq` does with a legal vector.
def acceptVector (h : Hooks) (s : Vlapic) (vec : BitVec 8) (trig : Bool) : Vlapic :=
  let s := if trig then vlapicSetVector vec s apicTmr else s
  if h.posted then {s with pir := Function.update s.pir vec true}
  else if vlapicTestVector vec s apicIrr then s
  else {vlapicSetVector vec s apicIrr with kicks := s.kicks + 1}

def vlapicEoiSet (s : Vlapic) : Vlapic :=
  match vlapicFindHighestVector s apicIsr with
  | none => s
  | some vector =>
    let s := vlapicClearVector vector s apicIsr
    if vlapicTestVector vector s apicTmr then vlapicClearVector vector s apicTmr else s

-- What is left to do on the CPU: the calls that are open, innermost first.
-- `unlock` is the end of `vlapic_error`.
inductive Frame where
  | setIrq (vec : BitVec 8) (trig : Bool)
  | error (errmask : BitVec 32)
  | unlock
  | setReg (reg : Nat) (val : BitVec 32)
deriving DecidableEq

structure Cpu where
  apic : Vlapic
  holdsEsrLock : Bool
  stack : List Frame

-- A spin lock is not recursive: who holds it and asks for it again waits for
-- itself.
def step (h : Hooks) (c : Cpu) : Cpu :=
  match c.stack with
  | [] => c
  | .setIrq vec trig :: rest =>
    if vec < 16#8 then {c with stack := .error apicEsrRecvill :: rest}
    else {c with apic := acceptVector h c.apic vec trig,stack := rest}
  | .error errmask :: rest =>
    if c.holdsEsrLock then c
    else
      let esr := c.apic.getReg apicEsr
      if esr &&& errmask ≠ errmask then
        let lvterr := c.apic.getReg apicLvterr
        let told := c.apic.setReg apicEsr (esr ||| errmask)
        if lvterr &&& apicLvtMasked = 0#32 then
          ⟨told,true,.setIrq ((lvterr &&& apicVectorMask).setWidth 8) false :: .unlock :: rest⟩
        else ⟨told,true,.unlock :: rest⟩
      else ⟨c.apic,true,.unlock :: rest⟩
  | .unlock :: rest => {c with holdsEsrLock := false,stack := rest}
  | .setReg reg val :: rest => {c with apic := c.apic.setReg reg val,stack := rest}

-- Whether the destination of an IPI takes in this vcpu, and whether it is the
-- one `vlapic_lowest_prio` picks.
structure Destination where
  matched : Bool
  lowestPrio : Bool

def vlapicAcceptIrq (s : Vlapic) (icrLow : BitVec 32) : List Frame :=
  let mode := icrLow &&& apicModeMask
  if (mode = apicDmFixed ∨ mode = apicDmLowest) ∧ vlapicEnabled s = true then [.setIrq (icrLow.setWidth 8) false] else []

-- What an IPI calls for on this vlapic.
def vlapicIpi (s : Vlapic) (dest : Destination) (icrLow : BitVec 32) : List Frame :=
  let mode := icrLow &&& apicModeMask
  let illegal := icrLow &&& apicVectorMask < 16#32
  if mode = apicDmInit ∨ mode = apicDmStartup then []
  else if mode = apicDmLowest then
    if illegal then [.error apicEsrSendill] else if dest.lowestPrio then vlapicAcceptIrq s icrLow else []
  else if mode = apicDmFixed ∧ illegal then [.error apicEsrSendill]
  else if dest.matched then vlapicAcceptIrq s icrLow
  else []

def maskLvts (s : Vlapic) : Vlapic :=
  (List.range vlapicLvtNum).foldl (fun s i =>
    s.setReg (apicLvtt + 0x10 * i) (s.getReg (apicLvtt + 0x10 * i) ||| apicLvtMasked)) s

def vlapicSetTdcr (s : Vlapic) (val : BitVec 32) : Vlapic :=
  let val := val &&& 0xb#32
  let shift := ((val &&& 3#32) ||| (val &&& 8#32) >>> 1) + 1#32
  {s.setReg apicTdcr val with timerDivisor := 1 <<< (shift &&& 7#32).toNat}

-- The bits of an LVT entry that can be written.
def lvtWrite (s : Vlapic) (offset : Nat) (val : BitVec 32) : Vlapic :=
  let val := if s.swDisabled then val ||| apicLvtMasked else val
  s.setReg offset (val &&& vlapicLvtMask.getD ((offset - apicLvtt) / 0x10) 0#32)

def lvttWrite (s : Vlapic) (val : BitVec 32) : Vlapic :=
  let s := if s.getReg apicLvtt &&& apicTimerModeMask ≠ val &&& apicTimerModeMask then
      {(s.setReg apicTmict 0#32).setReg apicTmcct 0#32 with tdtMsr := 0#64}
    else s
  lvtWrite {s with ptIrq := val &&& apicVectorMask} apicLvtt val

def spivWrite (s : Vlapic) (val : BitVec 32) : Vlapic :=
  let s := s.setReg apicSpiv (val &&& 0x3ff#32)
  if val &&& apicSpivApicEnabled = 0#32 then maskLvts {s with swDisabled := true} else {s with swDisabled := false}

def tmictWrite (s : Vlapic) (val : BitVec 32) : Vlapic :=
  let mode := s.getReg apicLvtt &&& apicTimerModeMask
  if mode ≠ apicTimerModeOneshot ∧ mode ≠ apicTimerModePeriodic then s else s.setReg apicTmict val

def vlapicRegWrite (dest : Destination) (s : Vlapic) (offset : Nat) (val : BitVec 32) : Cpu :=
  let done (s : Vlapic) : Cpu := ⟨s,false,[]⟩
  if offset = apicId then done (s.setReg apicId val)
  else if offset = apicTaskpri then done (s.setReg apicTaskpri (val &&& 0xff#32))
  else if offset = apicEoi then done (vlapicEoiSet s)
  else if offset = apicLdr then done (s.setReg apicLdr (val &&& 0xff000000#32))
  else if offset = apicDfr then done (s.setReg apicDfr (val ||| 0x0fffffff#32))
  else if offset = apicSpiv then done (spivWrite s val)
  else if offset = apicIcr then
    let val := val &&& ~~~apicSendPending
    ⟨s,false,vlapicIpi s dest val ++ [.setReg apicIcr val]⟩
  else if offset = apicIcr2 then done (s.setReg apicIcr2 (val &&& 0xff000000#32))
  else if offset = apicLvtt then done (lvttWrite s val)
  else if apicLvtt < offset ∧ offset ≤ apicLvterr ∧ offset % 0x10 = 0 then done (lvtWrite s offset val)
  else if offset = apicTmict then done (tmictWrite s val)
  else if offset = apicTdcr then done (vlapicSetTdcr s (val &&& 0xb#32))
  else done s

def clearBitmaps (s : Vlapic) : Vlapic :=
  (List.range 8).foldl (fun s i =>
    ((s.setReg (apicIrr + 0x10 * i) 0#32).setReg (apicIsr + 0x10 * i) 0#32).setReg (apicTmr + 0x10 * i) 0#32) s

def resetLvts (s : Vlapic) : Vlapic :=
  (List.range vlapicLvtNum).foldl (fun s i => s.setReg (apicLvtt + 0x10 * i) apicLvtMasked) s

def vlapicReset (s : Vlapic) (vcpuId : Nat) : Vlapic :=
  let s := (s.setReg apicId (BitVec.ofNat 32 (vcpuId * 2) <<< 24)).setReg apicLvr 0x00050014#32
  let s := clearBitmaps s
  let s := ((s.setReg apicIcr 0#32).setReg apicIcr2 0#32).setReg apicLdr 0#32
  let s := ((s.setReg apicTaskpri 0#32).setReg apicTmict 0#32).setReg apicTmcct 0#32
  let s := (vlapicSetTdcr s 0#32).setReg apicDfr 0xffffffff#32
  {(resetLvts s).setReg apicSpiv 0xff#32 with swDisabled := true}

-- The register page is clear when the vcpu is made.
def vlapicInit (vcpuId : Nat) : Vlapic := vlapicReset ⟨fun _ => 0#32,false,false,0,0#64,0#32,fun _ => false,0⟩ vcpuId

variable {h : Hooks} {s : Vlapic} {vec : BitVec 8} {trig : Bool} {errmask : BitVec 32} {rest : List Frame}

def Returned (c : Cpu) : Prop := c.stack = []

-- It asks for the lock that it holds.
def Reacquires (c : Cpu) : Prop := c.holdsEsrLock = true ∧ ∃ errmask rest, c.stack = .error errmask :: rest

-- The error is recorded already, or its report is masked or has a legal vector.
def Reports (s : Vlapic) (errmask : BitVec 32) : Prop :=
  s.getReg apicEsr &&& errmask = errmask ∨ s.getReg apicLvterr &&& apicLvtMasked ≠ 0#32 ∨
    16#8 ≤ (s.getReg apicLvterr &&& apicVectorMask).setWidth 8

instance : Decidable (Reports s errmask) := inferInstanceAs (Decidable (_ ∨ _ ∨ _))

theorem reacquires_fixed {c : Cpu} (again : Reacquires c) : step h c = c := by
  obtain ⟨held,errmask,rest,is⟩ := again
  unfold step
  rw [is]
  exact if_pos held

theorem returned_fixed {c : Cpu} (returned : Returned c) : step h c = c := by
  unfold step
  rw [show c.stack = [] from returned]

theorem not_reacquires_free : ¬Reacquires ⟨s,false,rest⟩ := fun again => Bool.false_ne_true again.1

-- The steps, each from what it finds.

theorem step_accept {held : Bool} (legal : 16#8 ≤ vec) :
    step h ⟨s,held,.setIrq vec trig :: rest⟩ = ⟨acceptVector h s vec trig,held,rest⟩ :=
  if_neg (BitVec.not_lt.mpr legal)

theorem step_illegal {held : Bool} (illegal : vec < 16#8) :
    step h ⟨s,held,.setIrq vec trig :: rest⟩ = ⟨s,held,.error apicEsrRecvill :: rest⟩ :=
  if_pos illegal

theorem step_recorded (recorded : s.getReg apicEsr &&& errmask = errmask) :
    step h ⟨s,false,.error errmask :: rest⟩ = ⟨s,true,.unlock :: rest⟩ :=
  if_neg (not_not.mpr recorded)

def withError (s : Vlapic) (errmask : BitVec 32) : Vlapic := s.setReg apicEsr (s.getReg apicEsr ||| errmask)

def errorVector (s : Vlapic) : BitVec 8 := (s.getReg apicLvterr &&& apicVectorMask).setWidth 8

theorem step_told (fresh : s.getReg apicEsr &&& errmask ≠ errmask) (unmasked : s.getReg apicLvterr &&& apicLvtMasked = 0#32) :
    step h ⟨s,false,.error errmask :: rest⟩ = ⟨withError s errmask,true,.setIrq (errorVector s) false :: .unlock :: rest⟩ :=
  (if_pos fresh).trans (if_pos unmasked)

theorem step_masked (fresh : s.getReg apicEsr &&& errmask ≠ errmask) (masked : s.getReg apicLvterr &&& apicLvtMasked ≠ 0#32) :
    step h ⟨s,false,.error errmask :: rest⟩ = ⟨withError s errmask,true,.unlock :: rest⟩ :=
  (if_pos fresh).trans (if_neg masked)

theorem accept_passes {held : Bool} (legal : 16#8 ≤ vec) :
    Passes (step h) Reacquires ⟨s,held,.setIrq vec trig :: rest⟩ ⟨acceptVector h s vec trig,held,rest⟩ := by
  apply passes_turn
  · rintro ⟨_,_,_,is⟩
    cases is
  · rw [step_accept legal]
    exact passes_refl

theorem unlock_passes : Passes (step h) Reacquires ⟨s,true,.unlock :: rest⟩ ⟨s,false,rest⟩ := by
  apply passes_turn
  · rintro ⟨_,_,_,is⟩
    cases is
  · exact passes_refl

-- The lock is given back with the error in the register.
theorem error_passes (reports : Reports s errmask) :
    ∃ s', Passes (step h) Reacquires ⟨s,false,.error errmask :: rest⟩ ⟨s',false,rest⟩ := by
  by_cases recorded : s.getReg apicEsr &&& errmask = errmask
  · refine ⟨s,passes_turn not_reacquires_free ?_⟩
    rw [step_recorded recorded]
    exact unlock_passes
  have reports := reports.resolve_left recorded
  by_cases unmasked : s.getReg apicLvterr &&& apicLvtMasked = 0#32
  · have legal : 16#8 ≤ errorVector s := reports.resolve_left (not_not.mpr unmasked)
    refine ⟨acceptVector h (withError s errmask) (errorVector s) false,passes_turn not_reacquires_free ?_⟩
    rw [step_told recorded unmasked]
    exact passes_trans (accept_passes legal) unlock_passes
  · refine ⟨withError s errmask,passes_turn not_reacquires_free ?_⟩
    rw [step_masked recorded unmasked]
    exact unlock_passes

-- The report of an illegal vector is an error itself, met with the lock held.
theorem error_stuck (silent : ¬Reports s errmask) :
    Ever (step h) Reacquires ⟨s,false,.error errmask :: rest⟩ ∧ ¬Ever (step h) Returned ⟨s,false,.error errmask :: rest⟩ := by
  rw [Reports,not_or,not_or,not_not] at silent
  obtain ⟨fresh,unmasked,illegal⟩ := silent
  have illegal : errorVector s < 16#8 := BitVec.not_le.mp illegal
  have again : Reacquires ⟨withError s errmask,true,.error apicEsrRecvill :: .unlock :: rest⟩ := ⟨rfl,_,_,rfl⟩
  constructor
  · rw [ever_turn,step_told fresh unmasked,ever_turn,step_illegal illegal]
    exact .inr (.inr ⟨0,again⟩)
  · rw [ever_turn,step_told fresh unmasked,ever_turn,step_illegal illegal,ever_fixed (reacquires_fixed again)]
    rintro (ended | ended | ended) <;> cases ended

inductive Call where
  | setIrq (vec : BitVec 8) (trig : Bool)
  | error (errmask : BitVec 32)

def Call.frame : Call → Frame
  | .setIrq vec trig => .setIrq vec trig
  | .error errmask => .error errmask

def Call.begin (s : Vlapic) (call : Call) : Cpu := ⟨s,false,[call.frame]⟩

def Sound (s : Vlapic) : Call → Prop
  | .setIrq vec _ => 16#8 ≤ vec ∨ Reports s apicEsrRecvill
  | .error errmask => Reports s errmask

theorem returns_clean {c : Cpu} (passes : Passes (step h) Reacquires c ⟨s,false,[]⟩) :
    Ever (step h) Returned c ∧ ¬Ever (step h) Reacquires c := by
  have returned : Returned ⟨s,false,[]⟩ := rfl
  refine ⟨ever_after passes returned,never_before passes ?_⟩
  rw [ever_fixed (returned_fixed returned)]
  exact not_reacquires_free

theorem error_call_iff : (Ever (step h) Returned ⟨s,false,.error errmask :: []⟩ ∧ ¬Ever (step h) Reacquires ⟨s,false,.error errmask :: []⟩) ↔
    Reports s errmask := by
  constructor
  · intro returns
    by_contra silent
    exact returns.2 (error_stuck silent).1
  · intro reports
    obtain ⟨s',passes⟩ := error_passes reports
    exact returns_clean passes

theorem error_reporting_returns_iff (h : Hooks) (s : Vlapic) (call : Call) :
    (Ever (step h) Returned (call.begin s) ∧ ¬Ever (step h) Reacquires (call.begin s)) ↔ Sound s call := by
  cases call with
  | error errmask => exact error_call_iff
  | setIrq vec trig =>
    by_cases legal : 16#8 ≤ vec
    · exact ⟨fun _ => .inl legal,fun _ => returns_clean (accept_passes legal)⟩
    · have illegal := BitVec.not_le.mp legal
      have next : step h (Call.begin s (.setIrq vec trig)) = ⟨s,false,.error apicEsrRecvill :: []⟩ := step_illegal illegal
      have turn {P : Cpu → Prop} (before : ¬P (Call.begin s (.setIrq vec trig))) :
          Ever (step h) P (Call.begin s (.setIrq vec trig)) ↔ Ever (step h) P ⟨s,false,.error apicEsrRecvill :: []⟩ := by
        rw [ever_turn,next]
        exact or_iff_right before
      rw [turn (fun ended => by cases ended),turn not_reacquires_free,error_call_iff]
      exact (or_iff_right legal).symm

-- The guest turns the APIC on, points LVTERR at vector 0 and sends itself
-- vector 0.
def programmed : Vlapic :=
  (vlapicRegWrite ⟨true,true⟩ (vlapicRegWrite ⟨true,true⟩ (vlapicInit 0) apicSpiv 0x1ff#32).apic apicLvterr 0#32).apic

theorem self_ipi_waits_for_itself :
    Ever (step ⟨false⟩) Reacquires (vlapicRegWrite ⟨true,true⟩ programmed apicIcr 0x40000#32) ∧
      ¬Ever (step ⟨false⟩) Returned (vlapicRegWrite ⟨true,true⟩ programmed apicIcr 0x40000#32) := by
  have silent : ¬Reports programmed apicEsrSendill := by decide +kernel
  exact error_stuck silent

end XenAet.VirtualApic
