import XenAet.PlatformTimer
import XenAet.VirtualApic

namespace XenAet.LapicRestore
open XenAet.VirtualApic

def apicTimerModeTscDeadline : BitVec 32 := 0x40000#32
def apicBusCycleNs : Nat := 10

-- The bits `MSR_IA32_APICBASE_EXTD` and `MSR_IA32_APICBASE_ENABLE`.
def apicbaseExtd : Nat := 10
def apicbaseEnable : Nat := 11

-- `struct hvm_hw_lapic`, with the two bits of `disabled`.
structure HwLapic where
  apicBaseMsr : BitVec 64
  hwDisabled : Bool
  swDisabled : Bool
  timerDivisor : Nat
  tdtMsr : BitVec 64
deriving DecidableEq

structure Loaded where
  hw : Bool
  regs : Bool
  id : BitVec 32
  ldr : BitVec 32
deriving DecidableEq

-- The function that is called when the timer expires.
inductive Callback where
  | null
  | vlapicPtCb
  | vlapicTdtPtCb
deriving DecidableEq

-- What a call of `create_periodic_time` gives the timer.
structure PeriodicTime where
  delta : Nat
  period : Nat
  irq : BitVec 32
  cb : Callback
deriving DecidableEq

-- A vlapic with what a restore looks at. `pt` is none for a timer that is
-- not armed.
structure Lapic where
  apic : Vlapic
  apicBaseMsr : BitVec 64
  loaded : Loaded
  pt : Option PeriodicTime

-- The guest's time stamp counter and the time a number of its ticks takes.
structure Clock where
  guestTsc : BitVec 64
  gtscToGtime : BitVec 64 → BitVec 64

def createPeriodicTime (s : Lapic) (delta period : Nat) (cb : Callback) : Lapic :=
  {s with pt := some ⟨delta,PlatformTimer.clampPeriod period,s.apic.ptIrq,cb⟩}

def vlapicX2apicMode (s : Lapic) : Bool := s.apicBaseMsr.getLsbD apicbaseExtd

def lvttMode (s : Lapic) : BitVec 32 := s.apic.getReg apicLvtt &&& apicTimerModeMask

def vlapicLvttTdt (s : Lapic) : Bool := lvttMode s == apicTimerModeTscDeadline

def vlapicLvttPeriod (s : Lapic) : Bool := lvttMode s == apicTimerModePeriodic

def vlapicTdtMsrGet (s : Lapic) : BitVec 64 := if vlapicLvttTdt s then s.apic.tdtMsr else 0#64

-- How long until a deadline; a time that looks negative is none.
def deadlineDelta (k : Clock) (value : BitVec 64) : Nat := (k.gtscToGtime (value - k.guestTsc)).toInt.toNat

def vlapicTdtMsrSet (k : Clock) (s : Lapic) (value : BitVec 64) : Lapic :=
  if !vlapicLvttTdt s then s
  else if k.guestTsc < value then createPeriodicTime {s with apic.tdtMsr := value} (deadlineDelta k value) 0 .vlapicTdtPtCb
  else if 0#64 < value then createPeriodicTime {s with apic.tdtMsr := 0#64} 0 0 .vlapicTdtPtCb
  else {s with apic.tdtMsr := 0#64,pt := none}

def timerPeriod (tmict : BitVec 32) (divisor : Nat) : Nat := apicBusCycleNs * tmict.toNat * divisor % 2^64

def lapicRearm (k : Clock) (s : Lapic) : Lapic :=
  let s := {s with apic.ptIrq := s.apic.getReg apicLvtt &&& apicVectorMask}
  if vlapicLvttTdt s then
    let tdtMsr := vlapicTdtMsrGet s
    if tdtMsr ≠ 0#64 then vlapicTdtMsrSet k s tdtMsr else s
  else
    let tmict := s.apic.getReg apicTmict
    if tmict = 0#32 then s
    else
      let period := timerPeriod tmict s.apic.timerDivisor
      if vlapicLvttPeriod s then createPeriodicTime s period period .vlapicPtCb else createPeriodicTime s period 0 .null

def setX2apicId (vcpuId : Nat) (s : Lapic) : Lapic :=
  let id := BitVec.ofNat 32 vcpuId
  let ldr := ((id &&& ~~~0xf#32) <<< 12) ||| (1#32 <<< (id &&& 0xf#32).toNat)
  {s with apic := (s.apic.setReg apicId (id * 2#32)).setReg apicLdr ldr}

def lapicLoadFixup (vcpuId : Nat) (s : Lapic) : Lapic :=
  if vlapicX2apicMode s ∧ s.loaded.id ≠ 0#32 ∧ s.loaded.ldr = 1#32 then setX2apicId vcpuId s
  else {s with apic := (s.apic.setReg apicId s.loaded.id).setReg apicLdr s.loaded.ldr}

-- `none` is a record that is refused.
def lapicLoadHidden (vcpuId : Nat) (s : Lapic) (hw : HwLapic) : Option Lapic :=
  let apic := {s.apic with hwDisabled := hw.hwDisabled,swDisabled := hw.swDisabled,timerDivisor := hw.timerDivisor,tdtMsr := hw.tdtMsr}
  let s := {s with apic := apic,apicBaseMsr := hw.apicBaseMsr,loaded.hw := true}
  let s := if s.loaded.regs then lapicLoadFixup vcpuId s else s
  if !s.apicBaseMsr.getLsbD apicbaseEnable && vlapicX2apicMode s then none else some s

def lapicLoadRegs (vcpuId : Nat) (k : Clock) (s : Lapic) (regs : Nat → BitVec 32) : Lapic :=
  let s := {s with apic.regs := regs}
  let s := {s with loaded := {s.loaded with id := s.apic.getReg apicId,ldr := s.apic.getReg apicLdr,regs := true}}
  let s := if s.loaded.hw then lapicLoadFixup vcpuId s else s
  lapicRearm k s

def lapicSave (s : Lapic) : HwLapic × (Nat → BitVec 32) :=
  (⟨s.apicBaseMsr,s.apic.hwDisabled,s.apic.swDisabled,s.apic.timerDivisor,s.apic.tdtMsr⟩,s.apic.regs)

-- `vlapic_reset` with the timer.
def reset (vcpuId : Nat) (s : Lapic) : Lapic := {s with apic := vlapicReset s.apic vcpuId,pt := none}

def hiddenFirst (vcpuId : Nat) (k : Clock) (s : Lapic) (hw : HwLapic) (regs : Nat → BitVec 32) : Option Lapic :=
  (lapicLoadHidden vcpuId s hw).map (lapicLoadRegs vcpuId k · regs)

def regsFirst (vcpuId : Nat) (k : Clock) (s : Lapic) (hw : HwLapic) (regs : Nat → BitVec 32) : Option Lapic :=
  lapicLoadHidden vcpuId (lapicLoadRegs vcpuId k s regs) hw

-- The platform timer that the call makes is the one that its record asks for.
theorem createPeriodicTime_refines (s : Lapic) (cb : Callback) (r : PlatformTimer.Request) (pt : PlatformTimer.PeriodicTime)
    (irq : r.irq = s.apic.ptIrq.toNat) : ∃ kept, (createPeriodicTime s r.delta r.period cb).pt = some kept ∧
      (PlatformTimer.createPeriodicTime r pt).period = kept.period ∧
      (PlatformTimer.createPeriodicTime r pt).irq = kept.irq.toNat % 2 ^ 8 ∧
      (PlatformTimer.createPeriodicTime r pt).timer =
        (PlatformTimer.createPeriodicTime {r with delta := kept.delta,period := kept.period} pt).timer := by
  have again : PlatformTimer.clampPeriod (PlatformTimer.clampPeriod r.period) = PlatformTimer.clampPeriod r.period := by
    unfold PlatformTimer.clampPeriod
    split_ifs <;> omega
  refine ⟨_,rfl,rfl,congrArg (· % 2 ^ 8) irq,?_⟩
  simp [PlatformTimer.createPeriodicTime,PlatformTimer.firstDeadline,again]

variable {vcpuId : Nat} {k : Clock} {s : Lapic} {hw : HwLapic} {regs : Nat → BitVec 32}

-- The ID and the LDR that a fix-up leaves.
def fixedId (vcpuId : Nat) (base : BitVec 64) (id ldr : BitVec 32) : BitVec 32 :=
  if base.getLsbD apicbaseExtd ∧ id ≠ 0#32 ∧ ldr = 1#32 then BitVec.ofNat 32 vcpuId * 2#32 else id

def fixedLdr (vcpuId : Nat) (base : BitVec 64) (id ldr : BitVec 32) : BitVec 32 :=
  if base.getLsbD apicbaseExtd ∧ id ≠ 0#32 ∧ ldr = 1#32 then
    ((BitVec.ofNat 32 vcpuId &&& ~~~0xf#32) <<< 12) ||| (1#32 <<< (BitVec.ofNat 32 vcpuId &&& 0xf#32).toNat)
  else ldr

def named (regs : Nat → BitVec 32) (id ldr : BitVec 32) : Nat → BitVec 32 :=
  Function.update (Function.update regs apicId id) apicLdr ldr

theorem fixup_eq (vcpuId : Nat) (s : Lapic) : lapicLoadFixup vcpuId s = {s with
    apic.regs := named s.apic.regs (fixedId vcpuId s.apicBaseMsr s.loaded.id s.loaded.ldr)
      (fixedLdr vcpuId s.apicBaseMsr s.loaded.id s.loaded.ldr)} := by
  unfold lapicLoadFixup fixedId fixedLdr vlapicX2apicMode
  split <;> rfl

-- A second fix-up undoes the first one.
theorem named_named (regs : Nat → BitVec 32) (a b c d : BitVec 32) :
    named (named regs a b) c d = named regs c d := by
  funext i
  simp only [named,Function.update_apply]
  split <;> (try split) <;> rfl

theorem named_other (regs : Nat → BitVec 32) (a b : BitVec 32) {i : Nat} (id : i ≠ apicId) (ldr : i ≠ apicLdr) :
    named regs a b i = regs i := by
  rw [named,Function.update_of_ne ldr,Function.update_of_ne id]

-- The time that passes before the deadline is reported.
def deadlineWait (k : Clock) (tdtMsr : BitVec 64) : Nat := if k.guestTsc < tdtMsr then deadlineDelta k tdtMsr else 0

def DeadlineMode (regs : Nat → BitVec 32) : Prop := regs apicLvtt &&& apicTimerModeMask = apicTimerModeTscDeadline

instance : Decidable (DeadlineMode regs) := inferInstanceAs (Decidable (_ = _))

def PeriodMode (regs : Nat → BitVec 32) : Prop := regs apicLvtt &&& apicTimerModeMask = apicTimerModePeriodic

instance : Decidable (PeriodMode regs) := inferInstanceAs (Decidable (_ = _))

-- What the registers, the divisor and the deadline arm; `old` is kept when
-- they arm nothing.
def armed (k : Clock) (regs : Nat → BitVec 32) (divisor : Nat) (tdtMsr : BitVec 64) (old : Option PeriodicTime) :
    Option PeriodicTime :=
  let irq := regs apicLvtt &&& apicVectorMask
  let period := timerPeriod (regs apicTmict) divisor
  if DeadlineMode regs then
    if tdtMsr = 0#64 then old else some ⟨deadlineWait k tdtMsr,0,irq,.vlapicTdtPtCb⟩
  else if regs apicTmict = 0#32 then old
  else if PeriodMode regs then some ⟨period,PlatformTimer.clampPeriod period,irq,.vlapicPtCb⟩
  else some ⟨period,0,irq,.null⟩

-- A deadline that has passed is forgotten.
def deadlineLeft (k : Clock) (regs : Nat → BitVec 32) (tdtMsr : BitVec 64) : BitVec 64 :=
  if DeadlineMode regs ∧ ¬k.guestTsc < tdtMsr then 0#64 else tdtMsr

theorem tdt_mode (s : Lapic) : (vlapicLvttTdt s = true) = DeadlineMode s.apic.regs := by
  simp [vlapicLvttTdt,lvttMode,DeadlineMode,Vlapic.getReg]

theorem period_mode (s : Lapic) : (vlapicLvttPeriod s = true) = PeriodMode s.apic.regs := by
  simp [vlapicLvttPeriod,lvttMode,PeriodMode,Vlapic.getReg]

theorem tdtMsrSet_eq (mode : DeadlineMode s.apic.regs) {value : BitVec 64} (set : value ≠ 0#64) :
    vlapicTdtMsrSet k s value = {s with
      apic.tdtMsr := if k.guestTsc < value then value else 0#64
      pt := some ⟨deadlineWait k value,0,s.apic.ptIrq,.vlapicTdtPtCb⟩} := by
  have positive : 0#64 < value := by bv_omega
  have on : vlapicLvttTdt s = true := (tdt_mode s).mpr mode
  unfold vlapicTdtMsrSet deadlineWait
  rw [on]
  by_cases ahead : k.guestTsc < value
  · simp [ahead,createPeriodicTime,PlatformTimer.clampPeriod]
  · simp [ahead,positive,createPeriodicTime,PlatformTimer.clampPeriod]

theorem rearm_eq (k : Clock) (s : Lapic) : lapicRearm k s = {s with
    apic.ptIrq := s.apic.regs apicLvtt &&& apicVectorMask
    apic.tdtMsr := deadlineLeft k s.apic.regs s.apic.tdtMsr
    pt := armed k s.apic.regs s.apic.timerDivisor s.apic.tdtMsr s.pt} := by
  unfold lapicRearm armed deadlineLeft
  simp only [tdt_mode,period_mode,Vlapic.getReg]
  by_cases deadline : DeadlineMode s.apic.regs
  · have get : ∀ irq, vlapicTdtMsrGet {s with apic.ptIrq := irq} = s.apic.tdtMsr := fun irq =>
      if_pos ((tdt_mode {s with apic.ptIrq := irq}).mpr deadline)
    rw [if_pos deadline,if_pos deadline]
    simp only [get]
    by_cases set : s.apic.tdtMsr = 0#64
    · have never : ¬k.guestTsc < 0#64 := by bv_omega
      simp [set,deadline,never]
    · rw [if_pos set,if_neg set,tdtMsrSet_eq (by exact deadline) set]
      simp only [deadline,true_and]
      by_cases ahead : k.guestTsc < s.apic.tdtMsr <;> simp [ahead]
  · rw [if_neg deadline,if_neg deadline]
    simp only [deadline,false_and,if_false]
    by_cases idle : s.apic.regs apicTmict = 0#32
    · rw [if_pos idle,if_pos idle]
    · rw [if_neg idle,if_neg idle]
      by_cases periodic : PeriodMode s.apic.regs
      · rw [if_pos periodic,if_pos periodic]
        rfl
      · rw [if_neg periodic,if_neg periodic]
        rfl

-- Both orders leave this, up to the deadline and the timer.
def restored (vcpuId : Nat) (s : Lapic) (hw : HwLapic) (regs : Nat → BitVec 32) (tdtMsr : BitVec 64)
    (pt : Option PeriodicTime) : Lapic where
  apic := {s.apic with
    regs := named regs (fixedId vcpuId hw.apicBaseMsr (regs apicId) (regs apicLdr))
      (fixedLdr vcpuId hw.apicBaseMsr (regs apicId) (regs apicLdr))
    hwDisabled := hw.hwDisabled
    swDisabled := hw.swDisabled
    timerDivisor := hw.timerDivisor
    tdtMsr := tdtMsr
    ptIrq := regs apicLvtt &&& apicVectorMask}
  apicBaseMsr := hw.apicBaseMsr
  loaded := ⟨true,true,regs apicId,regs apicLdr⟩
  pt := pt

-- The APIC is off and in x2APIC mode.
def Refused (hw : HwLapic) : Prop :=
  hw.apicBaseMsr.getLsbD apicbaseEnable = false ∧ hw.apicBaseMsr.getLsbD apicbaseExtd = true

instance : Decidable (Refused hw) := inferInstanceAs (Decidable (_ ∧ _))

theorem loadHidden_eq (vcpuId : Nat) (s : Lapic) (hw : HwLapic) (loaded : s.loaded.regs = true) :
    lapicLoadHidden vcpuId s hw = if Refused hw then none else some {s with
      apic := {s.apic with
        regs := named s.apic.regs (fixedId vcpuId hw.apicBaseMsr s.loaded.id s.loaded.ldr)
          (fixedLdr vcpuId hw.apicBaseMsr s.loaded.id s.loaded.ldr)
        hwDisabled := hw.hwDisabled
        swDisabled := hw.swDisabled
        timerDivisor := hw.timerDivisor
        tdtMsr := hw.tdtMsr}
      apicBaseMsr := hw.apicBaseMsr
      loaded.hw := true} := by
  unfold lapicLoadHidden
  simp only [loaded,if_true,fixup_eq,vlapicX2apicMode,Refused,Bool.and_eq_true,Bool.not_eq_true']

theorem hidden_refused (vcpuId : Nat) (s : Lapic) {hw : HwLapic} (refused : Refused hw) :
    lapicLoadHidden vcpuId s hw = none := by
  unfold lapicLoadHidden
  cases loaded : s.loaded.regs <;>
    simp [loaded,fixup_eq,vlapicX2apicMode,refused.1,refused.2]

-- A fix-up changes no register that the timer reads.
theorem lvtt_named (regs : Nat → BitVec 32) (a b : BitVec 32) : named regs a b apicLvtt = regs apicLvtt :=
  named_other regs a b (by decide) (by decide)

theorem tmict_named (regs : Nat → BitVec 32) (a b : BitVec 32) : named regs a b apicTmict = regs apicTmict :=
  named_other regs a b (by decide) (by decide)

theorem deadlineMode_named (regs : Nat → BitVec 32) (a b : BitVec 32) :
    DeadlineMode (named regs a b) ↔ DeadlineMode regs := by
  rw [DeadlineMode,DeadlineMode,lvtt_named]

theorem periodMode_named (regs : Nat → BitVec 32) (a b : BitVec 32) :
    PeriodMode (named regs a b) ↔ PeriodMode regs := by
  rw [PeriodMode,PeriodMode,lvtt_named]

theorem armed_named (k : Clock) (regs : Nat → BitVec 32) (a b : BitVec 32) (divisor : Nat) (tdtMsr : BitVec 64)
    (old : Option PeriodicTime) : armed k (named regs a b) divisor tdtMsr old = armed k regs divisor tdtMsr old := by
  simp only [armed,deadlineMode_named,periodMode_named,lvtt_named,tmict_named]

theorem deadlineLeft_named (k : Clock) (regs : Nat → BitVec 32) (a b : BitVec 32) (tdtMsr : BitVec 64) :
    deadlineLeft k (named regs a b) tdtMsr = deadlineLeft k regs tdtMsr := by
  simp only [deadlineLeft,deadlineMode_named]

theorem loadRegs_eq (vcpuId : Nat) (k : Clock) (s : Lapic) (regs : Nat → BitVec 32) :
    lapicLoadRegs vcpuId k s regs = {s with
      apic := {s.apic with
        regs := if s.loaded.hw then named regs (fixedId vcpuId s.apicBaseMsr (regs apicId) (regs apicLdr))
          (fixedLdr vcpuId s.apicBaseMsr (regs apicId) (regs apicLdr)) else regs
        ptIrq := regs apicLvtt &&& apicVectorMask
        tdtMsr := deadlineLeft k regs s.apic.tdtMsr}
      loaded := ⟨s.loaded.hw,true,regs apicId,regs apicLdr⟩
      pt := armed k regs s.apic.timerDivisor s.apic.tdtMsr s.pt} := by
  unfold lapicLoadRegs
  cases loaded : s.loaded.hw with
  | false => simp [loaded,rearm_eq,Vlapic.getReg]
  | true => simp [loaded,rearm_eq,fixup_eq,Vlapic.getReg,armed_named,deadlineLeft_named,lvtt_named]

theorem hiddenFirst_eq (vcpuId : Nat) (k : Clock) (s : Lapic) (hw : HwLapic) (regs : Nat → BitVec 32) :
    hiddenFirst vcpuId k s hw regs = if Refused hw then none else
      some (restored vcpuId s hw regs (deadlineLeft k regs hw.tdtMsr) (armed k regs hw.timerDivisor hw.tdtMsr s.pt)) := by
  unfold hiddenFirst
  by_cases refused : Refused hw
  · rw [hidden_refused vcpuId s refused,if_pos refused]
    rfl
  · have accepted : ¬(hw.apicBaseMsr.getLsbD apicbaseEnable = false ∧ hw.apicBaseMsr.getLsbD apicbaseExtd = true) := refused
    rw [if_neg refused]
    unfold lapicLoadHidden
    cases loaded : s.loaded.regs <;>
      simp [loaded,fixup_eq,vlapicX2apicMode,accepted,loadRegs_eq,restored]

theorem regsFirst_eq (vcpuId : Nat) (k : Clock) (s : Lapic) (hw : HwLapic) (regs : Nat → BitVec 32) :
    regsFirst vcpuId k s hw regs = if Refused hw then none else
      some (restored vcpuId s hw regs hw.tdtMsr (armed k regs s.apic.timerDivisor s.apic.tdtMsr s.pt)) := by
  unfold regsFirst
  rw [loadHidden_eq _ _ _ (by rw [loadRegs_eq]),loadRegs_eq]
  cases loaded : s.loaded.hw <;> simp [restored,named_named]

theorem reset_divisor (vcpuId : Nat) (s : Lapic) : (reset vcpuId s).apic.timerDivisor = 2 := rfl

theorem reset_deadline (vcpuId : Nat) (s : Lapic) : (reset vcpuId s).apic.tdtMsr = s.apic.tdtMsr := rfl

-- The timer runs as long with the divisor and the deadline of the record as
-- with those that the reset leaves.
def SameTimer (k : Clock) (left : BitVec 64) (hw : HwLapic) (regs : Nat → BitVec 32) : Prop :=
  if DeadlineMode regs then
    (hw.tdtMsr = 0#64 ∧ left = 0#64) ∨
      (k.guestTsc < hw.tdtMsr ∧ left ≠ 0#64 ∧ deadlineWait k hw.tdtMsr = deadlineWait k left)
  else regs apicTmict = 0#32 ∨ timerPeriod (regs apicTmict) hw.timerDivisor = timerPeriod (regs apicTmict) 2

instance {left : BitVec 64} : Decidable (SameTimer k left hw regs) := by
  unfold SameTimer
  infer_instance

theorem restored_inj {tdt tdt' : BitVec 64} {pt pt' : Option PeriodicTime} :
    restored vcpuId s hw regs tdt pt = restored vcpuId s hw regs tdt' pt' ↔ tdt = tdt' ∧ pt = pt' := by
  simp [restored]

theorem deadline_same {left : BitVec 64} (mode : DeadlineMode regs) :
    (deadlineLeft k regs hw.tdtMsr = hw.tdtMsr ∧ armed k regs hw.timerDivisor hw.tdtMsr none = armed k regs 2 left none) ↔
      SameTimer k left hw regs := by
  rw [SameTimer,if_pos mode]
  simp only [armed,deadlineLeft,mode,true_and,if_true]
  by_cases unset : hw.tdtMsr = 0#64
  · have never : ¬k.guestTsc < 0#64 := by bv_omega
    by_cases empty : left = 0#64 <;> simp [unset,never,empty]
  · by_cases empty : left = 0#64
    · simp [unset,empty]
    · by_cases ahead : k.guestTsc < hw.tdtMsr
      · simp [unset,empty,ahead]
      · simp [unset,empty,ahead,Ne.symm unset]

theorem count_same {left : BitVec 64} (mode : ¬DeadlineMode regs) :
    (deadlineLeft k regs hw.tdtMsr = hw.tdtMsr ∧ armed k regs hw.timerDivisor hw.tdtMsr none = armed k regs 2 left none) ↔
      SameTimer k left hw regs := by
  rw [SameTimer,if_neg mode]
  simp only [armed,deadlineLeft,mode,false_and,if_false]
  by_cases idle : regs apicTmict = 0#32
  · simp [idle]
  · by_cases periodic : PeriodMode regs
    · refine ⟨fun same => .inr ?_,fun same => ?_⟩
      · simp only [idle,periodic,if_true,if_false,Option.some.injEq,PeriodicTime.mk.injEq] at same
        exact same.2.1
      · simp only [idle,periodic,if_true,if_false,same.resolve_left idle,and_self]
    · simp [idle,periodic]

-- The registers never depend on the order of the records; the deadline and
-- the timer do, unless the state that a reset leaves arms the same timer.
theorem restore_order (vcpuId : Nat) (k : Clock) (s : Lapic) (hw : HwLapic) (regs : Nat → BitVec 32) :
    (hiddenFirst vcpuId k (reset vcpuId s) hw regs).map (fun s => (s.apic.regs,s.apicBaseMsr,s.loaded)) =
        (regsFirst vcpuId k (reset vcpuId s) hw regs).map (fun s => (s.apic.regs,s.apicBaseMsr,s.loaded)) ∧
      (hiddenFirst vcpuId k (reset vcpuId s) hw regs = regsFirst vcpuId k (reset vcpuId s) hw regs ↔
        Refused hw ∨ SameTimer k s.apic.tdtMsr hw regs) := by
  rw [hiddenFirst_eq,regsFirst_eq,reset_divisor,reset_deadline]
  by_cases refused : Refused hw
  · simp only [refused,if_true,true_or,and_self]
  · simp only [refused,if_false,false_or]
    refine ⟨rfl,?_⟩
    rw [Option.some.injEq,restored_inj]
    by_cases mode : DeadlineMode regs
    · exact deadline_same mode
    · exact count_same mode

-- A guest that divides by sixteen and counts a thousand, again and again.
def counting : Lapic :=
  ⟨tmictWrite (lvttWrite (vlapicSetTdcr (spivWrite (vlapicInit 0) 0x1ff#32) 3#32) 0x20031#32) 1000#32,
    0xfee00900#64,⟨false,false,0#32,0#32⟩,none⟩

def tickClock : Clock := ⟨1000#64,id⟩

def waiting : Lapic :=
  vlapicTdtMsrSet tickClock {counting with apic := lvttWrite counting.apic 0x40031#32} 5000#64

def madeAnew : Lapic := reset 0 ⟨vlapicInit 0,0xfee00900#64,⟨false,false,0#32,0#32⟩,none⟩

-- With the registers first, the periodic timer has the wrong period and the
-- deadline is not armed.
theorem restore_order_differs :
    (hiddenFirst 0 tickClock madeAnew (lapicSave counting).1 (lapicSave counting).2).map (·.pt) =
        some (some ⟨160000,160000,0x31#32,.vlapicPtCb⟩) ∧
      (regsFirst 0 tickClock madeAnew (lapicSave counting).1 (lapicSave counting).2).map (·.pt) =
        some (some ⟨20000,100000,0x31#32,.vlapicPtCb⟩) ∧
      (hiddenFirst 0 tickClock madeAnew (lapicSave waiting).1 (lapicSave waiting).2).map (·.pt) =
        some (some ⟨4000,0,0x31#32,.vlapicTdtPtCb⟩) ∧
      (regsFirst 0 tickClock madeAnew (lapicSave waiting).1 (lapicSave waiting).2).map (·.pt) = some none := by
  refine ⟨?_,?_,?_,?_⟩ <;> decide +kernel

end XenAet.LapicRestore
