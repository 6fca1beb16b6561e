import Mathlib.Data.BitVec
import Mathlib.Logic.Function.Basic
import XenAet.Library.Run
import XenAet.PicRequests
import XenAet.PlatformTimer

namespace XenAet.VirtualHpet
open XenAet.PlatformTimer
open Library

def hpetCfgEnable : BitVec 64 := 0x1#64
def hpetCfgLegacy : BitVec 64 := 0x2#64
def hpetTnLevel : BitVec 64 := 0x2#64
def hpetTnEnable : BitVec 64 := 0x4#64
def hpetTnPeriodic : BitVec 64 := 0x8#64
def hpetTnSetval : BitVec 64 := 0x40#64
def hpetTn32Bit : BitVec 64 := 0x100#64
def hpetTnRoute : BitVec 64 := 0x3e00#64

def hpetTimerNum : Nat := 3

structure TimerRegs where
  config : BitVec 64
  cmp : BitVec 64
  fsb : BitVec 64

-- `created` is not in the source: the interrupt numbers with which
-- `create_periodic_time` was called. `pt0` is the timer of the PIT.
structure State where
  capability : BitVec 64
  config : BitVec 64
  isr : BitVec 64
  mc64 : BitVec 64
  timers : Nat → TimerRegs
  period : Nat → BitVec 64
  comparator64 : Nat → BitVec 64
  stimeFreq : BitVec 64
  hpetToNsScale : BitVec 64
  hpetToNsLimit : BitVec 64
  mcOffset : BitVec 64
  pt : Nat → PeriodicTime
  pt0 : PeriodicTime
  created : List Nat

-- What a call reads besides the HPET: the vcpu that platform timers go to,
-- the guest's time in HPET ticks and in ns, and the system time.
structure Clock where
  target : Nat
  hpetTime : BitVec 64
  guestTime : Nat
  now : Int
  vptAlign : Bool

def low32 (x : BitVec 64) : BitVec 64 := x &&& 0xffffffff#64

def timerEnabled (s : State) (tn : Nat) : Bool := (s.timers tn).config &&& hpetTnEnable != 0#64
def timerIsPeriodic (s : State) (tn : Nat) : Bool := (s.timers tn).config &&& hpetTnPeriodic != 0#64
def timerIs32Bit (s : State) (tn : Nat) : Bool := (s.timers tn).config &&& hpetTn32Bit != 0#64
def timerLevel (s : State) (tn : Nat) : Bool := (s.timers tn).config &&& hpetTnLevel != 0#64
def hpetEnabled (s : State) : Bool := s.config &&& hpetCfgEnable != 0#64
def legacy (s : State) : Bool := s.config &&& hpetCfgLegacy != 0#64

def timerIntRoute (s : State) (tn : Nat) : Nat := (((s.timers tn).config &&& hpetTnRoute) >>> 9).toNat

def hpetTickToNs (s : State) (tick : BitVec 64) : BitVec 64 :=
  (if s.hpetToNsLimit < tick then BitVec.allOnes 64 else tick * s.hpetToNsScale) >>> 10

def State.setTimer (s : State) (tn : Nat) (t : TimerRegs) : State := {s with timers := Function.update s.timers tn t}

def hpetReadMaincounter (s : State) (guestTime : BitVec 64) : BitVec 64 :=
  if hpetEnabled s then guestTime + s.mcOffset else s.mc64

-- The comparator after the periods that have gone by.
def advanced (s : State) (tn : Nat) (guestTime : BitVec 64) : BitVec 64 :=
  let comparator := s.comparator64 tn
  let period := s.period tn
  if hpetEnabled s && timerIsPeriodic s tn && period != 0#64 then
    let elapsed := hpetReadMaincounter s guestTime - comparator
    if elapsed.slt 0#64 then comparator else comparator + (elapsed + period) / period * period
  else comparator

def hpetGetComparator (s : State) (tn : Nat) (guestTime : BitVec 64) : State × BitVec 64 :=
  let running := advanced s tn guestTime
  let comparator := if timerIs32Bit s tn then low32 running else running
  let s := {s with comparator64 := Function.update s.comparator64 tn running}
  (s.setTimer tn {s.timers tn with cmp := comparator},comparator)

inductive Reg where
  | id
  | cfg
  | status
  | counter
  | tnCfg (tn : Nat)
  | tnCmp (tn : Nat)
  | tnRoute (tn : Nat)
  | unsupported
deriving DecidableEq

-- The register of an offset below `HPET_MMAP_SIZE`; a timer's registers are
-- 0x20 apart.
def regOf (addr : Nat) : Reg :=
  let aligned := addr / 8 * 8
  if aligned = 0x000 then .id
  else if aligned = 0x010 then .cfg
  else if aligned = 0x020 then .status
  else if aligned = 0x0f0 then .counter
  else if aligned = 0x100 ∨ aligned = 0x120 ∨ aligned = 0x140 then .tnCfg ((addr - 0x100) / 0x20)
  else if aligned = 0x108 ∨ aligned = 0x128 ∨ aligned = 0x148 then .tnCmp ((addr - 0x108) / 0x20)
  else if aligned = 0x110 ∨ aligned = 0x130 ∨ aligned = 0x150 then .tnRoute ((addr - 0x110) / 0x20)
  else .unsupported

def hpetRead64 (s : State) (reg : Reg) (guestTime : BitVec 64) : State × BitVec 64 :=
  match reg with
  | .id => (s,s.capability)
  | .cfg => (s,s.config)
  | .status => (s,s.isr)
  | .counter => (s,hpetReadMaincounter s guestTime)
  | .tnCfg tn => (s,(s.timers tn).config)
  | .tnCmp tn => hpetGetComparator s tn guestTime
  | .tnRoute tn => (s,(s.timers tn).fsb)
  | .unsupported => (s,0#64)

def hpetStopTimer (k : Clock) (s : State) (tn : Nat) : State :=
  (hpetGetComparator {s with pt := Function.update s.pt tn (destroyPeriodicTime (s.pt tn))} tn k.hpetTime).1

-- The ticks that stand for 1/2^10 s.
def hpetTinyTimeSpan (s : State) : BitVec 64 := s.stimeFreq >>> 10 / 16#64

-- The ticks from now; a time in the past is now, unless a 32-bit counter may
-- have wrapped.
def ticksUntil (s : State) (tn : Nat) (tnCmp curTick : BitVec 64) : BitVec 64 :=
  let diff := if timerIs32Bit s tn then low32 tnCmp - low32 curTick else tnCmp - curTick
  if diff.slt 0#64 then (if timerIs32Bit s tn && decide (hpetTinyTimeSpan s < -diff) then low32 diff else 0#64) else diff

def routedIrq (s : State) (tn : Nat) : Nat :=
  if tn ≤ 1 ∧ legacy s = true then (if tn = 0 then 0 else 8) else timerIntRoute s tn

def startPt (k : Clock) (s : State) (tn : Nat) (diff : BitVec 64) : State :=
  let irq := routedIrq s tn
  let period := if timerIsPeriodic s tn then (hpetTickToNs s (s.period tn)).toNat else 0
  let request : Request := ⟨k.target,(hpetTickToNs s diff).toNat,period,irq,false,k.now,k.guestTime,k.vptAlign⟩
  {s with pt := Function.update s.pt tn (createPeriodicTime request (s.pt tn)),created := s.created ++ [irq]}

-- The PIT gives no interrupts when timer 0 stands in for it.
def stopPit (s : State) (tn : Nat) : State :=
  if tn = 0 ∧ legacy s = true then {s with pt0 := destroyPeriodicTime s.pt0} else s

def hpetSetTimer (k : Clock) (s : State) (tn : Nat) : State :=
  let s := stopPit s tn
  if timerEnabled s tn then
    let (s,tnCmp) := hpetGetComparator s tn k.hpetTime
    startPt k s tn (ticksUntil s tn tnCmp (hpetReadMaincounter s k.hpetTime))
  else s

def hpetFixupReg (new old mask : BitVec 64) : BitVec 64 := (new &&& mask) ||| (old &&& ~~~mask)

-- `start_timers` and `stop_timers` with the state they are gathered in.
structure Gathered where
  state : State
  stop : Nat → Bool
  start : Nat → Bool

def keep (s : State) : Gathered := ⟨s,fun _ => false,fun _ => false⟩

def writeCfg (k : Clock) (s : State) (old new : BitVec 64) : Gathered :=
  let s := {s with config := hpetFixupReg new old 0x3#64}
  if old &&& hpetCfgEnable = 0#64 ∧ new &&& hpetCfgEnable ≠ 0#64 then
    let loaded (i : Nat) : BitVec 64 := if timerIs32Bit s i then low32 (s.timers i).cmp else (s.timers i).cmp
    let s := {s with
      mcOffset := s.mc64 - k.hpetTime
      comparator64 := fun i => if i < hpetTimerNum then loaded i else s.comparator64 i}
    ⟨s,fun _ => false,timerEnabled s⟩
  else if old &&& hpetCfgEnable ≠ 0#64 ∧ new &&& hpetCfgEnable = 0#64 then
    let s := {s with mc64 := s.mcOffset + k.hpetTime}
    ⟨s,timerEnabled s,fun _ => false⟩
  else keep s

def writeCounter (s : State) (new : BitVec 64) : Gathered :=
  let s := {s with mc64 := new}
  if hpetEnabled s then ⟨s,timerEnabled s,timerEnabled s⟩ else keep s

-- A timer that goes to 32 bits keeps the low half of its comparator and period.
def cutTo32 (s : State) (tn : Nat) (new : BitVec 64) : State :=
  if new &&& hpetTn32Bit ≠ 0#64 then
    {s.setTimer tn {s.timers tn with cmp := low32 (s.timers tn).cmp} with
      period := Function.update s.period tn (low32 (s.period tn))}
  else s

-- The timer restarts when it changes its mode or its width, starts when it
-- becomes enabled and stops when it becomes disabled.
def gatherTnCfg (s : State) (tn : Nat) (old new : BitVec 64) : Gathered :=
  let this (i : Nat) : Bool := i == tn
  if hpetEnabled s then
    if new &&& hpetTnEnable ≠ 0#64 then
      if (new ^^^ old) &&& hpetTnPeriodic ≠ 0#64 then ⟨s,this,this⟩
      else if new &&& hpetTn32Bit ≠ 0#64 ∧ old &&& hpetTn32Bit = 0#64 then ⟨s,this,this⟩
      else if old &&& hpetTnEnable = 0#64 then ⟨s,fun _ => false,this⟩
      else keep s
    else if old &&& hpetTnEnable ≠ 0#64 then ⟨s,this,fun _ => false⟩
    else keep s
  else keep s

-- With level triggering the domain is crashed and no timer is touched.
def writeTnCfg (s : State) (tn : Nat) (old new : BitVec 64) : Gathered :=
  let s := s.setTimer tn {s.timers tn with config := hpetFixupReg new old 0x3f4e#64}
  if timerLevel s tn then keep s else gatherTnCfg (cutTo32 s tn new) tn old new

-- At least 100 us, and no more than half of what the counter holds.
def clampTicks (s : State) (tn : Nat) (new : BitVec 64) : BitVec 64 :=
  let maxPeriod : BitVec 64 := (if timerIs32Bit s tn then 0xffffffff#64 else BitVec.allOnes 64) >>> 1
  let new := if (hpetTickToNs s new).slt 100000#64 then (100000#64 <<< 10) / s.hpetToNsScale else new
  if maxPeriod < new then maxPeriod else new

def setPeriod (s : State) (tn : Nat) (new : BitVec 64) : State :=
  {s with period := Function.update s.period tn (clampTicks s tn new)}

-- Writing the comparator clears `HPET_TN_SETVAL`.
def setComparator (s : State) (tn : Nat) (new : BitVec 64) : State :=
  let cmp := if timerIs32Bit s tn then low32 new else new
  {s.setTimer tn {s.timers tn with config := (s.timers tn).config &&& ~~~hpetTnSetval,cmp := cmp} with
    comparator64 := Function.update s.comparator64 tn new}

def storeCmp (s : State) (tn : Nat) (new : BitVec 64) : State :=
  if timerIsPeriodic s tn && ((s.timers tn).config &&& hpetTnSetval == 0#64) then setPeriod s tn new
  else setComparator s tn new

def writeTnCmp (s : State) (tn : Nat) (new : BitVec 64) : Gathered :=
  let s := storeCmp s tn new
  let this (i : Nat) : Bool := i == tn
  if hpetEnabled s && timerEnabled s tn then ⟨s,this,this⟩ else keep s

def writeReg (k : Clock) (s : State) (reg : Reg) (old new : BitVec 64) : Gathered :=
  match reg with
  | .cfg => writeCfg k s old new
  | .counter => writeCounter s new
  | .tnCfg tn => writeTnCfg s tn old new
  | .tnCmp tn => writeTnCmp s tn new
  | .tnRoute tn => keep (s.setTimer tn {s.timers tn with fsb := new})
  | .id | .status | .unsupported => keep s

def settle (k : Clock) (g : Gathered) : State :=
  let stopped := ((List.range hpetTimerNum).filter g.stop).foldl (hpetStopTimer k) g.state
  ((List.range hpetTimerNum).filter g.start).foldl (hpetSetTimer k) stopped

structure Write where
  addr : BitVec 64
  length : BitVec 64
  val : BitVec 64

def Write.offset (w : Write) : BitVec 64 := w.addr &&& 0x3ff#64

def Write.reg (w : Write) : Reg := regOf w.offset.toNat

-- `hpet_check_access_length`.
def Write.refused (w : Write) : Bool := (w.offset &&& (w.length - 1#64) != 0#64) || decide (8#64 < w.length)

def Write.shift (w : Write) : Nat := (w.offset &&& 7#64).toNat * 8

def Write.mask (w : Write) : BitVec 64 := (1#64 <<< (w.length.toNat * 8) - 1#64) <<< w.shift

-- The new value of the register, with what the write leaves out from the old.
def Write.merge (w : Write) (old : BitVec 64) : BitVec 64 :=
  if w.length = 8#64 then w.val else hpetFixupReg (w.val <<< w.shift) old w.mask

def hpetWrite (k : Clock) (s : State) (w : Write) : State :=
  if w.refused then s
  else
    let (s,old) := hpetRead64 s w.reg k.hpetTime
    settle k (writeReg k s w.reg old (w.merge old))

def capTimer : TimerRegs := ⟨0x00f0000000000030#64,BitVec.allOnes 64,0#64⟩

def hpetInit (pt0 : PeriodicTime) : State where
  capability := 0x00f424008086a201#64
  config := 0#64
  isr := 0#64
  mc64 := 0#64
  timers _ := capTimer
  period _ := 0#64
  comparator64 _ := BitVec.allOnes 64
  stimeFreq := 1000000000#64
  hpetToNsScale := 16384#64
  hpetToNsLimit := BitVec.allOnes 64 / 16384#64
  mcOffset := 0#64
  pt _ := PeriodicTime.blank .isa
  pt0 := pt0
  created := []

def next (s : State) (call : Clock × Write) : Option State := some (hpetWrite call.1 s call.2)

-- `vpic` has two elements, one for each PIC, and the redirection table one
-- for each pin; an index past them is none. `acceptPic` is
-- `vlapic_accept_pic_intr`, `lapicMasked` whether the APIC timer is masked.
structure Controllers where
  vpic : VirtualPic.State
  redirVector : Nat → Nat
  redirMask : Nat → Bool
  acceptPic : Nat → Bool
  lapicMasked : Nat → Bool
  lines : IrqLines.State
  usePirq : Nat → Bool

def Controllers.vpicAt (c : Controllers) (i : Nat) : Option VirtualPic.Vpic := [c.vpic.master,c.vpic.slave][i]?

def redirAt (table : Nat → α) (gsi : Nat) : Option α := if gsi < IrqLines.pins then some (table gsi) else none

def isaIrqToGsi (isaIrq : Nat) : Nat := if isaIrq = 0 then 2 else isaIrq

-- The two sources an ISA timer's vector is looked up for.
inductive Intsrc where
  | pic
  | lapic
deriving DecidableEq

def ptIrqVector (c : Controllers) (pt : PeriodicTime) (src : Intsrc) : Option Nat :=
  if pt.source = .lapic then some pt.irq
  else
    match src with
    | .pic => (c.vpicAt (pt.irq >>> 3)).map fun vpic => vpic.irqBase.toNat + (pt.irq &&& 7)
    | .lapic => redirAt c.redirVector (isaIrqToGsi pt.irq)

def ptIrqMasked (c : Controllers) (v : Nat) (pt : PeriodicTime) : Option Bool :=
  if pt.source = .lapic then some (c.lapicMasked v)
  else
    (c.vpicAt (pt.irq >>> 3)).bind fun vpic => (redirAt c.redirMask (isaIrqToGsi pt.irq)).map fun mask =>
      (vpic.imr.getLsbD (pt.irq &&& 7) || !c.acceptPic v) && mask

-- With their ASSERT that the line is one of the 16.
def hvmIsaIrqAssert (lines : IrqLines.State) (isaIrq : Nat) : Option IrqLines.State :=
  if line : isaIrq < 16 then some (IrqLines.isaIrqAssert lines ⟨isaIrq,line⟩) else none

def hvmIsaIrqDeassert (lines : IrqLines.State) (isaIrq : Nat) : Option IrqLines.State :=
  if line : isaIrq < 16 then some (IrqLines.isaIrqDeassert lines ⟨isaIrq,line⟩) else none

-- The controllers behind a change of the lines.
def Controllers.told (c : Controllers) (lines : IrqLines.State) : Controllers :=
  {c with lines := lines,vpic := lines.edges.foldl (PicRequests.tellPic c.usePirq) c.vpic}

-- `pt_update_irq` from the choice of an ISA timer on: its line is pulsed, and
-- the answer is its vector unless the PIC has it now.
def raiseIsa (c : Controllers) (v : Nat) (pt : PeriodicTime) : Option (Controllers × Option Nat) :=
  (hvmIsaIrqDeassert {c.lines with edges := []} pt.irq).bind fun lines => (hvmIsaIrqAssert lines pt.irq).bind fun lines =>
    let c := c.told lines
    if pt.irq < 16 ∧ c.acceptPic v = true then
      (c.vpicAt (pt.irq >>> 3)).bind fun vpic =>
        if vpic.intOutput then some (c,none) else (ptIrqVector c pt .lapic).map fun vector => (c,some vector)
    else (ptIrqVector c pt .lapic).map fun vector => (c,some vector)

-- Every lookup for a timer finds its element, and the ASSERT holds.
structure InBounds (c : Controllers) (v : Nat) (pt : PeriodicTime) : Prop where
  vector : ∀ src, (ptIrqVector c pt src).isSome = true
  masked : (ptIrqMasked c v pt).isSome = true
  raised : (raiseIsa c v pt).isSome = true

theorem inBounds_isa {c : Controllers} {pt : PeriodicTime} (small : pt.irq ≤ 15) : InBounds c v pt := by
  have half : pt.irq >>> 3 < 2 := by
    rw [Nat.shiftRight_eq_div_pow]
    omega
  have found (c : Controllers) : ∃ vpic, c.vpicAt (pt.irq >>> 3) = some vpic := ⟨_,List.getElem?_eq_getElem half⟩
  have pin {α : Type} (field : Nat → α) : ∃ x, redirAt field (isaIrqToGsi pt.irq) = some x := by
    have below : isaIrqToGsi pt.irq < IrqLines.pins := by
      rw [isaIrqToGsi]
      split <;> simp only [IrqLines.pins] <;> omega
    exact ⟨_,if_pos below⟩
  have vector (c : Controllers) : ∀ src, (ptIrqVector c pt src).isSome = true := by
    intro src
    obtain ⟨x,at_⟩ := pin c.redirVector
    obtain ⟨vpic,here⟩ := found c
    cases src <;> simp only [ptIrqVector,here,at_] <;> split <;> rfl
  have line : pt.irq < 16 := Nat.lt_succ_of_le small
  refine ⟨vector c,?_,?_⟩
  · obtain ⟨x,at_⟩ := pin c.redirMask
    obtain ⟨vpic,here⟩ := found c
    simp only [ptIrqMasked,here,at_]
    split <;> rfl
  · simp only [raiseIsa,hvmIsaIrqDeassert,hvmIsaIrqAssert,line,dif_pos,Option.bind_some]
    generalize c.told _ = c
    obtain ⟨x,answer⟩ := Option.isSome_iff_exists.mp (vector c .lapic)
    obtain ⟨vpic,here⟩ := found c
    simp only [here,answer,Option.bind_some,Option.map_some]
    split
    · split <;> rfl
    · rfl

variable {s s' : State} {k : Clock} {tn : Nat}

-- The top bit of the interrupt route.
def routeTop : BitVec 64 := 0x2000#64

structure Bounded (s : State) : Prop where
  routed : ∀ tn, (s.timers tn).config &&& routeTop = 0#64
  created : ∀ irq ∈ s.created, irq ≤ 15
  pts : ∀ tn, (s.pt tn).irq ≤ 15

theorem route_small (routed : (s.timers tn).config &&& routeTop = 0#64) : timerIntRoute s tn ≤ 15 := by
  have split_ : hpetTnRoute = 0x1e00#64 ||| routeTop := by decide
  rw [timerIntRoute,split_,BitVec.and_or_distrib_left,routed,BitVec.or_zero,BitVec.toNat_ushiftRight,BitVec.toNat_and,
    Nat.shiftRight_eq_div_pow]
  have low : (s.timers tn).config.toNat &&& (0x1e00#64).toNat ≤ 0x1e00 := Nat.and_le_right
  omega

theorem routedIrq_small (bounded : Bounded s) (tn : Nat) : routedIrq s tn ≤ 15 := by
  rw [routedIrq]
  split
  · split <;> decide
  · exact route_small (bounded.routed tn)

-- What leaves the configurations, the timers and the record alone.
theorem Bounded.frame (bounded : Bounded s) (config : ∀ tn, (s'.timers tn).config = (s.timers tn).config)
    (created : s'.created = s.created) (pt : s'.pt = s.pt) : Bounded s' := by
  refine ⟨fun tn => ?_,?_,?_⟩
  · rw [config tn]
    exact bounded.routed tn
  · rw [created]
    exact bounded.created
  · rw [pt]
    exact bounded.pts

theorem setTimer_self {t : TimerRegs} : (s.setTimer tn t).timers tn = t := Function.update_self ..

theorem setTimer_other {t : TimerRegs} (other : i ≠ tn) : (s.setTimer tn t).timers i = s.timers i := Function.update_of_ne other ..

theorem setTimer_config {t : TimerRegs} (same : t.config = (s.timers tn).config) (i : Nat) :
    ((s.setTimer tn t).timers i).config = (s.timers i).config := by
  by_cases here : i = tn
  · rw [here,setTimer_self,same]
  · rw [setTimer_other here]

theorem bounded_setTimer {t : TimerRegs} (bounded : Bounded s) (routed : t.config &&& routeTop = 0#64) :
    Bounded (s.setTimer tn t) := by
  refine ⟨fun i => ?_,bounded.created,bounded.pts⟩
  by_cases here : i = tn
  · rw [here,setTimer_self]
    exact routed
  · rw [setTimer_other here]
    exact bounded.routed i

theorem getComparator_bounded (bounded : Bounded s) (guestTime : BitVec 64) :
    Bounded (hpetGetComparator s tn guestTime).1 :=
  bounded.frame (setTimer_config rfl) rfl rfl

theorem read64_bounded (bounded : Bounded s) (reg : Reg) (guestTime : BitVec 64) : Bounded (hpetRead64 s reg guestTime).1 := by
  cases reg with
  | tnCmp tn => exact getComparator_bounded bounded guestTime
  | _ => exact bounded

theorem destroy_irq (pt : PeriodicTime) : (destroyPeriodicTime pt).irq = pt.irq := by
  rw [destroyPeriodicTime]
  split <;> rfl

theorem bounded_pt {pt : PeriodicTime} (bounded : Bounded s) (small : pt.irq ≤ 15) :
    Bounded {s with pt := Function.update s.pt tn pt} := by
  refine ⟨bounded.routed,bounded.created,fun i => ?_⟩
  by_cases here : i = tn
  · subst here
    change (Function.update s.pt i pt i).irq ≤ 15
    rwa [Function.update_self]
  · change (Function.update s.pt tn pt i).irq ≤ 15
    rw [Function.update_of_ne here]
    exact bounded.pts i

theorem stopTimer_bounded (bounded : Bounded s) : Bounded (hpetStopTimer k s tn) := by
  apply getComparator_bounded
  apply bounded_pt bounded
  rw [destroy_irq]
  exact bounded.pts tn

theorem startPt_bounded (bounded : Bounded s) (diff : BitVec 64) : Bounded (startPt k s tn diff) := by
  have small := routedIrq_small bounded tn
  have recorded : Bounded {s with created := s.created ++ [routedIrq s tn]} := by
    refine ⟨bounded.routed,fun irq listed => ?_,bounded.pts⟩
    rcases List.mem_append.mp listed with before | last
    · exact bounded.created irq before
    · rw [List.mem_singleton.mp last]
      exact small
  refine bounded_pt recorded ?_
  exact Nat.le_trans (Nat.mod_le _ _) small

theorem stopPit_bounded (bounded : Bounded s) : Bounded (stopPit s tn) := by
  unfold stopPit
  split
  · exact bounded.frame (fun _ => rfl) rfl rfl
  · exact bounded

theorem setTimer_bounded (bounded : Bounded s) : Bounded (hpetSetTimer k s tn) := by
  have pit : Bounded (stopPit s tn) := stopPit_bounded bounded
  unfold hpetSetTimer
  dsimp only
  split
  · exact startPt_bounded (getComparator_bounded pit k.hpetTime) _
  · exact pit

theorem foldl_bounded {f : State → Nat → State} (kept : ∀ s tn, Bounded s → Bounded (f s tn)) (bounded : Bounded s) (tns : List Nat) :
    Bounded (tns.foldl f s) := by
  induction tns generalizing s with
  | nil => exact bounded
  | cons tn rest ih => exact ih (kept s tn bounded)

theorem settle_bounded {g : Gathered} (bounded : Bounded g.state) : Bounded (settle k g) := by
  apply foldl_bounded fun s tn bounded => setTimer_bounded bounded
  exact foldl_bounded (fun s tn bounded => stopTimer_bounded bounded) bounded _

theorem writeCfg_bounded (bounded : Bounded s) (old new : BitVec 64) : Bounded (writeCfg k s old new).state := by
  unfold writeCfg
  dsimp only
  split
  · exact bounded.frame (fun _ => rfl) rfl rfl
  · split <;> exact bounded.frame (fun _ => rfl) rfl rfl

theorem writeCounter_bounded (bounded : Bounded s) (new : BitVec 64) : Bounded (writeCounter s new).state := by
  unfold writeCounter
  dsimp only
  split <;> exact bounded.frame (fun _ => rfl) rfl rfl

-- The writable bits take in the whole of the route.
theorem fixup_routed {new old : BitVec 64} (routed : new &&& routeTop = 0#64) :
    hpetFixupReg new old 0x3f4e#64 &&& routeTop = 0#64 := by
  have inside : 0x3f4e#64 &&& routeTop = routeTop := by decide
  have outside : ~~~0x3f4e#64 &&& routeTop = 0#64 := by decide
  rw [hpetFixupReg,BitVec.and_or_distrib_right,BitVec.and_assoc,inside,routed,BitVec.and_assoc,outside,BitVec.and_zero,BitVec.or_zero]

theorem gatherTnCfg_state {new old : BitVec 64} : (gatherTnCfg s tn old new).state = s := by
  unfold gatherTnCfg
  dsimp only
  repeat' split
  all_goals rfl

theorem cutTo32_bounded (bounded : Bounded s) (new : BitVec 64) : Bounded (cutTo32 s tn new) := by
  unfold cutTo32
  split
  · exact bounded.frame (setTimer_config rfl) rfl rfl
  · exact bounded

theorem writeTnCfg_bounded {new old : BitVec 64} (bounded : Bounded s) (routed : new &&& routeTop = 0#64) :
    Bounded (writeTnCfg s tn old new).state := by
  have placed : Bounded (s.setTimer tn {s.timers tn with config := hpetFixupReg new old 0x3f4e#64}) :=
    bounded_setTimer bounded (fixup_routed routed)
  unfold writeTnCfg
  dsimp only
  split
  · exact placed
  · rw [gatherTnCfg_state]
    exact cutTo32_bounded placed new

theorem storeCmp_bounded (bounded : Bounded s) (new : BitVec 64) : Bounded (storeCmp s tn new) := by
  unfold storeCmp
  split
  · exact bounded.frame (fun _ => rfl) rfl rfl
  · have routed : (s.timers tn).config &&& ~~~hpetTnSetval &&& routeTop = 0#64 := by
      rw [BitVec.and_assoc,BitVec.and_comm (~~~hpetTnSetval),← BitVec.and_assoc,bounded.routed tn,BitVec.zero_and]
    have placed : Bounded (s.setTimer tn ⟨(s.timers tn).config &&& ~~~hpetTnSetval,
      if timerIs32Bit s tn then low32 new else new,(s.timers tn).fsb⟩) := bounded_setTimer bounded routed
    exact placed.frame (fun _ => rfl) rfl rfl

theorem writeTnCmp_bounded (bounded : Bounded s) (new : BitVec 64) : Bounded (writeTnCmp s tn new).state := by
  have stored : Bounded (storeCmp s tn new) := storeCmp_bounded bounded new
  unfold writeTnCmp
  dsimp only
  split <;> exact stored

-- The ones a write brings into its register.
def Write.bits (w : Write) : BitVec 64 := if w.length = 8#64 then w.val else w.val <<< w.shift &&& w.mask

-- A write that routes no timer past the ISA lines.
def RoutesIsa (w : Write) : Prop := ∀ tn, w.reg = .tnCfg tn → w.bits &&& routeTop = 0#64

theorem merge_routed {w : Write} {old : BitVec 64} (isa : w.bits &&& routeTop = 0#64) (routed : old &&& routeTop = 0#64) :
    w.merge old &&& routeTop = 0#64 := by
  rw [Write.bits] at isa
  rw [Write.merge]
  split
  · next whole =>
    rwa [if_pos whole] at isa
  · next part =>
    rw [if_neg part] at isa
    rw [hpetFixupReg,BitVec.and_or_distrib_right,isa,BitVec.and_assoc,BitVec.and_comm (~~~w.mask),← BitVec.and_assoc,routed,
      BitVec.zero_and,BitVec.or_zero]

theorem hpetWrite_bounded {w : Write} (isa : RoutesIsa w) (bounded : Bounded s) : Bounded (hpetWrite k s w) := by
  unfold hpetWrite
  split
  · exact bounded
  have read := read64_bounded bounded w.reg k.hpetTime
  apply settle_bounded
  cases is : w.reg with
  | tnCfg tn =>
    apply writeTnCfg_bounded bounded
    exact merge_routed (isa tn is) (bounded.routed tn)
  | cfg => exact writeCfg_bounded bounded _ _
  | counter => exact writeCounter_bounded bounded _
  | tnCmp tn =>
    rw [is] at read
    exact writeTnCmp_bounded read _
  | tnRoute tn => exact bounded.frame (setTimer_config rfl) rfl rfl
  | id => exact bounded
  | status => exact bounded
  | unsupported => exact bounded

theorem hpetInit_bounded (pt0 : PeriodicTime) : Bounded (hpetInit pt0) := by
  refine ⟨fun tn => ?_,fun irq listed => absurd listed List.not_mem_nil,fun tn => Nat.zero_le _⟩
  change 0x00f0000000000030#64 &&& routeTop = 0#64
  decide

-- Over any writes none of which sets the top bit of a timer's route, every
-- timer is made for an ISA line, and every lookup for one is in bounds.
theorem isa_routes_in_bounds (pt0 : PeriodicTime) {writes : List (Clock × Write)} (isa : ∀ call ∈ writes, RoutesIsa call.2)
    (ran : Run.run next (hpetInit pt0) writes = some s) :
    (∀ irq ∈ s.created, irq ≤ 15) ∧ ∀ c v tn, InBounds c v (s.pt tn) := by
  have guarded : Run.Guarded (fun _ call => RoutesIsa call.2) next (hpetInit pt0) writes :=
    Run.guarded_of_mem fun _ call listed => isa call listed
  have bounded : Bounded s := by
    refine Run.guarded_invariant (fun s call s' bounded isa taken => ?_) (hpetInit_bounded pt0) guarded ran
    cases taken
    exact hpetWrite_bounded isa bounded
  exact ⟨bounded.created,fun c v tn => inBounds_isa (bounded.pts tn)⟩

def quiet : Clock := ⟨0,0#64,0,0,false⟩

-- Timer 2 enabled on line 11, then the whole HPET.
def lineEleven : List (Clock × Write) := [(quiet,⟨0x140#64,8#64,0x1604#64⟩),(quiet,⟨0x10#64,4#64,1#64⟩)]

theorem isa_routes_in_bounds_lineEleven : ∃ s, Run.run next (hpetInit (PeriodicTime.blank .isa)) lineEleven = some s ∧
    s.created = [11] ∧ (∀ irq ∈ s.created, irq ≤ 15) ∧ ∀ c v tn, InBounds c v (s.pt tn) := by
  have made : (Run.run next (hpetInit (PeriodicTime.blank .isa)) lineEleven).any (fun s => decide (s.created = [11])) = true := by
    decide +kernel
  obtain ⟨s,ran,created⟩ := Run.run_reaches made
  refine ⟨s,ran,created,isa_routes_in_bounds (PeriodicTime.blank .isa) (fun call listed => ?_) ran⟩
  rcases List.mem_cons.mp listed with rfl | later
  · intro tn _
    decide
  · rw [List.mem_singleton.mp later]
    intro tn is
    have cfg : regOf 0x10 = .cfg := by decide
    exact absurd (cfg.symm.trans is) Reg.noConfusion

-- The route that the capability register offers.
def lineTwenty : List (Clock × Write) := [(quiet,⟨0x100#64,8#64,0x2804#64⟩),(quiet,⟨0x10#64,4#64,1#64⟩)]

theorem offered_route_out_of_bounds : ∃ s, Run.run next (hpetInit (PeriodicTime.blank .isa)) lineTwenty = some s ∧
    s.created = [20] ∧ ∀ c v, ptIrqVector c (s.pt 0) .pic = none ∧ ptIrqMasked c v (s.pt 0) = none ∧
      hvmIsaIrqAssert c.lines (s.pt 0).irq = none := by
  have made : (Run.run next (hpetInit (PeriodicTime.blank .isa)) lineTwenty).any (fun s =>
      decide (s.created = [20] ∧ (s.pt 0).irq = 20 ∧ (s.pt 0).source = .isa)) = true := by
    decide +kernel
  obtain ⟨s,ran,created,irq,source⟩ := Run.run_reaches made
  refine ⟨s,ran,created,fun c v => ?_⟩
  have past : c.vpicAt 2 = none := rfl
  simp [ptIrqVector,ptIrqMasked,hvmIsaIrqAssert,irq,source,past]

end XenAet.VirtualHpet
