import Mathlib.Algebra.Group.Int.Defs
import Mathlib.Logic.Function.Basic
import XenAet.Library.Run
import XenAet.PlatformTimer

namespace XenAet.PlatformTicks
open XenAet.PlatformTimer

def rtcIrq : Nat := 8
def hpetTimerNum : Nat := 3

-- The timers of a domain: the PIT, the RTC, those of the HPET, and one for the
-- local APIC of each vcpu.
def pit : Nat := 0
def vrtc : Nat := 1
def vhpet (i : Nat) : Nat := 2 + i
def vlapicPt (v : Nat) : Nat := 2 + hpetTimerNum + v

def globalTimers : List Nat := pit :: vrtc :: (List.range hpetTimerNum).map vhpet

-- `tmList` are the timers that a vcpu looks at, `masked` what `pt_irq_masked`
-- says, and `target` is `i8259_target`. The last three fields are not in the
-- code: whether a timer exists, its ticks delivered so far, and when the first
-- of them was due.
structure State where
  pt : Nat → PeriodicTime
  tmList : Nat → List Nat
  running : Nat → Bool
  masked : Nat → Bool
  target : Nat
  live : Nat → Bool
  delivered : Nat → Nat
  first : Nat → Int

def missedTicks (now : Int) (pt : PeriodicTime) : Nat := ((now - pt.scheduled).tdiv pt.period + 1).toNat

def ptProcessMissedTicks (mode : Mode) (now : Int) (pt : PeriodicTime) : PeriodicTime :=
  if pt.oneShot then pt
  else if now - pt.scheduled ≤ 0 then pt
  else
    let missed := missedTicks now pt
    if mode = .noMissedTicksPending then
      {pt with doNotFreeze := decide (pt.pendingIntrNr = 0),scheduled := pt.scheduled + missed * pt.period}
    else {pt with pendingIntrNr := (pt.pendingIntrNr + missed) % 2 ^ 32,scheduled := pt.scheduled + missed * pt.period}

def setTimer (pt : PeriodicTime) : PeriodicTime := {pt with timer := some pt.scheduled}

-- The body of a loop over the list of a vcpu changes the timer it is at.
def onList (s : State) (v : Nat) (body : Nat → PeriodicTime → PeriodicTime) : State :=
  {s with pt := fun t => if t ∈ s.tmList v then body t (s.pt t) else s.pt t}

def ptSaveTimer (s : State) (v : Nat) (blocked : Bool) : State :=
  if blocked then s else onList s v fun _ pt => if pt.doNotFreeze then pt else {pt with timer := none}

-- `clock` is the time that is read for each of the timers.
def ptRestoreTimer (mode : Mode) (s : State) (v : Nat) (clock : Nat → Int) : State :=
  onList s v fun t pt => if pt.pendingIntrNr = 0 then setTimer (ptProcessMissedTicks mode (clock t) pt) else pt

def ptTimerFn (pt : PeriodicTime) : PeriodicTime :=
  {pt with pendingIntrNr := (pt.pendingIntrNr + 1) % 2 ^ 32,scheduled := pt.scheduled + pt.period,doNotFreeze := false}

-- Timer emulation is suspended; the RTC takes care of that itself.
def suspended (s : State) (t : Nat) : Bool :=
  decide ((s.pt t).pendingIntrNr ≠ 0) && (decide ((s.pt t).irq ≠ rtcIrq) || !(s.pt t).priv) && s.masked t

def lag (pt : PeriodicTime) : Nat := (pt.lastPltGtime + pt.period) % 2 ^ 64

def earliestPt (s : State) : List Nat → Nat → Option Nat → Option Nat
  | [],_,earliest => earliest
  | t :: rest,maxLag,earliest =>
    if (s.pt t).pendingIntrNr ≠ 0 ∧ suspended s t = false ∧ lag (s.pt t) < maxLag then earliestPt s rest (lag (s.pt t)) (some t)
    else earliestPt s rest maxLag earliest

-- With the timer whose interrupt is raised.
def ptUpdateIrq (s : State) (v : Nat) : State × Option Nat :=
  let earliest := earliestPt s (s.tmList v) (2 ^ 64 - 1) none
  ({onList s v (fun t pt => {pt with
      onList := pt.onList && !suspended s t
      irqIssued := pt.irqIssued || decide (earliest = some t)}) with
    tmList := Function.update s.tmList v ((s.tmList v).filter fun t => !suspended s t)},earliest)

-- `matching` says for which timers the vector is the acknowledged one.
def isPtIrq (s : State) (v : Nat) (matching : Nat → Bool) : Option Nat :=
  (s.tmList v).find? fun t => decide ((s.pt t).pendingIntrNr ≠ 0) && (s.pt t).irqIssued && matching t

def setPt (s : State) (t : Nat) (pt : PeriodicTime) : State := {s with pt := Function.update s.pt t pt}

-- `list_del`, where the timer is on a list.
def unlink (s : State) (t : Nat) : Nat → List Nat :=
  match (s.pt t).vcpu with
  | none => s.tmList
  | some v => if (s.pt t).onList then Function.update s.tmList v ((s.tmList v).erase t) else s.tmList

def posted (mode : Mode) (now : Int) (guestTime : Nat) (pt : PeriodicTime) : PeriodicTime :=
  let pt := {pt with irqIssued := false}
  if pt.oneShot then {pt with onList := false,pendingIntrNr := 0}
  else if mode = .oneMissedTickPending ∨ mode = .noMissedTicksPending then
    setTimer {ptProcessMissedTicks mode now {pt with lastPltGtime := guestTime} with pendingIntrNr := 0}
  else
    let pt := {pt with lastPltGtime := lag pt,pendingIntrNr := pt.pendingIntrNr - 1}
    if pt.pendingIntrNr = 0 then
      let pt := ptProcessMissedTicks mode now pt
      if pt.pendingIntrNr = 0 then setTimer pt else pt
    else pt

def ptIntrPost (mode : Mode) (s : State) (v : Nat) (matching : Nat → Bool) (now : Int) (guestTime : Nat) : State :=
  match isPtIrq s v matching with
  | none => s
  | some t =>
    {setPt s t (posted mode now guestTime (s.pt t)) with
      tmList := if (s.pt t).oneShot then unlink s t else s.tmList
      delivered := Function.update s.delivered t (s.delivered t + 1)}

-- `destroy_periodic_time` and `create_periodic_time`, with the lists.
def destroy (s : State) (t : Nat) : State :=
  {setPt s t (destroyPeriodicTime (s.pt t)) with tmList := unlink s t,live := Function.update s.live t false}

def create (s : State) (t : Nat) (r : Request) : State :=
  let lists := unlink s t
  {setPt s t (createPeriodicTime r (s.pt t)) with
    tmList := Function.update lists r.vcpu (t :: lists r.vcpu)
    live := Function.update s.live t true
    delivered := Function.update s.delivered t 0
    first := Function.update s.first t (firstDeadline (s.pt t).source r)}

def ptAdjustVcpu (v : Nat) (s : State) (t : Nat) : State :=
  match (s.pt t).vcpu with
  | none => s
  | some _ =>
    let lists := unlink s t
    {setPt s t {s.pt t with vcpu := some v} with
      tmList := if (s.pt t).onList then Function.update lists v (t :: lists v) else lists}

def ptAdjustGlobalVcpuTarget (s : State) (v : Nat) : State := globalTimers.foldl (ptAdjustVcpu v) s

def ptResume (s : State) (t : Nat) : State :=
  match (s.pt t).vcpu with
  | none => s
  | some v =>
    if (s.pt t).pendingIntrNr ≠ 0 ∧ (s.pt t).onList = false then
      {setPt s t {s.pt t with onList := true} with tmList := Function.update s.tmList v (t :: s.tmList v)}
    else s

def ptMayUnmaskIrq (s : State) (d : Bool) (vlapicPt : Option Nat) : State :=
  let s := if d then globalTimers.foldl ptResume s else s
  match vlapicPt with
  | none => s
  | some t => ptResume s t

-- The end of `vlapic_adjust_i8259_target`: `v` accepts the interrupts of the PIC.
def vlapicAdjustI8259Target (s : State) (v : Nat) : State :=
  if s.target = v then s else ptAdjustGlobalVcpuTarget {s with target := v} v

-- `mask` and `unmask` change what is masked, by writes to the PIC, to the
-- IO-APIC or to a local APIC, and the second one is told to the timers.
-- `lint0` is such a write to `APIC_LVT0` or to the first redirection entry,
-- after which `v` gets the interrupts of the PIC.
inductive Event where
  | create (t : Nat) (r : Request)
  | destroy (t : Nat)
  | expire (t : Nat)
  | deschedule (v : Nat) (blocked : Bool)
  | reschedule (v : Nat) (clock : Nat → Int)
  | updateIrq (v : Nat)
  | intrPost (v : Nat) (matching : Nat → Bool) (now : Int) (guestTime : Nat)
  | mask (masked : Nat → Bool)
  | unmask (masked : Nat → Bool) (d : Bool) (vlapicPt : Option Nat)
  | lint0 (masked : Nat → Bool) (v : Nat)

def step (mode : Mode) (s : State) : Event → Option State
  | .create t r => some (create s t r)
  | .destroy t => some (destroy s t)
  | .expire t => some (setPt s t (ptTimerFn {s.pt t with timer := none}))
  | .deschedule v blocked => some {ptSaveTimer s v blocked with running := Function.update s.running v false}
  | .reschedule v clock => some {ptRestoreTimer mode s v clock with running := Function.update s.running v true}
  | .updateIrq v => some (ptUpdateIrq s v).1
  | .intrPost v matching now guestTime => some (ptIntrPost mode s v matching now guestTime)
  | .mask masked => some {s with masked := masked}
  | .unmask masked d vlapicPt => some (ptMayUnmaskIrq {s with masked := masked} d vlapicPt)
  | .lint0 masked v => some (ptMayUnmaskIrq (vlapicAdjustI8259Target {s with masked := masked} v) true none)

-- The clock fires a timer that is set, and a timer whose interrupt comes to be
-- unmasked is told so. The backlog stays below `2 ^ 32`.
def Legal (s : State) : Event → Prop
  | .expire t => (s.pt t).timer ≠ none ∧ (s.pt t).pendingIntrNr + 1 < 2 ^ 32
  | .reschedule v clock => ∀ t ∈ s.tmList v, (s.pt t).pendingIntrNr + missedTicks (clock t) (s.pt t) < 2 ^ 32
  | .intrPost v _ now _ => ∀ t ∈ s.tmList v, (s.pt t).pendingIntrNr + missedTicks now (s.pt t) < 2 ^ 32
  | .mask masked => ∀ t, masked t = false → s.masked t = false
  | .unmask masked d vlapicPt => ∀ t, masked t = false → s.masked t = false ∨ (d = true ∧ t ∈ globalTimers) ∨ vlapicPt = some t
  | .lint0 masked _ => ∀ t, masked t = false → s.masked t = false ∨ t ∈ globalTimers
  | _ => True

-- Timers do not go from a vcpu that is off its cpu to one that is on it.
def Steady (s : State) : Event → Prop
  | .lint0 _ v => ∀ t ∈ globalTimers, ∀ u, (s.pt t).vcpu = some u → u = v ∨ s.running u = true ∨ s.running v = false
  | _ => True

def start : State :=
  ⟨fun t => .blank (if t ∈ globalTimers then .isa else .lapic),fun _ => [],fun _ => false,fun _ => false,0,fun _ => false,fun _ => 0,fun _ => 0⟩

-- The modes that keep missed ticks.
def Keeps (mode : Mode) : Prop := mode = .delayForMissedTicks ∨ mode = .noDelayForMissedTicks

structure Ticking (mode : Mode) (s : State) : Prop where
  counted : Keeps mode → ∀ t, s.live t = true → (s.pt t).oneShot = false →
    (s.delivered t + (s.pt t).pendingIntrNr : Int) = ((s.pt t).scheduled - s.first t) / (s.pt t).period
  armed : ∀ t v, s.live t = true → (s.pt t).vcpu = some v → s.running v = true →
    0 < (s.pt t).pendingIntrNr ∨ (s.pt t).timer = some (s.pt t).scheduled ∨ ((s.pt t).oneShot = true ∧ 0 < s.delivered t)
  suspended : ∀ t, s.live t = true → (s.pt t).onList = false →
    (0 < (s.pt t).pendingIntrNr ∧ s.masked t = true) ∨ ((s.pt t).oneShot = true ∧ 0 < s.delivered t)

end XenAet.PlatformTicks
