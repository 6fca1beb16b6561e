import Mathlib.Algebra.Group.Int.Defs
import Mathlib.Algebra.Group.Nat.Defs

namespace XenAet.PlatformTimer

-- `HVM_PARAM_TIMER_MODE`.
inductive Mode where
  | delayForMissedTicks
  | noDelayForMissedTicks
  | noMissedTicksPending
  | oneMissedTickPending
deriving DecidableEq

inductive Source where
  | isa
  | lapic
deriving DecidableEq

-- `vcpu` is none until the first `create_periodic_time`. `timer` is when the
-- host timer is to fire, none when it is stopped or has fired. Times in
-- nanoseconds do not wrap here: an `s_time_t` has room for 292 years.
structure PeriodicTime where
  onList : Bool
  oneShot : Bool
  doNotFreeze : Bool
  irqIssued : Bool
  warnedTimeoutTooShort : Bool
  source : Source
  irq : Nat
  vcpu : Option Nat
  pendingIntrNr : Nat
  period : Nat
  scheduled : Int
  lastPltGtime : Nat
  timer : Option Int
  priv : Bool

def PeriodicTime.blank (source : Source) : PeriodicTime :=
  ⟨false,false,false,false,false,source,0,none,0,0,0,0,none,false⟩

def alignTimer (firsttick : Int) (period : Nat) : Int :=
  if period = 0 then firsttick else firsttick + (period - 1) - (firsttick - 1) % period

-- The arguments of `create_periodic_time`, with the two clocks and
-- `HVM_PARAM_VPT_ALIGN` as it reads them.
structure Request where
  vcpu : Nat
  delta : Nat
  period : Nat
  irq : Nat
  priv : Bool
  now : Int
  guestTime : Nat
  vptAlign : Bool

-- A periodic timer must be at least 0.1 ms.
def clampPeriod (period : Nat) : Nat := if period < 100000 ∧ period ≠ 0 then 100000 else period

def firstDeadline (source : Source) (r : Request) : Int :=
  let scheduled := r.now + r.delta
  if clampPeriod r.period = 0 then scheduled
  else if r.vptAlign then alignTimer scheduled (clampPeriod r.period)
  else if source = .lapic then scheduled + (r.delta >>> 1 : Nat)
  else scheduled

def destroyPeriodicTime (pt : PeriodicTime) : PeriodicTime :=
  match pt.vcpu with
  | none => pt
  | some _ => {pt with onList := false,pendingIntrNr := 0,timer := none}

def createPeriodicTime (r : Request) (pt : PeriodicTime) : PeriodicTime :=
  let pt := destroyPeriodicTime pt
  {pt with
    pendingIntrNr := 0
    doNotFreeze := false
    irqIssued := false
    warnedTimeoutTooShort := pt.warnedTimeoutTooShort || decide (r.period < 100000 ∧ r.period ≠ 0)
    period := clampPeriod r.period
    vcpu := some r.vcpu
    lastPltGtime := r.guestTime
    irq := r.irq % 2 ^ 8
    oneShot := decide (clampPeriod r.period = 0)
    scheduled := firstDeadline pt.source r
    priv := r.priv
    onList := true
    timer := some (firstDeadline pt.source r)}

end XenAet.PlatformTimer
