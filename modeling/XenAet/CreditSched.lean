import Mathlib.Algebra.Group.Nat.Defs
import Mathlib.Algebra.Group.Int.Defs
import Mathlib.Logic.Function.Basic
import XenAet.Library.Run

namespace XenAet.CreditSched
open Library

def schedCreditsPerMsec : Nat := 10

def defaultWeight : Nat := 256

def tsliceMin : Nat := 1

def tsliceMax : Nat := 1000

def ratelimitMin : Nat := 100

def ratelimitMax : Nat := 500000

-- Each vcpu belongs to one domain for good. The credits of all CPUs can be
-- counted in 32 bits (NR_CPUS is 256 unless it is set otherwise).
structure Config where
  nrCpus : Nat
  few : nrCpus * (schedCreditsPerMsec * tsliceMax) < 2^32
  sdomOf : Nat → Nat
  idle : Nat → Bool

structure Dom where
  activeVcpu : List Nat
  activeVcpuCount : Nat
  weight : Nat
  cap : Nat

structure Vcpu where
  credit : Int
  parked : Bool

-- `dom` and `vcpu` are the domains' and the vcpus' data. An element is on a
-- list here where its list element is not empty there.
structure State where
  activeSdom : List Nat
  ncpus : Nat
  cpus : List Nat
  weight : Nat
  credit : Nat
  creditBalance : Int
  ratelimitUs : Nat
  tsliceMs : Nat
  creditsPerTslice : Nat
  dom : Nat → Dom
  vcpu : Nat → Vcpu

def u32 (x : Int) : Nat := (x % 2^32).toNat

def s32 (x : Int) : Int := (x + 2^31) % 2^32 - 2^31

def schedSetTslice (s : State) (timeslice : Nat) : State :=
  {s with tsliceMs := timeslice,creditsPerTslice := schedCreditsPerMsec * timeslice}

-- `csched_init` with a time slice that it keeps.
def init (tslice ratelimit : Nat) : State where
  activeSdom := []
  ncpus := 0
  cpus := []
  weight := 0
  credit := 0
  creditBalance := 0
  ratelimitUs := ratelimit
  tsliceMs := tslice
  creditsPerTslice := schedCreditsPerMsec * tslice
  dom _ := ⟨[],0,defaultWeight,0⟩
  vcpu _ := ⟨0,false⟩

-- `found`: the memory was found.
def allocPdata (cpu : Nat) (found : Bool) (s : State) : State :=
  if found then {s with credit := (s.credit + s.creditsPerTslice) % 2^32,ncpus := s.ncpus + 1,cpus := cpu :: s.cpus} else s

-- `some_`: the CPU has data.
def freePdata (cpu : Nat) (some_ : Bool) (s : State) : State :=
  if some_ then {s with credit := u32 (s.credit - s.creditsPerTslice),ncpus := s.ncpus - 1,cpus := s.cpus.erase cpu} else s

def vcpuAcctStart (k : Config) (v : Nat) (s : State) : State :=
  let d := k.sdomOf v
  let sdom := s.dom d
  if v ∈ sdom.activeVcpu then s
  else
    {s with
      dom := Function.update s.dom d {sdom with activeVcpuCount := (sdom.activeVcpuCount + 1) % 2^16,activeVcpu := v :: sdom.activeVcpu}
      weight := (s.weight + sdom.weight) % 2^32
      activeSdom := if d ∈ s.activeSdom then s.activeSdom else d :: s.activeSdom}

-- `none` is a BUG_ON, here and below.
def vcpuAcctStopLocked (k : Config) (v : Nat) (s : State) : Option State :=
  let d := k.sdomOf v
  let sdom := s.dom d
  if v ∉ sdom.activeVcpu then none
  else if s.weight < sdom.weight then none
  else
    let rest := sdom.activeVcpu.erase v
    some {s with
      dom := Function.update s.dom d {sdom with activeVcpuCount := (sdom.activeVcpuCount + 2^16 - 1) % 2^16,activeVcpu := rest}
      weight := s.weight - sdom.weight
      activeSdom := if rest = [] then s.activeSdom.erase d else s.activeSdom}

def setVcpu (s : State) (v : Nat) (svc : Vcpu) : State := {s with vcpu := Function.update s.vcpu v svc}

def vcpuRemove (k : Config) (v : Nat) (s : State) : Option State :=
  let s := setVcpu s v {s.vcpu v with parked := false}
  if v ∈ (s.dom (k.sdomOf v)).activeVcpu then vcpuAcctStopLocked k v s else some s

inductive DomOp where
  | getinfo
  | putinfo (weight cap : Nat)

def domCntl (d : Nat) (op : DomOp) (s : State) : State :=
  match op with
  | .getinfo => s
  | .putinfo weight cap =>
    let sdom := s.dom d
    let cap := if cap = 2^16 - 1 then sdom.cap else cap
    if weight = 0 then {s with dom := Function.update s.dom d {sdom with cap}}
    else
      {s with
        weight := if d ∈ s.activeSdom then
          u32 (u32 (s.weight - sdom.weight * sdom.activeVcpuCount) + weight * sdom.activeVcpuCount) else s.weight
        dom := Function.update s.dom d {sdom with weight,cap}}

inductive SysOp where
  | getinfo
  | putinfo (tsliceMs ratelimitUs : Nat)
  | other

def SysOp.Valid : SysOp → Prop
  | .putinfo tsliceMs ratelimitUs => tsliceMin ≤ tsliceMs ∧ tsliceMs ≤ tsliceMax ∧
      (ratelimitUs = 0 ∨ ratelimitMin ≤ ratelimitUs ∧ ratelimitUs ≤ ratelimitMax) ∧ ratelimitUs * 1000 ≤ tsliceMs * 1000000
  | _ => True

instance : ∀ op : SysOp, Decidable op.Valid
  | .putinfo _ _ => inferInstanceAs (Decidable (_ ∧ _))
  | .getinfo => .isTrue trivial
  | .other => .isTrue trivial

-- The return code, and the time slice and rate limit that are given back.
def sysCntl (op : SysOp) (s : State) : State × Int × Option (Nat × Nat) :=
  match op with
  | .getinfo => (s,0,some (s.tsliceMs,s.ratelimitUs))
  | .putinfo tsliceMs ratelimitUs =>
    if op.Valid then ({schedSetTslice s tsliceMs with ratelimitUs},0,some (tsliceMs,ratelimitUs)) else (s,-22,none)
  | .other => (s,-22,none)

-- The credits and the balance after one vcpu of the domain; comparisons with
-- a 32-bit number are unsigned.
def acctVcpu (k : Config) (d fair cap : Nat) (p : State × Int) (v : Nat) : Option (State × Int) :=
  let (s,balance) := p
  let svc := s.vcpu v
  let credit := s32 (svc.credit + fair)
  if k.sdomOf v ≠ d then none
  else if credit < 0 then
    let parked := svc.parked || decide ((s.dom d).cap ≠ 0 ∧ u32 credit < u32 (-cap))
    let credit := if u32 credit < u32 (-s.creditsPerTslice) then s32 (-s.creditsPerTslice) else credit
    some (setVcpu s v ⟨credit,parked⟩,s32 (balance + credit))
  else if (s.creditsPerTslice : Int) < credit then
    (vcpuAcctStopLocked k v s).map fun s => (setVcpu s v ⟨credit / 2,false⟩,s32 (balance + credit / 2))
  else some (setVcpu s v ⟨credit,false⟩,s32 (balance + credit))

structure Pass where
  s : State
  creditTotal : Nat
  weightLeft : Nat
  creditXtra : Bool
  creditCap : Nat
  creditBalance : Int

-- `credit_peak`, and `credit_cap` for each vcpu.
def creditPeak (s : State) (sdom : Dom) (weightTotal creditCap : Nat) : Nat × Nat :=
  let peak := u32 (sdom.activeVcpuCount * s.creditsPerTslice)
  let peak := if s.creditBalance < 0 then
    u32 (peak + u32 (-s.creditBalance * sdom.weight * sdom.activeVcpuCount + (weightTotal - 1)) / weightTotal) else peak
  if sdom.cap = 0 then (peak,creditCap)
  else
    let cap := u32 (u32 (sdom.cap * s.creditsPerTslice) + 99) / 100
    (min peak cap,u32 (cap + (sdom.activeVcpuCount - 1)) / sdom.activeVcpuCount)

def acctDom (k : Config) (weightTotal : Nat) (p : Pass) (d : Nat) : Option Pass :=
  let sdom := p.s.dom d
  if k.idle d then none
  else if sdom.activeVcpuCount = 0 then none
  else if sdom.weight = 0 then none
  else if p.weightLeft < sdom.weight * sdom.activeVcpuCount then none
  else
    let weightLeft := p.weightLeft - sdom.weight * sdom.activeVcpuCount
    let (peak,creditCap) := creditPeak p.s sdom weightTotal p.creditCap
    let fair := u32 (p.creditTotal * sdom.weight * sdom.activeVcpuCount + (weightTotal - 1)) / weightTotal
    let poor := fair < peak
    let creditTotal := if ¬poor ∧ weightLeft ≠ 0 then
      u32 (p.creditTotal + u32 ((fair - peak) * weightTotal + (weightLeft - 1)) / weightLeft) else p.creditTotal
    let s := if ¬poor ∧ p.creditXtra then {p.s with activeSdom := d :: p.s.activeSdom.erase d} else p.s
    let fair := if poor then fair else peak
    let fair := u32 (fair + (sdom.activeVcpuCount - 1)) / sdom.activeVcpuCount
    (Run.run (acctVcpu k d fair creditCap) (s,p.creditBalance) sdom.activeVcpu).map fun (s,creditBalance) =>
      ⟨s,creditTotal,weightLeft,p.creditXtra || poor,creditCap,creditBalance⟩

-- Both loops take the elements that are on the list when they start: what the
-- body takes off or moves is the element it is at.
def acct (k : Config) (s : State) : Option State :=
  let creditTotal := if s.creditBalance < 0 then u32 (s.credit - s.creditBalance) else s.credit
  if s.weight = 0 then some {s with creditBalance := 0}
  else
    (Run.run (acctDom k s.weight) ⟨s,creditTotal,s.weight,false,0,0⟩ s.activeSdom).map fun p =>
      {p.s with creditBalance := p.creditBalance}

end XenAet.CreditSched
