import Mathlib.Algebra.Group.Int.Defs
import Mathlib.Algebra.Group.Nat.Defs
import XenAet.Library.Run
import XenAet.Library.Slots

namespace XenAet.Arinc653
open Library Library.Slots

def arinc653MaxDomainsPerSchedule : Nat := 64
def maxVirtCpus : Nat := 8192
def defaultTimeslice : Int := 10000000

-- The value of an `s_time_t`.
def stime (x : Int) : Int := (x + 2 ^ 63) % 2 ^ 64 - 2 ^ 63

-- `xen_sysctl_arinc653_schedule`.
structure OfferEntry where
  domHandle : List UInt8
  vcpuId : Nat
  runtime : UInt64

structure Offer where
  majorFrame : UInt64
  numSchedEntries : UInt8
  schedEntries : Nat → OfferEntry

structure SchedEntry where
  domHandle : List UInt8
  vcpuId : Nat
  runtime : Int
  vc : Option Nat

-- An element of `vcpu_list` with what is read of its vcpu and domain.
structure Avcpu where
  vc : Nat
  handle : List UInt8
  vcpuId : Nat

structure Priv where
  schedule : Nat → SchedEntry
  numScheduleEntries : Nat
  majorFrame : Int
  nextMajorFrame : Int
  vcpuList : List Avcpu

def Priv.runtime (p : Priv) (i : Nat) : Int := (p.schedule i).runtime

def findVcpu (p : Priv) (handle : List UInt8) (vcpuId : Nat) : Option Nat :=
  (p.vcpuList.find? fun a => decide (a.handle = handle ∧ vcpuId = a.vcpuId)).map Avcpu.vc

def updateScheduleVcpus (p : Priv) : Priv :=
  {p with schedule := fun i =>
    if i < p.numScheduleEntries then {p.schedule i with vc := findVcpu p (p.schedule i).domHandle (p.schedule i).vcpuId} else p.schedule i}

-- The loop over the entries, none when one of them fails.
def totalRuntime (offer : Offer) : List Nat → Int → Option Int
  | [],total => some total
  | i :: rest,total =>
    let entry := offer.schedEntries i
    if maxVirtCpus ≤ entry.vcpuId ∨ entry.runtime.toNat = 0 then none
    else totalRuntime offer rest (stime (total + entry.runtime.toNat))

def einval : Int := -22

def install (p : Priv) (offer : Offer) (now : Int) : Priv :=
  let p := {p with
    numScheduleEntries := offer.numSchedEntries.toNat
    majorFrame := stime offer.majorFrame.toNat
    schedule := fun i =>
      if i < offer.numSchedEntries.toNat then
        {p.schedule i with
          domHandle := (offer.schedEntries i).domHandle
          vcpuId := (offer.schedEntries i).vcpuId
          runtime := stime (offer.schedEntries i).runtime.toNat}
      else p.schedule i}
  {updateScheduleVcpus p with nextMajorFrame := now}

-- The comparison with the major frame is one of unsigned values.
def arinc653SchedSet (p : Priv) (offer : Offer) (now : Int) : Int × Priv :=
  if offer.majorFrame.toNat = 0 ∨ offer.numSchedEntries.toNat < 1 ∨ arinc653MaxDomainsPerSchedule < offer.numSchedEntries.toNat then (einval,p)
  else
    match totalRuntime offer (List.range offer.numSchedEntries.toNat) 0 with
    | none => (einval,p)
    | some total => if (offer.majorFrame.toNat : Int) < total % 2 ^ 64 then (einval,p) else (0,install p offer now)

-- The vcpus of dom0 join the schedule as they are made.
def joinSchedule (p : Priv) (a : Avcpu) : Priv :=
  let entry := p.numScheduleEntries
  if entry < arinc653MaxDomainsPerSchedule then
    {p with
      schedule := Function.update p.schedule entry ⟨(p.schedule entry).domHandle.set 0 0,a.vcpuId,defaultTimeslice,some a.vc⟩
      majorFrame := stime (p.majorFrame + defaultTimeslice)
      numScheduleEntries := entry + 1}
  else p

def allocVdata (p : Priv) (a : Avcpu) (dom0 idle : Bool) : Priv :=
  let p := if dom0 then joinSchedule p a else p
  updateScheduleVcpus (if idle then p else {p with vcpuList := a :: p.vcpuList})

def freeVdata (p : Priv) (vc : Nat) : Priv :=
  updateScheduleVcpus {p with vcpuList := p.vcpuList.filter fun a => decide (a.vc ≠ vc)}

-- The loop that catches up with the time; none is a read past the schedule.
-- There are at most as many turns as entries left.
def catchUp (p : Priv) (now : Int) : Nat → Nat → Int → Option (Nat × Int)
  | 0,index,switch => some (index,switch)
  | turns+1,index,switch =>
    if switch ≤ now ∧ index < p.numScheduleEntries then
      if index + 1 < arinc653MaxDomainsPerSchedule then catchUp p now turns (index + 1) (stime (switch + p.runtime (index + 1)))
      else none
    else some (index,switch)

-- The position in the frame is in two static variables.
structure Position where
  schedIndex : Nat
  nextSwitchTime : Int

def enterFrame (p : Priv) (now : Int) : Priv × Position :=
  ({p with nextMajorFrame := stime (now + p.majorFrame)},⟨0,stime (now + p.runtime 0)⟩)

def advance (p : Priv) (at_ : Position) (now : Int) : Option (Priv × Position) :=
  if p.numScheduleEntries < 1 then some ({p with nextMajorFrame := stime (now + defaultTimeslice)},at_)
  else if p.nextMajorFrame ≤ now then some (enterFrame p now)
  else
    (catchUp p now (p.numScheduleEntries - at_.schedIndex) at_.schedIndex at_.nextSwitchTime).map fun found =>
      (p,⟨found.1,found.2⟩)

-- What is read of the vcpus at the time of the call.
structure Vcpus where
  awake : Nat → Bool
  runnable : Nat → Bool
  local_ : Nat → Bool

-- `none` is the idle vcpu.
def newTask (p : Priv) (index : Nat) (vcpus : Vcpus) (tasklet : Bool) : Option Nat :=
  let task := if index < p.numScheduleEntries then (p.schedule index).vc else none
  if tasklet then none
  else task.filter fun vc => vcpus.awake vc && vcpus.runnable vc && vcpus.local_ vc

structure TaskSlice where
  task : Option Nat
  time : Int

-- After the last entry the next switch is at the next frame.
def switchNext (p : Priv) (at_ : Position) : Position :=
  if p.numScheduleEntries ≤ at_.schedIndex then {at_ with nextSwitchTime := p.nextMajorFrame} else at_

-- None is a `BUG_ON`.
def slice (p : Priv) (at_ : Position) (now : Int) (vcpus : Vcpus) (tasklet : Bool) : Option TaskSlice :=
  let time := stime (at_.nextSwitchTime - now)
  if p.nextMajorFrame ≤ now then none
  else if time ≤ 0 then none
  else some ⟨newTask p at_.schedIndex vcpus tasklet,time⟩

def doSchedule (p : Priv) (at_ : Position) (now : Int) (vcpus : Vcpus) (tasklet : Bool) : Option (Priv × Position × TaskSlice) :=
  (advance p at_ now).bind fun moved =>
    let at_ := switchNext moved.1 moved.2
    (slice moved.1 at_ now vcpus tasklet).map fun ret => (moved.1,at_,ret)

-- What has been answered: to an offered schedule, and to a call at `now` with
-- the schedule in place and the frame it is in.
inductive Record where
  | set (offer : Offer) (rc : Int)
  | chosen (p : Priv) (frame : Option Int) (now : Int) (index : Nat) (slice : TaskSlice)

-- `frame` is when the frame was entered, none once its schedule was replaced
-- or joined; `latest` is the time of the latest call.
structure State where
  priv : Priv
  at_ : Position
  awake : Nat → Bool
  frame : Option Int
  latest : Int
  log : List Record

inductive Event where
  | set (offer : Offer) (now : Int)
  | doSchedule (now : Int) (runnable local_ : Nat → Bool) (tasklet : Bool)
  | allocVdata (a : Avcpu) (dom0 idle : Bool)
  | freeVdata (vc : Nat)
  | wake (vc : Nat)
  | sleep (vc : Nat)

def frameAt (p : Priv) (frame : Option Int) (now : Int) : Option Int :=
  if p.numScheduleEntries < 1 then none else if p.nextMajorFrame ≤ now then some now else frame

def step (s : State) : Event → Option State
  | .set offer now =>
    let (rc,priv) := arinc653SchedSet s.priv offer now
    some {s with priv := priv,frame := if rc = 0 then none else s.frame,log := .set offer rc :: s.log}
  | .doSchedule now runnable local_ tasklet =>
    (doSchedule s.priv s.at_ now ⟨s.awake,runnable,local_⟩ tasklet).map fun done =>
      let frame := frameAt s.priv s.frame now
      {s with
        priv := done.1
        at_ := done.2.1
        frame := frame
        latest := now
        log := .chosen done.1 frame now done.2.1.schedIndex done.2.2 :: s.log}
  | .allocVdata a dom0 idle =>
    some {s with
      priv := allocVdata s.priv a dom0 idle
      awake := Function.update s.awake a.vc false
      frame := if dom0 then none else s.frame}
  | .freeVdata vc => some {s with priv := freeVdata s.priv vc,awake := Function.update s.awake vc false}
  | .wake vc => some {s with awake := Function.update s.awake vc true}
  | .sleep vc => some {s with awake := Function.update s.awake vc false}

-- The memory of the entries is cleared by `a653sched_init`.
def init : Priv := ⟨fun _ => ⟨List.replicate 16 0,0,0,none⟩,0,0,0,[]⟩

def start : State := ⟨init,⟨0,0⟩,fun _ => false,none,0,[]⟩

-- The exact sum of the run times of an offered schedule.
def exactSum (offer : Offer) : Int := before (fun i => (offer.schedEntries i).runtime.toNat) offer.numSchedEntries.toNat

-- The entry of the time `now`, if any, of a frame entered at `frame`.
structure InFrame (p : Priv) (frame now : Int) (index : Nat) (time : Int) : Prop where
  entries : index ≤ p.numScheduleEntries
  entry : ∀ i, i < p.numScheduleEntries → (index = i ↔ before p.runtime i ≤ now - frame ∧ now - frame < before p.runtime (i + 1))
  entryEnd : index < p.numScheduleEntries → now + time ≤ frame + before p.runtime (index + 1)
  frameEnd : now + time ≤ frame + p.majorFrame

def Record.Right : Record → Prop
  | .set offer rc => rc = 0 → exactSum offer ≤ offer.majorFrame.toNat
  | .chosen p frame now index slice =>
    0 < slice.time ∧ (∀ vc, slice.task = some vc → index < p.numScheduleEntries ∧ (p.schedule index).vc = some vc) ∧
      ∀ entered, frame = some entered → InFrame p entered now index slice.time

end XenAet.Arinc653
