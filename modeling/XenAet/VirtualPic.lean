import Mathlib.Data.BitVec

namespace XenAet.VirtualPic

-- `is_master` is set for the first of the two PICs only.
inductive Pic where
  | master
  | slave
  deriving DecidableEq

structure Vpic where
  irr : BitVec 8
  imr : BitVec 8
  isr : BitVec 8
  irqBase : BitVec 8
  initState : BitVec 4
  priorityAdd : BitVec 4
  readselIsr : Bool
  poll : Bool
  autoEoi : Bool
  rotateOnAutoEoi : Bool
  specialFullyNestedMode : Bool
  specialMaskMode : Bool
  elcr : BitVec 8
  intOutput : Bool

structure State where
  master : Vpic
  slave : Vpic

def State.get (s : State) : Pic → Vpic
  | .master => s.master
  | .slave => s.slave

def State.set_ (s : State) (p : Pic) (v : Vpic) : State :=
  match p with
  | .master => {s with master := v}
  | .slave => {s with slave := v}

def bit (irq : Nat) : BitVec 8 := 1#8 <<< irq

def elcrMask : Pic → BitVec 8
  | .master => 0xf8#8
  | .slave => 0xde#8

def prioNone : Nat := 8

-- The lowest bit of a mask, `bsf`.
def lowestBit (mask : BitVec 8) : Nat := ((List.range 8).find? mask.getLsbD).getD prioNone

def vpicGetPriority (v : Vpic) (mask : BitVec 8) : Nat :=
  if mask = 0#8 then prioNone else lowestBit (mask.rotateRight v.priorityAdd.toNat)

def lineOf (v : Vpic) (priority : Nat) : Nat := (priority + v.priorityAdd.toNat) % 8

def vpicGetHighestPriorityIrq (p : Pic) (v : Vpic) : Int :=
  let priority := vpicGetPriority v (v.irr &&& ~~~v.imr)
  if priority = prioNone then -1
  else
    let irq := lineOf v priority
    let mask := if v.specialFullyNestedMode && p == .master && irq == 2 then v.isr &&& ~~~bit 2 else v.isr
    let mask := if v.specialMaskMode then mask &&& ~~~v.imr else mask
    if priority < vpicGetPriority v mask then irq else -1

-- The output of the master goes to the vcpu, that of the slave to line 2 of
-- the master.
def updateMaster (s : State) : State :=
  if s.master.intOutput == decide (0 ≤ vpicGetHighestPriorityIrq .master s.master) then s
  else {s with master := {s.master with intOutput := !s.master.intOutput}}

def vpicUpdateIntOutput (s : State) : Pic → State
  | .master => updateMaster s
  | .slave =>
    if s.slave.intOutput == decide (0 ≤ vpicGetHighestPriorityIrq .slave s.slave) then s
    else
      let output := !s.slave.intOutput
      let irr := if output then s.master.irr ||| bit 2 else s.master.irr &&& ~~~bit 2
      updateMaster ⟨{s.master with irr},{s.slave with intOutput := output}⟩

def intackOne (p : Pic) (irq : Nat) (s : State) : State :=
  let v := s.get p
  let v := if v.elcr &&& bit irq = 0#8 then {v with irr := v.irr &&& ~~~bit irq} else v
  let v := if !v.autoEoi then {v with isr := v.isr ||| bit irq}
    else if v.rotateOnAutoEoi then {v with priorityAdd := BitVec.ofNat 4 ((irq + 1) % 8)} else v
  vpicUpdateIntOutput (s.set_ p v) p

-- `none` is a BUG_ON.
def vpicIntack (p : Pic) (s : State) : Option (State × Int) :=
  if !(s.get p).intOutput then some (s,-1)
  else
    let irq := vpicGetHighestPriorityIrq p (s.get p)
    if irq < 0 then none
    else
      let s := intackOne p irq.toNat s
      if irq = 2 ∧ p = .master then
        let irq := vpicGetHighestPriorityIrq .slave s.slave
        if irq < 0 then none else some (intackOne .slave irq.toNat s,irq + 8)
      else some (s,irq)

-- ICW1, OCW3 and OCW2.
def writeIcw1 (v : Vpic) (val : BitVec 8) : Vpic :=
  { v with
    irr := v.irr &&& v.elcr
    imr := 0#8
    isr := 0#8
    priorityAdd := 0#4
    rotateOnAutoEoi := false
    specialMaskMode := false
    readselIsr := false
    poll := false
    autoEoi := v.autoEoi && val.getLsbD 0
    specialFullyNestedMode := v.specialFullyNestedMode && val.getLsbD 0
    initState := (val.setWidth 4 &&& 3#4) <<< 2 ||| 1#4 }

def writeOcw3 (v : Vpic) (val : BitVec 8) : Vpic :=
  { v with
    poll := v.poll || val.getLsbD 2
    readselIsr := if val.getLsbD 1 then val.getLsbD 0 else v.readselIsr
    specialMaskMode := if val.getLsbD 6 then val.getLsbD 5 else v.specialMaskMode }

def eoi (v : Vpic) (irq : Nat) (rotate : Bool) : Vpic :=
  let v := {v with isr := v.isr &&& ~~~bit irq}
  if rotate then {v with priorityAdd := BitVec.ofNat 4 ((irq + 1) % 8)} else v

def writeOcw2 (v : Vpic) (val : BitVec 8) : Vpic :=
  match (val >>> 5).toNat with
  | 0 => {v with rotateOnAutoEoi := false}
  | 4 => {v with rotateOnAutoEoi := true}
  | 1 => nonSpecific v false
  | 5 => nonSpecific v true
  | 3 => eoi v (val.toNat % 8) false
  | 7 => eoi v (val.toNat % 8) true
  | 6 => {v with priorityAdd := BitVec.ofNat 4 ((val.toNat + 1) % 8)}
  | _ => v
where
  nonSpecific (v : Vpic) (rotate : Bool) : Vpic :=
    let mask := if v.specialMaskMode then v.isr &&& ~~~v.imr else v.isr
    let priority := vpicGetPriority v mask
    if priority = prioNone then v else eoi v (lineOf v priority) rotate

-- OCW1 and ICW2 to ICW4. In single mode ICW2 goes on as ICW3 does.
def writeOdd (v : Vpic) (val : BitVec 8) : Vpic :=
  match (v.initState &&& 3#4).toNat with
  | 0 => {v with imr := val}
  | 1 =>
    let v := {v with irqBase := val &&& 0xf8#8,initState := v.initState + 1#4}
    if v.initState &&& 8#4 = 0#4 then v else icw3 v
  | 2 => icw3 v
  | _ => {v with specialFullyNestedMode := val.getLsbD 4,autoEoi := val.getLsbD 1,initState := 0#4}
where
  icw3 (v : Vpic) : Vpic :=
    let v := {v with initState := v.initState + 1#4}
    if v.initState &&& 4#4 = 0#4 then {v with initState := 0#4} else v

def writeRegister (v : Vpic) (odd : Bool) (val : BitVec 8) : Vpic :=
  if odd then writeOdd v val
  else if val.getLsbD 4 then writeIcw1 v val
  else if val.getLsbD 3 then writeOcw3 v val
  else writeOcw2 v val

def vpicIoportWrite (p : Pic) (odd : Bool) (val : BitVec 8) (s : State) : State :=
  vpicUpdateIntOutput (s.set_ p (writeRegister (s.get p) odd val)) p

def vpicIoportRead (p : Pic) (odd : Bool) (s : State) : Option (State × BitVec 8) :=
  let v := s.get p
  if v.poll then (vpicIntack p (s.set_ p {v with poll := false})).map fun (s,irq) => (s,BitVec.ofInt 8 irq)
  else if odd then some (s,v.imr)
  else some (s,if v.readselIsr then v.isr else v.irr)

def writeElcr (p : Pic) (val : BitVec 8) (s : State) : State :=
  let data := val &&& elcrMask p
  s.set_ p {s.get p with elcr := if p = .master then data ||| bit 2 else data}

def readElcr (p : Pic) (s : State) : BitVec 8 := (s.get p).elcr &&& elcrMask p

-- Lines 0 to 7 are those of the master.
def picOf (irq : Nat) : Pic := if irq < 8 then .master else .slave

def vpicIrqEdge (positive : Bool) (irq : Nat) (s : State) : State :=
  if irq = 2 then s
  else
    let p := picOf irq
    let mask := bit (irq % 8)
    let v := s.get p
    let v := {v with irr := if positive then v.irr ||| mask else v.irr &&& ~~~mask}
    if v.imr &&& mask = 0#8 then vpicUpdateIntOutput (s.set_ p v) p else s.set_ p v

def vpicIrqPositiveEdge (irq : Nat) (s : State) : State := vpicIrqEdge true irq s

def vpicIrqNegativeEdge (irq : Nat) (s : State) : State := vpicIrqEdge false irq s

-- `accepts`: the local APIC of the vcpu takes interrupts from the PIC.
def vpicAckPendingIrq (accepts : Bool) (s : State) : Option (State × Int) :=
  if !accepts || !s.master.intOutput then some (s,-1)
  else
    (vpicIntack .master s).map fun (s,irq) =>
      if irq = -1 then (s,-1) else (s,(s.get (picOf irq.toNat)).irqBase.toNat + irq % 8)

def vpicReset : State :=
  let blank : Vpic := ⟨0#8,0#8,0#8,0#8,0#4,0#4,false,false,false,false,false,false,0#8,false⟩
  ⟨{blank with elcr := bit 2},blank⟩

end XenAet.VirtualPic
