import Mathlib.Data.BitVec
import Mathlib.Logic.Function.Basic
import XenAet.IrqCounts

namespace XenAet.VirtualIoapic
open XenAet.IrqLines (pins)
open Library

-- A redirection entry: the vector, the modes, the flags and the destination
-- at their places in the word.
abbrev Entry := BitVec 64

def vector (ent : Entry) : BitVec 8 := ent.setWidth 8
def deliveryMode (ent : Entry) : BitVec 3 := (ent >>> 8).setWidth 3
def destMode (ent : Entry) : Bool := ent.getLsbD 11
def remoteIrr (ent : Entry) : Bool := ent.getLsbD 14
def level (ent : Entry) : Bool := ent.getLsbD 15
def masked (ent : Entry) : Bool := ent.getLsbD 16
def destId (ent : Entry) : BitVec 8 := (ent >>> 56).setWidth 8

def setBit (ent : Entry) (i : Nat) (value : Bool) : Entry :=
  if value then ent ||| 1#64 <<< i else ent &&& ~~~(1#64 <<< i)

def destFixed : BitVec 3 := 0#3
def destLowestPrio : BitVec 3 := 1#3
def destNmi : BitVec 3 := 4#3

-- What `vioapic_deliver` asks the local APICs: whom a destination takes in,
-- whom the round robin picks, and whose NMI is pending already. Vcpu 0 gets
-- the timer line alone while channel 0 of the PIT is active.
structure Env where
  vcpus : List Nat
  matchDest : Nat → BitVec 8 → Bool → Bool
  lowestPrio : BitVec 8 → Bool → Option Nat
  pitChannel0 : Bool
  nmiPending : Nat → Bool

inductive Sent where
  | setIrq (vcpu : Nat) (vector : BitVec 8) (level : Bool)
  | nmi (vcpu : Nat)
deriving DecidableEq

def timerOnly (e : Env) (pin : Nat) : Bool := pin == 2 && e.pitChannel0

-- The local APICs that get the interrupt, and what they get.
def sentFor (e : Env) (pin : Nat) (ent : Entry) : List Sent :=
  let mode := deliveryMode ent
  let dest := destId ent
  let inject (v : Nat) : Sent := .setIrq v (vector ent) (level ent)
  let matched := e.vcpus.filter fun v => e.matchDest v dest (destMode ent)
  if mode = destLowestPrio then
    ((if timerOnly e pin then e.vcpus.head? else e.lowestPrio dest (destMode ent)).map inject).toList
  else if mode = destFixed then
    if timerOnly e pin then (e.vcpus.head?.map inject).toList else matched.map inject
  else if mode = destNmi then (matched.filter fun v => !e.nmiPending v).map .nmi
  else []

-- The stores to `remote_irr`, those of the guest, and the calls of
-- `vioapic_deliver`, in order.
inductive Action where
  | lowered (pin : Nat)
  | raised (pin : Nat)
  | stored (pin : Nat) (ent : Entry)
  | delivered (pin : Nat) (ent : Entry) (sent : List Sent)
deriving DecidableEq

-- `log` is not in the source.
structure State where
  irq : IrqLines.State
  redirtbl : Nat → Entry
  ioregsel : BitVec 32
  id : BitVec 4
  log : List Action

def State.store (s : State) (pin : Nat) (ent : Entry) : State := {s with redirtbl := Function.update s.redirtbl pin ent}

def lower (s : State) (pin : Nat) : State :=
  {s.store pin (setBit (s.redirtbl pin) 14 false) with log := s.log ++ [.lowered pin]}

def raise (s : State) (pin : Nat) : State :=
  {s.store pin (setBit (s.redirtbl pin) 14 true) with log := s.log ++ [.raised pin]}

def writeEntry (s : State) (pin : Nat) (ent : Entry) : State := {s.store pin ent with log := s.log ++ [.stored pin ent]}

def vioapicDeliver (e : Env) (s : State) (pin : Nat) : State :=
  {s with log := s.log ++ [.delivered pin (s.redirtbl pin) (sentFor e pin (s.redirtbl pin))]}

def vioapicIrqPositiveEdge (e : Env) (s : State) (pin : Nat) : State :=
  let ent := s.redirtbl pin
  if masked ent then s
  else if level ent then
    if remoteIrr ent then s else vioapicDeliver e (raise s pin) pin
  else vioapicDeliver e s pin

-- An entry with the top half replaced, and with the low half replaced but for
-- the two read-only flags.
def withTop (ent : Entry) (val : BitVec 32) : Entry := (ent &&& 0xffffffff#64) ||| val.setWidth 64 <<< 32

def withLow (ent : Entry) (val : BitVec 32) : Entry :=
  setBit (setBit ((ent >>> 32 <<< 32) ||| val.setWidth 64) 12 false) 14 (remoteIrr ent)

-- `vlapic_adjust_i8259_target` for pin 0 and `pt_may_unmask_irq` touch nothing
-- that is kept here.
def vioapicWriteRedirent (e : Env) (s : State) (idx : Nat) (topWord : Bool) (val : BitVec 32) : State :=
  let ent := if topWord then withTop (s.redirtbl idx) val else withLow (s.redirtbl idx) val
  let s := writeEntry s idx ent
  if idx = 0 then s
  else if !level ent then lower s idx
  else if !masked ent && !remoteIrr ent && s.irq.gsiAssertCount idx != 0 then vioapicDeliver e (raise s idx) idx
  else s

def vioapicWriteIndirect (e : Env) (s : State) (val : BitVec 32) : State :=
  if s.ioregsel = 0x01#32 then s
  else if s.ioregsel = 0x00#32 then {s with id := (val >>> 24).setWidth 4}
  else if s.ioregsel = 0x02#32 then s
  else
    let redirIndex := ((s.ioregsel - 0x10#32) >>> 1).toNat
    if pins ≤ redirIndex then s
    else vioapicWriteRedirent e s redirIndex (s.ioregsel.getLsbD 0) val

def vioapicWrite (e : Env) (s : State) (addr : BitVec 64) (val : BitVec 32) : State :=
  if addr &&& 0xff#64 = 0x00#64 then {s with ioregsel := val}
  else if addr &&& 0xff#64 = 0x10#64 then vioapicWriteIndirect e s val
  else s

-- Without pirqs both kinds of rising edge end at the IO-APIC.
def edge (e : Env) (s : State) : IrqLines.Edge → State
  | .assertGsi gsi | .vioapicPositive gsi => vioapicIrqPositiveEdge e s gsi
  | .deassertIrq _ | .vpicPositive _ | .vpicNegative _ => s

-- A call of the hvm irq functions. A rising edge reads nothing of the line
-- state, so the edges of one call are taken together, in their order.
def line (e : Env) (s : State) (event : IrqLines.Event) : State :=
  let irq := IrqLines.step {s.irq with edges := []} event
  irq.edges.foldl (edge e) {s with irq := irq}

inductive Op where
  | line (event : IrqLines.Event)
  | write (addr : BitVec 64) (val : BitVec 32)

def perform (s : State) (call : Env × Op) : State :=
  match call.2 with
  | .line event => line call.1 s event
  | .write addr val => vioapicWrite call.1 s addr val

-- One turn of the loop of `vioapic_update_EOI`. With an IOMMU the lock is
-- dropped in the middle and `window` is done meanwhile.
def eoiPin (e : Env) (vec : Int) (window : Nat → List (Env × Op)) (s : State) (gsi : Nat) : State :=
  if ((vector (s.redirtbl gsi)).toNat : Int) ≠ vec then s
  else
    let s := (window gsi).foldl perform (lower s gsi)
    let ent := s.redirtbl gsi
    if level ent && !masked ent && s.irq.gsiAssertCount gsi != 0 then vioapicDeliver e (raise s gsi) gsi else s

def vioapicUpdateEoi (e : Env) (s : State) (vec : Int) (window : Nat → List (Env × Op)) : State :=
  (List.range pins).foldl (eoiPin e vec window) s

inductive Event where
  | op (e : Env) (op : Op)
  | eoi (e : Env) (vec : Int) (window : Nat → List (Env × Op))

def step (s : State) : Event → State
  | .op e op => perform s (e,op)
  | .eoi e vec window => vioapicUpdateEoi e s vec window

def vioapicReset : State := ⟨IrqLines.initial,fun _ => setBit 0#64 16 true,0#32,0#4,[]⟩

end XenAet.VirtualIoapic
