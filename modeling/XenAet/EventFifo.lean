import Mathlib.Algebra.Group.Nat.Defs
import Mathlib.Logic.Function.Basic
import XenAet.Library.Run

namespace XenAet.EventChannel

def evtchnsPerBucket : Nat := 128
def evtchnFifoNrChannels : Nat := 2^17

end XenAet.EventChannel

namespace XenAet.EventFifo
open EventChannel (evtchnFifoNrChannels evtchnsPerBucket)

def evtchnFifoEventWordsPerPage : Nat := 1024
def evtchnFifoMaxEventArrayPages : Nat := 128
def evtchnFifoPriorityDefault : Nat := 7
def evtchnFifoPriorityMin : Nat := 15

structure EventWord where
  pending : Bool
  masked : Bool
  linked : Bool
  busy : Bool
  link : Nat
  deriving DecidableEq

-- `bound` is a state other than `ECS_FREE` and `ECS_RESERVED`.
structure Evtchn where
  bound : Bool
  pending : Bool
  priority : Nat
  notifyVcpuId : Nat
  lastVcpuId : Nat
  lastPriority : Nat
  deriving DecidableEq

-- `head` is the field of the guest's control block.
structure Queue where
  head : Nat
  tail : Nat
  deriving DecidableEq

-- A queue is named by its vcpu and priority. `sharedInfo` is the memory from
-- `evtchn_pending` on, bit by bit; behind the last port lies `evtchn_mask`.
structure Domain where
  vcpu : Nat → Bool
  bitsPerEvtchnWord : Nat
  allocated : Nat
  evtchn : Nat → Evtchn
  sharedInfo : Nat → Bool
  fifo : Bool
  numEvtchns : Nat
  word : Nat → EventWord
  controlBlock : Nat → Bool
  queue : Nat × Nat → Queue
  ready : Nat × Nat → Bool

variable {d : Domain} {p port : Nat} {q : Nat × Nat}

def setWord (d : Domain) (port : Nat) (word : EventWord) : Domain := {d with word := Function.update d.word port word}

def setEvtchn (d : Domain) (port : Nat) (chn : Evtchn) : Domain := {d with evtchn := Function.update d.evtchn port chn}

def setQueue (d : Domain) (q : Nat × Nat) (queue : Queue) : Domain := {d with queue := Function.update d.queue q queue}

def maxEvtchns (d : Domain) : Nat := if d.fifo then evtchnFifoNrChannels else d.bitsPerEvtchnWord * d.bitsPerEvtchnWord

def portIsValid (d : Domain) (p : Nat) : Bool := decide (p < maxEvtchns d) && decide (p < d.allocated)

def lockOldQueue (chn : Evtchn) : Nat × Nat := (chn.lastVcpuId,chn.lastPriority)

-- Nothing comes between the read and the `cmpxchg`, so the first try decides
-- and the word is never left `BUSY`.
def trySetLink (word : EventWord) (link : Nat) : Option EventWord :=
  if word.linked then some {word with busy := false,link} else none

-- `none` is the result 0: the tail was no longer linked.
def evtchnFifoSetLink (d : Domain) (tail link : Nat) : Option Domain := (trySetLink (d.word tail) link).map (setWord d tail)

-- `evtchn_fifo_set_pending` from where it holds the new queue's lock.
def appendTail (d : Domain) (q : Nat × Nat) (port : Nat) : Domain :=
  let tail := (d.queue q).tail
  match if tail ≠ 0 then evtchnFifoSetLink d tail port else none with
  | some d => setQueue d q ⟨(d.queue q).head,port⟩
  | none => {setQueue d q ⟨port,port⟩ with ready := Function.update d.ready q true}

def dropTail (d : Domain) (oldQ : Nat × Nat) (port : Nat) : Domain :=
  if (d.queue oldQ).tail = port then setQueue d oldQ ⟨(d.queue oldQ).head,0⟩ else d

def recordQueue (d : Domain) (q : Nat × Nat) (port : Nat) : Domain :=
  let chn := d.evtchn port
  if lockOldQueue chn ≠ q then setEvtchn d port {chn with lastVcpuId := chn.notifyVcpuId,lastPriority := chn.priority}
  else d

-- The part with the old queue's lock.
def leaveOldQueue (d : Domain) (q : Nat × Nat) (port : Nat) : Domain :=
  let oldQ := lockOldQueue (d.evtchn port)
  recordQueue (dropTail (setWord d port {d.word port with linked := true}) oldQ port) q port

def evtchnFifoSetPending (d : Domain) (v port : Nat) : Domain :=
  if d.numEvtchns ≤ port then setEvtchn d port {d.evtchn port with pending := true}
  else
    let d := setWord d port {d.word port with pending := true}
    if (d.word port).masked || (d.word port).linked then d
    else if !d.controlBlock v then d
    else
      let q := (v,(d.evtchn port).priority)
      appendTail (leaveOldQueue d q port) q port

def evtchnFifoClearPending (d : Domain) (port : Nat) : Domain :=
  if d.numEvtchns ≤ port then d else setWord d port {d.word port with pending := false}

def evtchnFifoUnmask (d : Domain) (port : Nat) : Domain :=
  if d.numEvtchns ≤ port then d
  else
    let d := setWord d port {d.word port with masked := false}
    if (d.word port).pending then evtchnFifoSetPending d (d.evtchn port).notifyVcpuId port else d

def evtchnFifoSetPriority (d : Domain) (port priority : Nat) : Domain :=
  if evtchnFifoPriorityMin < priority then d else setEvtchn d port {d.evtchn port with priority}

-- What `evtchn_bind_vcpu` does to a channel it accepts.
def evtchnBindVcpu (d : Domain) (port vcpuId : Nat) : Domain :=
  if d.vcpu vcpuId then setEvtchn d port {d.evtchn port with notifyVcpuId := vcpuId} else d

-- The valid ports are those below a bound, so the loop's `break` ends it.
def setupPorts (d : Domain) : Domain :=
  let evtchn (port : Nat) :=
    if port ≠ 0 ∧ portIsValid d port then
      {d.evtchn port with
        pending := (d.evtchn port).pending || d.sharedInfo port,priority := evtchnFifoPriorityDefault}
    else d.evtchn port
  {d with evtchn}

def evtchnFifoInitControl (placed mapped : Bool) (d : Domain) (vcpuId : Nat) : Domain :=
  if !d.vcpu vcpuId || !placed || !mapped then d
  else if d.fifo then
    if d.controlBlock vcpuId then d else {d with controlBlock := Function.update d.controlBlock vcpuId true}
  else
    setupPorts {d with
      fifo := true,numEvtchns := 0,controlBlock := fun v => v == vcpuId,queue := fun _ => ⟨0,0⟩,ready := fun _ => false}

def raiseAgain (d : Domain) (port : Nat) : Domain :=
  if portIsValid d port && (d.evtchn port).pending then evtchnFifoSetPending d (d.evtchn port).notifyVcpuId port else d

-- `page` is what the guest's page holds when it is added.
def addPageToEventArray (page : Nat → EventWord) (d : Domain) : Domain :=
  let port := d.numEvtchns
  if evtchnFifoMaxEventArrayPages ≤ port / evtchnFifoEventWordsPerPage then d
  else
    let word (p : Nat) := if port ≤ p ∧ p < port + evtchnFifoEventWordsPerPage then page p else d.word p
    let d := {d with word,numEvtchns := port + evtchnFifoEventWordsPerPage}
    (List.range' port evtchnFifoEventWordsPerPage).foldl raiseAgain d

def evtchnFifoExpandArray (page : Nat → EventWord) (d : Domain) : Domain :=
  if d.fifo then addPageToEventArray page d else d

def evtchnFifoDestroy (d : Domain) : Domain := {d with fifo := false,numEvtchns := 0,controlBlock := fun _ => false}

-- The port operations, by ABI.
def evtchnSetPending (d : Domain) (port : Nat) : Domain :=
  if d.fifo then evtchnFifoSetPending d (d.evtchn port).notifyVcpuId port
  else {d with sharedInfo := Function.update d.sharedInfo port true}

def evtchnPortClearPending (d : Domain) (port : Nat) : Domain :=
  if d.fifo then evtchnFifoClearPending d port else {d with sharedInfo := Function.update d.sharedInfo port false}

def evtchnPortInit (d : Domain) (port : Nat) : Domain :=
  if d.fifo then setEvtchn d port {d.evtchn port with priority := evtchnFifoPriorityDefault} else d

end XenAet.EventFifo
