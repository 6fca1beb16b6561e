import Mathlib.Logic.Function.Basic
import XenAet.Library.RingBuffer
import XenAet.Library.Run

namespace XenAet.Vchan
open Library

inductive Side where
  | server
  | client
deriving DecidableEq

def Side.other : Side → Side
  | .server => .client
  | .client => .server

@[simp] theorem other_other (s : Side) : s.other.other = s := by cases s <;> rfl

@[simp] theorem other_ne (s : Side) : s.other ≠ s := by cases s <;> decide

@[simp] theorem ne_other (s : Side) : s ≠ s.other := (other_ne s).symm

-- VCHAN_NOTIFY_WRITE and VCHAN_NOTIFY_READ.
inductive Bit where
  | write
  | read
deriving DecidableEq

-- The ring orders `init_gnt_cli` accepts.
abbrev Order := {order : Nat // 10 ≤ order ∧ order ≤ 20}

-- `put` and `taken` are not in the source: all that was ever published in the
-- ring and all that was ever consumed from it.
structure Ring where
  order : Order
  buffer : Nat → UInt8
  prod : BitVec 32
  cons : BitVec 32
  put : List UInt8
  taken : List UInt8

def Ring.size (r : Ring) : Nat := 2 ^ r.order.val

inductive OutKind where
  | send
  | write
deriving DecidableEq

-- A call of `libxenvchan_send` or `libxenvchan_write`, with `pos` bytes sent.
structure Output where
  kind : OutKind
  blocking : Bool
  data : List UInt8
  pos : Nat
deriving DecidableEq

inductive InKind where
  | recv
  | read
deriving DecidableEq

structure Input where
  kind : InKind
  blocking : Bool
  size : Nat
deriving DecidableEq

-- What an end does next. One step reads or writes the shared page once, or
-- copies one contiguous run of bytes.
inductive Pc where
  | idle
  | outOpen (o : Output)
  | outLook (o : Output)
  | outAsk (o : Output)
  | outRelook (o : Output)
  | copy (o : Output) (n : Nat)
  | copyRest (o : Output) (n : Nat)
  | publish (o : Output) (n : Nat)
  | outTell (o : Output) (n : Nat)
  | outEvent (o : Output) (n : Nat)
  | outWait (o : Output)
  | inLook (i : Input)
  | inAsk (i : Input)
  | inRelook (i : Input)
  | fetch (i : Input) (n : Nat)
  | fetchRest (i : Input) (n : Nat) (got : List UInt8)
  | consume (i : Input) (got : List UInt8)
  | inTell (i : Input) (got : List UInt8)
  | inEvent (i : Input) (got : List UInt8)
  | inOpen (i : Input)
  | inWait (i : Input)
  | closing
  | closeEvent
  | closed
deriving DecidableEq

inductive Return where
  | sent (o : Output) (result : Int)
  | received (i : Input) (got : List UInt8) (result : Int)
deriving DecidableEq

-- `ring s` is written by `s` and read by the other end. `notify s` is the byte
-- that `s` tests and clears and the other end sets: `srv_notify` for the server.
structure State where
  ring : Side → Ring
  notify : Side → Bit → Bool
  live : Side → Bool
  serverPersist : Bool
  pending : Side → Bool
  pc : Side → Pc
  returns : Side → List Return

variable {st : State} {s : Side}

def setPc (st : State) (s : Side) (pc : Pc) : State := {st with pc := Function.update st.pc s pc}

def setRing (st : State) (s : Side) (ring : Ring) : State := {st with ring := Function.update st.ring s ring}

def setNotify (st : State) (s : Side) (bit : Bit) (value : Bool) : State :=
  {st with notify := Function.update st.notify s (Function.update (st.notify s) bit value)}

def setPending (st : State) (s : Side) (value : Bool) : State := {st with pending := Function.update st.pending s value}

def setDead (st : State) (s : Side) : State := {st with live := Function.update st.live s false}

def rawGetDataReady (r : Ring) : Nat :=
  let ready := r.prod - r.cons
  if r.size < ready.toNat then 0 else ready.toNat

def rawGetBufferSpace (r : Ring) : Nat :=
  let ready := BitVec.ofNat 32 r.size - (r.prod - r.cons)
  if r.size < ready.toNat then 0 else ready.toNat

def libxenvchanIsOpen (st : State) : Side → Bool
  | .server => st.serverPersist || st.live .client
  | .client => st.live .server

-- The calls return `int`.
def toInt (n : Nat) : Int := (BitVec.ofNat 32 n).toInt

inductive Next where
  | go (pc : Pc)
  | done (r : Return)

def next (st : State) (s : Side) : Next → State
  | .go pc => setPc st s pc
  | .done r => {setPc st s .idle with returns := Function.update st.returns s (st.returns s ++ [r])}

def Output.more (o : Output) (n : Nat) : Output := {o with pos := o.pos + n}

-- The bodies of `libxenvchan_send` and `libxenvchan_write` once the space is
-- known, and after `do_send`.
def outJudge (o : Output) (ringSize avail : Nat) : Next :=
  match o.kind with
  | .send =>
    if o.data.length ≤ avail then .go (.copy o o.data.length)
    else if o.blocking = false then .done (.sent o 0)
    else if ringSize < o.data.length then .done (.sent o (-1))
    else .go (.outWait o)
  | .write =>
    let n := min avail (o.data.length - o.pos)
    if n ≠ 0 then .go (.copy o n)
    else if o.blocking = false then .done (.sent o 0)
    else if o.pos = o.data.length then .done (.sent o (toInt o.pos))
    else .go (.outWait o)

def outSent (o : Output) (n : Nat) : Next :=
  if o.kind = .write ∧ o.blocking = true then
    if o.pos + n = o.data.length then .done (.sent (o.more n) (toInt (o.pos + n))) else .go (.outWait (o.more n))
  else .done (.sent (o.more n) (toInt n))

def inJudge (i : Input) (avail : Nat) : Next :=
  match i.kind with
  | .recv => if i.size ≤ avail then .go (.fetch i i.size) else .go (.inOpen i)
  | .read => if avail ≠ 0 then .go (.fetch i (min i.size avail)) else .go (.inOpen i)

def inOpened (i : Input) (isOpen : Bool) (ringSize : Nat) : Next :=
  if isOpen = false then .done (.received i [] (-1))
  else if i.blocking = false then .done (.received i [] 0)
  else if i.kind = .recv ∧ ringSize < i.size then .done (.received i [] (-1))
  else .go (.inWait i)

def realIdx (r : Ring) (index : BitVec 32) : Nat := (index &&& (BitVec.ofNat 32 r.size - 1)).toNat

def availContig (r : Ring) (index : BitVec 32) (n : Nat) : Nat := min n (r.size - realIdx r index)

def Output.piece (o : Output) (n : Nat) : List UInt8 := (o.data.drop o.pos).take n

def copyFirst (r : Ring) (o : Output) (n : Nat) : Ring :=
  {r with buffer := RingBuffer.store r.buffer (realIdx r r.prod) ((o.piece n).take (availContig r r.prod n))}

def copySecond (r : Ring) (o : Output) (n : Nat) : Ring :=
  if availContig r r.prod n < n then
    {r with buffer := RingBuffer.store r.buffer 0 ((o.piece n).drop (availContig r r.prod n))}
  else r

def produce (r : Ring) (o : Output) (n : Nat) : Ring :=
  {r with prod := r.prod + BitVec.ofNat 32 n, put := r.put ++ o.piece n}

def fetchFirst (r : Ring) (n : Nat) : List UInt8 :=
  RingBuffer.fetch r.buffer (realIdx r r.cons) (availContig r r.cons n)

def fetchSecond (r : Ring) (n : Nat) : List UInt8 :=
  if availContig r r.cons n < n then RingBuffer.fetch r.buffer 0 (n - availContig r r.cons n) else []

def consumed (r : Ring) (got : List UInt8) : Ring :=
  {r with cons := r.cons + BitVec.ofNat 32 got.length, taken := r.taken ++ got}

def advance (st : State) (s : Side) : Option State :=
  let wr := st.ring s
  let rd := st.ring s.other
  match st.pc s with
  | .idle => none
  | .outOpen o =>
    some (next st s (if libxenvchanIsOpen st s then .go (.outLook o) else .done (.sent o (-1))))
  | .outLook o =>
    some (next st s (if o.data.length - o.pos ≤ rawGetBufferSpace wr then outJudge o wr.size (rawGetBufferSpace wr)
      else .go (.outAsk o)))
  | .outAsk o => some (setPc (setNotify st s.other .read true) s (.outRelook o))
  | .outRelook o => some (next st s (outJudge o wr.size (rawGetBufferSpace wr)))
  | .copy o n => some (setPc (setRing st s (copyFirst wr o n)) s (.copyRest o n))
  | .copyRest o n => some (setPc (setRing st s (copySecond wr o n)) s (.publish o n))
  | .publish o n => some (setPc (setRing st s (produce wr o n)) s (.outTell o n))
  | .outTell o n =>
    if st.notify s .write then some (setPc (setNotify st s .write false) s (.outEvent o n))
    else some (next st s (outSent o n))
  | .outEvent o n => some (next (setPending st s.other true) s (outSent o n))
  | .outWait o => if st.pending s then some (setPc (setPending st s false) s (.outOpen o)) else none
  | .inLook i =>
    some (next st s (if i.size ≤ rawGetDataReady rd then inJudge i (rawGetDataReady rd) else .go (.inAsk i)))
  | .inAsk i => some (setPc (setNotify st s.other .write true) s (.inRelook i))
  | .inRelook i => some (next st s (inJudge i (rawGetDataReady rd)))
  | .fetch i n => some (setPc st s (.fetchRest i n (fetchFirst rd n)))
  | .fetchRest i n got => some (setPc st s (.consume i (got ++ fetchSecond rd n)))
  | .consume i got => some (setPc (setRing st s.other (consumed rd got)) s (.inTell i got))
  | .inTell i got =>
    if st.notify s .read then some (setPc (setNotify st s .read false) s (.inEvent i got))
    else some (next st s (.done (.received i got (toInt got.length))))
  | .inEvent i got => some (next (setPending st s.other true) s (.done (.received i got (toInt got.length))))
  | .inOpen i => some (next st s (inOpened i (libxenvchanIsOpen st s) rd.size))
  | .inWait i => if st.pending s then some (setPc (setPending st s false) s (.inLook i)) else none
  | .closing => some (setPc (setDead st s) s .closeEvent)
  | .closeEvent => some (setPc (setPending st s.other true) s .closed)
  | .closed => none

-- `waitFails` is `xc_evtchn_pending` returning an error. `ask` is what
-- `libxenvchan_data_ready` and `libxenvchan_buffer_space` do to the shared page.
inductive Action where
  | output (kind : OutKind) (blocking : Bool) (data : List UInt8)
  | input (kind : InKind) (blocking : Bool) (size : Nat)
  | ask (bit : Bit)
  | close
  | advance
  | waitFails
deriving DecidableEq

def step (st : State) (event : Side × Action) : Option State :=
  let s := event.1
  match event.2,st.pc s with
  | .output kind blocking data,.idle => some (setPc st s (.outOpen ⟨kind,blocking,data,0⟩))
  | .input kind blocking size,.idle => some (setPc st s (.inLook ⟨kind,blocking,size⟩))
  | .ask bit,.idle => some (setNotify st s.other bit true)
  | .close,.idle => some (setPc st s .closing)
  | .advance,_ => Vchan.advance st s
  | .waitFails,.outWait o => some (next st s (.done (.sent o (-1))))
  | .waitFails,.inWait i => some (next st s (.done (.received i [] (-1))))
  | _,_ => none

-- Everything a step can be.
inductive Taken (st : State) (s : Side) : Action → State → Prop where
  | advance : Vchan.advance st s = some after → Taken st s .advance after
  | output : st.pc s = .idle → Taken st s (.output kind blocking data) (setPc st s (.outOpen ⟨kind,blocking,data,0⟩))
  | input : st.pc s = .idle → Taken st s (.input kind blocking size) (setPc st s (.inLook ⟨kind,blocking,size⟩))
  | ask : st.pc s = .idle → Taken st s (.ask bit) (setNotify st s.other bit true)
  | close : st.pc s = .idle → Taken st s .close (setPc st s .closing)
  | outFails : st.pc s = .outWait o → Taken st s .waitFails (next st s (.done (.sent o (-1))))
  | inFails : st.pc s = .inWait i → Taken st s .waitFails (next st s (.done (.received i [] (-1))))

theorem step_taken {st' : State} {action : Action} (ran : step st (s,action) = some st') : Taken st s action st' := by
  cases action with
  | advance => exact .advance ran
  | output kind blocking data =>
    cases at_ : st.pc s <;> simp only [step,at_,reduceCtorEq] at ran
    cases ran
    exact .output at_
  | input kind blocking size =>
    cases at_ : st.pc s <;> simp only [step,at_,reduceCtorEq] at ran
    cases ran
    exact .input at_
  | ask bit =>
    cases at_ : st.pc s <;> simp only [step,at_,reduceCtorEq] at ran
    cases ran
    exact .ask at_
  | close =>
    cases at_ : st.pc s <;> simp only [step,at_,reduceCtorEq] at ran
    cases ran
    exact .close at_
  | waitFails =>
    cases at_ : st.pc s <;> simp only [step,at_,reduceCtorEq] at ran <;> cases ran
    · exact .outFails at_
    · exact .inFails at_

-- After both inits: empty rings, both ends asking to be told of data. The
-- bytes that lie in the rings' pages, and whether binding the event channel
-- left an event pending, are anything.
def initial (order : Side → Order) (memory : Side → Nat → UInt8) (serverPersist : Bool) (pending : Side → Bool) : State where
  ring s := ⟨order s,memory s,0,0,[],[]⟩
  notify _ bit := decide (bit = .write)
  live _ := true
  serverPersist := serverPersist
  pending := pending
  pc _ := .idle
  returns _ := []

end XenAet.Vchan
