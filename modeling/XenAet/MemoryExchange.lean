import XenAet.Library.Run
import XenAet.Library.Zones

namespace XenAet.MemoryExchange
open Library

-- Where a frame is: assigned to the domain, on the free lists, off the domain
-- on `in_chunk_list`, allocated on `out_chunk_list`, or none of the call's business.
inductive Place where
  | mine
  | free
  | stolen
  | spare
  | away
deriving DecidableEq

inductive Errno where
  | EFAULT
  | EINVAL
  | EPERM
  | ESRCH
  | EACCES
  | ENOMEM
deriving DecidableEq

structure Reservation where
  domid : Nat
  nrExtents : Nat
  extentOrder : Nat
deriving DecidableEq

structure Exch where
  in_ : Reservation
  out : Reservation
  nrExchanged : Nat
deriving DecidableEq

def maxOrder : Nat := 20

def sane (e : Exch) : Bool :=
  decide (e.nrExchanged ≤ e.in_.nrExtents) && decide (e.in_.domid = e.out.domid) &&
  decide (e.in_.extentOrder ≤ maxOrder) && decide (e.out.extentOrder ≤ maxOrder) &&
  decide (e.in_.nrExtents ≤ (2 ^ 64 - 1) / 2 ^ e.in_.extentOrder) && decide (e.out.nrExtents ≤ (2 ^ 64 - 1) / 2 ^ e.out.extentOrder) &&
  decide (e.in_.nrExtents * 2 ^ e.in_.extentOrder % 2 ^ 64 = e.out.nrExtents * 2 ^ e.out.extentOrder % 2 ^ 64)

-- One of the two is zero.
def Exch.inChunkOrder (e : Exch) : Nat := e.out.extentOrder - e.in_.extentOrder

def Exch.outChunkOrder (e : Exch) : Nat := e.in_.extentOrder - e.out.extentOrder

def Exch.chunks (e : Exch) : Nat := e.in_.nrExtents / 2 ^ e.inChunkOrder

def Exch.first (e : Exch) : Nat := e.nrExchanged / 2 ^ e.inChunkOrder

def Exch.chunkPages (e : Exch) : Nat := 2 ^ e.in_.extentOrder * 2 ^ e.inChunkOrder

-- The places of the function between which others may run.
inductive Pc where
  | idle
  | chunk
  | copyIn
  | steal
  | alloc
  | destroy
  | assign
  | fail
  | dying
  | bug
deriving DecidableEq

inductive Deed where
  | stole
  | gaveBack
  | freed
  | allocated
  | assigned
  | freedOut
deriving DecidableEq

structure Entry where
  chunk : Nat
  deed : Deed
  frame : Nat
deriving DecidableEq

inductive Outcome where
  | done
  | continuation
  | failed (errno : Errno)
deriving DecidableEq

-- `completed`, `log`, `returned` and `written` record the call: the chunks gone
-- through, what happened to each page, the value returned and the
-- `nr_exchanged` that reached the guest.
structure State where
  frames : Finset Nat
  page : Nat → Place
  allocated : Nat → Bool
  sharedM2P : Nat → Bool
  totPages : Int
  isDying : Bool
  translated : Bool
  debug : Bool
  exch : Exch
  i : Nat
  j : Nat
  k : Nat
  inChunkList : List Nat
  outChunkList : List Nat
  rc : Option Errno
  pc : Pc
  completed : Nat
  log : List Entry
  returned : Outcome
  written : Option Nat

-- What the rest of the machine answers at a step: whether the guest's memory
-- can be read and written, the frame behind the gfn, whether the page has no
-- other reference, the block the allocator has, whether to preempt.
structure Input where
  fault : Bool
  faultBack : Bool
  shared : Bool
  valid : Bool
  mfn : Nat
  sole : Bool
  block : Option Nat
  preempt : Bool

def stealable (s : State) (x : Input) : Bool := decide (s.page x.mfn = .mine) && s.allocated x.mfn && x.sole

def unused (s : State) (b n : Nat) : Bool := decide (∀ m < n, s.page (b + m) = .free)

def allocDomheapPages (s : State) (x : Input) : Option Nat :=
  x.block.filter fun b => unused s b (2 ^ s.exch.out.extentOrder)

-- The error with which a step of the chunk gives up.
def refused (s : State) (x : Input) : Option Errno :=
  match s.pc with
  | .copyIn => if s.j < 2 ^ s.exch.inChunkOrder ∧ x.fault = true then some .EFAULT else none
  | .steal =>
    if s.k < 2 ^ s.exch.in_.extentOrder then
      if x.shared then some .ENOMEM else if x.valid = false ∨ stealable s x = false then some .EINVAL else none
    else none
  | .alloc => if s.j < 2 ^ s.exch.outChunkOrder ∧ allocDomheapPages s x = none then some .ENOMEM else none
  | _ => none

def note (s : State) (deed : Deed) (frame : Nat) : List Entry := s.log ++ [⟨s.i,deed,frame⟩]

def crash (s : State) : State := {s with pc := .bug}

def leave (s : State) (x : Input) (nrExchanged : Nat) (returned : Outcome) : State :=
  {s with pc := .idle,written := if x.faultBack then none else some nrExchanged,
          returned := if x.faultBack then .failed .EFAULT else returned}

def outcome (rc : Option Errno) : Outcome :=
  match rc with
  | none => .done
  | some errno => .failed errno

def stepChunk (s : State) (x : Input) : State :=
  if s.i < s.exch.chunks then
    if s.i ≠ s.exch.first ∧ x.preempt = true then leave s x (s.i * 2 ^ s.exch.inChunkOrder) .continuation
    else {s with pc := .copyIn,j := 0}
  else leave s x s.exch.in_.nrExtents (outcome s.rc)

def stepCopyIn (s : State) : State :=
  if s.j < 2 ^ s.exch.inChunkOrder then {s with pc := .steal,k := 0} else {s with pc := .alloc,j := 0}

def stepSteal (s : State) (x : Input) : State :=
  if s.k < 2 ^ s.exch.in_.extentOrder then
    {s with page := Zones.moved s.page x.mfn 1 .stolen,inChunkList := x.mfn :: s.inChunkList,k := s.k + 1,log := note s .stole x.mfn}
  else {s with pc := .copyIn,j := s.j + 1}

def stepAlloc (s : State) (x : Input) : State :=
  if s.j < 2 ^ s.exch.outChunkOrder then
    match allocDomheapPages s x with
    | some b => {s with page := Zones.moved s.page b (2 ^ s.exch.out.extentOrder) .spare,outChunkList := b :: s.outChunkList,
                        j := s.j + 1,log := note s .allocated b}
    | none => s
  else {s with pc := .destroy}

def stepDestroy (s : State) : State :=
  match s.inChunkList with
  | m :: rest =>
    if s.allocated m = false then crash s
    else if s.translated = true ∧ s.sharedM2P m = true then crash s
    else {s with page := Zones.moved s.page m 1 .free,allocated := Function.update s.allocated m false,inChunkList := rest,
                 log := note s .freed m}
  | [] => {s with pc := .assign,j := 0}

def assignPages (s : State) (b order : Nat) : Option State :=
  if s.isDying then none
  else some {s with page := Zones.moved s.page b (2 ^ order) .mine,
                    allocated := fun m => if b ≤ m ∧ m < b + 2 ^ order then true else s.allocated m}

def stepAssign (s : State) (x : Input) : State :=
  match s.outChunkList with
  | b :: rest =>
    match assignPages s b s.exch.out.extentOrder with
    | none =>
      {s with totPages := s.totPages - ((s.exch.chunkPages : Int) - s.j * 2 ^ s.exch.out.extentOrder),
              page := Zones.moved s.page b (2 ^ s.exch.out.extentOrder) .free,outChunkList := rest,pc := .dying,log := note s .freedOut b}
    | some s' =>
      {s' with outChunkList := rest,j := s.j + 1,log := note s .assigned b,
               rc := if x.fault = true ∨ (s.translated = false ∧ x.faultBack = true) then some .EFAULT else s.rc}
  | [] =>
    if s.isDying = false ∧ s.j ≠ 2 ^ s.exch.outChunkOrder then crash s
    else {s with pc := .chunk,i := s.i + 1,completed := s.completed + 1}

-- Every path to `fail` has put its gfn already: of a translated domain the p2m
-- lock is not held any more, which a debug build asserts.
def stepFail (s : State) : State :=
  match s.inChunkList with
  | m :: rest =>
    if s.debug = true ∧ s.translated = true then crash s
    else match assignPages s m 0 with
      | none => crash s
      | some s' => {s' with inChunkList := rest,log := note s .gaveBack m}
  | [] => {s with pc := .dying}

def stepDying (s : State) (x : Input) : State :=
  match s.outChunkList with
  | b :: rest => {s with page := Zones.moved s.page b (2 ^ s.exch.out.extentOrder) .free,outChunkList := rest,log := note s .freedOut b}
  | [] => leave s x (s.i * 2 ^ s.exch.inChunkOrder) (outcome s.rc)

def tick (s : State) (x : Input) : Option State :=
  match refused s x with
  | some errno => some {s with pc := .fail,rc := some errno}
  | none =>
    match s.pc with
    | .chunk => some (stepChunk s x)
    | .copyIn => some (stepCopyIn s)
    | .steal => some (stepSteal s x)
    | .alloc => some (stepAlloc s x)
    | .destroy => some (stepDestroy s)
    | .assign => some (stepAssign s x)
    | .fail => some (stepFail s)
    | .dying => some (stepDying s x)
    | .idle => none
    | .bug => none

-- `denied` is the verdict of the checks of the handles, the orders, the domain
-- and its policy.
def memoryExchange (s : State) (x : Input) (e : Exch) (denied : Option Errno) : Option State :=
  if s.pc = .idle then
    let s := {s with exch := e,i := e.first,rc := none,completed := 0,log := []}
    if x.fault then some {s with written := none,returned := .failed .EFAULT}
    else if sane e = false then some (leave s x e.nrExchanged (.failed .EINVAL))
    else match denied with
      | some errno => some (leave s x e.nrExchanged (.failed errno))
      | none => some {s with pc := .chunk}
  else none

-- What happens to the domain and to frames meanwhile.
inductive Outside where
  | die
  | give (m : Nat)
  | release (m : Nat)
  | unmark (m : Nat)
  | share (m : Nat)
  | take (m : Nat)
  | restore (m : Nat)
deriving DecidableEq

def outside (s : State) : Outside → Option State
  | .die => some {s with isDying := true}
  | .give m =>
    if s.page m = .free ∧ s.isDying = false then
      some {s with page := Zones.moved s.page m 1 .mine,allocated := Function.update s.allocated m true,totPages := s.totPages + 1}
    else none
  | .release m =>
    if s.page m = .mine then some {s with page := Zones.moved s.page m 1 .free,totPages := s.totPages - 1} else none
  | .unmark m => if s.page m = .mine then some {s with allocated := Function.update s.allocated m false} else none
  | .share m =>
    if s.page m = .mine then
      some {s with page := Zones.moved s.page m 1 .away,sharedM2P := Function.update s.sharedM2P m true,totPages := s.totPages - 1}
    else none
  | .take m => if s.page m = .free then some {s with page := Zones.moved s.page m 1 .away} else none
  | .restore m =>
    if s.page m = .away ∧ m ∈ s.frames then
      some {s with page := Zones.moved s.page m 1 .free,sharedM2P := Function.update s.sharedM2P m false}
    else none

inductive Event where
  | call (x : Input) (e : Exch) (denied : Option Errno)
  | tick (x : Input)
  | outside (a : Outside)

def step (s : State) : Event → Option State
  | .call x e denied => memoryExchange s x e denied
  | .tick x => tick s x
  | .outside a => outside s a

end XenAet.MemoryExchange
