import XenAet.PodCache

namespace XenAet.PodOps
open Library PodCache

-- What the zero checks find of a machine frame, each when it looks: that it is an
-- ordinary allocated page with few enough references, that its first words are
-- zero, that it has no reference but the domain's, and that all of it is zero.
structure Seen where
  fits : Nat → Bool
  quick : Nat → Bool
  alone : Nat → Bool
  zero : Nat → Bool

-- The frame at `gfn + i` is one of a superpage of `type` at `mfn`.
def superpageFrame (s : State) (seen : Seen) (gfn : Nat) (type : RamType) (mfn i : Nat) : Bool :=
  decide (s.p2m (gfn + i) = .ram type (mfn + i)) && seen.fits (mfn + i)

def zeroCheckSuperpage (debug : Bool) (seen : Seen) (gfn : Nat) (s : State) : Except Crash (State × Bool) :=
  if gfn % superpagePages ≠ 0 then .ok (s,false)
  else match s.p2m gfn with
    | .ram type mfn =>
      if mfn % superpagePages ≠ 0 ∨ (List.range superpagePages).all (superpageFrame s seen gfn type mfn) = false then .ok (s,false)
      else if everyPage seen.quick mfn superpagePages = false then .ok (s,false)
      else
        let removed := setEntry s gfn superpagePages fun _ => .populateOnDemand
        if everyPage seen.alone mfn superpagePages = false ∨ everyPage seen.zero mfn superpagePages = false then
          .ok (setEntry removed gfn superpagePages fun i => .ram type (mfn + i),false)
        else match cacheAdd debug removed mfn pageOrder2M with
          | .error crash => .error crash
          | .ok s => .ok ({s with entryCount := s.entryCount + superpagePages},true)
    | _ => .ok (s,false)

-- A frame number with what the p2m had for it.
structure Candidate where
  gfn : Nat
  type : RamType
  mfn : Nat
deriving DecidableEq

def candidate (s : State) (seen : Seen) (gfn : Nat) : Option Candidate :=
  match s.p2m gfn with
  | .ram type mfn => if seen.fits mfn then some ⟨gfn,type,mfn⟩ else none
  | _ => none

def restore (s : State) (c : Candidate) : State := setEntry s c.gfn 1 fun _ => .ram c.type c.mfn

-- The pages that may be zero are taken out of the p2m, and put back if they are
-- in use elsewhere. Those left out are the ones to be looked at in full.
def zeroRemove (seen : Seen) : List Candidate → State → State × List Candidate
  | [],s => (s,[])
  | c :: rest,s =>
    if seen.quick c.mfn = false then zeroRemove seen rest s
    else
      let removed := setEntry s c.gfn 1 fun _ => .populateOnDemand
      if seen.alone c.mfn = false then zeroRemove seen rest (restore removed c)
      else
        let (s,left) := zeroRemove seen rest removed
        (s,c :: left)

def zeroReclaim (debug : Bool) (seen : Seen) : List Candidate → State → Except Crash State
  | [],s => .ok s
  | c :: rest,s =>
    if seen.zero c.mfn = false then zeroReclaim debug seen rest (restore s c)
    else match cacheAdd debug s c.mfn pageOrder4K with
      | .error crash => .error crash
      | .ok s => zeroReclaim debug seen rest {s with entryCount := s.entryCount + 1}

def zeroCheck (debug : Bool) (seen : Seen) (gfns : List Nat) (s : State) : Except Crash State :=
  zeroReclaim debug seen (zeroRemove seen (gfns.filterMap (candidate s seen)) s).2
    (zeroRemove seen (gfns.filterMap (candidate s seen)) s).1

def podHistoryMax : Nat := 128
def podSweepLimit : Nat := 1024
def podSweepStride : Nat := 16

def checkLastSuper (debug : Bool) (seen : Seen) (gfnAligned : Nat) (s : State) : Except Crash (State × Bool) :=
  zeroCheckSuperpage debug seen (s.lastPopulated s.lastPopulatedIndex)
    {s with lastPopulated := Function.update s.lastPopulated s.lastPopulatedIndex gfnAligned,
            lastPopulatedIndex := (s.lastPopulatedIndex + 1) % podHistoryMax}

def sweepEnd (debug : Bool) (seen : Seen) (i : Nat) (gfns : List Nat) (s : State) : Except Crash State :=
  match if gfns = [] then .ok s else zeroCheck debug seen gfns s with
  | .error crash => .error crash
  | .ok s => .ok {s with reclaimSingle := i - 1}

-- A page that is ram joins those to be checked, a stride at a time.
def sweepFrame (debug : Bool) (seen : Seen) (i : Nat) (gfns : List Nat) (s : State) : Except Crash (State × List Nat) :=
  if (s.p2m i).isRam = false then .ok (s,gfns)
  else if podSweepStride < gfns.length + 1 then .error .bug
  else if gfns.length + 1 = podSweepStride then
    match zeroCheck debug seen (gfns ++ [i]) s with
    | .error crash => .error crash
    | .ok s => .ok (s,[])
  else .ok (s,gfns ++ [i])

def sweep (debug : Bool) (seen : Seen) (limit : Nat) : Nat → List Nat → State → Except Crash State
  | 0,gfns,s => sweepEnd debug seen 0 gfns s
  | i + 1,gfns,s =>
    match sweepFrame debug seen (i + 1) gfns s with
    | .error crash => .error crash
    | .ok (s,gfns) => if 0 < s.count ∧ i + 1 < limit then sweepEnd debug seen (i + 1) gfns s else sweep debug seen limit i gfns s

def emergencySweep (debug : Bool) (seen : Seen) (s : State) : Except Crash State :=
  let start := if s.reclaimSingle = 0 then s.maxGuest else s.reclaimSingle
  sweep debug seen (if podSweepLimit < start then start - podSweepLimit else 0) start [] {s with reclaimSingle := start}

def aligned (gfn order : Nat) : Nat := (gfn >>> order) <<< order

-- The part of `p2m_pod_demand_populate` that has pages to populate with.
def populateFrom (debug : Bool) (seen : Seen) (gfn order : Nat) (alloc : Bool) (s : State) : Except Crash (State × Bool) :=
  match cacheGet s order with
  | .error crash => .error crash
  | .ok (s,none) =>
    if order ≠ pageOrder2M then .error .bug
    else .ok (setEntry s (aligned gfn order) (2 ^ order) fun _ => .populateOnDemand,true)
  | .ok (s,some mfn) =>
    if mfn % 2 ^ order ≠ 0 then .error .bug
    else
      let mapped := setEntry s (aligned gfn order) (2 ^ order) fun i => .ram .rw (mfn + i)
      let paid := {mapped with entryCount := mapped.entryCount - 2 ^ order}
      if paid.entryCount < 0 then .error .bug
      else if paid.count < paid.entryCount ∧ order = pageOrder2M ∧ alloc = true then
        match checkLastSuper debug seen (aligned gfn order) paid with
        | .error crash => .error crash
        | .ok (s,_) => .ok (s,true)
      else .ok (paid,true)

-- Whether the fault has been handled. A domain that runs out of memory is crashed.
def demandPopulate (debug : Bool) (seen : Seen) (gfn order : Nat) (alloc : Bool) (s : State) : Except Crash (State × Bool) :=
  if s.dying then .ok (s,false)
  else if order = pageOrder1G then .ok (setEntry s (aligned gfn order) (2 ^ pageOrder2M) fun _ => .populateOnDemand,true)
  else match if s.count = 0 then emergencySweep debug seen s else .ok s with
    | .error crash => .error crash
    | .ok s =>
      if s.count = 0 then .ok (s,false)
      else populateFrom debug seen gfn order alloc {s with maxGuest := if s.maxGuest < gfn then gfn else s.maxGuest}

def podAt (s : State) (g : Nat) : Bool := (s.p2m g).isPod
def ramAt (s : State) (g : Nat) : Bool := (s.p2m g).isRam

inductive MarkRet where
  | ok
  | EINVAL
  | EBUSY
deriving DecidableEq

def markPopulateOnDemand (gfn order : Nat) (s : State) : Except Crash (State × MarkRet) :=
  if s.translated = false then .ok (s,.EINVAL)
  else if Census.among (ramAt s) gfn (2 ^ order) ≠ 0 then .ok (s,.EBUSY)
  else
    let marked := setEntry s gfn (2 ^ order) fun _ => .populateOnDemand
    let counted := {marked with entryCount := marked.entryCount + 2 ^ order - Census.among (podAt s) gfn (2 ^ order)}
    if counted.entryCount < 0 then .error .bug else .ok (counted,.ok)

-- The counts of `p2m_pod_decrease_reservation` as they go down.
structure Tallies where
  steal : Bool
  pod : Int
  nonpod : Int
  ram : Int

def takeBack (debug : Bool) (gpfn : Nat) : Nat → Nat → Tallies → State → Except Crash (State × Tallies)
  | 0,_,t,s => .ok (s,t)
  | rest + 1,i,t,s =>
    if ¬(0 < t.pod ∨ t.steal = true ∧ 0 < t.ram) then .ok (s,t)
    else match s.p2m (gpfn + i) with
      | .populateOnDemand =>
        let cleared := setEntry s (gpfn + i) 1 fun _ => .invalid
        let paid := {cleared with entryCount := cleared.entryCount - 1}
        if paid.entryCount < 0 then .error .bug else takeBack debug gpfn rest (i + 1) {t with pod := t.pod - 1} paid
      | .ram _ mfn =>
        if t.steal then
          match cacheAdd debug (setEntry s (gpfn + i) 1 fun _ => .invalid) mfn pageOrder4K with
          | .error crash => .error crash
          | .ok s => takeBack debug gpfn rest (i + 1)
              {t with steal := decide (s.count < s.entryCount), nonpod := t.nonpod - 1, ram := t.ram - 1} s
        else takeBack debug gpfn rest (i + 1) t s
      | _ => takeBack debug gpfn rest (i + 1) t s

-- If the liabilities are below the assets now, free some.
def entryCheck (debug : Bool) (frees : Frees) (done : Bool) (s : State) : Except Crash (State × Bool) :=
  if s.entryCount < s.count then
    match setCacheTarget debug [] frees s.entryCount.toNat false s with
    | .error crash => .error crash
    | .ok (s,_) => .ok (s,done)
  else .ok (s,done)

def handBack (debug : Bool) (frees : Frees) (gpfn order : Nat) (t : Tallies) (s : State) : Except Crash (State × Bool) :=
  match takeBack debug gpfn (2 ^ order) 0 t s with
  | .error crash => .error crash
  | .ok (s,t) => entryCheck debug frees (decide (t.nonpod = 0)) s

def tallies (s : State) (gpfn order : Nat) : Tallies :=
  ⟨decide (s.count < s.entryCount),Census.among (podAt s) gpfn (2 ^ order),2 ^ order - Census.among (podAt s) gpfn (2 ^ order),
    Census.among (ramAt s) gpfn (2 ^ order)⟩

-- A superpage that is reclaimed whole is counted again. It cannot be reclaimed
-- a second time.
def recount (debug : Bool) (seen : Seen) (frees : Frees) (gpfn order : Nat) : Nat → State → Except Crash (State × Bool)
  | 0,_ => .error .stuck
  | fuel + 1,s =>
    let t := tallies s gpfn order
    if t.pod = 0 ∧ t.steal = false then .ok (s,false)
    else if t.nonpod = 0 then
      let cleared := setEntry s gpfn (2 ^ order) fun _ => .invalid
      let paid := {cleared with entryCount := cleared.entryCount - 2 ^ order}
      if paid.entryCount < 0 then .error .bug else entryCheck debug frees true paid
    else if t.steal then
      match zeroCheckSuperpage debug seen (gpfn / superpagePages * superpagePages) s with
      | .error crash => .error crash
      | .ok (s,true) => recount debug seen frees gpfn order fuel s
      | .ok (s,false) => handBack debug frees gpfn order t s
    else handBack debug frees gpfn order t s

def decreaseReservation (debug : Bool) (seen : Seen) (frees : Frees) (gpfn order : Nat) (s : State) : Except Crash (State × Bool) :=
  if s.entryCount = 0 ∨ s.dying = true then .ok (s,false) else recount debug seen frees gpfn order 2 s

-- `tot_pages` is as it is at the call; the differences are of 64 bits.
def populated (s : State) (totPages : Nat) : Nat := (((totPages : Int) - s.count) % 2 ^ 64).toNat

def podTarget (s : State) (totPages target : Nat) : Nat :=
  let wanted : Nat := (((target : Int) - populated s totPages) % 2 ^ 64).toNat
  if 0 < populated s totPages ∧ s.entryCount < wanted then s.entryCount.toNat else wanted

def setMemTarget (debug : Bool) (turns : List Turn) (frees : Frees) (totPages target : Nat) (s : State) : Except Crash (State × Ret) :=
  if 0 < populated s totPages ∧ s.entryCount = 0 then .ok (s,.ok)
  else if s.dying then .ok (s,.ok)
  else if target < totPages then .ok (s,.ok)
  else if debug = true ∧ (podTarget s totPages target : Int) < s.count then .error .assertion
  else setCacheTarget debug turns frees (podTarget s totPages target) true s

inductive Event where
  | mark (gfn order : Nat)
  | demand (gfn order : Nat) (alloc : Bool) (seen : Seen)
  | decrease (gpfn order : Nat) (seen : Seen) (frees : Frees)
  | setTarget (totPages target : Nat) (turns : List Turn) (frees : Frees)

-- A lookup that finds an entry to be populated, of a size the tables have. All
-- the frame numbers such an entry covers are to be populated.
def podEntry (s : State) (gfn order : Nat) : Bool :=
  decide (order = pageOrder4K ∨ order = pageOrder2M ∨ order = pageOrder1G) && everyPage (podAt s) (aligned gfn order) (2 ^ order)

def step (debug : Bool) (s : State) : Event → Except Crash State
  | .mark gfn order => (markPopulateOnDemand gfn order s).map Prod.fst
  | .demand gfn order alloc seen => if podEntry s gfn order then (demandPopulate debug seen gfn order alloc s).map Prod.fst else .ok s
  | .decrease gpfn order seen frees => (decreaseReservation debug seen frees gpfn order s).map Prod.fst
  | .setTarget totPages target turns frees => (setMemTarget debug turns frees totPages target s).map Prod.fst

def next (debug : Bool) (s : State) (e : Event) : Option State := (step debug s e).toOption

end XenAet.PodOps
