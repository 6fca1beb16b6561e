import XenAet.Library.Counting
import XenAet.Library.Zones

namespace XenAet.PodCache
open Library

def pageOrder4K : Nat := 0
def pageOrder2M : Nat := 9
def pageOrder1G : Nat := 18
def superpagePages : Nat := 512

-- The types of `p2m_is_ram`.
inductive RamType where
  | rw
  | logdirty
  | ro
  | pagingOut
  | paged
  | pagingIn
  | shared
deriving DecidableEq

-- What the p2m has for a frame number, whatever the size of the table entry.
inductive Entry where
  | ram (type : RamType) (mfn : Nat)
  | populateOnDemand
  | invalid
  | other (type : Nat)
deriving DecidableEq

def Entry.isPod : Entry → Bool
  | .populateOnDemand => true
  | _ => false

def Entry.isRam : Entry → Bool
  | .ram _ _ => true
  | _ => false

-- A domain and its p2m. `owned` are the machine frames of the domain and `listed`
-- those on its `page_list`.
structure State where
  p2m : Nat → Entry
  owned : Nat → Bool
  listed : Nat → Bool
  super : List Nat
  single : List Nat
  count : Int
  entryCount : Int
  lastPopulated : Nat → Nat
  lastPopulatedIndex : Nat
  reclaimSingle : Nat
  maxGuest : Nat
  dying : Bool
  translated : Bool

-- `corrupt` is taking a page off a list it is not on; `stuck` a loop that does not end.
inductive Crash where
  | bug
  | assertion
  | corrupt
  | stuck
deriving DecidableEq

def everyPage (p : Nat → Bool) (mfn n : Nat) : Bool := (List.range n).all fun i => p (mfn + i)

-- `p2m_set_entry` over `n` frame numbers.
def setEntry (s : State) (gfn n : Nat) (entry : Nat → Entry) : State :=
  {s with p2m := fun g => if gfn ≤ g ∧ g < gfn + n then entry (g - gfn) else s.p2m g}

-- The pages are off the domain's list and on the one of their size.
def added (s : State) (mfn order : Nat) : State :=
  if order = pageOrder2M then
    {s with listed := Zones.moved s.listed mfn (2 ^ order) false, super := s.super ++ [mfn], count := s.count + 2 ^ order}
  else {s with listed := Zones.moved s.listed mfn (2 ^ order) false, single := s.single ++ [mfn], count := s.count + 1}

-- The checks of a debug build leave the cache as it is when they fail. No caller
-- looks at the value returned.
def cacheAdd (debug : Bool) (s : State) (mfn order : Nat) : Except Crash State :=
  if debug = true ∧ (mfn % 2 ^ order ≠ 0 ∨ everyPage s.owned mfn (2 ^ order) = false) then .ok s
  else if everyPage s.listed mfn (2 ^ order) = false then .error .corrupt
  else if order = pageOrder2M ∨ order = pageOrder4K then .ok (added s mfn order)
  else .error .bug

-- Break up a superpage to make single pages.
def cacheSplit (s : State) : Except Crash State :=
  match s.super with
  | [] => .error .bug
  | mfn :: super => .ok {s with super := super, single := s.single ++ List.range' mfn superpagePages}

-- Put the pages back on the domain's page list.
def cachePut (s : State) (mfn n : Nat) : Except Crash (State × Option Nat) :=
  if everyPage s.owned mfn n then .ok ({s with listed := Zones.moved s.listed mfn n true},some mfn) else .error .bug

def cacheTake (s : State) (order : Nat) : Except Crash (State × Option Nat) :=
  if order = pageOrder2M then
    match s.super with
    | [] => .error .bug
    | mfn :: super => cachePut {s with super := super, count := s.count - 2 ^ order} mfn (2 ^ order)
  else if order = pageOrder4K then
    match s.single with
    | [] => .error .bug
    | mfn :: single => cachePut {s with single := single, count := s.count - 1} mfn (2 ^ order)
  else .error .bug

def cacheGet (s : State) (order : Nat) : Except Crash (State × Option Nat) :=
  if order = pageOrder2M ∧ s.super = [] then .ok (s,none)
  else if order = pageOrder4K ∧ s.single = [] then
    match cacheSplit s with
    | .error crash => .error crash
    | .ok s => cacheTake s order
  else cacheTake s order

-- What the allocator has for one turn of the loop, for a superpage and for a
-- single page, and whether the hypercall is to be preempted after it.
structure Turn where
  wide : Option Nat
  narrow : Option Nat
  preempt : Bool

-- `alloc_domheap_pages` gives aligned frames that no domain had. They are the
-- domain's and on its list.
def allocDomheapPages (s : State) (order : Nat) (grant : Option Nat) : Option (State × Nat) :=
  match grant with
  | none => none
  | some mfn =>
    if mfn % 2 ^ order = 0 ∧ everyPage (fun m => !s.owned m && !s.listed m) mfn (2 ^ order) = true then
      some ({s with owned := Zones.moved s.owned mfn (2 ^ order) true, listed := Zones.moved s.listed mfn (2 ^ order) true},mfn)
    else none

-- A superpage that cannot be had is tried as a single page.
def allocForCache (s : State) (order : Nat) (turn : Turn) : Option (State × Nat × Nat) :=
  match if order = pageOrder2M then allocDomheapPages s pageOrder2M turn.wide else none with
  | some (s,mfn) => some (s,mfn,pageOrder2M)
  | none => (allocDomheapPages s pageOrder4K turn.narrow).map fun (s,mfn) => (s,mfn,pageOrder4K)

inductive Ret where
  | ok
  | ENOMEM
  | EINVAL
  | ERESTART
deriving DecidableEq

-- The first loop of `p2m_pod_set_cache_target`. It goes on to the second one
-- unless it returns. An allocator that has no more turns has no more memory.
def growCache (debug : Bool) (target : Nat) (preemptible : Bool) : List Turn → State → Except Crash (State × Option Ret)
  | turns,s =>
    if (target : Int) ≤ s.count then .ok (s,none)
    else match turns with
      | [] => .ok (s,some .ENOMEM)
      | turn :: rest =>
        match allocForCache s (if (superpagePages : Int) ≤ target - s.count then pageOrder2M else pageOrder4K) turn with
        | none => .ok (s,some .ENOMEM)
        | some (s,mfn,order) =>
          match cacheAdd debug s mfn order with
          | .error crash => .error crash
          | .ok s =>
            if preemptible = true ∧ (target : Int) ≠ s.count ∧ turn.preempt = true then .ok (s,some .ERESTART)
            else growCache debug target preemptible rest s

-- What is found of a page to be freed: whether `get_page` gets it, whether the
-- reference dropped was the last one, and whether to preempt after it.
structure Frees where
  got : Nat → Bool
  last : Nat → Bool
  preempt : Nat → Bool

def dropPage (frees : Frees) (page : Nat) (s : State) : State :=
  if frees.last page then {s with owned := Zones.moved s.owned page 1 false, listed := Zones.moved s.listed page 1 false} else s

def freePages (frees : Frees) (target : Nat) (preemptible : Bool) : Nat → Nat → State → State × Option Ret
  | 0,_,s => (s,none)
  | rest + 1,page,s =>
    if frees.got page = false then (s,some .EINVAL)
    else if preemptible = true ∧ (target : Int) ≠ s.count ∧ frees.preempt page = true then (dropPage frees page s,some .ERESTART)
    else freePages frees target preemptible rest (page + 1) (dropPage frees page s)

-- The second loop. Every turn takes a page from the cache, so there are no more
-- turns than pages.
def shrinkCache (frees : Frees) (target : Nat) (preemptible : Bool) : Nat → State → Except Crash (State × Ret)
  | fuel,s =>
    if s.count ≤ target then .ok (s,.ok)
    else match fuel with
      | 0 => .error .stuck
      | fuel + 1 =>
        let order := if (superpagePages : Int) < s.count - target ∧ s.super ≠ [] then pageOrder2M else pageOrder4K
        match cacheGet s order with
        | .error crash => .error crash
        | .ok (_,none) => .error .assertion
        | .ok (s,some page) =>
          match freePages frees target preemptible (2 ^ order) page s with
          | (s,some ret) => .ok (s,ret)
          | (s,none) => shrinkCache frees target preemptible fuel s

def setCacheTarget (debug : Bool) (turns : List Turn) (frees : Frees) (target : Nat) (preemptible : Bool) (s : State) :
    Except Crash (State × Ret) :=
  match growCache debug target preemptible turns s with
  | .error crash => .error crash
  | .ok (s,some ret) => .ok (s,ret)
  | .ok (s,none) => shrinkCache frees target preemptible s.count.toNat s

end XenAet.PodCache
