import XenAet.Library.Intervals
import XenAet.Library.Run

namespace XenAet.PageHeap
open Library AlignedBlocks

-- The binary buddy allocator of `page_alloc.c`, without the offlining of pages.

def maxOrder : Nat := 18
def maxNumnodes : Nat := 64
def numaNoNode : Nat := 255

-- What the platform fixes.
structure Platform where
  nodeOnlineMap : Nat → Bool
  optTmem : Bool

inductive PageState where
  | inuse | free
  deriving DecidableEq,Repr

-- `order` is the word a free page uses for `PFN_ORDER` and a page in use for
-- its owner.
structure Heap where
  state : Nat → PageState
  order : Nat → Nat
  heap : Nat → Nat → Nat → List Nat
  avail : Nat → Option (Nat → Nat)
  totalAvailPages : Int
  midsizeAllocZonePages : Int

def booted : Heap where
  state := fun _ => .inuse
  order := fun _ => 0
  heap := fun _ _ _ => []
  avail := fun _ => none
  totalAvailPages := 0
  midsizeAllocZonePages := 0

def setList (h : Heap) (node zone j : Nat) (list : List Nat) : Heap :=
  let lists := Function.update (h.heap node) zone (Function.update (h.heap node zone) j list)
  {h with heap := Function.update h.heap node lists}

-- `PFN_ORDER(pg) = j; page_list_add_tail(pg, &heap(node, zone, j))`
def listBlock (h : Heap) (node zone j pg : Nat) : Heap :=
  let h := setList h node zone j (h.heap node zone j ++ [pg])
  {h with order := Function.update h.order pg j}

def changeAvail (h : Heap) (node zone : Nat) (change : Nat → Nat) : Heap :=
  let counts := (h.avail node).map fun a => Function.update a zone (change (a zone))
  {h with avail := Function.update h.avail node counts}

-- Both loops over the pages of a block also clear the shared word.
def setState (h : Heap) (pg order : Nat) (state : PageState) : Heap where
  state f := if Inside pg order f then state else h.state f
  order f := if Inside pg order f then 0 else h.order f
  heap := h.heap
  avail := h.avail
  totalAvailPages := h.totalAvailPages
  midsizeAllocZonePages := h.midsizeAllocZonePages

structure Domain where
  outstandingPages : Nat
  nodeAffinity : Nat → Bool
  lastAllocNode : Nat

structure Demand where
  outstandingClaims : Nat
  tmemFreeablePages : Nat
  cpuNode : Nat

structure Request where
  zoneLo : Nat
  zoneHi : Nat
  order : Nat
  node : Nat
  exactNode : Bool
  noRefcount : Bool
  d : Option Domain
  relinquished : Option Nat

def firstNode (mask : Nat → Bool) : Nat := ((List.range maxNumnodes).find? mask).getD maxNumnodes
def nextNode (n : Nat) (mask : Nat → Bool) : Nat :=
  ((List.range maxNumnodes).find? fun m => n < m && mask m).getD maxNumnodes

structure Search where
  node : Nat
  first : Nat
  nodemask : Nat → Bool
  retry : Bool

def startNode (demand : Demand) (r : Request) (mask : Nat → Bool) : Nat :=
  if r.node ≠ numaNoNode then r.node
  else
    let node := match r.d with
      | none => r.node
      | some d =>
        let node := nextNode d.lastAllocNode mask
        if maxNumnodes ≤ node then firstNode mask else node
    if maxNumnodes ≤ node then demand.cpuNode else node

def Search.next (p : Platform) (s : Search) : Option Search :=
  let first := firstNode s.nodemask
  let retry : Option Search :=
    let mask (n : Nat) : Bool := p.nodeOnlineMap n && !s.nodemask n
    if s.retry || maxNumnodes ≤ firstNode mask then none else some ⟨firstNode mask,firstNode mask,mask,true⟩
  if !s.nodemask s.node then
    if first < maxNumnodes then some ⟨first,first,s.nodemask,s.retry⟩ else retry
  else
    let following := nextNode s.node s.nodemask
    let node := if maxNumnodes ≤ following then first else following
    if node = s.first then retry else some {s with node}

def zonesFrom (zoneLo : Nat) : Nat → List Nat
  | 0 => [0]
  | zone+1 => if zoneLo < zone+1 then (zone+1) :: zonesFrom zoneLo zone else [zone+1]

def smallestOrder (h : Heap) (node zone order : Nat) : Option Nat :=
  (List.range' order (maxOrder + 1 - order)).find? fun j => !(h.heap node zone j).isEmpty

def searchZone (h : Heap) (node order zone : Nat) : Option (Nat × Nat) :=
  match h.avail node with
  | none => none
  | some a => if a zone < 2^order then none else (smallestOrder h node zone order).map (zone,·)

def searchNode (h : Heap) (r : Request) (node : Nat) : Option (Nat × Nat) :=
  (zonesFrom r.zoneLo r.zoneHi).findSome? (searchZone h node r.order)

-- Node, zone and order of the list to take from. The fuel covers every node of
-- both masks.
def searchHeap (p : Platform) (h : Heap) (r : Request) (exact_ : Bool) : Nat → Search → Option (Nat × Nat × Nat)
  | 0,_ => none
  | fuel+1,s =>
    match searchNode h r s.node with
    | some (zone,j) => some (s.node,zone,j)
    | none => if exact_ then none else (s.next p).bind (searchHeap p h r exact_ fuel)

def searchFuel : Nat := 4 * maxNumnodes + 4

def splitBlock (node zone order : Nat) : Nat → Nat → Heap → Heap × Nat
  | 0,pg,h => (h,pg)
  | k+1,pg,h => splitBlock node zone order k (pg + 2^(order+k)) (listBlock h node zone (order+k) pg)

def countTaken (h : Heap) (node zone order : Nat) : Heap :=
  let h := changeAvail h node zone (· - 2^order)
  {h with totalAvailPages := h.totalAvailPages - 2^order}

def takeBlock (h : Heap) (node zone j order : Nat) : Option (Nat × Heap) :=
  match h.heap node zone j with
  | [] => none
  | head :: rest =>
    let (h,pg) := splitBlock node zone order (j - order) head (setList h node zone j rest)
    some (pg,setState (countTaken h node zone order) pg order .inuse)

inductive Outcome where
  | notFound
  | fromTmem (mfn : Nat)
  | fromHeap (mfn : Nat)
  deriving DecidableEq,Repr

def claimed (demand : Demand) (r : Request) (h : Heap) : Bool :=
  decide (h.totalAvailPages + demand.tmemFreeablePages < demand.outstandingClaims + 2^r.order) &&
    (r.noRefcount || match r.d with
      | none => true
      | some d => decide (d.outstandingPages < 2^r.order))

def triesTmem (p : Platform) (demand : Demand) (r : Request) (h : Heap) : Bool :=
  p.optTmem && (r.order == 0 || decide (9 ≤ r.order)) && decide (h.totalAvailPages ≤ h.midsizeAllocZonePages) &&
    demand.tmemFreeablePages != 0

-- `tmem_relinquish_pages` only ever gives up single pages.
def tmemRelinquishPages (r : Request) : Outcome :=
  match r.relinquished with
  | none => .notFound
  | some mfn => if r.order = 0 then .fromTmem mfn else .notFound

def allocHeapPages (p : Platform) (demand : Demand) (r : Request) (h : Heap) : Outcome × Heap :=
  let nodemask := match r.d with
    | none => p.nodeOnlineMap
    | some d => d.nodeAffinity
  let node := startNode demand r nodemask
  let exact_ := r.exactNode && r.node != numaNoNode
  if maxOrder < r.order then (.notFound,h)
  else if claimed demand r h then (.notFound,h)
  else if triesTmem p demand r h then (tmemRelinquishPages r,h)
  else
    match searchHeap p h r exact_ searchFuel ⟨node,node,nodemask,false⟩ with
    | none => (.notFound,h)
    | some (node,zone,j) =>
      match takeBlock h node zone j r.order with
      | none => (.notFound,h)
      | some (pg,h) => (.fromHeap pg,h)

end XenAet.PageHeap
