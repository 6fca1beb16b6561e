import XenAet.HeapFound

namespace XenAet.NodeSearch
open PageHeap HeapSearch HeapFound

-- The search loop of `alloc_heap_pages` comes to an end, on a node that can
-- give the block or with no node left to go to.
inductive Ends (p : Platform) (h : Heap) (r : Request) : Search → Prop where
  | found (hit : (searchNode h r s.node).isSome) : Ends p h r s
  | notFound (missed : searchNode h r s.node = none) (last : s.next p = none) : Ends p h r s
  | turn (missed : searchNode h r s.node = none) (moved : s.next p = some s') (rest : Ends p h r s') : Ends p h r s

-- A block of the order or larger on a node and zone with pages enough.
def Offers (h : Heap) (r : Request) (t : Nat) : Prop :=
  ∃ zone j a, r.zoneLo ≤ zone ∧ zone ≤ r.zoneHi ∧ h.avail t = some a ∧ 2^r.order ≤ a zone ∧
    r.order ≤ j ∧ j ≤ maxOrder ∧ h.heap t zone j ≠ []

-- `nodemask` at the start.
def requestMask (p : Platform) (r : Request) : Nat → Bool :=
  match r.d with
  | none => p.nodeOnlineMap
  | some d => d.nodeAffinity

def fromStart (p : Platform) (demand : Demand) (r : Request) : Search :=
  ⟨startNode demand r (requestMask p r),startNode demand r (requestMask p r),requestMask p r,false⟩

variable {p : Platform} {h : Heap} {r : Request} {demand : Demand} {s : Search} {t : Nat}

theorem search_ends (within : s.nodemask s.node = true → Within s) (bound : rank s < n) : Ends p h r s := by
  induction n generalizing s with
  | zero => exact absurd bound (Nat.not_lt_zero _)
  | succ n ih =>
    cases missed : searchNode h r s.node with
    | some place => exact .found (by simp [missed])
    | none =>
      cases moved : s.next p with
      | none => exact .notFound missed moved
      | some next =>
        obtain ⟨kept,less⟩ := next_ranked within moved
        exact .turn missed moved (ih (fun _ => kept) (by omega))

theorem offers_hit (offers : Offers h r t) : (searchNode h r t).isSome := by
  obtain ⟨zone,j,a,low,high,born,enough,large,small,listed⟩ := offers
  exact node_hit low high born enough large small listed

theorem alloc_searches (order : r.order ≤ maxOrder) (open_ : claimed demand r h = false) (heapOnly : triesTmem p demand r h = false)
    (any_ : r.exactNode = true → r.node = numaNoNode)
    (found : (searchHeap p h r false searchFuel (fromStart p demand r)).isSome) :
    (allocHeapPages p demand r h).1 ≠ .notFound := by
  obtain ⟨⟨node,zone,j⟩,place⟩ := Option.isSome_iff_exists.mp found
  obtain ⟨_,_,_,listed⟩ := node_lists (search_found place)
  obtain ⟨pg,after,taken⟩ := take_some listed r.order
  have small : ¬ maxOrder < r.order := Nat.not_lt.mpr order
  have anywhere : (r.exactNode && r.node != numaNoNode) = false := by
    cases flag : r.exactNode with
    | false => rfl
    | true => simp [any_ flag]
  have call : allocHeapPages p demand r h = (.fromHeap pg,after) := by
    cases asked : r.d with
    | none | some d =>
      simp only [fromStart,requestMask,asked] at place
      simp [allocHeapPages,asked,small,open_,heapOnly,anywhere,place,taken]
  simp [call]

-- The starting node is one of the machine's, or at least none of the mask.
theorem node_search_exhaustive (open_ : claimed demand r h = false) (heapOnly : triesTmem p demand r h = false)
    (any_ : r.exactNode = true → r.node = numaNoNode)
    (start : (fromStart p demand r).node < maxNumnodes ∨ requestMask p r (fromStart p demand r).node = false) :
    Ends p h r (fromStart p demand r) ∧
      ((allocHeapPages p demand r h).1 = .notFound →
        ∀ t, t < maxNumnodes ∧ p.nodeOnlineMap t = true ∨ t = (fromStart p demand r).node → ¬ Offers h r t) := by
  have within : (fromStart p demand r).nodemask (fromStart p demand r).node = true → Within (fromStart p demand r) := by
    intro inside
    rcases start with small | outside
    · exact ⟨small,small,fun _ => inside⟩
    · exact absurd (inside.symm.trans outside) (by decide)
  refine ⟨search_ends within (rank_lt_fuel within),fun missed t candidate offers => ?_⟩
  have hit := offers_hit offers
  obtain ⟨_,_,_,_,_,_,_,large,small,_⟩ := offers
  refine alloc_searches (Nat.le_trans large small) open_ heapOnly any_ ?_ missed
  rcases candidate with ⟨node,online⟩ | rfl
  · exact search_reaches within node (online_ahead node online within rfl rfl) (rank_lt_fuel within) hit
  · obtain ⟨place,here⟩ := Option.isSome_iff_exists.mp hit
    simp [searchFuel,searchHeap,here]

-- One page of node 0, the only node, asked for two from node 5 by a domain with an affinity
-- for node 1.
def oneNode : Platform := ⟨fun n => n == 0,false⟩

def onePage : Heap :=
  {booted with heap := fun n _ j => if n = 0 ∧ j = 0 then [16] else []
               avail := fun n => if n = 0 then some fun _ => 1 else none
               totalAvailPages := 1}

def pairFromFive : Request := ⟨1,8,1,5,false,false,some ⟨0,fun n => n == 1,1⟩,none⟩

theorem node_search_exhaustive_pair :
    (allocHeapPages oneNode ⟨0,1,0⟩ pairFromFive onePage).1 = .notFound ∧ ¬ Offers onePage pairFromFive 0 := by
  have missed : (allocHeapPages oneNode ⟨0,1,0⟩ pairFromFive onePage).1 = .notFound := by decide +kernel
  exact ⟨missed,(node_search_exhaustive (by decide +kernel) (by decide +kernel) (by decide) (by decide +kernel)).2 missed 0 (by decide +kernel)⟩

end XenAet.NodeSearch
