import XenAet.HeapSearch

namespace XenAet.HeapFound
open Library AlignedBlocks PageHeap HeapSearch

-- How many steps up and round it is from the node of the search to `t`.
def ahead (s : Search) (t : Nat) : Nat := if s.node ≤ t then t - s.node else t + maxNumnodes - s.node

-- The nodes the search still comes to.
inductive Ahead (p : Platform) (s : Search) (t : Nat) : Prop where
  | here (at_ : s.node = t)
  | first (outside : s.nodemask s.node = false) (member : s.nodemask t = true)
  | round (inside : s.nodemask s.node = true) (member : s.nodemask t = true) (before : ahead s t < gap s)
  | fallback (fresh : s.retry = false) (online : p.nodeOnlineMap t = true) (other : s.nodemask t = false)

section
variable {p : Platform} {h : Heap} {r : Request} {s s' : Search} {t : Nat}

theorem start_ahead (small : t < maxNumnodes) (member : mask t = true) (set : mask n = true) (low : n < maxNumnodes) :
    Ahead p ⟨n,n,mask,retry⟩ t := by
  refine .round set member ?_
  rw [fresh_gap]
  simp only [ahead]
  split <;> omega

theorem online_ahead (small : t < maxNumnodes) (online : p.nodeOnlineMap t = true)
    (within : s.nodemask s.node = true → Within s) (fresh : s.retry = false) (first : s.first = s.node) : Ahead p s t := by
  by_cases member : s.nodemask t = true
  · by_cases inside : s.nodemask s.node = true
    · have start : Ahead p ⟨s.node,s.node,s.nodemask,s.retry⟩ t := start_ahead small member inside (within inside).node
      obtain ⟨node,_,mask,retry⟩ := s
      cases first
      exact start
    · exact .first (by simpa using inside) member
  · exact .fallback fresh online (by simpa using member)

theorem retry_ahead (small : t < maxNumnodes) (fresh : s.retry = false) (online : p.nodeOnlineMap t = true)
    (other : s.nodemask t = false) :
    ∃ s', (if s.retry || maxNumnodes ≤ firstNode (fun n => p.nodeOnlineMap n && !s.nodemask n) then none
      else some (⟨firstNode fun n => p.nodeOnlineMap n && !s.nodemask n,
        firstNode fun n => p.nodeOnlineMap n && !s.nodemask n,fun n => p.nodeOnlineMap n && !s.nodemask n,true⟩ : Search)) =
        some s' ∧ Ahead p s' t := by
  have member : (p.nodeOnlineMap t && !s.nodemask t) = true := by simp [online,other]
  have least : firstNode (fun n => p.nodeOnlineMap n && !s.nodemask n) ≤ t := first_least small member
  have low := Nat.lt_of_le_of_lt least small
  refine ⟨⟨_,_,_,true⟩,?_,start_ahead small member (first_set low) low⟩
  simp [fresh,low]

theorem next_ahead (within : s.nodemask s.node = true → Within s) (small : t < maxNumnodes) (reach : Ahead p s t) (away : s.node ≠ t) :
    ∃ s', s.next p = some s' ∧ Ahead p s' t := by
  cases reach with
  | here at_ => exact absurd at_ away
  | first outside member =>
    have low := Nat.lt_of_le_of_lt (first_least small member) small
    refine ⟨⟨firstNode s.nodemask,firstNode s.nodemask,s.nodemask,s.retry⟩,by simp [Search.next,outside,low],?_⟩
    exact start_ahead small member (first_set low) low
  | fallback fresh online other =>
    by_cases inside : s.nodemask s.node = true
    · generalize picked : (if maxNumnodes ≤ nextNode s.node s.nodemask then firstNode s.nodemask
          else nextNode s.node s.nodemask) = m
      by_cases around : m = s.first
      · simpa [Search.next,inside,picked,around] using retry_ahead small fresh online other
      · exact ⟨{s with node := m},by simp [Search.next,inside,picked,around],.fallback fresh online other⟩
    · have outside : s.nodemask s.node = false := by simpa using inside
      by_cases low : firstNode s.nodemask < maxNumnodes
      · refine ⟨⟨firstNode s.nodemask,firstNode s.nodemask,s.nodemask,s.retry⟩,by simp [Search.next,outside,low],?_⟩
        exact .fallback fresh online other
      · simpa [Search.next,outside,low] using retry_ahead small fresh online other
  | round inside member before =>
    have within := within inside
    have node := within.node
    have first := within.first
    have start := within.member inside
    have lowest := first_least small member
    by_cases wraps : maxNumnodes ≤ nextNode s.node s.nodemask
    · -- nothing of the mask is above the node, so `t` is below it
      have below : t < s.node := by
        by_contra above
        have := next_least small (by omega : s.node < t) member
        omega
      have clear : firstNode s.nodemask ≠ s.first := by
        intro same
        simp only [ahead,gap] at before
        rw [if_neg (by omega)] at before
        split at before <;> omega
      refine ⟨{s with node := firstNode s.nodemask},by simp [Search.next,inside,wraps,clear],
        .round (first_set (Nat.lt_of_le_of_lt lowest small)) member ?_⟩
      have above : s.first ≤ s.node := by
        by_contra less
        have := next_least first (by omega : s.node < s.first) start
        omega
      simp only [ahead,gap] at before ⊢
      rw [if_neg (by omega),if_pos above] at before
      rw [if_pos lowest]
      split <;> omega
    · have up := next_set (Nat.lt_of_not_le wraps)
      have reaches (above : s.node < t) := next_least small above member
      have clear : nextNode s.node s.nodemask ≠ s.first := by
        intro same
        simp only [ahead,gap] at before
        split at before <;> split at before <;> omega
      refine ⟨{s with node := nextNode s.node s.nodemask},by simp [Search.next,inside,wraps,clear],
        .round up.2 member ?_⟩
      have stops (above : s.node < s.first) := next_least first above start
      simp only [ahead,gap] at before ⊢
      split at before <;> split at before <;> split <;> split <;> omega

theorem search_reaches (within : s.nodemask s.node = true → Within s) (small : t < maxNumnodes) (reach : Ahead p s t) (enough : rank s < fuel)
    (hit : (searchNode h r t).isSome) : (searchHeap p h r false fuel s).isSome := by
  induction fuel generalizing s with
  | zero => omega
  | succ fuel ih =>
    rw [searchHeap]
    cases found : searchNode h r s.node with
    | some place => rfl
    | none =>
      have away : s.node ≠ t := by
        rintro rfl
        simp [found] at hit
      obtain ⟨next,moved,rest⟩ := next_ahead within small reach away
      obtain ⟨kept,less⟩ := next_ranked within moved
      simpa [moved] using ih (fun _ => kept) rest (by omega)

theorem zones_listed (low : zoneLo ≤ zone) (high : zone ≤ zoneHi) : zone ∈ zonesFrom zoneLo zoneHi := by
  induction zoneHi with
  | zero => simp [zonesFrom]; omega
  | succ hi ih =>
    rw [zonesFrom]
    split
    · rcases Nat.lt_or_eq_of_le high with less | rfl
      · exact List.mem_cons_of_mem _ (ih (by omega))
      · exact List.mem_cons_self
    · exact List.mem_singleton.mpr (by omega)

theorem node_hit (low : r.zoneLo ≤ zone) (high : zone ≤ r.zoneHi) (born : h.avail t = some a) (some_ : 2^r.order ≤ a zone)
    (large : r.order ≤ j) (small : j ≤ maxOrder) (listed : h.heap t zone j ≠ []) : (searchNode h r t).isSome := by
  have found : (smallestOrder h t zone r.order).isSome := by
    rw [smallestOrder,List.find?_isSome]
    exact ⟨j,List.mem_range'_1.mpr ⟨large,by omega⟩,by simpa using listed⟩
  rw [searchNode,List.findSome?_isSome_iff]
  refine ⟨zone,zones_listed low high,?_⟩
  simpa [searchZone,born,Nat.not_lt.mpr some_] using found

theorem take_some (nonempty : h.heap n z k ≠ []) (order : Nat) : ∃ pg h', takeBlock h n z k order = some (pg,h') := by
  obtain ⟨head,rest,list⟩ := List.exists_cons_of_ne_nil nonempty
  rw [takeBlock,list]
  exact ⟨_,_,rfl⟩

end

end XenAet.HeapFound
