import XenAet.PageHeap
import XenAet.Library.Counting

namespace XenAet.HeapSearch
open Library AlignedBlocks PageHeap

theorem first_set (small : firstNode mask < maxNumnodes) : mask (firstNode mask) = true := by
  unfold firstNode at small ⊢
  cases found : (List.range maxNumnodes).find? mask with
  | none => simp [found] at small
  | some m => exact List.find?_some found

theorem first_least (small : m < maxNumnodes) (set : mask m = true) : firstNode mask ≤ m := by
  unfold firstNode
  cases found : (List.range maxNumnodes).find? mask with
  | none => exact absurd set (by simpa using List.find?_eq_none.mp found m (List.mem_range.mpr small))
  | some k =>
    by_contra less
    have unset := (List.find?_range_eq_some.mp found).2.2 m (by simpa using less)
    simp [set] at unset

theorem next_first (n : Nat) (mask : Nat → Bool) : nextNode n mask = firstNode fun m => n < m && mask m := rfl

theorem next_set (small : nextNode n mask < maxNumnodes) : n < nextNode n mask ∧ mask (nextNode n mask) = true := by
  rw [next_first] at small ⊢
  simpa using first_set small

theorem next_least (small : m < maxNumnodes) (above : n < m) (set : mask m = true) : nextNode n mask ≤ m := by
  rw [next_first]
  exact first_least small (by simp [above,set])

-- Once the search is in the mask it comes round to the node it started from.
structure Within (s : Search) : Prop where
  node : s.node < maxNumnodes
  first : s.first < maxNumnodes
  member : s.nodemask s.node = true → s.nodemask s.first = true

def gap (s : Search) : Nat := if s.first ≤ s.node then s.first + maxNumnodes - s.node else s.first - s.node

def rank (s : Search) : Nat := (if s.retry then 0 else 66) + if s.nodemask s.node then gap s else 65

theorem gap_le (within : Within s) : gap s ≤ maxNumnodes := by
  have first := within.first
  unfold gap
  split <;> omega

theorem fresh_gap (node : Nat) (mask : Nat → Bool) (retry : Bool) : gap ⟨node,node,mask,retry⟩ = maxNumnodes := by
  simp [gap]

theorem retry_ranked {s : Search} (mask : Nat → Bool)
    (moved : (if s.retry || maxNumnodes ≤ firstNode mask then none
      else some (⟨firstNode mask,firstNode mask,mask,true⟩ : Search)) = some s') : Within s' ∧ rank s' < rank s := by
  split at moved
  · cases moved
  · rename_i goes
    cases moved
    simp only [Bool.or_eq_true,decide_eq_true_eq,not_or,Bool.not_eq_true,Nat.not_le] at goes
    refine ⟨⟨goes.2,goes.2,fun set => set⟩,?_⟩
    simp [rank,fresh_gap,goes.1,first_set goes.2,maxNumnodes]
    omega

theorem next_ranked (within : s.nodemask s.node = true → Within s) (moved : s.next p = some s') : Within s' ∧ rank s' < rank s := by
  simp only [Search.next] at moved
  split at moved
  · rename_i outside
    split at moved
    · rename_i small
      cases moved
      refine ⟨⟨small,small,fun set => set⟩,?_⟩
      have unset : s.nodemask s.node = false := by simpa using outside
      simp [rank,fresh_gap,unset,first_set small,maxNumnodes]
    · exact retry_ranked _ moved
  · rename_i inside
    have here : s.nodemask s.node = true := by simpa using inside
    have within := within here
    have start := within.member here
    have node := within.node
    have first := within.first
    -- the node goes up, or wraps below the start when nothing is above it
    split at moved
    · rename_i wraps
      split at moved
      · exact retry_ranked _ moved
      · rename_i other
        cases moved
        have low := first_least first start
        have above : s.first ≤ s.node := by
          by_contra below
          have := next_least first (Nat.lt_of_not_le below) start
          omega
        have set := first_set (Nat.lt_of_le_of_lt low first)
        have less : gap {s with node := firstNode s.nodemask} < gap s := by
          simp only [gap,above,if_true]
          split <;> omega
        refine ⟨⟨Nat.lt_of_le_of_lt low first,first,fun _ => start⟩,?_⟩
        simp only [rank,set,here,if_true]
        omega
    · rename_i goes
      obtain ⟨above,set⟩ := next_set (by omega : nextNode s.node s.nodemask < maxNumnodes)
      split at moved
      · exact retry_ranked _ moved
      · rename_i other
        cases moved
        have less : gap {s with node := nextNode s.node s.nodemask} < gap s := by
          have passes (below : s.node < s.first) := next_least first below start
          simp only [gap]
          split <;> split <;> omega
        refine ⟨⟨by dsimp only; omega,first,fun _ => start⟩,?_⟩
        simp only [rank,set,here,if_true]
        omega

theorem rank_lt_fuel (within : s.nodemask s.node = true → Within s) : rank s < searchFuel := by
  have bound : (if s.nodemask s.node then gap s else 65) ≤ 65 := by
    split
    · rename_i inside
      exact Nat.le_succ_of_le (gap_le (within inside))
    · exact Nat.le_refl _
  unfold rank searchFuel maxNumnodes
  split <;> omega

section
variable {p : Platform} {h h' : Heap} {r : Request} {node zone j pg : Nat}

theorem smallest_found (found : smallestOrder h node zone order = some j) :
    order ≤ j ∧ j ≤ maxOrder ∧ h.heap node zone j ≠ [] := by
  have member := List.mem_range'_1.mp (List.mem_of_find?_eq_some found)
  have some_ := List.find?_some found
  exact ⟨member.1,by omega,by simpa using some_⟩

theorem node_lists (found : searchNode h r node = some (zone,j)) :
    zone ∈ zonesFrom r.zoneLo r.zoneHi ∧ r.order ≤ j ∧ j ≤ maxOrder ∧ h.heap node zone j ≠ [] := by
  obtain ⟨z,visited,hit⟩ := List.exists_of_findSome?_eq_some found
  simp only [searchZone] at hit
  split at hit
  · cases hit
  · split at hit
    · cases hit
    · obtain ⟨k,smallest,same⟩ := Option.map_eq_some_iff.mp hit
      cases same
      exact ⟨visited,smallest_found smallest⟩

theorem search_found (found : searchHeap p h r exact_ fuel s = some (node,zone,j)) :
    searchNode h r node = some (zone,j) := by
  induction fuel generalizing s with
  | zero => cases found
  | succ fuel ih =>
    rw [searchHeap] at found
    split at found
    · rename_i here
      cases found
      exact here
    · split at found
      · cases found
      · obtain ⟨next,_,rest⟩ := Option.bind_eq_some_iff.mp found
        exact ih rest

end

end XenAet.HeapSearch
