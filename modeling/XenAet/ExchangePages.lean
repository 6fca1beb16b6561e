import XenAet.MemoryExchange

namespace XenAet.ExchangePages
open XenAet.MemoryExchange
open Library Zones

variable {frames : Finset Nat} {page : Nat → Place} {allocated sharedM2P : Nat → Bool} {ins outs : List Nat} {n b m : Nat} {p : Place}

-- The two lists hold exactly the frames that are in hand, each once.
structure Sorted (frames : Finset Nat) (page : Nat → Place) (allocated sharedM2P : Nat → Bool) (ins outs : List Nat) (n : Nat) : Prop where
  nodup : ins.Nodup
  stolen : ∀ m, page m = .stolen ↔ m ∈ ins
  spare : ∀ m, page m = .spare ↔ ∃ b ∈ outs, b ≤ m ∧ m < b + n
  apart : outs.Pairwise fun a b => a + n ≤ b ∨ b + n ≤ a
  known : ∀ m, page m ≠ .away → m ∈ frames
  marked : ∀ m ∈ ins, allocated m = true
  unshared : ∀ m, sharedM2P m = true → page m = .away

-- One frame that moves: what the other lists, the frames and the marks of the
-- M2P say of the frames is as before.
theorem Sorted.spare_moved (sorted : Sorted frames page allocated sharedM2P ins outs n) (before : page m ≠ .spare) (after : p ≠ .spare)
    (m' : Nat) : moved page m 1 p m' = .spare ↔ ∃ b ∈ outs, b ≤ m' ∧ m' < b + n := by
  by_cases same : m' = m
  · rw [same,moved_self]
    exact iff_of_false after fun held => before ((sorted.spare m).mpr held)
  · rw [moved_ne same]
    exact sorted.spare m'

theorem Sorted.known_moved (sorted : Sorted frames page allocated sharedM2P ins outs n) (present : m ∈ frames) (m' : Nat)
    (here : moved page m 1 p m' ≠ .away) : m' ∈ frames := by
  by_cases same : m' = m
  · rw [same]
    exact present
  · rw [moved_ne same] at here
    exact sorted.known m' here

theorem Sorted.unshared_moved (sorted : Sorted frames page allocated sharedM2P ins outs n) (before : page m ≠ .away) (m' : Nat)
    (shared : sharedM2P m' = true) : moved page m 1 p m' = .away := by
  have away := sorted.unshared m' shared
  have differ : m' ≠ m := by
    rintro rfl
    exact before away
  rw [moved_ne differ]
  exact away

-- Frames that are not in hand move about without the lists.
theorem Sorted.elsewhere (sorted : Sorted frames page allocated sharedM2P ins outs n) (before : page m ≠ .stolen ∧ page m ≠ .spare)
    (after : p ≠ .stolen ∧ p ≠ .spare) (present : m ∈ frames) (shared' allocated' : Nat → Bool)
    (marks : ∀ m', m' ≠ m → allocated' m' = allocated m') (shares : ∀ m', m' ≠ m → shared' m' = sharedM2P m') (away : shared' m = true → p = .away) :
    Sorted frames (moved page m 1 p) allocated' shared' ins outs n := by
  have notIn : m ∉ ins := fun member => before.1 ((sorted.stolen m).mpr member)
  refine ⟨sorted.nodup,fun m' => ?_,fun m' => ?_,sorted.apart,fun m' here => ?_,fun m' member => ?_,fun m' shared => ?_⟩
  · by_cases same : m' = m
    · rw [same,moved_self]
      exact iff_of_false after.1 notIn
    · rw [moved_ne same]
      exact sorted.stolen m'
  · exact sorted.spare_moved before.2 after.2 m'
  · exact sorted.known_moved present m' here
  · have differ : m' ≠ m := fun same => notIn (same ▸ member)
    rw [marks m' differ]
    exact sorted.marked m' member
  · by_cases same : m' = m
    · rw [same] at shared ⊢
      rw [moved_self]
      exact away shared
    · rw [moved_ne same]
      rw [shares m' same] at shared
      exact sorted.unshared m' shared

theorem Sorted.steal (sorted : Sorted frames page allocated sharedM2P ins outs n) (here : page m = .mine) (set_ : allocated m = true) :
    Sorted frames (moved page m 1 .stolen) allocated sharedM2P (m :: ins) outs n := by
  have notIn : m ∉ ins := fun member => by rw [(sorted.stolen m).mpr member] at here; cases here
  refine ⟨List.nodup_cons.mpr ⟨notIn,sorted.nodup⟩,fun m' => ?_,fun m' => ?_,sorted.apart,fun m' there => ?_,fun m' member => ?_,fun m' shared => ?_⟩
  · by_cases same : m' = m
    · rw [same,moved_self]
      exact iff_of_true rfl List.mem_cons_self
    · rw [moved_ne same,sorted.stolen m',List.mem_cons]
      exact ⟨.inr,fun either => either.resolve_left same⟩
  · exact sorted.spare_moved (by rw [here]; simp) (by simp) m'
  · exact sorted.known_moved (sorted.known m (by rw [here]; simp)) m' there
  · rcases List.mem_cons.mp member with rfl | old
    · exact set_
    · exact sorted.marked m' old
  · exact sorted.unshared_moved (by rw [here]; simp) m' shared

-- The head of the input list goes back to the domain or to the heap.
theorem Sorted.untake (sorted : Sorted frames page allocated sharedM2P (m :: ins) outs n) (after : p = .mine ∨ p = .free)
    (allocated' : Nat → Bool) (marks : ∀ m', m' ≠ m → allocated' m' = allocated m') :
    Sorted frames (moved page m 1 p) allocated' sharedM2P ins outs n := by
  obtain ⟨notIn,nodup⟩ := List.nodup_cons.mp sorted.nodup
  have here : page m = .stolen := (sorted.stolen m).mpr List.mem_cons_self
  have settled : p ≠ .stolen ∧ p ≠ .spare ∧ p ≠ .away := by rcases after with rfl | rfl <;> simp
  refine ⟨nodup,fun m' => ?_,fun m' => ?_,sorted.apart,fun m' there => ?_,fun m' member => ?_,fun m' shared => ?_⟩
  · by_cases same : m' = m
    · rw [same,moved_self]
      exact iff_of_false settled.1 notIn
    · rw [moved_ne same,sorted.stolen m',List.mem_cons]
      exact ⟨fun either => either.resolve_left same,.inr⟩
  · exact sorted.spare_moved (by rw [here]; simp) settled.2.1 m'
  · exact sorted.known_moved (sorted.known m (by rw [here]; simp)) m' there
  · have differ : m' ≠ m := fun same => notIn (same ▸ member)
    rw [marks m' differ]
    exact sorted.marked m' (List.mem_cons_of_mem _ member)
  · exact sorted.unshared_moved (by rw [here]; simp) m' shared

theorem moved_elsewhere {place : Place} (other : p ≠ place) (differ : page m = place → ¬(b ≤ m ∧ m < b + n)) :
    moved page b n p m = place ↔ page m = place := by
  by_cases inside : b ≤ m ∧ m < b + n
  · rw [moved_inside inside.1 inside.2]
    exact iff_of_false other fun here => differ here inside
  · rw [moved_outside inside]

theorem Sorted.alloc (sorted : Sorted frames page allocated sharedM2P ins outs n)
    (unused : ∀ m, b ≤ m → m < b + n → page m = .free) :
    Sorted frames (moved page b n .spare) allocated sharedM2P ins (b :: outs) n := by
  have differ (m' : Nat) (place : Place) (other : place ≠ .free) (here : page m' = place) : ¬(b ≤ m' ∧ m' < b + n) := by
    rintro ⟨low,high⟩
    rw [unused m' low high] at here
    exact other here.symm
  refine ⟨sorted.nodup,fun m' => ?_,fun m' => ?_,List.pairwise_cons.mpr ⟨fun b' member => ?_,sorted.apart⟩,fun m' there => ?_,sorted.marked,
    fun m' shared => ?_⟩
  · rw [moved_elsewhere (by simp) (differ m' .stolen (by simp))]
    exact sorted.stolen m'
  · by_cases inside : b ≤ m' ∧ m' < b + n
    · rw [moved_inside inside.1 inside.2]
      exact iff_of_true rfl ⟨b,List.mem_cons_self,inside⟩
    · rw [moved_outside inside,sorted.spare m']
      constructor
      · rintro ⟨b',member,range⟩
        exact ⟨b',List.mem_cons_of_mem _ member,range⟩
      · rintro ⟨b',member,range⟩
        rcases List.mem_cons.mp member with rfl | old
        · exact absurd range inside
        · exact ⟨b',old,range⟩
  · -- The first frame of the later block would be in both.
    by_contra overlap
    have both : b ≤ max b b' ∧ max b b' < b + n := by omega
    have held : page (max b b') = .spare := (sorted.spare _).mpr ⟨b',member,by omega,by omega⟩
    exact differ _ .spare (by simp) held both
  · by_cases inside : b ≤ m' ∧ m' < b + n
    · exact sorted.known m' (by rw [unused m' inside.1 inside.2]; simp)
    · rw [moved_outside inside] at there
      exact sorted.known m' there
  · have away := sorted.unshared m' shared
    rw [moved_outside (differ m' .away (by simp) away)]
    exact away

-- The head of the output list goes to the domain or back to the heap.
theorem Sorted.unalloc (sorted : Sorted frames page allocated sharedM2P ins (b :: outs) n) (after : p = .mine ∨ p = .free)
    (allocated' : Nat → Bool) (marks : ∀ m', ¬(b ≤ m' ∧ m' < b + n) → allocated' m' = allocated m') :
    Sorted frames (moved page b n p) allocated' sharedM2P ins outs n := by
  obtain ⟨apart,pairs⟩ := List.pairwise_cons.mp sorted.apart
  have held (m' : Nat) (inside : b ≤ m' ∧ m' < b + n) : page m' = .spare := (sorted.spare m').mpr ⟨b,List.mem_cons_self,inside⟩
  have differ (m' : Nat) (place : Place) (other : place ≠ .spare) (here : page m' = place) : ¬(b ≤ m' ∧ m' < b + n) := by
    intro inside
    rw [held m' inside] at here
    exact other here.symm
  have settled : p ≠ .stolen ∧ p ≠ .spare ∧ p ≠ .away := by rcases after with rfl | rfl <;> simp
  refine ⟨sorted.nodup,fun m' => ?_,fun m' => ?_,pairs,fun m' there => ?_,fun m' member => ?_,fun m' shared => ?_⟩
  · rw [moved_elsewhere settled.1 (differ m' .stolen (by simp))]
    exact sorted.stolen m'
  · by_cases inside : b ≤ m' ∧ m' < b + n
    · rw [moved_inside inside.1 inside.2]
      refine iff_of_false settled.2.1 ?_
      rintro ⟨b',member,range⟩
      have := apart b' member
      omega
    · rw [moved_outside inside,sorted.spare m']
      constructor
      · rintro ⟨b',member,range⟩
        rcases List.mem_cons.mp member with rfl | old
        · exact absurd range inside
        · exact ⟨b',old,range⟩
      · rintro ⟨b',member,range⟩
        exact ⟨b',List.mem_cons_of_mem _ member,range⟩
  · by_cases inside : b ≤ m' ∧ m' < b + n
    · exact sorted.known m' (by rw [held m' inside]; simp)
    · rw [moved_outside inside] at there
      exact sorted.known m' there
  · rw [marks m' (differ m' .stolen (by simp) ((sorted.stolen m').mpr member))]
    exact sorted.marked m' member
  · have away := sorted.unshared m' shared
    rw [moved_outside (differ m' .away (by simp) away)]
    exact away

-- What the two lists hold is known, and so what is counted after a move.
theorem Sorted.block_known (sorted : Sorted frames page allocated sharedM2P ins (b :: outs) n) :
    (∀ m, b ≤ m → m < b + n → m ∈ frames) ∧ ∀ m, b ≤ m → m < b + n → page m = .spare := by
  have held (m' : Nat) (low : b ≤ m') (high : m' < b + n) : page m' = .spare := (sorted.spare m').mpr ⟨b,List.mem_cons_self,low,high⟩
  exact ⟨fun m' low high => sorted.known m' (by rw [held m' low high]; simp),held⟩

theorem count_page (known : m ∈ frames) (were : page m ≠ .mine) : count frames (moved page m 1 .mine) .mine = count frames page .mine + 1 := by
  refine count_arrive (fun m' low high => ?_) fun m' low high => ?_
  all_goals
    have same : m' = m := by omega
    rw [same]
    assumption

theorem uncount_page (known : m ∈ frames) (were : page m = .mine) (differ : p ≠ .mine) :
    count frames (moved page m 1 p) .mine + 1 = count frames page .mine := by
  refine count_leave (fun m' low high => ?_) (fun m' low high => ?_) differ
  all_goals
    have same : m' = m := by omega
    rw [same]
    assumption

theorem recount_page (were : page m ≠ .mine) (differ : p ≠ .mine) : count frames (moved page m 1 p) .mine = count frames page .mine := by
  refine count_other (fun m' low high => ?_) differ
  have same : m' = m := by omega
  rw [same]
  exact were

end XenAet.ExchangePages
