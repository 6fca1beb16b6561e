import XenAet.PodResize

namespace XenAet.PodTarget
open Library PodCache PodOps PodAccounts PodRuns PodResize
variable {s : State} {totPages target : Nat}

-- The call comes to the computation of its target.
structure Computes (s : State) (totPages target : Nat) : Prop where
  outstanding : ¬(0 < populated s totPages ∧ s.entryCount = 0)
  alive : s.dying = false
  above : totPages ≤ target

-- No page of the guest is populated yet, or there are as many entries to be
-- populated as pages in the cache.
def Covered (s : State) (totPages : Nat) : Prop := populated s totPages = 0 ∨ s.count ≤ s.entryCount

def wanted (s : State) (totPages target : Nat) : Int :=
  if totPages = s.count then target else min (target - (totPages - s.count)) s.entryCount

theorem count_nonneg (cache : Cache s) : 0 ≤ s.count := by
  rw [← cached_length cache]
  exact Int.natCast_nonneg _

theorem count_le (cache : Cache s) (counted : Census.Counted s.owned totPages) : s.count ≤ totPages := by
  obtain ⟨keys,_,rest⟩ := (counted_uncached cache).mp counted
  omega

theorem populated_eq (cache : Cache s) (counted : Census.Counted s.owned totPages) (small : totPages < 2^64) :
    (populated s totPages : Int) = totPages - s.count := by
  have low := count_nonneg cache
  have high := count_le cache counted
  rw [populated,Int.emod_eq_of_lt (by omega) (by omega)]
  omega

theorem podTarget_eq (sound : Sound s) (counted : Census.Counted s.owned totPages) (small : target < 2^64) (above : totPages ≤ target) :
    (podTarget s totPages target : Int) = wanted s totPages target := by
  have low := count_nonneg sound.cache
  have high := count_le sound.cache counted
  have entries := Entries.nonneg sound.entries
  have guest := populated_eq sound.cache counted (by omega)
  have difference : ((((target : Int) - populated s totPages) % 2 ^ 64).toNat : Int) = target - (totPages - s.count) := by
    rw [guest,Int.emod_eq_of_lt (by omega) (by omega)]
    omega
  rw [podTarget,wanted,difference]
  by_cases fresh : (totPages : Int) = s.count
  · rw [if_neg (by omega),if_pos fresh,difference]
    omega
  · rw [if_neg fresh]
    split
    · next capped =>
      rw [min_eq_right (by omega)]
      omega
    · rw [min_eq_left (by omega),difference]

theorem not_below_iff (sound : Sound s) (counted : Census.Counted s.owned totPages) (small : target < 2^64) (above : totPages ≤ target) :
    s.count ≤ podTarget s totPages target ↔ Covered s totPages := by
  have high := count_le sound.cache counted
  have guest := populated_eq sound.cache counted (by omega)
  rw [podTarget_eq sound counted small above,wanted,Covered]
  split
  · exact iff_of_true (by omega) (Or.inl (by omega))
  · rw [le_min_iff]
    omega

-- The cache grows to what is wanted, or as far as memory and preemption let it.
theorem setMemTarget_covered (debug : Bool) (turns : List Turn) (frees : Frees) (sound : Sound s) (counted : Census.Counted s.owned totPages)
    (small : target < 2^64) (covered : Computes s totPages target → Covered s totPages) :
    ∃ s' ret, setMemTarget debug turns frees totPages target s = .ok (s',ret) ∧ s.count ≤ s'.count ∧
      (ret = .ENOMEM ∨ ret = .ERESTART ∨ ret = .ok ∧ (s' = s ∨ s'.count = wanted s totPages target)) := by
  rw [setMemTarget]
  split
  · exact ⟨s,.ok,rfl,Int.le_refl _,Or.inr (Or.inr ⟨rfl,Or.inl rfl⟩)⟩
  · next outstanding =>
    split
    · exact ⟨s,.ok,rfl,Int.le_refl _,Or.inr (Or.inr ⟨rfl,Or.inl rfl⟩)⟩
    · next alive =>
      split
      · exact ⟨s,.ok,rfl,Int.le_refl _,Or.inr (Or.inr ⟨rfl,Or.inl rfl⟩)⟩
      · next above =>
        have computes : Computes s totPages target := ⟨outstanding,by simpa using alive,Nat.not_lt.mp above⟩
        have enough := (not_below_iff sound counted small computes.above).mpr (covered computes)
        rw [if_neg fun fails => absurd fails.2 (Int.not_lt.mpr enough)]
        obtain ⟨s',ret,ran,_,resized⟩ := setCacheTarget_resized debug turns frees (podTarget s totPages target) true sound
        obtain ⟨up,valid⟩ := resized.up enough
        refine ⟨s',ret,ran,up,?_⟩
        cases ret with
        | ENOMEM => exact Or.inl rfl
        | ERESTART => exact Or.inr (Or.inl rfl)
        | EINVAL => exact absurd rfl valid
        | ok =>
          refine Or.inr (Or.inr ⟨rfl,Or.inr ?_⟩)
          rw [resized.met rfl,podTarget_eq sound counted small computes.above]

theorem target_never_below_count (debug : Bool) {acts : List Event} {last : State} (sound : Sound s)
    (ran : Run.run (next debug) s acts = some last) (counted : Census.Counted last.owned totPages) (small : target < 2^64) :
    (totPages ≤ target → (last.count ≤ podTarget last totPages target ↔ Covered last totPages)) ∧
    ((Computes last totPages target → Covered last totPages) → ∀ turns frees,
      ∃ s' ret, setMemTarget debug turns frees totPages target last = .ok (s',ret) ∧ last.count ≤ s'.count ∧
        (ret = .ENOMEM ∨ ret = .ERESTART ∨ ret = .ok ∧ (s' = last ∨ s'.count = wanted last totPages target))) := by
  have kept := run_sound debug sound ran
  refine ⟨fun above => not_below_iff kept counted small above,?_⟩
  intro covered turns frees
  exact setMemTarget_covered debug turns frees kept counted small covered

def fourSingles : List Turn := [⟨none,some 0,false⟩,⟨none,some 1,false⟩,⟨none,some 2,false⟩,⟨none,some 3,false⟩]

-- The cache is filled for a domain that is being built, two entries are marked
-- and one of them is populated.
def filledFirst : List Event := [.setTarget 0 4 fourSingles allFreed,.mark 0 0,.mark 1 0,.demand 0 0 true allSeen]

def firstFour : Nat → Bool := Zones.moved (Zones.moved (Zones.moved (Zones.moved (fun _ => false) 0 1 true) 1 1 true) 2 1 true) 3 1 true

theorem firstFour_counted : Census.Counted firstFour 4 := by
  refine ⟨Finset.range 4,fun m => ?_,rfl⟩
  rw [Finset.mem_range,firstFour]
  simp only [Zones.moved]
  split
  · exact iff_of_true (by omega) rfl
  · split
    · exact iff_of_true (by omega) rfl
    · split
      · exact iff_of_true (by omega) rfl
      · split
        · exact iff_of_true (by omega) rfl
        · exact iff_of_false (by omega) (by decide)

theorem marked_last : ∃ last, Run.run (next true) created (filledFirst.take 3) = some last ∧ Census.Counted last.owned (4 : Nat) ∧
    populated last 4 = 0 := ⟨_,rfl,firstFour_counted,by decide⟩

theorem covered_before_populating : ∃ last, Run.run (next true) created (filledFirst.take 3) = some last ∧
    ∃ s' ret, setMemTarget true fourSingles allFreed 4 8 last = .ok (s',ret) ∧ last.count ≤ s'.count := by
  obtain ⟨last,ran,counted,none_⟩ := marked_last
  obtain ⟨s',ret,targeted,up,_⟩ :=
    (target_never_below_count true created_sound ran counted (by decide : 8 < 2^64)).2 (fun _ => Or.inl none_) fourSingles allFreed
  exact ⟨last,ran,s',ret,targeted,up⟩

-- Three pages are in the cache for one entry, and the target asked for is the
-- number of pages the domain has.
theorem target_below_count : ∃ last, Run.run (next true) created filledFirst = some last ∧ Census.Counted last.owned 4 ∧
    Computes last 4 4 ∧ last.count = 3 ∧ podTarget last 4 4 = 1 ∧ setMemTarget true [] allFreed 4 4 last = .error .assertion := by
  exact ⟨_,rfl,firstFour_counted,⟨by decide,rfl,by decide⟩,rfl,rfl,rfl⟩

end XenAet.PodTarget
