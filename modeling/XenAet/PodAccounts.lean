import XenAet.PodOps

namespace XenAet.PodAccounts
open Library PodCache PodOps
variable {s s' : State} {mfn n order : Nat}

-- All machine frames of the cache: those a superpage stands for, and the single ones.
def cached (s : State) : List Nat := (s.super.flatMap fun m => List.range' m superpagePages) ++ s.single

-- `entry_count` is the number of frame numbers to be populated on demand.
def Entries (s : State) : Prop := Census.Counted (podAt s) s.entryCount

structure Cache (s : State) : Prop where
  counted : s.count = 512 * s.super.length + s.single.length
  distinct : (cached s).Nodup
  held : ∀ m ∈ cached s, s.owned m = true ∧ s.listed m = false
  aligned : ∀ m ∈ s.super, m % superpagePages = 0

-- The ram of the domain is its own, on its page list, and mapped once.
structure Mapped (s : State) : Prop where
  backed : ∀ g type m, s.p2m g = .ram type m → s.owned m = true ∧ s.listed m = true
  apart : ∀ g h type type' m, s.p2m g = .ram type m → s.p2m h = .ram type' m → g = h

structure Sound (s : State) : Prop where
  entries : Entries s
  cache : Cache s
  mapped : Mapped s

-- A frame that is neither in the cache nor mapped.
def Loose (s : State) (m : Nat) : Prop := m ∉ cached s ∧ ∀ g type, s.p2m g ≠ .ram type m

theorem everyPage_iff {p : Nat → Bool} : everyPage p mfn n = true ↔ ∀ m, mfn ≤ m → m < mfn + n → p m = true := by
  rw [everyPage,List.all_eq_true]
  constructor
  · intro all m low high
    obtain ⟨i,rfl⟩ := Nat.exists_eq_add_of_le low
    exact all i (List.mem_range.mpr (by omega))
  · intro all i below
    exact all (mfn + i) (Nat.le_add_right mfn i) (by have := List.mem_range.mp below; omega)

theorem Cache.same (cache : Cache s) (owned : s'.owned = s.owned) (listed : s'.listed = s.listed) (super : s'.super = s.super)
    (single : s'.single = s.single) (count : s'.count = s.count) : Cache s' := by
  have pages : cached s' = cached s := by rw [cached,cached,super,single]
  refine ⟨?_,?_,?_,?_⟩
  · rw [count,super,single]
    exact cache.counted
  · rw [pages]
    exact cache.distinct
  · rw [pages,owned,listed]
    exact cache.held
  · rw [super]
    exact cache.aligned

theorem Mapped.same (mapped : Mapped s) (p2m : s'.p2m = s.p2m)
    (backed : ∀ g type m, s.p2m g = .ram type m → s'.owned m = true ∧ s'.listed m = true) : Mapped s' :=
  ⟨by rw [p2m]; exact backed,by rw [p2m]; exact mapped.apart⟩

theorem Sound.same (sound : Sound s) (p2m : s'.p2m = s.p2m) (owned : s'.owned = s.owned) (listed : s'.listed = s.listed)
    (super : s'.super = s.super) (single : s'.single = s.single) (count : s'.count = s.count)
    (entryCount : s'.entryCount = s.entryCount) : Sound s' := by
  have pods : podAt s' = podAt s := by
    funext g
    rw [podAt,p2m,podAt]
  refine ⟨?_,sound.cache.same owned listed super single count,sound.mapped.same p2m ?_⟩
  · rw [Entries,pods,entryCount]
    exact sound.entries
  · rw [owned,listed]
    exact sound.mapped.backed

theorem added_p2m (s : State) (mfn order : Nat) : (added s mfn order).p2m = s.p2m := by unfold added; split <;> rfl
theorem added_owned (s : State) (mfn order : Nat) : (added s mfn order).owned = s.owned := by unfold added; split <;> rfl
theorem added_entryCount (s : State) (mfn order : Nat) : (added s mfn order).entryCount = s.entryCount := by unfold added; split <;> rfl
theorem added_listed (s : State) (mfn order : Nat) : (added s mfn order).listed = Zones.moved s.listed mfn (2 ^ order) false := by
  unfold added; split <;> rfl

theorem added_cached (sized : order = pageOrder2M ∨ order = pageOrder4K) (s : State) (mfn : Nat) : (cached (added s mfn order)).Perm (List.range' mfn (2 ^ order) ++ cached s) := by
  rcases sized with rfl | rfl
  · have pages : cached (added s mfn pageOrder2M) =
        (s.super.flatMap fun m => List.range' m superpagePages) ++ List.range' mfn (2 ^ pageOrder2M) ++ s.single := by
      simp only [cached,added,if_true,List.flatMap_append,List.flatMap_singleton]
      rfl
    rw [pages,cached,← List.append_assoc]
    exact List.perm_append_comm.append_right _
  · have pages : cached (added s mfn pageOrder4K) = cached s ++ List.range' mfn (2 ^ pageOrder4K) := List.append_assoc _ _ _ |>.symm
    rw [pages]
    exact List.perm_append_comm

theorem Cache.added (sized : order = pageOrder2M ∨ order = pageOrder4K) (cache : Cache s)
    (ready : ∀ m, mfn ≤ m → m < mfn + 2 ^ order → s.owned m = true ∧ s.listed m = true)
    (start : mfn % 2 ^ order = 0) : Cache (added s mfn order) := by
  have pages := added_cached sized s mfn
  refine ⟨?_,?_,?_,?_⟩
  · have counted := cache.counted
    rcases sized with rfl | rfl
    · change s.count + 2 ^ pageOrder2M = 512 * ((s.super ++ [mfn]).length : Int) + s.single.length
      rw [counted,List.length_append,pageOrder2M]
      push_cast [List.length_singleton]
      omega
    · change s.count + 1 = 512 * (s.super.length : Int) + (s.single ++ [mfn]).length
      rw [counted,List.length_append]
      push_cast [List.length_singleton]
      omega
  · rw [pages.nodup_iff,List.nodup_append]
    refine ⟨List.nodup_range',cache.distinct,fun m inside m' held same => ?_⟩
    subst same
    obtain ⟨low,high⟩ := List.mem_range'_1.mp inside
    have off := (cache.held m held).2
    rw [(ready m low high).2] at off
    cases off
  · intro m here
    rw [added_owned,added_listed]
    rcases List.mem_append.mp (pages.mem_iff.mp here) with inside | held
    · obtain ⟨low,high⟩ := List.mem_range'_1.mp inside
      exact ⟨(ready m low high).1,Zones.moved_inside low high⟩
    · refine ⟨(cache.held m held).1,?_⟩
      unfold Zones.moved
      split
      · rfl
      · exact (cache.held m held).2
  · intro m here
    rcases sized with rfl | rfl
    · rcases List.mem_append.mp (show m ∈ s.super ++ [mfn] from here) with old | new
      · exact cache.aligned m old
      · rw [List.mem_singleton.mp new]
        exact start
    · exact cache.aligned m here

theorem Mapped.added (mapped : Mapped s) (free : ∀ g type m, s.p2m g = .ram type m → ¬(mfn ≤ m ∧ m < mfn + 2 ^ order)) :
    Mapped (added s mfn order) := by
  refine mapped.same (added_p2m s mfn order) fun g type m here => ?_
  rw [added_owned,added_listed,Zones.moved_outside (free g type m here)]
  exact mapped.backed g type m here

theorem cacheAdd_ok (sized : order = pageOrder2M ∨ order = pageOrder4K) (debug : Bool)
    (ready : ∀ m, mfn ≤ m → m < mfn + 2 ^ order → s.owned m = true ∧ s.listed m = true)
    (start : mfn % 2 ^ order = 0) : cacheAdd debug s mfn order = .ok (added s mfn order) := by
  have owned : everyPage s.owned mfn (2 ^ order) = true := everyPage_iff.mpr fun m low high => (ready m low high).1
  have listed : everyPage s.listed mfn (2 ^ order) = true := everyPage_iff.mpr fun m low high => (ready m low high).2
  simp only [cacheAdd,owned,listed,start,ne_eq,not_true,Bool.true_eq_false,or_self,and_false,if_false,if_pos sized]

-- The state when a run of `n` frames has been taken from the cache.
def taken (s : State) (super single : List Nat) (mfn n : Nat) : State :=
  {s with super := super, single := single, count := s.count - n, listed := Zones.moved s.listed mfn n true}

theorem Cache.taken {super single : List Nat} (cache : Cache s)
    (parts : (cached s).Perm (List.range' mfn n ++ ((super.flatMap fun m => List.range' m superpagePages) ++ single)))
    (counted : s.count - n = 512 * super.length + single.length) (fewer : ∀ m ∈ super, m ∈ s.super) :
    Cache (taken s super single mfn n) ∧ (∀ m, mfn ≤ m → m < mfn + n → m ∉ cached (taken s super single mfn n)) ∧
      ∀ m, mfn ≤ m → m < mfn + n → s.owned m = true ∧ s.listed m = false := by
  have distinct := parts.nodup_iff.mp cache.distinct
  rw [List.nodup_append] at distinct
  have gone : ∀ m, mfn ≤ m → m < mfn + n → m ∉ (super.flatMap fun m => List.range' m superpagePages) ++ single :=
    fun m low high kept => distinct.2.2 m (List.mem_range'_1.mpr ⟨low,high⟩) m kept rfl
  refine ⟨⟨counted,distinct.2.1,fun m kept => ?_,fun m here => cache.aligned m (fewer m here)⟩,gone,fun m low high => ?_⟩
  · have was := cache.held m (parts.mem_iff.mpr (List.mem_append_right _ kept))
    refine ⟨was.1,?_⟩
    change Zones.moved s.listed mfn n true m = false
    rw [Zones.moved_outside fun inside => gone m inside.1 inside.2 kept]
    exact was.2
  · exact cache.held m (parts.mem_iff.mpr (List.mem_append_left _ (List.mem_range'_1.mpr ⟨low,high⟩)))

structure Got (s s' : State) (order mfn : Nat) : Prop where
  result : ∃ super single, s' = PodAccounts.taken s super single mfn (2 ^ order)
  cache : Cache s'
  out : ∀ m, mfn ≤ m → m < mfn + 2 ^ order → m ∉ cached s'
  was : ∀ m, mfn ≤ m → m < mfn + 2 ^ order → s.owned m = true ∧ s.listed m = false
  start : mfn % 2 ^ order = 0

theorem cachePut_ok (super single : List Nat) (owned : ∀ m, mfn ≤ m → m < mfn + n → s.owned m = true ∧ s.listed m = false) :
    cachePut {s with super := super, single := single, count := s.count - n} mfn n = .ok (taken s super single mfn n,some mfn) := by
  have all : everyPage s.owned mfn n = true := everyPage_iff.mpr fun m low high => (owned m low high).1
  rw [cachePut]
  exact if_pos all

theorem cacheGet_wide {super : List Nat} (cache : Cache s) (wide : s.super = mfn :: super) :
    ∃ s', cacheGet s pageOrder2M = .ok (s',some mfn) ∧ Got s s' pageOrder2M mfn := by
  have counted := cache.counted
  rw [wide,List.length_cons] at counted
  have parts : cached s = List.range' mfn (2 ^ pageOrder2M) ++ ((super.flatMap fun m => List.range' m superpagePages) ++ s.single) := by
    rw [cached,wide,List.flatMap_cons,List.append_assoc]
    rfl
  have fewer : ∀ m ∈ super, m ∈ s.super := fun m here => wide ▸ List.mem_cons_of_mem mfn here
  have size : ((2 ^ pageOrder2M : Nat) : Int) = 512 := rfl
  have fewerCount : s.count - (2 ^ pageOrder2M : Nat) = 512 * super.length + s.single.length := by
    rw [size]
    omega
  obtain ⟨kept,out,was⟩ := cache.taken (List.Perm.of_eq parts) fewerCount fewer
  have start : mfn % 2 ^ pageOrder2M = 0 := cache.aligned mfn (wide ▸ List.mem_cons_self)
  refine ⟨_,?_,⟨super,s.single,rfl⟩,kept,out,was,start⟩
  have some_ : ¬(pageOrder2M = pageOrder2M ∧ s.super = []) := by
    rw [wide]
    exact fun both => List.cons_ne_nil _ _ both.2
  rw [cacheGet,if_neg some_,if_neg fun both => absurd both.1 (by decide),cacheTake,if_pos rfl,wide]
  exact cachePut_ok super s.single was

theorem cacheTake_narrow {single : List Nat} (cache : Cache s) (narrow : s.single = mfn :: single) :
    ∃ s', cacheTake s pageOrder4K = .ok (s',some mfn) ∧ Got s s' pageOrder4K mfn := by
  have counted := cache.counted
  rw [narrow,List.length_cons] at counted
  have parts : (cached s).Perm (List.range' mfn (2 ^ pageOrder4K) ++ ((s.super.flatMap fun m => List.range' m superpagePages) ++ single)) := by
    rw [cached,narrow]
    exact List.perm_middle
  have size : ((2 ^ pageOrder4K : Nat) : Int) = 1 := rfl
  have fewerCount : s.count - (2 ^ pageOrder4K : Nat) = 512 * s.super.length + single.length := by
    rw [size]
    omega
  obtain ⟨kept,out,was⟩ := cache.taken parts fewerCount fun m here => here
  refine ⟨_,?_,⟨s.super,single,rfl⟩,kept,out,was,Nat.mod_one mfn⟩
  rw [cacheTake,if_neg (by decide),if_pos rfl,narrow]
  exact cachePut_ok s.super single was

-- A superpage broken up is the same pages.
theorem Cache.split {super : List Nat} (cache : Cache s) (wide : s.super = mfn :: super) (none_ : s.single = []) :
    Cache {s with super := super, single := s.single ++ List.range' mfn superpagePages} := by
  have counted := cache.counted
  rw [wide,none_,List.length_cons,List.length_nil] at counted
  have parts : (cached s).Perm (cached {s with super := super, single := s.single ++ List.range' mfn superpagePages}) := by
    rw [cached,cached,wide,none_,List.flatMap_cons,List.append_nil,List.nil_append]
    exact List.perm_append_comm
  refine ⟨?_,parts.nodup_iff.mp cache.distinct,fun m here => cache.held m (parts.mem_iff.mpr here),fun m here => ?_⟩
  · dsimp only
    rw [none_,List.nil_append,List.length_range',superpagePages]
    omega
  · exact cache.aligned m (wide ▸ List.mem_cons_of_mem mfn here)

theorem cacheGet_narrow (cache : Cache s) (some_ : 0 < s.count) :
    ∃ s' mfn, cacheGet s pageOrder4K = .ok (s',some mfn) ∧ Got s s' pageOrder4K mfn := by
  have counted := cache.counted
  have first : ¬(pageOrder4K = pageOrder2M ∧ s.super = []) := fun both => absurd both.1 (by decide)
  cases narrow : s.single with
  | cons mfn single =>
    obtain ⟨s',ran,got⟩ := cacheTake_narrow cache narrow
    refine ⟨s',mfn,?_,got⟩
    rw [cacheGet,if_neg first,if_neg (by rw [narrow]; exact fun both => List.cons_ne_nil _ _ both.2)]
    exact ran
  | nil =>
    cases wide : s.super with
    | nil =>
      rw [wide,narrow] at counted
      simp only [List.length_nil] at counted
      omega
    | cons mfn super =>
      have split_ := cache.split wide narrow
      have head : s.single ++ List.range' mfn superpagePages = mfn :: List.range' (mfn + 1) 511 := by
        rw [narrow]
        rfl
      obtain ⟨s',ran,got⟩ := cacheTake_narrow split_ head
      obtain ⟨super',single',rfl⟩ := got.result
      refine ⟨_,mfn,?_,⟨super',single',rfl⟩,got.cache,got.out,got.was,got.start⟩
      rw [cacheGet,if_neg first,if_pos ⟨rfl,narrow⟩,cacheSplit,wide]
      exact ran

theorem Sound.got (sound : Sound s) (got : Got s s' order mfn) :
    Sound s' ∧ ∀ m, mfn ≤ m → m < mfn + 2 ^ order → s'.owned m = true ∧ s'.listed m = true ∧ Loose s' m := by
  have cache := got.cache
  have out := got.out
  obtain ⟨super,single,rfl⟩ := got.result
  refine ⟨⟨sound.entries,cache,sound.mapped.same rfl fun g type m here => ?_⟩,fun m low high => ?_⟩
  · obtain ⟨owned,listed⟩ := sound.mapped.backed g type m here
    refine ⟨owned,?_⟩
    change Zones.moved s.listed mfn (2 ^ order) true m = true
    unfold Zones.moved
    split
    · rfl
    · exact listed
  · obtain ⟨owned,off⟩ := got.was m low high
    refine ⟨owned,Zones.moved_inside low high,out m low high,fun g type here => ?_⟩
    rw [(sound.mapped.backed g type m here).2] at off
    cases off

theorem Sound.added (sound : Sound s) (sized : order = pageOrder2M ∨ order = pageOrder4K)
    (ready : ∀ m, mfn ≤ m → m < mfn + 2 ^ order → s.owned m = true ∧ s.listed m = true) (start : mfn % 2 ^ order = 0)
    (free : ∀ g type m, s.p2m g = .ram type m → ¬(mfn ≤ m ∧ m < mfn + 2 ^ order)) : Sound (added s mfn order) := by
  refine ⟨?_,sound.cache.added sized ready start,sound.mapped.added free⟩
  have pods : podAt (PodCache.added s mfn order) = podAt s := by
    funext g
    rw [podAt,added_p2m,podAt]
  rw [Entries,pods,added_entryCount]
  exact sound.entries

theorem Sound.freed (sound : Sound s) (loose : Loose s mfn) :
    Sound {s with owned := Zones.moved s.owned mfn 1 false, listed := Zones.moved s.listed mfn 1 false} := by
  have other : ∀ m, m ≠ mfn → Zones.moved s.owned mfn 1 false m = s.owned m ∧ Zones.moved s.listed mfn 1 false m = s.listed m :=
    fun m differ => ⟨Zones.moved_ne differ,Zones.moved_ne differ⟩
  refine ⟨sound.entries,⟨sound.cache.counted,sound.cache.distinct,fun m here => ?_,sound.cache.aligned⟩,
    sound.mapped.same rfl fun g type m here => ?_⟩
  · have differ : m ≠ mfn := fun same => loose.1 (same ▸ here)
    dsimp only
    rw [(other m differ).1,(other m differ).2]
    exact sound.cache.held m here
  · have differ : m ≠ mfn := fun same => loose.2 g type (same ▸ here)
    dsimp only
    rw [(other m differ).1,(other m differ).2]
    exact sound.mapped.backed g type m here

theorem dropPage_sound (frees : Frees) (sound : Sound s) (loose : Loose s mfn) :
    Sound (dropPage frees mfn s) ∧ (dropPage frees mfn s).count = s.count ∧ ∀ m, Loose s m → Loose (dropPage frees mfn s) m := by
  unfold dropPage
  split
  · exact ⟨sound.freed loose,rfl,fun m loose => loose⟩
  · exact ⟨sound,rfl,fun m loose => loose⟩

theorem freePages_sound (frees : Frees) (target : Nat) (preemptible : Bool) (sound : Sound s)
    (loose : ∀ m, mfn ≤ m → m < mfn + n → Loose s m) :
    Sound (freePages frees target preemptible n mfn s).1 ∧ (freePages frees target preemptible n mfn s).1.count = s.count := by
  induction n generalizing mfn s with
  | zero => exact ⟨sound,rfl⟩
  | succ n ih =>
    obtain ⟨dropped,same,still⟩ := dropPage_sound frees sound (loose mfn (Nat.le_refl mfn) (by omega))
    rw [freePages]
    split
    · exact ⟨sound,rfl⟩
    · split
      · exact ⟨dropped,same⟩
      · have later : ∀ m, mfn + 1 ≤ m → m < mfn + 1 + n → Loose (dropPage frees mfn s) m :=
          fun m low high => still m (loose m (by omega) (by omega))
        obtain ⟨kept,count⟩ := ih dropped later
        exact ⟨kept,count.trans same⟩

-- Frames no one had, at a boundary of their order.
theorem allocDomheapPages_new {grant : Option Nat} (ran : allocDomheapPages s order grant = some (s',mfn)) :
    mfn % 2 ^ order = 0 ∧
      s' = {s with owned := Zones.moved s.owned mfn (2 ^ order) true, listed := Zones.moved s.listed mfn (2 ^ order) true} ∧
      ∀ m, mfn ≤ m → m < mfn + 2 ^ order → s.owned m = false := by
  unfold allocDomheapPages at ran
  cases grant with
  | none => cases ran
  | some got =>
    dsimp only at ran
    split at ran
    · next fits =>
      cases ran
      refine ⟨fits.1,rfl,fun m low high => ?_⟩
      have none_ := everyPage_iff.mp fits.2 m low high
      rw [Bool.and_eq_true,Bool.not_eq_true'] at none_
      exact none_.1
    · cases ran

theorem allocDomheapPages_sound {grant : Option Nat} (sound : Sound s) (ran : allocDomheapPages s order grant = some (s',mfn)) :
    Sound s' ∧ mfn % 2 ^ order = 0 ∧ (∀ m, mfn ≤ m → m < mfn + 2 ^ order → s'.owned m = true ∧ s'.listed m = true) ∧
      ∀ g type m, s'.p2m g = .ram type m → ¬(mfn ≤ m ∧ m < mfn + 2 ^ order) := by
  obtain ⟨start,rfl,free⟩ := allocDomheapPages_new ran
  have unowned : ∀ m, s.owned m = true → ¬(mfn ≤ m ∧ m < mfn + 2 ^ order) := fun m owned inside => by
    have none_ := free m inside.1 inside.2
    rw [owned] at none_
    cases none_
  refine ⟨⟨sound.entries,⟨sound.cache.counted,sound.cache.distinct,fun m here => ?_,sound.cache.aligned⟩,
    sound.mapped.same rfl fun g type m here => ?_⟩,start,fun m low high => ⟨Zones.moved_inside low high,Zones.moved_inside low high⟩,
    fun g type m here => unowned m (sound.mapped.backed g type m here).1⟩
  · have was := sound.cache.held m here
    dsimp only
    rw [Zones.moved_outside (unowned m was.1),Zones.moved_outside (unowned m was.1)]
    exact was
  · have was := sound.mapped.backed g type m here
    dsimp only
    rw [Zones.moved_outside (unowned m was.1),Zones.moved_outside (unowned m was.1)]
    exact was

theorem allocForCache_sound {turn : Turn} (sound : Sound s) (ran : allocForCache s n turn = some (s',mfn,order)) :
    (order = pageOrder2M ∨ order = pageOrder4K) ∧ Sound s' ∧ mfn % 2 ^ order = 0 ∧
      (∀ m, mfn ≤ m → m < mfn + 2 ^ order → s'.owned m = true ∧ s'.listed m = true) ∧
      ∀ g type m, s'.p2m g = .ram type m → ¬(mfn ≤ m ∧ m < mfn + 2 ^ order) := by
  unfold allocForCache at ran
  split at ran
  · next wide =>
    cases ran
    split at wide
    · exact ⟨.inl rfl,allocDomheapPages_sound sound wide⟩
    · cases wide
  · obtain ⟨⟨s'',mfn'⟩,narrow,same⟩ := Option.map_eq_some_iff.mp ran
    cases same
    exact ⟨.inr rfl,allocDomheapPages_sound sound narrow⟩

theorem growCache_sound (debug : Bool) (target : Nat) (preemptible : Bool) (turns : List Turn) (sound : Sound s) :
    ∃ s' ret, growCache debug target preemptible turns s = .ok (s',ret) ∧ Sound s' := by
  induction turns generalizing s with
  | nil =>
    rw [growCache]
    split
    · exact ⟨s,none,rfl,sound⟩
    · exact ⟨s,some .ENOMEM,rfl,sound⟩
  | cons turn rest ih =>
    rw [growCache]
    split
    · exact ⟨s,none,rfl,sound⟩
    · split
      · exact ⟨s,some .ENOMEM,rfl,sound⟩
      · next s' mfn order had =>
        obtain ⟨sized,allocated,start,ready,free⟩ := allocForCache_sound sound had
        rw [cacheAdd_ok sized debug ready start]
        dsimp only
        have more := allocated.added sized ready start free
        split
        · exact ⟨_,some .ERESTART,rfl,more⟩
        · exact ih more

-- The pages to be freed, a superpage only where there is one.
theorem cacheGet_shrink (sound : Sound s) (some_ : 0 < s.count) (wide : Prop) [Decidable wide] :
    ∃ order s' mfn, (if wide ∧ s.super ≠ [] then pageOrder2M else pageOrder4K) = order ∧
      cacheGet s order = .ok (s',some mfn) ∧ Got s s' order mfn := by
  split
  · next both =>
    obtain ⟨mfn,super,is⟩ := List.exists_cons_of_ne_nil both.2
    obtain ⟨s',ran,got⟩ := cacheGet_wide sound.cache is
    exact ⟨_,s',mfn,rfl,ran,got⟩
  · obtain ⟨s',mfn,ran,got⟩ := cacheGet_narrow sound.cache some_
    exact ⟨_,s',mfn,rfl,ran,got⟩

theorem shrinkCache_sound (frees : Frees) (target : Nat) (preemptible : Bool) (fuel : Nat) (sound : Sound s) (enough : s.count ≤ fuel) :
    ∃ s' ret, shrinkCache frees target preemptible fuel s = .ok (s',ret) ∧ Sound s' := by
  induction fuel generalizing s with
  | zero =>
    rw [shrinkCache,if_pos (by omega)]
    exact ⟨s,.ok,rfl,sound⟩
  | succ fuel ih =>
    rw [shrinkCache]
    split
    · exact ⟨s,.ok,rfl,sound⟩
    · next more =>
      obtain ⟨order,s',mfn,is,ran,got⟩ := cacheGet_shrink sound (by omega) ((superpagePages : Int) < s.count - target)
      rw [is]
      dsimp only
      rw [ran]
      dsimp only
      obtain ⟨taken_,loose⟩ := sound.got got
      obtain ⟨freed,count⟩ := freePages_sound frees target preemptible taken_ fun m low high => (loose m low high).2.2
      have fewer : s'.count < s.count := by
        obtain ⟨super,single,rfl⟩ := got.result
        have positive : 0 < 2 ^ order := Nat.two_pow_pos order
        change s.count - ((2 ^ order : Nat) : Int) < s.count
        omega
      cases freeing : freePages frees target preemptible (2 ^ order) mfn s' with
      | mk last ret =>
        rw [freeing] at freed count
        cases ret with
        | some ret => exact ⟨last,ret,rfl,freed⟩
        | none => exact ih freed (by dsimp only at count; omega)

theorem setCacheTarget_sound (debug : Bool) (turns : List Turn) (frees : Frees) (target : Nat) (preemptible : Bool) (sound : Sound s) :
    ∃ s' ret, setCacheTarget debug turns frees target preemptible s = .ok (s',ret) ∧ Sound s' := by
  obtain ⟨grown,ret,ran,kept⟩ := growCache_sound debug target preemptible turns sound
  rw [setCacheTarget,ran]
  cases ret with
  | some ret => exact ⟨grown,ret,rfl,kept⟩
  | none => exact shrinkCache_sound frees target preemptible grown.count.toNat kept (Int.self_le_toNat _)

end XenAet.PodAccounts
