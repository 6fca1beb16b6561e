import XenAet.PodRuns

namespace XenAet.PodResize
open Library PodCache PodAccounts PodRuns
variable {s s' : State} {mfn n order target : Nat} {tot : Int} {preemptible : Bool}

-- The frames of the domain that are not in the cache: there are
-- `tot_pages - pod.count` of them.
def uncached (s : State) (m : Nat) : Bool := s.owned m && !(cached s).contains m

theorem uncached_iff {m : Nat} : uncached s m = true ↔ s.owned m = true ∧ m ∉ cached s := by
  rw [uncached,Bool.and_eq_true,Bool.not_eq_true',← Bool.not_eq_true,List.contains_iff_mem]

theorem superpages_length (super : List Nat) : (super.flatMap fun m => List.range' m superpagePages).length = 512 * super.length := by
  induction super with
  | nil => rfl
  | cons m super ih => rw [List.flatMap_cons,List.length_append,List.length_range',ih,List.length_cons,superpagePages,Nat.mul_add_one,Nat.add_comm]

theorem cached_length (cache : Cache s) : ((cached s).length : Int) = s.count := by
  have size : ((512 : Nat) : Int) = 512 := rfl
  rw [cache.counted,cached,List.length_append,superpages_length,Int.natCast_add,Int.natCast_mul,size]

theorem owned_parts (cache : Cache s) : s.owned = fun m => uncached s m || (cached s).contains m := by
  funext m
  by_cases here : m ∈ cached s
  · rw [(cache.held m here).1,List.contains_iff_mem.mpr here,Bool.or_true]
  · have out : (cached s).contains m = false := by rwa [← Bool.not_eq_true,List.contains_iff_mem]
    rw [uncached,out,Bool.not_false,Bool.and_true,Bool.or_false]

theorem counted_uncached (cache : Cache s) : Census.Counted s.owned tot ↔ Census.Counted (uncached s) (tot - s.count) := by
  have apart : ∀ m, uncached s m = true → (cached s).contains m = false := by
    intro m loose
    rw [← Bool.not_eq_true,List.contains_iff_mem]
    exact (uncached_iff.mp loose).2
  have whole : ∀ {c : Int}, Census.Counted (uncached s) c → Census.Counted s.owned (c + s.count) := by
    intro c counted
    rw [owned_parts cache,← cached_length cache]
    exact Census.counted_or counted (Census.counted_list cache.distinct) apart
  constructor
  · intro counted
    obtain ⟨c,rest⟩ := Census.counted_fewer counted fun m loose => (uncached_iff.mp loose).1
    have total := Census.counted_unique counted (whole rest)
    rwa [total,Int.add_sub_cancel]
  · intro counted
    have total := whole counted
    rwa [Int.sub_add_cancel] at total

-- A superpage only where one was asked for.
theorem allocForCache_new {turn : Turn} (ran : allocForCache s n turn = some (s',mfn,order)) :
    (order = pageOrder2M → n = pageOrder2M) ∧
      s' = {s with owned := Zones.moved s.owned mfn (2 ^ order) true, listed := Zones.moved s.listed mfn (2 ^ order) true} ∧
      ∀ m, mfn ≤ m → m < mfn + 2 ^ order → s.owned m = false := by
  unfold allocForCache at ran
  split at ran
  · next wide =>
    cases ran
    split at wide
    · next asked => exact ⟨fun _ => asked,(allocDomheapPages_new wide).2⟩
    · cases wide
  · obtain ⟨⟨s'',mfn'⟩,narrow,same⟩ := Option.map_eq_some_iff.mp ran
    cases same
    exact ⟨fun other => absurd other (by decide),(allocDomheapPages_new narrow).2⟩

theorem added_count (sized : order = pageOrder2M ∨ order = pageOrder4K) (s : State) (mfn : Nat) :
    (added s mfn order).count = s.count + 2 ^ order := by
  rcases sized with rfl | rfl
  · rfl
  · rfl

-- What is allocated goes into the cache, so the others are as they were.
theorem uncached_added (sized : order = pageOrder2M ∨ order = pageOrder4K) (free : ∀ m, mfn ≤ m → m < mfn + 2 ^ order → s.owned m = false) :
    uncached (added {s with owned := Zones.moved s.owned mfn (2 ^ order) true, listed := Zones.moved s.listed mfn (2 ^ order) true} mfn order) =
      uncached s := by
  funext m
  rw [Bool.eq_iff_iff,uncached_iff,uncached_iff,added_owned,(added_cached sized _ mfn).mem_iff,List.mem_append,List.mem_range'_1]
  change Zones.moved s.owned mfn (2 ^ order) true m = true ∧ ¬((mfn ≤ m ∧ m < mfn + 2 ^ order) ∨ m ∈ cached s) ↔ _
  by_cases inside : mfn ≤ m ∧ m < mfn + 2 ^ order
  · rw [free m inside.1 inside.2]
    simp only [inside,and_self,true_or,not_true_eq_false,and_false,Bool.false_eq_true,false_and]
  · rw [Zones.moved_outside inside]
    simp only [inside,false_or]

-- What the first loop does, from a cache that is not above the target.
structure Grown (s s' : State) (target : Nat) (ret : Option Ret) : Prop where
  others : uncached s' = uncached s
  up : s.count ≤ s'.count
  below : s'.count ≤ target
  met : ret = none → s'.count = target
  moved : ret = some .ERESTART → s.count < s'.count
  short : ret = some .ENOMEM → s'.count < target
  rets : ret = none ∨ ret = some .ENOMEM ∨ ret = some .ERESTART

theorem Grown.ended (low : s.count ≤ target) (met : (target : Int) ≤ s.count) : Grown s s target none :=
  ⟨rfl,Int.le_refl _,low,fun _ => Int.le_antisymm low met,fun wrong => absurd wrong (by decide),fun wrong => absurd wrong (by decide),Or.inl rfl⟩

theorem Grown.refused (unmet : ¬(target : Int) ≤ s.count) : Grown s s target (some .ENOMEM) :=
  ⟨rfl,Int.le_refl _,(Int.not_le.mp unmet).le,fun wrong => absurd wrong (by decide),fun wrong => absurd wrong (by decide),
    fun _ => Int.not_le.mp unmet,Or.inr (Or.inl rfl)⟩

theorem growCache_grown (debug : Bool) {turns : List Turn} {ret : Option Ret} (sound : Sound s) (low : s.count ≤ target)
    (ran : growCache debug target preemptible turns s = .ok (s',ret)) : Grown s s' target ret := by
  induction turns generalizing s with
  | nil =>
    rw [growCache] at ran
    split at ran
    · next met =>
      cases ran
      exact Grown.ended low met
    · next unmet =>
      cases ran
      exact Grown.refused unmet
  | cons turn rest ih =>
    rw [growCache] at ran
    split at ran
    · next met =>
      cases ran
      exact Grown.ended low met
    · next unmet =>
      split at ran
      · cases ran
        exact Grown.refused unmet
      · next s1 mfn order had =>
        obtain ⟨sized,allocated,start,ready,free⟩ := allocForCache_sound sound had
        obtain ⟨wide,rfl,new⟩ := allocForCache_new had
        rw [cacheAdd_ok sized debug ready start] at ran
        dsimp only at ran
        have more := allocated.added sized ready start free
        have others := uncached_added sized new
        have count := added_count sized {s with owned := Zones.moved s.owned mfn (2 ^ order) true, listed := Zones.moved s.listed mfn (2 ^ order) true} mfn
        have room : s.count + 2 ^ order ≤ target := by
          rcases sized with rfl | rfl
          · have asked := wide rfl
            split at asked
            · next far =>
              simp only [superpagePages] at far
              simp only [pageOrder2M]
              omega
            · cases asked
          · simp only [pageOrder4K]
            omega
        have positive : (0 : Int) < 2 ^ order := Int.pow_pos (by decide)
        dsimp only at count
        split at ran
        · cases ran
          exact ⟨others,by omega,by omega,fun wrong => absurd wrong (by decide),fun _ => by omega,fun wrong => absurd wrong (by decide),Or.inr (Or.inr rfl)⟩
        · have rest := ih more (by omega) ran
          have up := rest.up
          exact ⟨rest.others.trans others,by omega,rest.below,rest.met,fun _ => by omega,rest.short,rest.rets⟩

-- The frames of the cache in the order in which they leave it one by one.
def queue (s : State) : List Nat := s.single ++ s.super.flatMap fun m => List.range' m superpagePages

-- A run of frames taken from the cache, and what is left of it.
structure Parts (s s' : State) (order mfn : Nat) : Prop where
  owned : s'.owned = s.owned
  count : s'.count = s.count - 2 ^ order
  wide : order = pageOrder2M → s.super = mfn :: s'.super ∧ s'.single = s.single
  narrow : order = pageOrder4K → queue s = mfn :: queue s' ∧ (s.super = [] → s'.super = [])

theorem cachePut_state {page : Option Nat} (ran : cachePut s mfn n = .ok (s',page)) :
    s' = {s with listed := Zones.moved s.listed mfn n true} ∧ page = some mfn := by
  rw [cachePut] at ran
  split at ran
  · cases ran
    exact ⟨rfl,rfl⟩
  · cases ran

theorem cacheTake_parts (ran : cacheTake s order = .ok (s',some mfn)) : Parts s s' order mfn := by
  rw [cacheTake] at ran
  split at ran
  · next wide =>
    subst wide
    split at ran
    · cases ran
    · next m super is =>
      obtain ⟨rfl,same⟩ := cachePut_state ran
      cases same
      exact ⟨rfl,rfl,fun _ => ⟨is,rfl⟩,fun wrong => absurd wrong (by decide)⟩
  · split at ran
    · next narrow =>
      subst narrow
      split at ran
      · cases ran
      · next m single is =>
        obtain ⟨rfl,same⟩ := cachePut_state ran
        cases same
        refine ⟨rfl,rfl,fun wrong => absurd wrong (by decide),fun _ => ⟨?_,fun empty => empty⟩⟩
        rw [queue,is]
        rfl
    · cases ran

theorem cacheGet_parts (ran : cacheGet s order = .ok (s',some mfn)) : Parts s s' order mfn := by
  rw [cacheGet] at ran
  split at ran
  · cases ran
  · split at ran
    · next narrow =>
      rw [cacheSplit] at ran
      cases is : s.super with
      | nil =>
        rw [is] at ran
        cases ran
      | cons m super =>
        rw [is] at ran
        have rest := cacheTake_parts ran
        refine ⟨rest.owned,rest.count,fun wrong => absurd (narrow.1.symm.trans wrong) (by decide),fun is_ => ⟨?_,fun empty => absurd (is.symm.trans empty) (List.cons_ne_nil _ _)⟩⟩
        rw [← (rest.narrow is_).1,queue,queue,is,List.flatMap_cons,narrow.2,List.nil_append,List.nil_append]
    · exact cacheTake_parts ran

theorem queue_cached : (cached s).Perm (queue s) := List.perm_append_comm

theorem Parts.pages (parts : Parts s s' order mfn) (sized : order = pageOrder2M ∨ order = pageOrder4K) :
    (cached s).Perm (List.range' mfn (2 ^ order) ++ cached s') := by
  rcases sized with wide | narrow
  · obtain ⟨super,single⟩ := parts.wide wide
    rw [cached,super,List.flatMap_cons,List.append_assoc,wide,cached,single]
    exact List.Perm.refl _
  · refine queue_cached.trans ?_
    rw [(parts.narrow narrow).1,narrow]
    exact queue_cached.symm.cons _

-- The runs in which `excess` pages leave the cache: superpages while more than
-- one is to go, then single pages.
def runs : Nat → List Nat → List Nat → List (List Nat)
  | excess,[],single => (single.take excess).map ([·])
  | excess,m :: super,single =>
    if superpagePages < excess then List.range' m superpagePages :: runs (excess - superpagePages) super single
    else ((single ++ (m :: super).flatMap fun m => List.range' m superpagePages).take excess).map ([·])

theorem runs_narrow {excess : Nat} (short : ¬(superpagePages < excess ∧ s.super ≠ [])) :
    runs excess s.super s.single = ((queue s).take excess).map ([·]) := by
  rw [queue]
  cases is : s.super with
  | nil => rw [runs,List.flatMap_nil,List.append_nil]
  | cons m super => rw [runs,if_neg fun wide => short ⟨wide,by rw [is]; exact List.cons_ne_nil _ _⟩]

theorem Parts.runs (parts : Parts s s' order mfn) (is : (if (superpagePages : Int) < s.count - target ∧ s.super ≠ [] then pageOrder2M else pageOrder4K) = order)
    (more : (target : Int) < s.count) :
    runs (s.count - target).toNat s.super s.single =
      List.range' mfn (2 ^ order) :: runs (s'.count - target).toNat s'.super s'.single := by
  have count := parts.count
  split at is
  · next both =>
    subst is
    obtain ⟨super,single⟩ := parts.wide rfl
    have left : (s'.count - target).toNat = (s.count - target).toNat - superpagePages := by
      rw [count]
      simp only [pageOrder2M,superpagePages]
      omega
    rw [super,PodResize.runs,if_pos (by omega),left,single]
    rfl
  · next short =>
    subst is
    have left : (s.count - target).toNat = (s'.count - target).toNat + 1 := by
      rw [count]
      simp only [pageOrder4K]
      omega
    obtain ⟨first,none_⟩ := parts.narrow rfl
    rw [runs_narrow fun both => short ⟨by omega,both.2⟩,first,left,List.take_succ_cons,List.map_cons,runs_narrow fun both => short ⟨by omega,fun empty => both.2 (none_ empty)⟩]
    rfl

-- Every page of a run is got and loses its last reference, and nothing preempts
-- before the last of them.
def Whole (frees : Frees) (preemptible : Bool) (run : List Nat) : Prop :=
  (∀ m ∈ run, frees.got m = true ∧ frees.last m = true) ∧ (preemptible = true → ∀ m ∈ run.dropLast, frees.preempt m = false)

def Leaves (frees : Frees) (preemptible : Bool) (run : List Nat) : Prop :=
  preemptible = true ∧ ∃ m ∈ run.getLast?, frees.preempt m = true

-- Whole runs up to one that ends the call.
def Clean (frees : Frees) (preemptible : Bool) : List (List Nat) → Prop
  | [] => True
  | run :: rest => Whole frees preemptible run ∧ (Leaves frees preemptible run ∨ Clean frees preemptible rest)

structure Freed (frees : Frees) (n page : Nat) (s s' : State) (ret : Option Ret) : Prop where
  lists : s'.super = s.super ∧ s'.single = s.single ∧ s'.count = s.count
  fewer : ∀ m, s'.owned m = true → s.owned m = true
  frame : ∀ m, ¬(page ≤ m ∧ m < page + n) → s'.owned m = s.owned m
  rets : ret = none ∨ ret = some .EINVAL ∨ ret = some .ERESTART
  got : (∀ m, page ≤ m → m < page + n → frees.got m = true) → ret ≠ some .EINVAL

theorem dropPage_freed (frees : Frees) (page : Nat) (s : State) :
    (dropPage frees page s).super = s.super ∧ (dropPage frees page s).single = s.single ∧ (dropPage frees page s).count = s.count ∧
      (∀ m, (dropPage frees page s).owned m = true → s.owned m = true) ∧
      (∀ m, m ≠ page → (dropPage frees page s).owned m = s.owned m) ∧
      (s.owned page = true → ((dropPage frees page s).owned page = false ↔ frees.last page = true)) := by
  unfold dropPage
  split
  · next last =>
    refine ⟨rfl,rfl,rfl,?_,fun m differ => Zones.moved_ne differ,fun _ => iff_of_true (Zones.moved_self _ _ _) last⟩
    intro m owned
    dsimp only at owned
    by_cases same : m = page
    · subst same
      rw [show Zones.moved s.owned m 1 false m = false from Zones.moved_self _ _ _] at owned
      cases owned
    · rwa [show Zones.moved s.owned page 1 false m = s.owned m from Zones.moved_ne same] at owned
  · next not =>
    refine ⟨rfl,rfl,rfl,fun m owned => owned,fun m _ => rfl,fun owned => iff_of_false (fun gone => ?_) not⟩
    rw [owned] at gone
    cases gone

theorem freePages_freed {frees : Frees} {page : Nat} {ret : Option Ret} (ran : freePages frees target preemptible n page s = (s',ret)) :
    Freed frees n page s s' ret := by
  induction n generalizing page s with
  | zero =>
    cases ran
    exact ⟨⟨rfl,rfl,rfl⟩,fun m owned => owned,fun m _ => rfl,Or.inl rfl,fun _ wrong => by cases wrong⟩
  | succ n ih =>
    obtain ⟨super,single,count,fewer,frame,_⟩ := dropPage_freed frees page s
    rw [freePages] at ran
    split at ran
    · next bad =>
      cases ran
      refine ⟨⟨rfl,rfl,rfl⟩,fun m owned => owned,fun m _ => rfl,Or.inr (Or.inl rfl),?_⟩
      intro got
      rw [got page (Nat.le_refl _) (by omega)] at bad
      cases bad
    · split at ran
      · cases ran
        exact ⟨⟨super,single,count⟩,fewer,fun m out => frame m (by omega),Or.inr (Or.inr rfl),fun _ wrong => by cases wrong⟩
      · have rest := ih ran
        refine ⟨⟨rest.lists.1.trans super,rest.lists.2.1.trans single,rest.lists.2.2.trans count⟩,?_,?_,rest.rets,?_⟩
        · intro m owned
          exact fewer m (rest.fewer m owned)
        · intro m out
          rw [rest.frame m (by omega)]
          exact frame m (by omega)
        · intro got
          exact rest.got fun m low high => got m (by omega) (by omega)

theorem whole_cons {frees : Frees} {page : Nat} {run : List Nat} : Whole frees preemptible (page :: run) ↔
    (frees.got page = true ∧ frees.last page = true) ∧ (preemptible = true → run ≠ [] → frees.preempt page = false) ∧ Whole frees preemptible run := by
  cases run with
  | nil => simp [Whole]
  | cons next run =>
    simp only [Whole,List.dropLast_cons_cons,List.forall_mem_cons]
    constructor
    · rintro ⟨⟨first,others⟩,quiet⟩
      exact ⟨first,fun on _ => (quiet on).1,others,fun on => (quiet on).2⟩
    · rintro ⟨first,quiet,others,later⟩
      exact ⟨⟨first,others⟩,fun on => ⟨quiet on (List.cons_ne_nil _ _),later on⟩⟩

section
variable {frees : Frees} {page : Nat} {ret : Option Ret}

-- `away`: a superpage is taken only with more pages to go than it has, so that
-- the test for preemption is made after each page but perhaps a single one.
theorem freePages_whole (ran : freePages frees target preemptible n page s = (s',ret)) (away : 1 < n → (target : Int) ≠ s.count)
    (owned : ∀ m ∈ List.range' page n, s.owned m = true) :
    (∀ m ∈ List.range' page n, s'.owned m = false) ↔ Whole frees preemptible (List.range' page n) := by
  induction n generalizing page s with
  | zero => simp [Whole]
  | succ n ih =>
    obtain ⟨_,_,count,_,frame,gone⟩ := dropPage_freed frees page s
    rw [List.range'_succ] at owned ⊢
    obtain ⟨here,later⟩ := List.forall_mem_cons.mp owned
    have other (m : Nat) (inside : m ∈ List.range' (page + 1) n) : m ≠ page := by
      rw [List.mem_range'_1] at inside
      omega
    rw [List.forall_mem_cons,whole_cons]
    rw [freePages] at ran
    split at ran
    · next bad =>
      cases ran
      refine iff_of_false (fun all => ?_) fun all => ?_
      · rw [here] at all
        cases all.1
      · rw [bad] at all
        cases all.1.1
    · next got =>
      have had : frees.got page = true := by simpa using got
      split at ran
      · next stop =>
        cases ran
        cases n with
        | zero => simp [gone here,had,Whole]
        | succ n =>
          have next : page + 1 ∈ List.range' (page + 1) (n + 1) := List.mem_range'_1.mpr (by omega)
          refine iff_of_false (fun all => ?_) fun all => ?_
          · have kept := all.2 _ next
            rw [frame _ (other _ next),later _ next] at kept
            cases kept
          · have quiet := all.2.1 stop.1 (List.ne_nil_of_mem next)
            rw [stop.2.2] at quiet
            cases quiet
      · next go =>
        have rest := ih ran (fun _ => by rw [count]; exact away (by omega)) fun m inside => by rw [frame m (other m inside)]; exact later m inside
        have quiet : preemptible = true → List.range' (page + 1) n ≠ [] → frees.preempt page = false := by
          intro on more
          have some_ : n ≠ 0 := fun zero => more (by rw [zero]; rfl)
          exact Bool.not_eq_true _ ▸ fun preempt => go ⟨on,away (by omega),preempt⟩
        rw [(freePages_freed ran).frame page (by omega),gone here,rest]
        exact ⟨fun all => ⟨⟨had,all.1⟩,quiet,all.2⟩,fun all => ⟨all.1.2,all.2.2⟩⟩

theorem freePages_leaves (ran : freePages frees target preemptible n page s = (s',ret)) (whole : Whole frees preemptible (List.range' page n)) :
    (ret ≠ none → Leaves frees preemptible (List.range' page n)) ∧
      (ret = none → Leaves frees preemptible (List.range' page n) → (target : Int) = s.count) := by
  induction n generalizing page s with
  | zero =>
    cases ran
    exact ⟨fun wrong => absurd rfl wrong,fun _ leaves => absurd leaves (by simp [Leaves])⟩
  | succ n ih =>
    have count := (dropPage_freed frees page s).2.2.1
    rw [List.range'_succ] at whole ⊢
    obtain ⟨⟨got,_⟩,quiet,rest⟩ := whole_cons.mp whole
    rw [freePages,if_neg (by rw [got]; decide)] at ran
    split at ran
    · next stop =>
      cases ran
      have only : List.range' (page + 1) n = [] := by
        by_contra more
        have no := quiet stop.1 more
        rw [stop.2.2] at no
        cases no
      refine ⟨fun _ => ⟨stop.1,page,?_,stop.2.2⟩,fun wrong => by cases wrong⟩
      rw [only]
      rfl
    · next go =>
      cases n with
      | zero =>
        cases ran
        refine ⟨fun wrong => absurd rfl wrong,fun _ leaves => ?_⟩
        obtain ⟨on,m,last,preempt⟩ := leaves
        cases last
        by_contra differ
        exact go ⟨on,differ,preempt⟩
      | succ n =>
        have later := ih ran rest
        rw [count,List.range'_succ] at later
        rw [List.range'_succ]
        exact later

end

-- What was in the cache is in it still or is not the domain's any more.
def NoneStranded (s s' : State) : Prop := ∀ m ∈ cached s, m ∈ cached s' ∨ s'.owned m = false

-- What the second loop does, from a cache that is not below the target.
structure Shrunk (frees : Frees) (preemptible : Bool) (s s' : State) (target : Nat) (ret : Ret) : Prop where
  others : ∀ m, uncached s m = true → uncached s' m = true
  fewer : ∀ m, s'.owned m = true → s.owned m = true
  down : s'.count ≤ s.count
  above : (target : Int) ≤ s'.count
  met : ret = .ok → s'.count = target
  moved : ret ≠ .ok → s'.count < s.count
  rets : ret = .ok ∨ ret = .EINVAL ∨ ret = .ERESTART
  got : (∀ m ∈ cached s, frees.got m = true) → ret ≠ .EINVAL
  clean : NoneStranded s s' ↔ Clean frees preemptible (runs (s.count - target).toNat s.super s.single)

theorem clean_met {frees : Frees} (met : s.count ≤ target) : Clean frees preemptible (runs (s.count - target).toNat s.super s.single) := by
  have none_ : (s.count - target).toNat = 0 := by omega
  rw [runs_narrow (by omega),none_]
  exact trivial

theorem Shrunk.ended {frees : Frees} (high : (target : Int) ≤ s.count) (met : s.count ≤ target) : Shrunk frees preemptible s s target .ok :=
  ⟨fun m loose => loose,fun m owned => owned,Int.le_refl _,high,fun _ => Int.le_antisymm met high,fun wrong => absurd rfl wrong,Or.inl rfl,
    fun _ wrong => (by cases wrong),iff_of_true (fun m here => Or.inl here) (clean_met met)⟩

-- One turn of the second loop.
structure Turned (frees : Frees) (preemptible : Bool) (s s' : State) (order page target : Nat) (ret : Option Ret) : Prop where
  others : ∀ m, uncached s m = true → uncached s' m = true
  fewer : ∀ m, s'.owned m = true → s.owned m = true
  count : s'.count = s.count - 2 ^ order
  left : ∀ m ∈ cached s', m ∈ cached s
  rets : ret = none ∨ ret = some .EINVAL ∨ ret = some .ERESTART
  got : (∀ m ∈ cached s, frees.got m = true) → ret ≠ some .EINVAL
  whole : NoneStranded s s' ↔ Whole frees preemptible (List.range' page (2 ^ order))
  leaves : Whole frees preemptible (List.range' page (2 ^ order)) → (ret ≠ none → Leaves frees preemptible (List.range' page (2 ^ order))) ∧
    (ret = none → Leaves frees preemptible (List.range' page (2 ^ order)) → (target : Int) = s'.count)
  runs : runs (s.count - target).toNat s.super s.single =
    List.range' page (2 ^ order) :: runs (s'.count - target).toNat s'.super s'.single

section
variable {frees : Frees} {middle : State} {page : Nat}

theorem turn_turned {ret : Option Ret} (cache : Cache s) (more : (target : Int) < s.count)
    (is : (if (superpagePages : Int) < s.count - target ∧ s.super ≠ [] then pageOrder2M else pageOrder4K) = order)
    (took : cacheGet s order = .ok (middle,some page)) (out : ∀ m, page ≤ m → m < page + 2 ^ order → m ∉ cached middle)
    (freeing : freePages frees target preemptible (2 ^ order) page middle = (s',ret)) :
    Turned frees preemptible s s' order page target ret := by
  have parts := cacheGet_parts took
  have freed := freePages_freed freeing
  obtain ⟨super,single,count⟩ := freed.lists
  have same : cached s' = cached middle := by rw [cached,cached,super,single]
  have sized : order = pageOrder2M ∨ order = pageOrder4K := by
    split at is
    · exact Or.inl is.symm
    · exact Or.inr is.symm
  have pages := parts.pages sized
  have of_run : ∀ m ∈ List.range' page (2 ^ order), m ∈ cached s := fun m inside => pages.mem_iff.mpr (List.mem_append_left _ inside)
  have left : ∀ m ∈ cached s', m ∈ cached s := fun m here => pages.mem_iff.mpr (List.mem_append_right _ (same ▸ here))
  have away : 1 < 2 ^ order → (target : Int) ≠ middle.count := by
    intro wide
    rw [parts.count]
    split at is
    · next both =>
      subst is
      simp only [superpagePages,pageOrder2M] at both ⊢
      omega
    · subst is
      exact absurd wide (by decide)
  refine ⟨?_,?_,by rw [count,parts.count],left,freed.rets,?_,?_,?_,?_⟩
  · intro m loose
    obtain ⟨owned,out⟩ := uncached_iff.mp loose
    refine uncached_iff.mpr ⟨?_,fun here => out (left m here)⟩
    rw [freed.frame m fun inside => out (of_run m (List.mem_range'_1.mpr inside)),parts.owned]
    exact owned
  · intro m owned
    have before := freed.fewer m owned
    rwa [parts.owned] at before
  · intro got
    exact freed.got fun m low high => got m (of_run m (List.mem_range'_1.mpr ⟨low,high⟩))
  · rw [← freePages_whole freeing away fun m inside => by rw [parts.owned]; exact (cache.held m (of_run m inside)).1]
    constructor
    · intro none_ m inside
      obtain ⟨low,high⟩ := List.mem_range'_1.mp inside
      exact (none_ m (of_run m inside)).resolve_left (same ▸ out m low high)
    · intro gone m here
      exact (List.mem_append.mp (pages.mem_iff.mp here)).elim (fun inside => Or.inr (gone m inside)) fun kept => Or.inl (same ▸ kept)
  · intro whole
    rw [count]
    exact freePages_leaves freeing whole
  · rw [parts.runs is more,super,single,count]

theorem Turned.then_shrunk {ret : Ret} (turned : Turned frees preemptible s middle order page target none)
    (rest : Shrunk frees preemptible middle s' target ret) : Shrunk frees preemptible s s' target ret := by
  have positive : (0 : Int) < 2 ^ order := Int.pow_pos (by decide)
  have count := turned.count
  have down := rest.down
  have gone {m : Nat} (out : middle.owned m = false) : s'.owned m = false := by
    rw [← Bool.not_eq_true] at out ⊢
    exact mt (rest.fewer m) out
  refine ⟨?_,?_,by omega,rest.above,rest.met,fun _ => by omega,rest.rets,?_,?_⟩
  · intro m loose
    exact rest.others m (turned.others m loose)
  · intro m owned
    exact turned.fewer m (rest.fewer m owned)
  · intro got
    exact rest.got fun m here => got m (turned.left m here)
  · rw [turned.runs,Clean,← rest.clean]
    constructor
    · intro none_
      have first : NoneStranded s middle := by
        intro m here
        by_contra neither
        -- stranded by this turn, a page stays so
        have loose := rest.others m (uncached_iff.mpr ⟨by simpa using fun out => neither (Or.inr out),fun kept => neither (Or.inl kept)⟩)
        obtain ⟨owned,out⟩ := uncached_iff.mp loose
        rcases none_ m here with kept | gone
        · exact out kept
        · rw [owned] at gone
          cases gone
      exact ⟨turned.whole.mp first,Or.inr fun m here => none_ m (turned.left m here)⟩
    · rintro ⟨whole,later⟩ m here
      have others : NoneStranded middle s' := later.elim (fun leaves => rest.clean.mpr (clean_met ((turned.leaves whole).2 rfl leaves).ge)) id
      exact (turned.whole.mpr whole m here).elim (others m) fun out => Or.inr (gone out)

theorem Turned.stops {ret : Ret} (turned : Turned frees preemptible s s' order page target (some ret)) (room : (target : Int) ≤ s.count - 2 ^ order) :
    Shrunk frees preemptible s s' target ret := by
  have positive : (0 : Int) < 2 ^ order := Int.pow_pos (by decide)
  have count := turned.count
  have rets : ret = .EINVAL ∨ ret = .ERESTART := by
    rcases turned.rets with wrong | is | is
    · cases wrong
    · cases is
      exact Or.inl rfl
    · cases is
      exact Or.inr rfl
  refine ⟨turned.others,turned.fewer,by omega,by omega,?_,fun _ => by omega,Or.inr rets,?_,?_⟩
  · rintro rfl
    rcases rets with wrong | wrong
    · cases wrong
    · cases wrong
  · intro got is
    exact turned.got got (congrArg some is)
  · rw [turned.runs,Clean,turned.whole]
    exact ⟨fun whole => ⟨whole,Or.inl ((turned.leaves whole).1 (by simp))⟩,And.left⟩

end

theorem shrinkCache_shrunk (frees : Frees) {fuel : Nat} {ret : Ret} (sound : Sound s) (high : (target : Int) ≤ s.count)
    (ran : shrinkCache frees target preemptible fuel s = .ok (s',ret)) : Shrunk frees preemptible s s' target ret := by
  induction fuel generalizing s with
  | zero =>
    rw [shrinkCache] at ran
    split at ran
    · next met =>
      cases ran
      exact Shrunk.ended high met
    · cases ran
  | succ fuel ih =>
    rw [shrinkCache] at ran
    split at ran
    · next met =>
      cases ran
      exact Shrunk.ended high met
    · next more =>
      obtain ⟨order,middle,page,is,took,got⟩ := cacheGet_shrink sound (by omega) ((superpagePages : Int) < s.count - target)
      have room : (target : Int) ≤ s.count - 2 ^ order := by
        split at is
        · next wide =>
          subst is
          simp only [superpagePages,pageOrder2M] at wide ⊢
          omega
        · subst is
          simp only [pageOrder4K]
          omega
      dsimp only at ran
      rw [is,took] at ran
      dsimp only at ran
      obtain ⟨taken_,loose⟩ := sound.got got
      obtain ⟨freed,_⟩ := freePages_sound frees target preemptible taken_ fun m low high => (loose m low high).2.2
      cases freeing : freePages frees target preemptible (2 ^ order) page middle with
      | mk last stopped =>
        have turned := turn_turned sound.cache (by omega) is took got.out freeing
        rw [freeing] at ran freed
        cases stopped with
        | some stopped =>
          cases ran
          exact turned.stops room
        | none => exact turned.then_shrunk (ih freed (by rw [turned.count]; exact room) ran)

-- A page that was in the cache and is the domain's still, but not in the cache.
def stranded (s s' : State) (m : Nat) : Bool := (cached s).contains m && uncached s' m

structure Resized (frees : Frees) (preemptible : Bool) (s s' : State) (target : Nat) (ret : Ret) : Prop where
  others : uncached s' = fun m => uncached s m || stranded s s' m
  allocated : ∀ m, s'.owned m = true → s.owned m = false → m ∈ cached s'
  up : s.count ≤ target → s.count ≤ s'.count ∧ ret ≠ .EINVAL
  met : ret = .ok → s'.count = target
  nearer : ret = .ERESTART → ((target : Int) - s'.count).natAbs < ((target : Int) - s.count).natAbs
  short : ret = .ENOMEM → s'.count < target
  got : (∀ m ∈ cached s, frees.got m = true) → ret ≠ .EINVAL
  clean : NoneStranded s s' ↔ Clean frees preemptible (runs (s.count - target).toNat s.super s.single)

theorem stranded_iff {m : Nat} : stranded s s' m = true ↔ m ∈ cached s ∧ uncached s' m = true := by
  rw [stranded,Bool.and_eq_true,List.contains_iff_mem]

theorem noneStranded_iff : NoneStranded s s' ↔ ∀ m, stranded s s' m = false := by
  constructor
  · intro none_ m
    rw [← Bool.not_eq_true,stranded_iff,uncached_iff]
    rintro ⟨here,owned,out⟩
    rcases none_ m here with kept | gone
    · exact out kept
    · rw [owned] at gone
      cases gone
  · intro none_ m here
    by_contra neither
    have loose : stranded s s' m = true := by
      rw [stranded_iff,uncached_iff]
      exact ⟨here,by simpa using fun gone => neither (Or.inr gone),fun kept => neither (Or.inl kept)⟩
    rw [none_ m] at loose
    cases loose

theorem Grown.none_stranded {ret : Option Ret} (grown : Grown s s' target ret) (m : Nat) : stranded s s' m = false := by
  rw [← Bool.not_eq_true,stranded_iff,grown.others]
  rintro ⟨here,loose⟩
  exact (uncached_iff.mp loose).2 here

theorem Grown.resized {frees : Frees} {ret : Option Ret} {value : Ret} (grown : Grown s s' target ret)
    (is : ret = some value ∨ ret = none ∧ value = .ok) : Resized frees preemptible s s' target value := by
  have up := grown.up
  have below := grown.below
  have none_ := grown.none_stranded
  have valid : value ≠ .EINVAL := by
    rintro rfl
    rcases is with is | is
    · rcases grown.rets with wrong | wrong | wrong
      all_goals cases wrong.symm.trans is
    · cases is.2
  refine ⟨?_,?_,?_,?_,?_,?_,?_,iff_of_true (noneStranded_iff.mpr none_) (clean_met (by omega))⟩
  · funext m
    rw [none_ m,Bool.or_false,grown.others]
  · intro m owned new
    by_contra out
    have loose : uncached s' m = true := uncached_iff.mpr ⟨owned,out⟩
    rw [grown.others,uncached_iff,new] at loose
    cases loose.1
  · exact fun _ => ⟨up,valid⟩
  · rintro rfl
    rcases is with is | is
    · rcases grown.rets with wrong | wrong | wrong
      all_goals cases wrong.symm.trans is
    · exact grown.met is.1
  · rintro rfl
    rcases is with is | is
    · have moved := grown.moved is
      omega
    · cases is.2
  · rintro rfl
    rcases is with is | is
    · exact grown.short is
    · cases is.2
  · exact fun _ => valid

theorem Shrunk.resized {frees : Frees} {ret : Ret} (shrunk : Shrunk frees preemptible s s' target ret) :
    Resized frees preemptible s s' target ret := by
  have down := shrunk.down
  have above := shrunk.above
  refine ⟨?_,?_,?_,shrunk.met,?_,?_,shrunk.got,shrunk.clean⟩
  · funext m
    rw [Bool.eq_iff_iff,Bool.or_eq_true,stranded_iff]
    constructor
    · intro loose
      by_cases here : m ∈ cached s
      · exact Or.inr ⟨here,loose⟩
      · exact Or.inl (uncached_iff.mpr ⟨shrunk.fewer m (uncached_iff.mp loose).1,here⟩)
    · rintro (loose | ⟨_,loose⟩)
      · exact shrunk.others m loose
      · exact loose
  · intro m owned new
    rw [shrunk.fewer m owned] at new
    cases new
  · intro low
    refine ⟨by omega,?_⟩
    rintro rfl
    have moved := shrunk.moved (by decide)
    omega
  · rintro rfl
    have moved := shrunk.moved (by decide)
    omega
  · rintro rfl
    rcases shrunk.rets with wrong | wrong | wrong
    all_goals cases wrong

-- Only one of the two loops has something to do.
theorem setCacheTarget_resized (debug : Bool) (turns : List Turn) (frees : Frees) (target : Nat) (preemptible : Bool) (sound : Sound s) :
    ∃ s' ret, setCacheTarget debug turns frees target preemptible s = .ok (s',ret) ∧ Sound s' ∧ Resized frees preemptible s s' target ret := by
  obtain ⟨s',ret,ran,kept⟩ := setCacheTarget_sound debug turns frees target preemptible sound
  refine ⟨s',ret,ran,kept,?_⟩
  rw [setCacheTarget] at ran
  by_cases high : (target : Int) ≤ s.count
  · have skipped : growCache debug target preemptible turns s = .ok (s,none) := by
      rw [growCache.eq_def]
      exact if_pos high
    rw [skipped] at ran
    exact (shrinkCache_shrunk frees sound high ran).resized
  · cases growing : growCache debug target preemptible turns s with
    | error crash =>
      rw [growing] at ran
      cases ran
    | ok result =>
      obtain ⟨middle,stopped⟩ := result
      have grown := growCache_grown debug sound (by omega) growing
      rw [growing] at ran
      cases stopped with
      | some stopped =>
        cases ran
        exact grown.resized (Or.inl rfl)
      | none =>
        have skipped : shrinkCache frees target preemptible middle.count.toNat middle = .ok (middle,.ok) := by
          rw [shrinkCache.eq_def]
          exact if_pos grown.below
        dsimp only at ran
        rw [skipped] at ran
        cases ran
        exact grown.resized (Or.inr ⟨rfl,rfl⟩)

-- The call is made again for as long as it asks for it.
def resize (debug : Bool) (target : Nat) (preemptible : Bool) : List (List Turn × Frees) → State → Except Crash (State × Ret)
  | [],s => .ok (s,.ERESTART)
  | (turns,frees) :: rest,s =>
    match setCacheTarget debug turns frees target preemptible s with
    | .ok (s,.ERESTART) => resize debug target preemptible rest s
    | result => result

theorem resize_ends (debug : Bool) (target : Nat) (preemptible : Bool) (calls : List (List Turn × Frees)) (sound : Sound s)
    (enough : ((target : Int) - s.count).natAbs < calls.length) (got : ∀ call ∈ calls, ∀ m, call.2.got m = true) :
    ∃ s' ret, resize debug target preemptible calls s = .ok (s',ret) ∧ (ret = .ok ∧ s'.count = target ∨ ret = .ENOMEM ∧ s'.count < target) := by
  induction calls generalizing s with
  | nil => exact absurd enough (Nat.not_lt_zero _)
  | cons call rest ih =>
    obtain ⟨turns,frees⟩ := call
    obtain ⟨s',ret,ran,kept,resized⟩ := setCacheTarget_resized debug turns frees target preemptible sound
    rw [resize,ran]
    cases ret with
    | ok => exact ⟨s',.ok,rfl,Or.inl ⟨rfl,resized.met rfl⟩⟩
    | ENOMEM => exact ⟨s',.ENOMEM,rfl,Or.inr ⟨rfl,resized.short rfl⟩⟩
    | EINVAL => exact absurd rfl (resized.got fun m _ => got _ List.mem_cons_self m)
    | ERESTART =>
      have nearer := resized.nearer rfl
      rw [List.length_cons] at enough
      exact ih kept (by omega) fun call later => got call (List.mem_cons_of_mem _ later)

-- The difference of the counts grows by the pages stranded.
theorem Resized.difference {frees : Frees} {ret : Ret} (resized : Resized frees preemptible s s' target ret) (cache : Cache s) (cache' : Cache s')
    (counted : Census.Counted s.owned tot) :
    ∃ tot' left, Census.Counted s'.owned tot' ∧ Census.Counted (stranded s s') left ∧ tot' - s'.count = tot - s.count + left := by
  have listed := Census.counted_list cache.distinct
  obtain ⟨left,strandedCount⟩ := Census.counted_fewer listed fun m loose => List.contains_iff_mem.mpr (stranded_iff.mp loose).1
  have others := (counted_uncached cache).mp counted
  have apart : ∀ m, uncached s m = true → stranded s s' m = false := by
    intro m loose
    rw [← Bool.not_eq_true,stranded_iff]
    rintro ⟨here,_⟩
    exact (uncached_iff.mp loose).2 here
  have both := Census.counted_or others strandedCount apart
  rw [← resized.others] at both
  refine ⟨tot - s.count + left + s'.count,left,?_,strandedCount,Int.add_sub_cancel _ _⟩
  rw [counted_uncached cache',Int.add_sub_cancel]
  exact both

theorem resizing_keeps_difference (debug : Bool) (target : Nat) (preemptible : Bool) (sound : Sound s) (counted : Census.Counted s.owned tot) :
    (∀ turns frees, ∃ s' ret tot', setCacheTarget debug turns frees target preemptible s = .ok (s',ret) ∧ Census.Counted s'.owned tot' ∧
      (∀ m, s'.owned m = true → s.owned m = false → m ∈ cached s') ∧
      (tot' - s'.count = tot - s.count ↔ Clean frees preemptible (runs (s.count - target).toNat s.super s.single))) ∧
    ∀ calls : List (List Turn × Frees), ((target : Int) - s.count).natAbs < calls.length → (∀ call ∈ calls, ∀ m, call.2.got m = true) →
      ∃ s' ret, resize debug target preemptible calls s = .ok (s',ret) ∧ (ret = .ok ∧ s'.count = target ∨ ret = .ENOMEM ∧ s'.count < target) := by
  refine ⟨?_,fun calls enough got => resize_ends debug target preemptible calls sound enough got⟩
  intro turns frees
  obtain ⟨s',ret,ran,kept,resized⟩ := setCacheTarget_resized debug turns frees target preemptible sound
  obtain ⟨tot',left,total,strandedCount,difference⟩ := resized.difference sound.cache kept.cache counted
  refine ⟨s',ret,tot',ran,total,resized.allocated,?_⟩
  rw [← resized.clean,noneStranded_iff]
  constructor
  · intro same
    have zero : left = 0 := by omega
    obtain ⟨keys,is,card⟩ := strandedCount
    have empty : keys = ∅ := Finset.card_eq_zero.mp (by omega)
    intro m
    rw [← Bool.not_eq_true,← is,empty]
    exact Finset.notMem_empty m
  · intro none_
    have zero := Census.counted_unique strandedCount (Census.counted_zero none_)
    omega

-- A cache of two superpages, which are all the domain has.
def twoSuperpages : State := {created with owned := fun m => decide (m < 1024), super := [0,512], count := 1024}

theorem twoSuperpages_cached : cached twoSuperpages = List.range' 0 1024 := by
  rw [cached,twoSuperpages]
  simp only [created,List.flatMap_cons,List.flatMap_nil,List.append_nil,superpagePages]
  exact List.range'_append_1

theorem twoSuperpages_sound : Sound twoSuperpages := by
  refine ⟨created_sound.entries,⟨rfl,?_,?_,?_⟩,fun g type m here => (by cases here),fun g h type type' m here => (by cases here)⟩
  · rw [twoSuperpages_cached]
    exact List.nodup_range'
  · intro m here
    rw [twoSuperpages_cached,List.mem_range'_1] at here
    exact ⟨decide_eq_true (by omega),rfl⟩
  · intro m here
    rcases List.mem_cons.mp here with rfl | here
    · rfl
    · rw [List.mem_singleton.mp here]
      rfl

theorem twoSuperpages_counted : Census.Counted twoSuperpages.owned 1024 := by
  refine ⟨Finset.range 1024,fun m => ?_,by rw [Finset.card_range]; rfl⟩
  rw [Finset.mem_range]
  exact decide_eq_true_iff.symm

theorem clean_quiet {frees : Frees} (sole : ∀ m, frees.got m = true ∧ frees.last m = true) (quiet : ∀ m, frees.preempt m = false)
    (runs : List (List Nat)) : Clean frees preemptible runs := by
  induction runs with
  | nil => exact trivial
  | cons run rest ih => exact ⟨⟨fun m _ => sole m,fun _ m _ => quiet m⟩,Or.inr ih⟩

theorem twoSuperpages_freed : ∃ s' ret tot', setCacheTarget true [] allFreed 0 true twoSuperpages = .ok (s',ret) ∧
    Census.Counted s'.owned tot' ∧ tot' - s'.count = 1024 - 1024 := by
  obtain ⟨s',ret,tot',ran,total,_,same⟩ := (resizing_keeps_difference true 0 true twoSuperpages_sound twoSuperpages_counted).1 [] allFreed
  exact ⟨s',ret,tot',ran,total,same.mpr (clean_quiet (fun _ => ⟨rfl,rfl⟩) (fun _ => rfl) _)⟩

-- The hypercall is to be preempted at once.
def preempted : Frees := {allFreed with preempt := fun _ => true}

-- What is there when its first page has been freed.
def interrupted : State := dropPage preempted 0 (taken twoSuperpages [512] [] 0 512)

theorem interrupted_ran : setCacheTarget true [] preempted 0 true twoSuperpages = .ok (interrupted,.ERESTART) := by
  have owned : ∀ m, 0 ≤ m → m < 0 + 512 → twoSuperpages.owned m = true ∧ twoSuperpages.listed m = false :=
    fun m _ high => ⟨decide_eq_true (by omega),rfl⟩
  have took : cacheGet twoSuperpages pageOrder2M = .ok (taken twoSuperpages [512] [] 0 512,some 0) := by
    rw [cacheGet,if_neg (by decide),if_neg (by decide),cacheTake,if_pos rfl]
    exact cachePut_ok [512] [] owned
  have stopped : freePages preempted 0 true (511 + 1) 0 (taken twoSuperpages [512] [] 0 512) = (interrupted,some .ERESTART) := by
    rw [freePages,if_neg (by decide),if_pos (by decide)]
    rfl
  have grown : growCache true 0 true [] twoSuperpages = .ok (twoSuperpages,none) := by
    rw [growCache,if_pos (by decide)]
  have wide : (superpagePages : Int) < twoSuperpages.count - (0 : Nat) ∧ twoSuperpages.super ≠ [] := by decide
  rw [setCacheTarget,grown]
  change shrinkCache preempted 0 true (1023 + 1) twoSuperpages = _
  rw [shrinkCache,if_neg (by decide)]
  simp only [if_pos wide,took]
  rw [show 2 ^ pageOrder2M = 511 + 1 from rfl,stopped]

-- One page of the superpage is freed, and 511 are neither in the cache nor freed.
theorem preempted_superpage_stranded : Sound twoSuperpages ∧ Census.Counted twoSuperpages.owned 1024 ∧ twoSuperpages.count = 1024 ∧
    ∃ s', setCacheTarget true [] preempted 0 true twoSuperpages = .ok (s',.ERESTART) ∧ Census.Counted s'.owned 1023 ∧ s'.count = 512 := by
  refine ⟨twoSuperpages_sound,twoSuperpages_counted,rfl,interrupted,interrupted_ran,?_,rfl⟩
  refine ⟨Finset.Ico 1 1024,fun m => ?_,by rw [Nat.card_Ico]; rfl⟩
  have owned : interrupted.owned m = Zones.moved twoSuperpages.owned 0 1 false m := rfl
  rw [Finset.mem_Ico,owned]
  by_cases first : m = 0
  · rw [first]
    decide
  · rw [Zones.moved_ne first]
    change _ ↔ decide (m < 1024) = true
    rw [decide_eq_true_iff]
    omega

end XenAet.PodResize
