import XenAet.ExchangeRuns

namespace XenAet.ExchangeSafety
open XenAet.MemoryExchange XenAet.ExchangePages XenAet.ExchangeRuns
open Library Zones

variable {s s' : State} {x : Input}

-- A chunk that has stolen pages must not fail while the domain is dying, nor,
-- in a debug build, of a translated domain, and the domain must not start to
-- die while the pages are given back.
def Spared (s : State) : Event → Prop
  | .tick x => refused s x ≠ none → s.inChunkList ≠ [] → s.isDying = false ∧ ¬(s.debug = true ∧ s.translated = true)
  | .outside .die => ¬(s.pc = .fail ∧ s.inChunkList ≠ [])
  | _ => True

theorem tick_inv (inv : Inv s) (spared : Spared s (.tick x)) (taken : tick s x = some s') : Inv s' := by
  unfold tick at taken
  split at taken
  · rename_i errno refuses
    cases taken
    exact refused_inv inv refuses (spared (by rw [refuses]; simp))
  · rename_i allowed
    split at taken
    · cases taken
      exact stepChunk_inv inv ‹_›
    · cases taken
      exact stepCopyIn_inv inv ‹_›
    · cases taken
      exact stepSteal_inv inv ‹_› allowed
    · cases taken
      exact stepAlloc_inv inv ‹_› allowed
    · cases taken
      exact stepDestroy_inv inv ‹_›
    · cases taken
      exact stepAssign_inv inv ‹_›
    · cases taken
      exact stepFail_inv inv ‹_›
    · cases taken
      exact stepDying_inv inv ‹_›
    · cases taken
    · cases taken

theorem call_inv {e : Exch} {denied : Option Errno} (inv : Inv s) (taken : memoryExchange s x e denied = some s') : Inv s' := by
  unfold memoryExchange at taken
  split at taken
  · rename_i idle
    have shape := inv.shape
    have counted := inv.counted
    simp only [Shape,idle] at shape
    simp only [owed,idle] at counted
    have sorted : Sorted s.frames s.page s.allocated s.sharedM2P s.inChunkList s.outChunkList (2 ^ e.out.extentOrder) := by
      obtain ⟨nodup,stolen,spare,apart,known,marked,unshared⟩ := inv.sorted
      rw [shape.2] at spare apart ⊢
      exact ⟨nodup,stolen,fun m => (spare m).trans (by simp),.nil,known,marked,unshared⟩
    have none_ : Kept [] e.first s.inChunkList s.outChunkList := ⟨by simp,by simp⟩
    dsimp only at taken
    split at taken
    · cases taken
      exact ⟨sorted,by simp only [owed,idle]; exact counted,by simp only [Shape,idle]; exact shape,⟨none_,by simp⟩,
        ⟨rfl,fun busy => absurd idle busy,fun busy => absurd idle busy,fun w _ told => by cases told⟩⟩
    · -- Refused before the first chunk: the count goes back as it came.
      have early (errno : Errno) (w : Nat) (same : w = e.nrExchanged) :
          Inv (leave {s with exch := e,i := e.first,rc := none,completed := 0,log := []} x w (.failed errno)) := by
        refine ⟨sorted,counted,shape,⟨none_,by simp [leave]⟩,
          ⟨rfl,fun busy => absurd rfl busy,fun busy => absurd rfl busy,fun w' _ told => ?_⟩⟩
        unfold leave at told
        dsimp only at told
        split at told
        · cases told
        · cases told
          exact .inr ⟨same,rfl,rfl⟩
      split at taken
      · cases taken
        exact early _ _ rfl
      · rename_i checked
        have checks := eq_true_of_ne_false checked
        split at taken
        · cases taken
          exact early _ _ rfl
        · cases taken
          refine ⟨sorted,counted,shape,⟨none_,by simp⟩,⟨rfl,fun _ => ⟨checks,?_⟩,fun _ other => absurd rfl other,fun _ idle => by cases idle⟩⟩
          simp only [sane,Bool.and_eq_true,decide_eq_true_eq] at checks
          exact Nat.div_le_div_right checks.1.1.1.1.1.1
  · cases taken

-- The steps of others touch nothing of the call but the death of the domain.
theorem elsewhere_inv {m : Nat} {p : Place} {allocated' shared' : Nat → Bool} {tot : Int} (inv : Inv s) (before : s.page m ≠ .stolen ∧ s.page m ≠ .spare)
    (after : p ≠ .stolen ∧ p ≠ .spare) (present : m ∈ s.frames) (marks : ∀ m', m' ≠ m → allocated' m' = s.allocated m')
    (shares : ∀ m', m' ≠ m → shared' m' = s.sharedM2P m') (away : shared' m = true → p = .away)
    (counts : tot - s.totPages = count s.frames (moved s.page m 1 p) .mine - (count s.frames s.page .mine : Int)) :
    Inv {s with page := moved s.page m 1 p,allocated := allocated',sharedM2P := shared',totPages := tot} := by
  refine ⟨inv.sorted.elsewhere before after present shared' allocated' marks shares away,?_,inv.shape,⟨inv.logged.kept,inv.logged.back⟩,
      ⟨inv.told.count,inv.told.running,inv.told.inside,inv.told.written⟩⟩
  have counted := inv.counted
  change tot = count s.frames (moved s.page m 1 p) .mine + owed s
  omega

theorem outside_taken {c : Prop} [Decidable c] {now : State} (taken : (if c then some now else none) = some s') : c ∧ s' = now := by
  obtain ⟨can,same⟩ := Option.ite_none_right_eq_some.mp taken
  exact ⟨can,(Option.some.inj same).symm⟩

theorem outside_inv {a : Outside} (inv : Inv s) (spared : Spared s (.outside a)) (taken : outside s a = some s') : Inv s' := by
  have known (m : Nat) (p : Place) (is : s.page m = p) (here : p ≠ .away) : m ∈ s.frames := inv.sorted.known m (by rw [is]; exact here)
  have shareless (m : Nat) (p : Place) (is : s.page m = p) (here : p ≠ .away) : s.sharedM2P m ≠ true := fun shared =>
    here (is.symm.trans (inv.sorted.unshared m shared))
  cases a with
  | die =>
    cases taken
    refine ⟨inv.sorted,inv.counted,?_,⟨inv.logged.kept,inv.logged.back⟩,
      ⟨inv.told.count,inv.told.running,inv.told.inside,inv.told.written⟩⟩
    have shape := inv.shape
    unfold Shape at shape ⊢
    dsimp only
    cases here : s.pc <;> simp only [here] at shape ⊢
    all_goals first
      | exact shape
      | exact fun some_ => absurd ⟨here,some_⟩ spared
  | give m =>
    obtain ⟨can,rfl⟩ := outside_taken taken
    have present := known m .free can.1 (by simp)
    have notMine : s.page m ≠ .mine := by rw [can.1]; simp
    have more := count_page present notMine
    refine elsewhere_inv inv (by rw [can.1]; simp) (by simp) present (fun m' differ => Function.update_of_ne differ _ _) (fun _ _ => rfl)
      (fun shared => absurd shared (shareless m .free can.1 (by simp))) ?_
    rw [more]
    push_cast
    omega
  | release m =>
    obtain ⟨mine,rfl⟩ := outside_taken taken
    have present := known m .mine mine (by simp)
    have fewer := uncount_page (p:=.free) present mine (by simp)
    refine elsewhere_inv inv (by rw [mine]; simp) (by simp) present (fun _ _ => rfl) (fun _ _ => rfl)
      (fun shared => absurd shared (shareless m .mine mine (by simp))) ?_
    omega
  | unmark m =>
    obtain ⟨mine,rfl⟩ := outside_taken taken
    obtain ⟨nodup,stolen,spare,apart,present,marked,unshared⟩ := inv.sorted
    refine ⟨⟨nodup,stolen,spare,apart,present,fun m' member => ?_,unshared⟩,inv.counted,inv.shape,⟨inv.logged.kept,inv.logged.back⟩,
    ⟨inv.told.count,inv.told.running,inv.told.inside,inv.told.written⟩⟩
    have differ : m' ≠ m := by
      rintro rfl
      rw [(stolen m').mpr member] at mine
      cases mine
    exact (Function.update_of_ne differ _ _).trans (marked m' member)
  | share m =>
    obtain ⟨mine,rfl⟩ := outside_taken taken
    have present := known m .mine mine (by simp)
    have fewer := uncount_page (p:=.away) present mine (by simp)
    refine elsewhere_inv inv (by rw [mine]; simp) (by simp) present (fun _ _ => rfl) (fun m' differ => Function.update_of_ne differ _ _)
      (fun _ => rfl) ?_
    omega
  | take m =>
    obtain ⟨unused,rfl⟩ := outside_taken taken
    refine elsewhere_inv inv (by rw [unused]; simp) (by simp) (known m .free unused (by simp)) (fun _ _ => rfl) (fun _ _ => rfl) (fun _ => rfl) ?_
    rw [recount_page (by rw [unused]; simp) (by simp)]
    omega
  | restore m =>
    obtain ⟨can,rfl⟩ := outside_taken taken
    refine elsewhere_inv inv (by rw [can.1]; simp) (by simp) can.2 (fun _ _ => rfl) (fun m' differ => Function.update_of_ne differ _ _)
      (fun shared => by rw [Function.update_self] at shared; cases shared) ?_
    rw [recount_page (by rw [can.1]; simp) (by simp)]
    omega

theorem step_inv {event : Event} (inv : Inv s) (spared : Spared s event) (taken : step s event = some s') : Inv s' := by
  cases event with
  | call x e denied => exact call_inv inv taken
  | tick x => exact tick_inv inv spared taken
  | outside a => exact outside_inv inv spared taken

-- No call yet: every frame is the domain's, free or elsewhere, and counted.
structure Ready (s : State) : Prop where
  idle : s.pc = .idle
  ins : s.inChunkList = []
  outs : s.outChunkList = []
  place : ∀ m, s.page m = .mine ∨ s.page m = .free ∨ s.page m = .away
  known : ∀ m, s.page m ≠ .away → m ∈ s.frames
  unshared : ∀ m, s.sharedM2P m = true → s.page m = .away
  counted : s.totPages = count s.frames s.page .mine
  first : s.i = s.exch.first ∧ s.completed = 0 ∧ s.log = [] ∧ s.written = none

theorem Ready.inv (ready : Ready s) : Inv s := by
  obtain ⟨idle,ins,outs,place,known,unshared,counted,first,completed,log,written⟩ := ready
  have settled (m : Nat) : s.page m ≠ .stolen ∧ s.page m ≠ .spare := by
    rcases place m with here | here | here <;> rw [here] <;> simp
  refine ⟨⟨by rw [ins]; exact .nil,fun m => ?_,fun m => ?_,by rw [outs]; exact .nil,known,by rw [ins]; simp,unshared⟩,?_,?_,
    ⟨⟨by rw [log]; simp,by rw [log]; simp⟩,by rw [log]; simp⟩,⟨by rw [first,completed]; rfl,fun busy => absurd idle busy,
      fun busy => absurd idle busy,fun w _ told => by rw [written] at told; cases told⟩⟩
  · rw [ins]
    exact iff_of_false (settled m).1 (by simp)
  · rw [outs]
    exact iff_of_false (settled m).2 (by simp)
  · rw [owed,idle,counted]
    simp
  · rw [Shape,idle]
    exact ⟨ins,outs⟩

theorem exchange_conserves {events : List Event} (ready : Ready s) (spared : Run.Guarded Spared step s events)
    (ran : Run.run step s events = some s') :
    s'.pc ≠ .bug ∧ (s'.pc = .idle →
      (∀ m, s'.page m ≠ .stolen ∧ s'.page m ≠ .spare) ∧
      (∀ c m, ⟨c,.stole,m⟩ ∈ s'.log →
        (⟨c,.gaveBack,m⟩ ∈ s'.log ∧ s'.exch.first + s'.completed ≤ c) ∨ ⟨c,.freed,m⟩ ∈ s'.log) ∧
      (∀ c b, ⟨c,.allocated,b⟩ ∈ s'.log → ⟨c,.assigned,b⟩ ∈ s'.log ∨ ⟨c,.freedOut,b⟩ ∈ s'.log) ∧
      s'.totPages = count s'.frames s'.page .mine ∧
      ∀ w, s'.written = some w → w = (s'.exch.first + s'.completed) * 2 ^ s'.exch.inChunkOrder ∨
        w = s'.exch.nrExchanged ∧ s'.log = [] ∧ s'.completed = 0) := by
  have inv : Inv s' := Run.guarded_invariant (fun _ _ _ => step_inv) ready.inv spared ran
  have shape := inv.shape
  refine ⟨fun bug => by rw [Shape,bug] at shape; exact shape,fun idle => ?_⟩
  simp only [Shape,idle] at shape
  have count' := inv.told.count
  refine ⟨fun m => ⟨fun stolen => ?_,fun spare => ?_⟩,fun c m stole => ?_,fun c b taken => ?_,?_,fun w told => ?_⟩
  · have held := (inv.sorted.stolen m).mp stolen
    rw [shape.1] at held
    cases held
  · obtain ⟨b,held,_⟩ := (inv.sorted.spare m).mp spare
    rw [shape.2] at held
    cases held
  · rcases inv.logged.kept.ins c m stole with ⟨_,held⟩ | back | freed
    · rw [shape.1] at held
      cases held
    · have chunk := (inv.logged.back c m back).1
      exact .inl ⟨back,by omega⟩
    · exact .inr freed
  · rcases inv.logged.kept.outs c b taken with ⟨_,held⟩ | given | freed
    · rw [shape.2] at held
      cases held
    · exact .inl given
    · exact .inr freed
  · have counted := inv.counted
    simpa only [owed,idle,Int.add_zero] using counted
  · rcases inv.told.written w idle told with same | early
    · rw [count'] at same
      exact .inl same
    · exact .inr early

instance sparedDecidable : ∀ s event, Decidable (Spared s event)
  | s,.tick x => inferInstanceAs (Decidable (refused s x ≠ none → s.inChunkList ≠ [] → s.isDying = false ∧ ¬(s.debug = true ∧ s.translated = true)))
  | s,.outside .die => inferInstanceAs (Decidable ¬(s.pc = .fail ∧ s.inChunkList ≠ []))
  | _,.call .. => .isTrue trivial
  | _,.outside (.give _) | _,.outside (.release _) | _,.outside (.unmark _) | _,.outside (.share _) | _,.outside (.take _)
  | _,.outside (.restore _) => .isTrue trivial

-- A domain of two pages and a free block of two.
def twoPages : State :=
  {frames := Finset.range 8,page := fun m => if m < 2 then .mine else if m = 4 ∨ m = 5 then .free else .away,allocated := fun m => decide (m < 2),
   sharedM2P := fun _ => false,totPages := 2,isDying := false,translated := false,debug := false,
   exch := ⟨⟨0,0,0⟩,⟨0,0,0⟩,0⟩,i := 0,j := 0,k := 0,inChunkList := [],outChunkList := [],rc := none,pc := .idle,
   completed := 0,log := [],returned := .done,written := none}

theorem twoPages_ready : Ready twoPages := by
  refine ⟨rfl,rfl,rfl,fun m => ?_,fun m here => ?_,fun m shared => (by cases shared),by decide,⟨rfl,rfl,rfl,rfl⟩⟩
  · unfold twoPages
    dsimp only
    split
    · exact .inl rfl
    · split
      · exact .inr (.inl rfl)
      · exact .inr (.inr rfl)
  · unfold twoPages at here ⊢
    dsimp only at here ⊢
    rw [Finset.mem_range]
    by_contra large
    rw [if_neg (by omega),if_neg (by omega)] at here
    exact here rfl

def pairForBlock : Exch := ⟨⟨7,2,0⟩,⟨7,1,1⟩,0⟩

def fine : Input := ⟨false,false,false,true,0,true,some 4,false⟩

def wholeExchange : List Event :=
  [.call fine pairForBlock none,.tick fine,.tick fine,.tick fine,.tick fine,.tick fine,.tick {fine with mfn := 1},.tick fine,.tick fine,
   .tick fine,.tick fine,.tick fine,.tick fine,.tick fine,.tick fine,.tick fine,.tick fine]

theorem exchange_conserves_wholeExchange : ∃ s, Run.run step twoPages wholeExchange = some s ∧ s.pc = .idle ∧ s.written = some 2 ∧
    s.totPages = count s.frames s.page .mine := by
  have runs : (Run.run step twoPages wholeExchange).map (fun s => (s.pc,s.written)) = some (.idle,some 2) := by decide +kernel
  have guarded : Run.Guarded Spared step twoPages wholeExchange := by decide +kernel
  obtain ⟨s,ran,is⟩ := Option.map_eq_some_iff.mp runs
  have idle : s.pc = .idle := congrArg Prod.fst is
  exact ⟨s,ran,idle,congrArg Prod.snd is,((exchange_conserves twoPages_ready guarded ran).2 idle).2.2.2.1⟩

-- The domain starts to die after its first page is stolen, and the second
-- frame number cannot be read.
def diesThenFaults : List Event :=
  [.call fine pairForBlock none,.tick fine,.tick fine,.tick fine,.outside .die,.tick fine,.tick {fine with fault := true},.tick fine]

theorem rollback_crashes : Ready twoPages ∧ (Run.run step twoPages diesThenFaults).map State.pc = some .bug :=
  ⟨twoPages_ready,by decide +kernel⟩

end XenAet.ExchangeSafety
