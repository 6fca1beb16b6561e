import XenAet.Library.Run
import XenAet.PodReclaim

namespace XenAet.PodRuns
open Library PodCache PodOps PodAccounts PodReclaim
variable {s s' : State} {gfn mfn n order : Nat}

theorem Entries.nonneg (entries : Entries s) : 0 ≤ s.entryCount := Census.among_le entries 0 0

-- Frame numbers that get something other than ram in place of what they had.
theorem sound_relabel (sound : Sound s) (gfn n : Nat) (left : Entry) (notRam : left.isRam = false) :
    Sound {setEntry s gfn n (fun _ => left) with
      entryCount := s.entryCount + (if left.isPod then n else 0 : Nat) - Census.among (podAt s) gfn n} := by
  have now : Census.among (podAt (setEntry s gfn n fun _ => left)) gfn n = if left.isPod then n else 0 := by
    cases pod : left.isPod with
    | true => exact Census.among_all fun g low high => by rw [podAt,setEntry_inside low high]; exact pod
    | false => exact among_other fun _ => pod
  have counted := setEntry_entries sound.entries gfn n fun _ => left
  rw [now] at counted
  refine ⟨counted,sound.cache.same rfl rfl rfl rfl rfl,mapped_fewer sound.mapped (fun g type m here => ?_) rfl rfl⟩
  change (setEntry s gfn n fun _ => left).p2m g = .ram type m at here
  by_cases inside : gfn ≤ g ∧ g < gfn + n
  · rw [setEntry_inside inside.1 inside.2] at here
    rw [here] at notRam
    cases notRam
  · rwa [setEntry_outside inside] at here

theorem among_pods (pods : ∀ g, gfn ≤ g → g < gfn + n → podAt s g = true) : Census.among (podAt s) gfn n = n := Census.among_all pods

-- Frame numbers to be populated that are marked again.
theorem sound_remark (sound : Sound s) (pods : ∀ g, gfn ≤ g → g < gfn + n → podAt s g = true) :
    Sound (setEntry s gfn n fun _ => .populateOnDemand) := by
  refine (sound_relabel sound gfn n .populateOnDemand rfl).same rfl rfl rfl rfl rfl rfl ?_
  rw [among_pods pods]
  change s.entryCount = s.entryCount + (n : Int) - (n : Int)
  omega

-- Pages out of the cache in place of frame numbers to be populated.
theorem sound_populated (sound : Sound s) (pods : ∀ g, gfn ≤ g → g < gfn + n → podAt s g = true)
    (loose : ∀ m, mfn ≤ m → m < mfn + n → s.owned m = true ∧ s.listed m = true ∧ Loose s m) :
    Sound {setEntry s gfn n (fun i => .ram .rw (mfn + i)) with entryCount := s.entryCount - n} := by
  have counted := setEntry_entries sound.entries gfn n fun i => .ram .rw (mfn + i)
  rw [among_other fun _ => rfl,among_pods pods] at counted
  have fewer : s.entryCount + ((0 : Nat) : Int) - (n : Int) = s.entryCount - n := by omega
  rw [fewer] at counted
  have inside : ∀ g type m, (setEntry s gfn n fun i => .ram .rw (mfn + i)).p2m g = .ram type m →
      gfn ≤ g ∧ g < gfn + n ∧ m = mfn + (g - gfn) ∨ ¬(gfn ≤ g ∧ g < gfn + n) ∧ s.p2m g = .ram type m := by
    intro g type m here
    by_cases inside : gfn ≤ g ∧ g < gfn + n
    · rw [setEntry_inside inside.1 inside.2] at here
      cases here
      exact .inl ⟨inside.1,inside.2,rfl⟩
    · rw [setEntry_outside inside] at here
      exact .inr ⟨inside,here⟩
  refine ⟨counted,sound.cache.same rfl rfl rfl rfl rfl,fun g type m here => ?_,fun g h type type' m here there => ?_⟩
  · rcases inside g type m here with ⟨low,high,rfl⟩ | ⟨_,old⟩
    · obtain ⟨owned,listed,_⟩ := loose (mfn + (g - gfn)) (by omega) (by omega)
      exact ⟨owned,listed⟩
    · exact sound.mapped.backed g type m old
  · rcases inside g type m here with ⟨low,high,rfl⟩ | ⟨_,old⟩
    · rcases inside h type' _ there with ⟨low',high',same⟩ | ⟨_,old'⟩
      · omega
      · exact absurd old' ((loose (mfn + (g - gfn)) (by omega) (by omega)).2.2.2 h type')
    · rcases inside h type' m there with ⟨low',high',rfl⟩ | ⟨_,old'⟩
      · exact absurd old ((loose (mfn + (h - gfn)) (by omega) (by omega)).2.2.2 g type)
      · exact sound.mapped.apart g h type type' m old old'

theorem markPopulateOnDemand_sound (gfn order : Nat) (sound : Sound s) :
    ∃ s' ret, markPopulateOnDemand gfn order s = .ok (s',ret) ∧ Sound s' := by
  rw [markPopulateOnDemand]
  split
  · exact ⟨s,.EINVAL,rfl,sound⟩
  · split
    · exact ⟨s,.EBUSY,rfl,sound⟩
    · have marked : Sound {setEntry s gfn (2 ^ order) (fun _ => .populateOnDemand) with
          entryCount := s.entryCount + 2 ^ order - Census.among (podAt s) gfn (2 ^ order)} := by
        refine (sound_relabel sound gfn (2 ^ order) .populateOnDemand rfl).same rfl rfl rfl rfl rfl rfl ?_
        simp [Entry.isPod]
      dsimp only
      exact ⟨_,.ok,if_neg (Int.not_lt.mpr (Entries.nonneg marked.entries)),marked⟩

theorem podEntry_pods (pod : podEntry s gfn order = true) :
    (order = pageOrder4K ∨ order = pageOrder2M ∨ order = pageOrder1G) ∧
      ∀ g, aligned gfn order ≤ g → g < aligned gfn order + 2 ^ order → podAt s g = true := by
  rw [podEntry,Bool.and_eq_true,decide_eq_true_eq] at pod
  exact ⟨pod.1,everyPage_iff.mp pod.2⟩

theorem checkLastSuper_sound (debug : Bool) (seen : Seen) (gfn : Nat) (sound : Sound s) :
    ∃ s' done, checkLastSuper debug seen gfn s = .ok (s',done) ∧ Sound s' := by
  obtain ⟨s',done,ran,kept,_⟩ := zeroCheckSuperpage_sound debug seen (s.lastPopulated s.lastPopulatedIndex)
    (s := {s with lastPopulated := Function.update s.lastPopulated s.lastPopulatedIndex gfn,
                  lastPopulatedIndex := (s.lastPopulatedIndex + 1) % podHistoryMax}) (sound.same rfl rfl rfl rfl rfl rfl rfl)
  exact ⟨s',done,ran,kept⟩

-- A page of the cache for what is to be populated, or no superpage.
theorem cacheGet_populate (sized : order = pageOrder4K ∨ order = pageOrder2M) (sound : Sound s) (some_ : 0 < s.count) :
    cacheGet s order = .ok (s,none) ∧ order = pageOrder2M ∨ ∃ s' mfn, cacheGet s order = .ok (s',some mfn) ∧ Got s s' order mfn := by
  rcases sized with rfl | rfl
  · exact .inr (cacheGet_narrow sound.cache some_)
  · cases wide : s.super with
    | nil => exact .inl ⟨by rw [cacheGet,if_pos ⟨rfl,wide⟩],rfl⟩
    | cons mfn super =>
      obtain ⟨s',ran,got⟩ := cacheGet_wide sound.cache wide
      exact .inr ⟨s',mfn,ran,got⟩

theorem populateFrom_sound (debug : Bool) (seen : Seen) (alloc : Bool) (sized : order = pageOrder4K ∨ order = pageOrder2M)
    (sound : Sound s) (some_ : 0 < s.count)
    (pods : ∀ g, aligned gfn order ≤ g → g < aligned gfn order + 2 ^ order → podAt s g = true) :
    ∃ s' done, populateFrom debug seen gfn order alloc s = .ok (s',done) ∧ Sound s' := by
  rw [populateFrom]
  rcases cacheGet_populate sized sound some_ with ⟨none_,rfl⟩ | ⟨s',mfn,ran,got⟩
  · rw [none_]
    exact ⟨_,true,rfl,sound_remark sound pods⟩
  · obtain ⟨kept,loose⟩ := sound.got got
    have same : s'.p2m = s.p2m ∧ s'.entryCount = s.entryCount := by
      obtain ⟨super,single,rfl⟩ := got.result
      exact ⟨rfl,rfl⟩
    have still : ∀ g, aligned gfn order ≤ g → g < aligned gfn order + 2 ^ order → podAt s' g = true := fun g low high => by
      rw [podAt,same.1]
      exact pods g low high
    have paid : Sound {setEntry s' (aligned gfn order) (2 ^ order) (fun i => .ram .rw (mfn + i)) with
        entryCount := (setEntry s' (aligned gfn order) (2 ^ order) fun i => .ram .rw (mfn + i)).entryCount - 2 ^ order} := by
      refine (sound_populated kept still loose).same rfl rfl rfl rfl rfl rfl ?_
      simp [setEntry]
    have nonneg : ¬(setEntry s' (aligned gfn order) (2 ^ order) fun i => .ram .rw (mfn + i)).entryCount - 2 ^ order < 0 :=
      Int.not_lt.mpr (Entries.nonneg paid.entries)
    rw [ran]
    dsimp only
    rw [if_neg (not_not.mpr got.start)]
    rw [if_neg nonneg]
    split
    · obtain ⟨last,done,checked,still⟩ := checkLastSuper_sound debug seen (aligned gfn order) paid
      exact ⟨last,true,by dsimp only at checked; rw [checked],still⟩
    · exact ⟨_,true,rfl,paid⟩

theorem demandPopulate_sound (debug : Bool) (seen : Seen) (alloc : Bool) (sound : Sound s) (pod : podEntry s gfn order = true) :
    ∃ s' done, demandPopulate debug seen gfn order alloc s = .ok (s',done) ∧ Sound s' := by
  obtain ⟨sized,pods⟩ := podEntry_pods pod
  rw [demandPopulate]
  split
  · exact ⟨s,false,rfl,sound⟩
  · split
    · next huge =>
      refine ⟨_,true,rfl,sound_remark sound fun g low high => pods g low (Nat.lt_of_lt_of_le high ?_)⟩
      rw [huge]
      exact Nat.add_le_add_left (Nat.pow_le_pow_right (by decide) (by decide)) _
    · next notHuge =>
      have small : order = pageOrder4K ∨ order = pageOrder2M := by
        rcases sized with narrow | wide | huge
        · exact .inl narrow
        · exact .inr wide
        · exact absurd huge notHuge
      have swept : ∃ s', (if s.count = 0 then emergencySweep debug seen s else .ok s) = .ok s' ∧ Sound s' ∧
          ∀ g, podAt s g = true → podAt s' g = true := by
        split
        · exact emergencySweep_sound debug seen sound
        · exact ⟨s,rfl,sound,fun _ pod => pod⟩
      obtain ⟨s',ran,kept,still⟩ := swept
      rw [ran]
      dsimp only
      split
      · exact ⟨s',false,rfl,kept⟩
      · next some_ =>
        have counted := kept.cache.counted
        exact populateFrom_sound debug seen alloc small (kept.same rfl rfl rfl rfl rfl rfl rfl) (by dsimp only; omega)
          fun g low high => still g (pods g low high)

-- A page stolen for the cache from the frame number that had it.
theorem sound_stolen (debug : Bool) {type : RamType} (sound : Sound s) (here : s.p2m gfn = .ram type mfn) :
    ∃ s', cacheAdd debug (setEntry s gfn 1 fun _ => .invalid) mfn pageOrder4K = .ok s' ∧ Sound s' := by
  obtain ⟨adds,stolen⟩ := sound_reclaimed sound debug (.inr rfl) (Nat.mod_one mfn) (fun _ => type)
    (fun i below => by rw [show i = 0 from Nat.lt_one_iff.mp below]; exact here) .invalid rfl
  exact ⟨_,adds,stolen.same rfl rfl rfl rfl rfl rfl (Int.add_zero _).symm⟩

theorem takeBack_sound (debug : Bool) (gpfn rest i : Nat) (t : Tallies) (sound : Sound s) :
    ∃ s' t', takeBack debug gpfn rest i t s = .ok (s',t') ∧ Sound s' := by
  induction rest generalizing i t s with
  | zero => exact ⟨s,t,rfl,sound⟩
  | succ rest ih =>
    rw [takeBack]
    split
    · exact ⟨s,t,rfl,sound⟩
    · split
      · next here =>
        have paid : Sound {setEntry s (gpfn + i) 1 (fun _ => .invalid) with entryCount := s.entryCount - 1} := by
          refine (sound_relabel sound (gpfn + i) 1 .invalid rfl).same rfl rfl rfl rfl rfl rfl ?_
          rw [among_pods fun g low high => by rw [podAt,show g = gpfn + i by omega,here]; rfl]
          simp [Entry.isPod]
        dsimp only
        change ∃ s' t', (if (s.entryCount - 1 : Int) < 0 then _ else _) = _ ∧ _
        rw [if_neg (Int.not_lt.mpr (Entries.nonneg paid.entries))]
        exact ih _ _ paid
      · next here =>
        split
        · obtain ⟨s',adds,stolen⟩ := sound_stolen debug sound here
          rw [adds]
          exact ih _ _ stolen
        · exact ih _ _ sound
      · exact ih _ _ sound

theorem entryCheck_sound (debug : Bool) (frees : Frees) (done : Bool) (sound : Sound s) :
    ∃ s' done', entryCheck debug frees done s = .ok (s',done') ∧ Sound s' := by
  rw [entryCheck]
  split
  · obtain ⟨s',ret,ran,kept⟩ := setCacheTarget_sound debug [] frees s.entryCount.toNat false sound
    rw [ran]
    exact ⟨s',done,rfl,kept⟩
  · exact ⟨s,done,rfl,sound⟩

theorem handBack_sound (debug : Bool) (frees : Frees) (gpfn order : Nat) (t : Tallies) (sound : Sound s) :
    ∃ s' done, handBack debug frees gpfn order t s = .ok (s',done) ∧ Sound s' := by
  obtain ⟨s',t',ran,kept⟩ := takeBack_sound debug gpfn (2 ^ order) 0 t sound
  rw [handBack,ran]
  exact entryCheck_sound debug frees _ kept

theorem zeroCheckSuperpage_pod (debug : Bool) (seen : Seen) (pod : podAt s gfn = true) :
    zeroCheckSuperpage debug seen gfn s = .ok (s,false) := by
  rw [zeroCheckSuperpage,isPod_iff.mp pod]
  split <;> rfl

-- One count, and the next one where a superpage was reclaimed.
theorem recount_step (debug : Bool) (seen : Seen) (frees : Frees) (gpfn order fuel : Nat) (sound : Sound s)
    (again : podAt s (gpfn / superpagePages * superpagePages) = true ∨
      ∀ s', Sound s' → podAt s' (gpfn / superpagePages * superpagePages) = true →
        ∃ last done, recount debug seen frees gpfn order fuel s' = .ok (last,done) ∧ Sound last) :
    ∃ last done, recount debug seen frees gpfn order (fuel + 1) s = .ok (last,done) ∧ Sound last := by
  rw [recount]
  dsimp only
  split
  · exact ⟨s,false,rfl,sound⟩
  · split
    · next all =>
      have every : (Census.among (podAt s) gpfn (2 ^ order) : Int) = 2 ^ order := by
        change (2 ^ order : Int) - Census.among (podAt s) gpfn (2 ^ order) = 0 at all
        omega
      have paid : Sound {setEntry s gpfn (2 ^ order) (fun _ => .invalid) with entryCount := s.entryCount - 2 ^ order} := by
        refine (sound_relabel sound gpfn (2 ^ order) .invalid rfl).same rfl rfl rfl rfl rfl rfl ?_
        rw [every]
        simp [Entry.isPod]
      change ∃ last done, (if (s.entryCount - 2 ^ order : Int) < 0 then _ else _) = _ ∧ _
      rw [if_neg (Int.not_lt.mpr (Entries.nonneg paid.entries))]
      exact entryCheck_sound debug frees true paid
    · split
      · obtain ⟨s',done,ran,kept,_,reclaimed⟩ := zeroCheckSuperpage_sound debug seen (gpfn / superpagePages * superpagePages) sound
        rw [ran]
        cases done with
        | false => exact handBack_sound debug frees gpfn order _ kept
        | true =>
          rcases again with pod | again
          · rw [zeroCheckSuperpage_pod debug seen pod] at ran
            cases ran
          · exact again s' kept (reclaimed rfl)
      · exact handBack_sound debug frees gpfn order _ sound

theorem decreaseReservation_sound (debug : Bool) (seen : Seen) (frees : Frees) (gpfn order : Nat) (sound : Sound s) :
    ∃ s' done, decreaseReservation debug seen frees gpfn order s = .ok (s',done) ∧ Sound s' := by
  rw [decreaseReservation]
  split
  · exact ⟨s,false,rfl,sound⟩
  · exact recount_step debug seen frees gpfn order 1 sound (.inr fun s' kept pod =>
      recount_step debug seen frees gpfn order 0 kept (.inl pod))

theorem setMemTarget_sound (debug : Bool) (turns : List Turn) (frees : Frees) (totPages target : Nat) (sound : Sound s) :
    (∃ s' ret, setMemTarget debug turns frees totPages target s = .ok (s',ret) ∧ Sound s') ∨
      debug = true ∧ setMemTarget debug turns frees totPages target s = .error .assertion := by
  rw [setMemTarget]
  split
  · exact .inl ⟨s,.ok,rfl,sound⟩
  · split
    · exact .inl ⟨s,.ok,rfl,sound⟩
    · split
      · exact .inl ⟨s,.ok,rfl,sound⟩
      · split
        · next fails => exact .inr ⟨fails.1,rfl⟩
        · exact .inl (setCacheTarget_sound debug turns frees _ true sound)

-- An operation keeps the accounts, or fails the assertion of a debug build that
-- the cache is not to shrink.
theorem step_sound (debug : Bool) (e : Event) (sound : Sound s) :
    (∃ s', step debug s e = .ok s' ∧ Sound s') ∨ debug = true ∧ step debug s e = .error .assertion := by
  have one : ∀ {R : Type} {result : Except Crash (State × R)}, (∃ s' ret, result = .ok (s',ret) ∧ Sound s') →
      ∃ s', result.map Prod.fst = .ok s' ∧ Sound s' := by
    rintro R result ⟨s',ret,rfl,kept⟩
    exact ⟨s',rfl,kept⟩
  cases e with
  | mark gfn order => exact .inl (one (markPopulateOnDemand_sound gfn order sound))
  | demand gfn order alloc seen =>
    rw [step]
    split
    · next pod => exact .inl (one (demandPopulate_sound debug seen alloc sound pod))
    · exact .inl ⟨s,rfl,sound⟩
  | decrease gpfn order seen frees => exact .inl (one (decreaseReservation_sound debug seen frees gpfn order sound))
  | setTarget totPages target turns frees =>
    rcases setMemTarget_sound debug turns frees totPages target sound with kept | ⟨debugging,failed⟩
    · exact .inl (one kept)
    · exact .inr ⟨debugging,by rw [step,failed]; rfl⟩

theorem run_sound (debug : Bool) {acts : List Event} {last : State} (sound : Sound s) (ran : Run.run (next debug) s acts = some last) :
    Sound last := by
  have free : Run.Guarded (fun _ _ => True) (next debug) s acts := Run.guarded_trivial fun _ _ => trivial
  refine Run.guarded_invariant (fun s e after sound _ stepped => ?_) sound free ran
  rw [next] at stepped
  rcases step_sound debug e sound with ⟨s',is,kept⟩ | ⟨_,is⟩
  · rw [is] at stepped
    cases stepped
    exact kept
  · rw [is] at stepped
    cases stepped

-- In every state between operations the counters are exact and the cached pages
-- are the domain's own, and whatever comes next no BUG_ON is reached.
theorem accounting_exact (debug : Bool) {acts : List Event} {last : State} (sound : Sound s)
    (ran : Run.run (next debug) s acts = some last) :
    Entries last ∧ Cache last ∧ ∀ e, (∃ after, step debug last e = .ok after) ∨ debug = true ∧ step debug last e = .error .assertion := by
  have kept := run_sound debug sound ran
  refine ⟨kept.entries,kept.cache,fun e => ?_⟩
  rcases step_sound debug e kept with ⟨after,is,_⟩ | failed
  · exact .inl ⟨after,is⟩
  · exact .inr failed

-- A domain that has just been created.
def created : State :=
  ⟨fun _ => .invalid,fun _ => false,fun _ => false,[],[],0,0,fun _ => 0,0,0,0,false,true⟩

theorem created_sound : Sound created := by
  refine ⟨⟨∅,fun g => ?_,rfl⟩,⟨rfl,List.nodup_nil,fun m here => (by cases here),fun m here => (by cases here)⟩,
    fun g type m here => (by cases here),fun g h type type' m here => (by cases here)⟩
  exact ⟨fun here => absurd here (Finset.notMem_empty g),fun pod => by cases pod⟩

def allSeen : Seen := ⟨fun _ => true,fun _ => true,fun _ => true,fun _ => true⟩
def allFreed : Frees := ⟨fun _ => true,fun _ => true,fun _ => false⟩

-- A cache of a superpage and a single page, a superpage populated and splintered,
-- and memory handed back.
def building : List Event :=
  [.setTarget 0 513 [⟨some 1024,none,false⟩,⟨none,some 7,false⟩] allFreed,.mark 512 9,.mark 2000 1,
    .demand 600 9 true allSeen,.demand 2001 0 true allSeen,.decrease 600 0 allSeen allFreed,.decrease 2000 0 allSeen allFreed]

theorem accounting_exact_building : ∃ last, Run.run (next true) created building = some last ∧ Entries last ∧ Cache last := by
  have runs : (Run.run (next true) created building).isSome = true := by decide +kernel
  obtain ⟨last,ran⟩ := Option.isSome_iff_exists.mp runs
  obtain ⟨entries,cache,_⟩ := accounting_exact true created_sound ran
  exact ⟨last,ran,entries,cache⟩

end XenAet.PodRuns
