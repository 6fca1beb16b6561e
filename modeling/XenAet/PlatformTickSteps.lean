import XenAet.PlatformTicks

namespace XenAet.PlatformTickSteps
open XenAet.PlatformTimer XenAet.PlatformTicks Library

variable {mode : Mode} {s s' : State} {masked masked' : Nat → Bool} {t v : Nat} {now : Int} {pt pt' : PeriodicTime} {running : Nat → Bool}
  {delivered : Nat} {first : Int}

-- The ticks of one timer, of which `hidden` says whether it may be off the list.
structure Counted (mode : Mode) (pt : PeriodicTime) (hidden live : Bool) (delivered : Nat) (first : Int) : Prop where
  dead : live = false → pt.onList = false ∧ pt.pendingIntrNr = 0 ∧ pt.timer = none
  target : live = true → pt.vcpu ≠ none
  period : live = true → pt.oneShot = false → 0 < pt.period
  ticks : Keeps mode → live = true → pt.oneShot = false → pt.scheduled = first + (delivered + pt.pendingIntrNr : Nat) * pt.period
  off : live = true → pt.onList = false → (0 < pt.pendingIntrNr ∧ hidden = true) ∨ (pt.oneShot = true ∧ 0 < delivered)

def Armed (running : Nat → Bool) (pt : PeriodicTime) (delivered : Nat) : Prop :=
  ∀ v, pt.vcpu = some v → running v = true → pt.pendingIntrNr = 0 → pt.timer = some pt.scheduled ∨ (pt.oneShot = true ∧ 0 < delivered)

structure Sane (mode : Mode) (running : Nat → Bool) (pt : PeriodicTime) (hidden live : Bool) (delivered : Nat) (first : Int) : Prop where
  counted : Counted mode pt hidden live delivered first
  armed : live = true → Armed running pt delivered

-- A timer is on the list of its vcpu or on none.
structure Inv (mode : Mode) (hidden : Nat → Bool) (s : State) : Prop where
  once : ∀ v, (s.tmList v).Nodup
  listed : ∀ v t, t ∈ s.tmList v ↔ (s.pt t).onList = true ∧ (s.pt t).vcpu = some v
  sane : ∀ t, Sane mode s.running (s.pt t) (hidden t) (s.live t) (s.delivered t) (s.first t)

theorem Sane.weaken {hidden hidden' live : Bool} (sane : Sane mode running pt hidden live delivered first) (more : hidden = true → hidden' = true) :
    Sane mode running pt hidden' live delivered first :=
  have ⟨dead,target,period,ticks,off⟩ := sane.counted
  ⟨⟨dead,target,period,ticks,fun there away => (off there away).imp_left fun both => ⟨both.1,more both.2⟩⟩,sane.armed⟩

theorem Inv.weaken (inv : Inv mode masked s) (more : ∀ t, masked t = true → masked' t = true) : Inv mode masked' s :=
  ⟨inv.once,inv.listed,fun t => (inv.sane t).weaken (more t)⟩

-- What happens to one timer is seen by no other.
theorem Inv.changed (inv : Inv mode masked s) (t : Nat) (running : s'.running = s.running)
    (others : ∀ x, x ≠ t → s'.pt x = s.pt x ∧ masked' x = masked x ∧ s'.live x = s.live x ∧ s'.delivered x = s.delivered x ∧ s'.first x = s.first x)
    (once : ∀ v, (s'.tmList v).Nodup)
    (lists : ∀ v x, x ∈ s'.tmList v ↔ (x ≠ t ∧ x ∈ s.tmList v) ∨ (x = t ∧ (s'.pt t).onList = true ∧ (s'.pt t).vcpu = some v))
    (sane : Sane mode s.running (s'.pt t) (masked' t) (s'.live t) (s'.delivered t) (s'.first t)) : Inv mode masked' s' := by
  refine ⟨once,fun v x => ?_,fun x => ?_⟩
  · rw [lists v x]
    by_cases is : x = t
    · rw [is]
      exact ⟨fun there => (there.resolve_left fun other => other.1 rfl).2,fun there => .inr ⟨rfl,there⟩⟩
    · rw [(others x is).1,← inv.listed v x]
      exact ⟨fun there => (there.resolve_right fun same => is same.1).2,fun there => .inl ⟨is,there⟩⟩
  · rw [running]
    by_cases is : x = t
    · rw [is]
      exact sane
    · obtain ⟨pts,hidden,live,count,start_⟩ := others x is
      rw [pts,hidden,live,count,start_]
      exact inv.sane x

theorem Inv.unlisted (inv : Inv mode masked s) (t : Nat) :
    (∀ v, (unlink s t v).Nodup) ∧ ∀ v x, x ∈ unlink s t v ↔ x ≠ t ∧ x ∈ s.tmList v := by
  unfold unlink
  cases target : (s.pt t).vcpu with
  | none =>
    refine ⟨inv.once,fun v x => ⟨fun there => ⟨fun is => ?_,there⟩,fun there => there.2⟩⟩
    have known := ((inv.listed v x).mp there).2
    rw [is,target] at known
    cases known
  | some w =>
    dsimp only
    cases on : (s.pt t).onList with
    | false =>
      rw [if_neg Bool.false_ne_true]
      refine ⟨inv.once,fun v x => ⟨fun there => ⟨fun is => ?_,there⟩,fun there => there.2⟩⟩
      have known := ((inv.listed v x).mp there).1
      rw [is,on] at known
      cases known
    | true =>
      rw [if_pos rfl]
      refine ⟨fun v => ?_,fun v x => ?_⟩
      · by_cases is : v = w
        · rw [is,Function.update_self]
          exact (inv.once w).erase t
        · rw [Function.update_of_ne is]
          exact inv.once v
      · by_cases is : v = w
        · rw [is,Function.update_self]
          exact (inv.once w).mem_erase_iff
        · rw [Function.update_of_ne is]
          refine ⟨fun there => ⟨fun same => is ?_,there⟩,fun there => there.2⟩
          have known := ((inv.listed v x).mp there).2
          rw [same,target] at known
          exact (Option.some.inj known).symm

-- `list_add` of a timer that was taken off its list.
theorem Inv.linked (inv : Inv mode masked s) (t v : Nat) :
    (∀ u, (Function.update (unlink s t) v (t :: unlink s t v) u).Nodup) ∧
      ∀ u x, x ∈ Function.update (unlink s t) v (t :: unlink s t v) u ↔ (x ≠ t ∧ x ∈ s.tmList u) ∨ (x = t ∧ u = v) := by
  obtain ⟨once,lists⟩ := inv.unlisted t
  refine ⟨fun u => ?_,fun u x => ?_⟩
  · by_cases is : u = v
    · rw [is,Function.update_self]
      exact List.nodup_cons.mpr ⟨fun there => ((lists v t).mp there).1 rfl,once v⟩
    · rw [Function.update_of_ne is]
      exact once u
  · by_cases is : u = v
    · rw [is,Function.update_self,List.mem_cons,lists v x]
      exact ⟨fun there => there.elim (fun same => .inr ⟨same,rfl⟩) .inl,fun there => there.elim .inr fun same => .inl same.1⟩
    · rw [Function.update_of_ne is,lists u x]
      exact ⟨.inl,fun there => there.resolve_right fun same => is same.2⟩

theorem Inv.unmoved (inv : Inv mode masked s) (onList : pt.onList = (s.pt t).onList) (vcpu : pt.vcpu = (s.pt t).vcpu) (v x : Nat) :
    x ∈ s.tmList v ↔ (x ≠ t ∧ x ∈ s.tmList v) ∨ (x = t ∧ pt.onList = true ∧ pt.vcpu = some v) := by
  rw [onList,vcpu,← inv.listed v t]
  by_cases is : x = t
  · rw [is]
    exact ⟨fun there => .inr ⟨rfl,there⟩,fun there => (there.resolve_left fun other => other.1 rfl).2⟩
  · exact ⟨fun there => .inl ⟨is,there⟩,fun there => (there.resolve_right fun same => is same.1).2⟩

-- Missed ticks are made up for by as many periods.
structure Processed (mode : Mode) (pt pt' : PeriodicTime) : Prop where
  onList : pt'.onList = pt.onList
  vcpu : pt'.vcpu = pt.vcpu
  oneShot : pt'.oneShot = pt.oneShot
  period : pt'.period = pt.period
  ticks : Keeps mode → ∃ missed : Nat, pt'.pendingIntrNr = pt.pendingIntrNr + missed ∧ pt'.scheduled = pt.scheduled + missed * pt.period

theorem keeps_iff : Keeps mode ↔ ¬(mode = .oneMissedTickPending ∨ mode = .noMissedTicksPending) := by
  unfold Keeps
  cases mode <;> decide

theorem process_spec (mode : Mode) (now : Int) (pt : PeriodicTime) (bound : pt.pendingIntrNr + missedTicks now pt < 2 ^ 32) : Processed mode pt (ptProcessMissedTicks mode now pt) := by
  have idle : Processed mode pt pt := ⟨rfl,rfl,rfl,rfl,fun _ => ⟨0,rfl,by rw [Int.natCast_zero,Int.zero_mul,Int.add_zero]⟩⟩
  unfold ptProcessMissedTicks
  split
  · exact idle
  · split
    · exact idle
    · dsimp only
      split
      · next no => exact ⟨rfl,rfl,rfl,rfl,fun keeps => absurd (.inr no) (keeps_iff.mp keeps)⟩
      · exact ⟨rfl,rfl,rfl,rfl,fun _ => ⟨missedTicks now pt,Nat.mod_eq_of_lt bound,rfl⟩⟩

theorem Counted.alive {hidden live : Bool} (counted : Counted mode pt hidden live delivered first) (on : pt.onList = true) : live = true := by
  by_contra gone
  rw [(counted.dead (Bool.eq_false_iff.mpr gone)).1] at on
  cases on

theorem Counted.processed {hidden live : Bool} (counted : Counted mode pt hidden live delivered first) (on : pt.onList = true)
    (spec : Processed mode pt pt') : Counted mode pt' hidden live delivered first := by
  obtain ⟨onList,vcpu,oneShot,period,ticks⟩ := spec
  refine ⟨fun dead => ?_,fun there => ?_,fun there periodic => ?_,fun keeps there periodic => ?_,fun there off => ?_⟩
  · rw [counted.alive on] at dead
    cases dead
  · rw [vcpu]
    exact counted.target there
  · rw [period]
    exact counted.period there (oneShot.symm.trans periodic)
  · obtain ⟨missed,pending,scheduled⟩ := ticks keeps
    rw [pending,scheduled,period,counted.ticks keeps there (oneShot.symm.trans periodic),← Nat.add_assoc,Int.natCast_add _ missed,Int.add_mul,Int.add_assoc]
  · rw [onList,on] at off
    cases off

theorem Counted.set {hidden live : Bool} (counted : Counted mode pt hidden live delivered first) (there : live = true) :
    Sane mode running (setTimer pt) hidden live delivered first := by
  have ⟨_,target,period,ticks,off⟩ := counted
  refine ⟨⟨fun dead => ?_,target,period,ticks,off⟩,fun _ _ _ _ _ => .inl rfl⟩
  rw [there] at dead
  cases dead

theorem reschedule_kept {clock : Nat → Int} (inv : Inv mode s.masked s) (legal : Legal s (.reschedule v clock)) :
    ∃ next, step mode s (.reschedule v clock) = some next ∧ Inv mode next.masked next := by
  refine ⟨_,rfl,inv.once,fun u t => ?_,fun t => ?_⟩
  · unfold ptRestoreTimer onList
    dsimp only
    rw [inv.listed u t]
    split
    · next on =>
      split
      · have spec := process_spec mode _ _ (legal t on)
        have onList : (setTimer (ptProcessMissedTicks mode (clock t) (s.pt t))).onList = (s.pt t).onList := spec.onList
        have vcpu : (setTimer (ptProcessMissedTicks mode (clock t) (s.pt t))).vcpu = (s.pt t).vcpu := spec.vcpu
        rw [onList,vcpu]
      · exact Iff.rfl
    · exact Iff.rfl
  · have sane := inv.sane t
    unfold ptRestoreTimer onList
    dsimp only
    by_cases on : t ∈ s.tmList v
    · rw [if_pos on]
      by_cases none_ : (s.pt t).pendingIntrNr = 0
      · rw [if_pos none_]
        have listed := ((inv.listed v t).mp on).1
        exact (sane.counted.processed listed (process_spec _ _ _ (legal t on))).set (sane.counted.alive listed)
      · rw [if_neg none_]
        exact ⟨sane.counted,fun _ _ _ _ zero => absurd zero none_⟩
    · rw [if_neg on]
      refine ⟨sane.counted,fun there w target runs zero => ?_⟩
      by_cases is : w = v
      · have off : (s.pt t).onList = false := by
          refine Bool.eq_false_iff.mpr fun listed => on ((inv.listed v t).mpr ⟨listed,?_⟩)
          rw [← is]
          exact target
        refine .inr ((sane.counted.off there off).resolve_left fun pending => ?_)
        rw [zero] at pending
        exact Nat.lt_irrefl 0 pending.1
      · rw [Function.update_of_ne is] at runs
        exact sane.armed there w target runs zero

theorem deschedule_kept {blocked : Bool} (inv : Inv mode s.masked s) :
    ∃ next, step mode s (.deschedule v blocked) = some next ∧ Inv mode next.masked next := by
  have apart : ∀ w, Function.update s.running v false w = true → w ≠ v ∧ s.running w = true := by
    intro w runs
    by_cases is : w = v
    · rw [is,Function.update_self] at runs
      cases runs
    · rw [Function.update_of_ne is] at runs
      exact ⟨is,runs⟩
  have same : ∀ t, Sane mode (Function.update s.running v false) (s.pt t) (s.masked t) (s.live t) (s.delivered t) (s.first t) := by
    intro t
    exact ⟨(inv.sane t).counted,fun there w target runs zero => (inv.sane t).armed there w target (apart w runs).2 zero⟩
  refine ⟨_,rfl,?_⟩
  unfold ptSaveTimer
  cases blocked with
  | true => exact ⟨inv.once,inv.listed,same⟩
  | false =>
    rw [if_neg Bool.false_ne_true]
    refine ⟨inv.once,fun u t => ?_,fun t => ?_⟩
    · unfold onList
      dsimp only
      rw [inv.listed u t]
      split
      · split
        · exact Iff.rfl
        · exact Iff.rfl
      · exact Iff.rfl
    · unfold onList
      dsimp only
      by_cases on : t ∈ s.tmList v
      · rw [if_pos on]
        split
        · exact same t
        · obtain ⟨listed,target⟩ := (inv.listed v t).mp on
          have ⟨dead,target_,period,ticks,off⟩ := (inv.sane t).counted
          refine ⟨⟨fun gone => ⟨(dead gone).1,(dead gone).2.1,rfl⟩,target_,period,ticks,off⟩,fun _ w here runs _ => ?_⟩
          have is : some w = some v := here.symm.trans target
          exact absurd (Option.some.inj is) (apart w runs).1
      · rw [if_neg on]
        exact same t

theorem expire_kept (inv : Inv mode s.masked s) (legal : Legal s (.expire t)) :
    ∃ next, step mode s (.expire t) = some next ∧ Inv mode next.masked next := by
  obtain ⟨set_,bound⟩ := legal
  have ⟨dead,target,period,ticks,off⟩ := (inv.sane t).counted
  refine ⟨_,rfl,inv.changed t rfl (fun x other => ⟨Function.update_of_ne other ..,rfl,rfl,rfl,rfl⟩) inv.once (fun v x => ?_) ?_⟩
  · unfold setPt
    dsimp only
    rw [Function.update_self]
    exact inv.unmoved (show (ptTimerFn {s.pt t with timer := none}).onList = (s.pt t).onList from rfl) rfl v x
  · unfold setPt
    dsimp only
    rw [Function.update_self]
    unfold ptTimerFn
    dsimp only
    rw [Nat.mod_eq_of_lt bound]
    refine ⟨⟨fun gone => absurd (dead gone).2.2 set_,target,period,fun keeps there periodic => ?_,fun there hidden => ?_⟩,
      fun _ _ _ _ zero => absurd zero (Nat.succ_ne_zero _)⟩
    · dsimp only at periodic ⊢
      rw [ticks keeps there periodic,← Nat.add_assoc,Int.natCast_succ,Int.add_mul,Int.one_mul,Int.add_assoc]
    · exact (off there hidden).imp_left fun both => ⟨Nat.succ_pos _,both.2⟩

theorem updateIrq_kept (inv : Inv mode s.masked s) : ∃ next, step mode s (.updateIrq v) = some next ∧ Inv mode next.masked next := by
  refine ⟨_,rfl,fun u => ?_,fun u t => ?_,fun t => ?_⟩
  · unfold ptUpdateIrq
    dsimp only
    by_cases is : u = v
    · rw [is,Function.update_self]
      exact (inv.once v).filter _
    · rw [Function.update_of_ne is]
      exact inv.once u
  · unfold ptUpdateIrq onList
    dsimp only
    by_cases on : t ∈ s.tmList v
    · obtain ⟨listed,target⟩ := (inv.listed v t).mp on
      rw [if_pos on]
      dsimp only
      rw [listed,Bool.true_and,target]
      by_cases is : u = v
      · rw [is,Function.update_self,List.mem_filter]
        exact ⟨fun there => ⟨there.2,rfl⟩,fun there => ⟨on,there.1⟩⟩
      · rw [Function.update_of_ne is,inv.listed u t,target]
        have other : some v ≠ some u := fun same => is (Option.some.inj same).symm
        exact ⟨fun there => absurd there.2 other,fun there => absurd there.2 other⟩
    · rw [if_neg on]
      by_cases is : u = v
      · rw [is,Function.update_self,List.mem_filter,← inv.listed v t]
        exact ⟨fun there => there.1,fun there => absurd there on⟩
      · rw [Function.update_of_ne is]
        exact inv.listed u t
  · unfold ptUpdateIrq onList
    dsimp only
    by_cases on : t ∈ s.tmList v
    · have ⟨dead,target,period,ticks,_⟩ := (inv.sane t).counted
      have listed := ((inv.listed v t).mp on).1
      rw [if_pos on]
      refine ⟨⟨fun gone => ?_,target,period,ticks,fun _ off => .inl ?_⟩,(inv.sane t).armed⟩
      · rw [(dead gone).1] at listed
        cases listed
      · dsimp only at off ⊢
        rw [listed,Bool.true_and,Bool.not_eq_false'] at off
        unfold suspended at off
        rw [Bool.and_eq_true,Bool.and_eq_true,decide_eq_true_eq] at off
        exact ⟨Nat.pos_of_ne_zero off.1.1,off.2⟩
    · rw [if_neg on]
      exact inv.sane t

-- A delivered tick. In the modes that keep missed ticks one is taken off the
-- backlog, in the others there is no backlog left.
theorem Sane.posted {hidden live : Bool} (guestTime : Nat) (sane : Sane mode running pt hidden live delivered first) (on : pt.onList = true)
    (pending : pt.pendingIntrNr ≠ 0) (bound : pt.pendingIntrNr + missedTicks now pt < 2 ^ 32) :
    Sane mode running (posted mode now guestTime pt) hidden live (delivered + 1) first := by
  have there := sane.counted.alive on
  obtain ⟨_,target,period,ticks,_⟩ := sane.counted
  have alive : live ≠ false := fun gone => by rw [there] at gone; cases gone
  have away : pt.onList ≠ false := fun off => by rw [on] at off; cases off
  unfold PlatformTicks.posted
  dsimp only
  by_cases oneShot : pt.oneShot = true
  · rw [if_pos oneShot]
    refine ⟨⟨fun gone => absurd gone alive,target,period,fun _ _ periodic => ?_,fun _ _ => .inr ⟨oneShot,Nat.succ_pos _⟩⟩,
      fun _ _ _ _ _ => .inr ⟨oneShot,Nat.succ_pos _⟩⟩
    dsimp only at periodic
    rw [oneShot] at periodic
    cases periodic
  · rw [if_neg oneShot]
    by_cases collapse : mode = .oneMissedTickPending ∨ mode = .noMissedTicksPending
    · rw [if_pos collapse]
      have spec := process_spec mode now {pt with irqIssued := false,lastPltGtime := guestTime} bound
      generalize ptProcessMissedTicks mode now {pt with irqIssued := false,lastPltGtime := guestTime} = done at spec
      obtain ⟨onList,vcpu,shot,period_,_⟩ := spec
      dsimp only at onList vcpu shot period_
      have counted : Counted mode {done with pendingIntrNr := 0} hidden live (delivered + 1) first := by
        refine ⟨fun gone => absurd gone alive,fun _ => ?_,fun _ periodic => ?_,fun keeps => absurd collapse (keeps_iff.mp keeps),fun _ off => ?_⟩
        · dsimp only
          rw [vcpu]
          exact target there
        · dsimp only at periodic ⊢
          rw [period_]
          exact period there (shot.symm.trans periodic)
        · dsimp only at off
          rw [onList] at off
          exact absurd off away
      exact counted.set there
    · rw [if_neg collapse]
      have one : delivered + 1 + (pt.pendingIntrNr - 1) = delivered + pt.pendingIntrNr := by omega
      have counted : Counted mode {pt with irqIssued := false,lastPltGtime := lag {pt with irqIssued := false},pendingIntrNr := pt.pendingIntrNr - 1}
          hidden live (delivered + 1) first := by
        refine ⟨fun gone => absurd gone alive,target,period,fun keeps there periodic => ?_,fun _ off => absurd off away⟩
        dsimp only
        rw [one]
        exact ticks keeps there periodic
      split
      · have less : pt.pendingIntrNr - 1 + missedTicks now pt < 2 ^ 32 := by omega
        have processed := counted.processed on (process_spec _ _ _ less)
        split
        · exact processed.set there
        · next some_ => exact ⟨processed,fun _ _ _ _ zero => absurd zero some_⟩
      · next some_ => exact ⟨counted,fun _ _ _ _ zero => absurd zero some_⟩

theorem posted_place (mode : Mode) (guestTime : Nat) (bound : pt.pendingIntrNr + missedTicks now pt < 2 ^ 32) :
    (posted mode now guestTime pt).vcpu = pt.vcpu ∧ (posted mode now guestTime pt).onList = (pt.onList && !pt.oneShot) := by
  unfold posted
  dsimp only
  cases oneShot : pt.oneShot with
  | true =>
    rw [if_pos rfl,Bool.not_true,Bool.and_false]
    exact ⟨rfl,rfl⟩
  | false =>
    rw [if_neg Bool.false_ne_true,Bool.not_false,Bool.and_true]
    split
    · have spec := process_spec mode now {pt with irqIssued := false,lastPltGtime := guestTime,oneShot := false} bound
      exact ⟨spec.vcpu,spec.onList⟩
    · split
      · have less : pt.pendingIntrNr - 1 + missedTicks now pt < 2 ^ 32 := by omega
        have spec := process_spec mode now {pt with
          irqIssued := false,oneShot := false,lastPltGtime := lag {pt with irqIssued := false,oneShot := false},pendingIntrNr := pt.pendingIntrNr - 1} less
        split
        · exact ⟨spec.vcpu,spec.onList⟩
        · exact ⟨spec.vcpu,spec.onList⟩
      · exact ⟨rfl,rfl⟩

theorem intrPost_kept {matching : Nat → Bool} {guestTime : Nat} (inv : Inv mode s.masked s) (legal : Legal s (.intrPost v matching now guestTime)) :
    ∃ next, step mode s (.intrPost v matching now guestTime) = some next ∧ Inv mode next.masked next := by
  refine ⟨_,rfl,?_⟩
  unfold ptIntrPost
  cases found : isPtIrq s v matching with
  | none => exact inv
  | some t =>
    have there : t ∈ s.tmList v := List.mem_of_find?_eq_some found
    have passes := List.find?_some found
    rw [Bool.and_eq_true,Bool.and_eq_true,decide_eq_true_eq] at passes
    have on := ((inv.listed v t).mp there).1
    have sane := (inv.sane t).posted guestTime on passes.1.1 (legal t there)
    obtain ⟨vcpu,onList⟩ := posted_place mode guestTime (legal t there)
    refine inv.changed t rfl (fun x other => ⟨Function.update_of_ne other ..,rfl,rfl,Function.update_of_ne other ..,rfl⟩) (fun u => ?_) (fun u x => ?_) ?_
    · dsimp only
      split
      · exact (inv.unlisted t).1 u
      · exact inv.once u
    · unfold setPt
      dsimp only
      rw [Function.update_self]
      cases oneShot : (s.pt t).oneShot with
      | true =>
        rw [oneShot,Bool.not_true,Bool.and_false] at onList
        rw [if_pos rfl,(inv.unlisted t).2 u x,onList]
        exact ⟨.inl,fun there => there.resolve_right fun same => absurd same.2.1 Bool.false_ne_true⟩
      | false =>
        rw [oneShot,Bool.not_false,Bool.and_true] at onList
        rw [if_neg Bool.false_ne_true]
        exact inv.unmoved onList vcpu u x
    · unfold setPt
      dsimp only
      rw [Function.update_self,Function.update_self]
      exact sane

theorem destroy_kept (inv : Inv mode s.masked s) : ∃ next, step mode s (.destroy t) = some next ∧ Inv mode next.masked next := by
  have gone : (destroyPeriodicTime (s.pt t)).onList = false ∧ (destroyPeriodicTime (s.pt t)).pendingIntrNr = 0 ∧
      (destroyPeriodicTime (s.pt t)).timer = none := by
    have ⟨dead,target,_,_,_⟩ := (inv.sane t).counted
    unfold destroyPeriodicTime
    cases known : (s.pt t).vcpu with
    | none => exact dead (Bool.eq_false_iff.mpr fun there => target there known)
    | some v => exact ⟨rfl,rfl,rfl⟩
  refine ⟨_,rfl,inv.changed t rfl (fun x other => ⟨Function.update_of_ne other ..,rfl,Function.update_of_ne other ..,rfl,rfl⟩) (inv.unlisted t).1
    (fun u x => ?_) ?_⟩
  · unfold destroy setPt
    dsimp only
    rw [Function.update_self,(inv.unlisted t).2 u x,gone.1]
    exact ⟨.inl,fun there => there.resolve_right fun same => absurd same.2.1 Bool.false_ne_true⟩
  · unfold destroy setPt
    dsimp only
    rw [Function.update_self,Function.update_self]
    have no : ¬(false = true) := Bool.false_ne_true
    exact ⟨⟨fun _ => gone,fun there => absurd there no,fun there => absurd there no,fun _ there => absurd there no,fun there => absurd there no⟩,
      fun there => absurd there no⟩

theorem create_kept {r : Request} (inv : Inv mode s.masked s) : ∃ next, step mode s (.create t r) = some next ∧ Inv mode next.masked next := by
  obtain ⟨once,lists⟩ := inv.linked t r.vcpu
  have source : (destroyPeriodicTime (s.pt t)).source = (s.pt t).source := by
    unfold destroyPeriodicTime
    split
    · rfl
    · rfl
  refine ⟨_,rfl,inv.changed t rfl (fun x other => ⟨Function.update_of_ne other ..,rfl,Function.update_of_ne other ..,Function.update_of_ne other ..,
    Function.update_of_ne other ..⟩) once (fun u x => ?_) ?_⟩
  · unfold create setPt
    dsimp only
    rw [Function.update_self,lists u x]
    refine or_congr_right (and_congr_right fun _ => ⟨fun is => ⟨rfl,?_⟩,fun there => ?_⟩)
    · rw [is]
      rfl
    · exact (Option.some.inj there.2).symm
  · unfold create setPt
    dsimp only
    rw [Function.update_self,Function.update_self,Function.update_self,Function.update_self]
    refine ⟨⟨fun gone => absurd gone.symm Bool.false_ne_true,fun _ => Option.some_ne_none _,fun _ periodic => ?_,fun _ _ _ => ?_,fun _ off => ?_⟩,
      fun _ _ _ _ _ => .inl rfl⟩
    · have period : clampPeriod r.period ≠ 0 := of_decide_eq_false periodic
      exact Nat.pos_of_ne_zero period
    · unfold createPeriodicTime
      dsimp only
      rw [source,Int.natCast_zero,Int.zero_mul,Int.add_zero]
    · exact absurd off.symm Bool.false_ne_true

end XenAet.PlatformTickSteps
