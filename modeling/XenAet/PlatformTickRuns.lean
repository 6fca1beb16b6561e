import XenAet.PlatformTickSteps

namespace XenAet.PlatformTickRuns
open XenAet.PlatformTimer XenAet.PlatformTicks XenAet.PlatformTickSteps Library

variable {mode : Mode} {s : State} {masked : Nat → Bool} {t v : Nat}

-- A timer that is told of an unmasking is on its list, or has no tick to wait for.
theorem resume_kept (inv : Inv mode masked s) (t : Nat) : Inv mode (Function.update masked t false) (ptResume s t) := by
  have ⟨dead,target,period,ticks,off⟩ := (inv.sane t).counted
  have other : ∀ x, x ≠ t → Function.update masked t false x = masked x := fun x apart => Function.update_of_ne apart ..
  -- Nothing is done for a timer that may not be hidden.
  have kept : (s.live t = true → (s.pt t).onList = false → (s.pt t).pendingIntrNr = 0) → Inv mode (Function.update masked t false) s := by
    intro idle
    refine inv.changed t rfl (fun x apart => ⟨rfl,other x apart,rfl,rfl,rfl⟩) inv.once (fun u x => inv.unmoved rfl rfl u x) ?_
    refine ⟨⟨dead,target,period,ticks,fun there away => .inr ((off there away).resolve_left fun pending => ?_)⟩,(inv.sane t).armed⟩
    rw [idle there away] at pending
    exact Nat.lt_irrefl 0 pending.1
  unfold ptResume
  cases known : (s.pt t).vcpu with
  | none => exact kept fun there => absurd known (target there)
  | some v =>
    dsimp only
    by_cases hidden : (s.pt t).pendingIntrNr ≠ 0 ∧ (s.pt t).onList = false
    · rw [if_pos hidden]
      have same : unlink s t = s.tmList := by
        unfold unlink
        rw [known,hidden.2]
        rfl
      obtain ⟨once,lists⟩ := inv.linked t v
      rw [same] at once lists
      refine inv.changed t rfl (fun x apart => ⟨Function.update_of_ne apart ..,other x apart,rfl,rfl,rfl⟩) once (fun u x => ?_) ?_
      · unfold setPt
        dsimp only
        rw [Function.update_self,lists u x,known]
        exact or_congr_right (and_congr_right fun _ => ⟨fun is => ⟨rfl,congrArg some is.symm⟩,fun there => (Option.some.inj there.2).symm⟩)
      · unfold setPt
        dsimp only
        rw [Function.update_self]
        refine ⟨⟨fun gone => absurd (dead gone).2.1 hidden.1,target,period,ticks,fun _ away => absurd away.symm Bool.false_ne_true⟩,(inv.sane t).armed⟩
    · rw [if_neg hidden]
      exact kept fun _ away => by_contra fun pending => hidden ⟨pending,away⟩

theorem resumeAll_kept (inv : Inv mode masked s) (timers : List Nat) :
    Inv mode (fun t => masked t && decide (t ∉ timers)) (timers.foldl ptResume s) := by
  induction timers generalizing s masked with
  | nil =>
    refine inv.weaken fun t is => ?_
    rw [is]
    rfl
  | cons t rest ih =>
    refine (ih (resume_kept inv t)).weaken fun x is => ?_
    rw [Bool.and_eq_true,decide_eq_true_eq] at is ⊢
    by_cases same : x = t
    · rw [same,Function.update_self] at is
      exact absurd is.1 Bool.false_ne_true
    · rw [Function.update_of_ne same] at is
      exact ⟨is.1,fun there => (List.mem_cons.mp there).elim same is.2⟩

theorem ptResume_masked (s : State) (t : Nat) : (ptResume s t).masked = s.masked := by
  unfold ptResume
  split
  · rfl
  · split
    · rfl
    · rfl

theorem resumeAll_masked (s : State) (timers : List Nat) : (timers.foldl ptResume s).masked = s.masked := by
  induction timers generalizing s with
  | nil => rfl
  | cons t rest ih => exact (ih (ptResume s t)).trans (ptResume_masked s t)

theorem mayUnmask_masked (s : State) (d : Bool) (vlapicPt : Option Nat) : (ptMayUnmaskIrq s d vlapicPt).masked = s.masked := by
  have all : (if d then globalTimers.foldl ptResume s else s).masked = s.masked := by
    split
    · exact resumeAll_masked s globalTimers
    · rfl
  cases vlapicPt with
  | none => exact all
  | some t => exact (ptResume_masked _ t).trans all

-- Who is not told of the unmasking has to be masked still.
theorem mayUnmask_kept {d : Bool} {vlapicPt : Option Nat} (inv : Inv mode masked s)
    (told : ∀ t, s.masked t = false → masked t = false ∨ (d = true ∧ t ∈ globalTimers) ∨ vlapicPt = some t) :
    Inv mode (ptMayUnmaskIrq s d vlapicPt).masked (ptMayUnmaskIrq s d vlapicPt) := by
  rw [mayUnmask_masked]
  have all : Inv mode (fun t => masked t && !(d && decide (t ∈ globalTimers))) (if d then globalTimers.foldl ptResume s else s) := by
    cases d with
    | true =>
      refine (resumeAll_kept inv globalTimers).weaken fun t is => ?_
      rw [Bool.true_and,← decide_not]
      exact is
    | false =>
      refine inv.weaken fun t is => ?_
      rw [is]
      rfl
  have rest : ∀ t, vlapicPt ≠ some t → (masked t && !(d && decide (t ∈ globalTimers))) = true → s.masked t = true := by
    intro t other is
    rw [Bool.and_eq_true,Bool.not_eq_true',Bool.and_eq_false_iff,decide_eq_false_iff_not] at is
    by_contra clear_
    rcases told t (Bool.eq_false_iff.mpr clear_) with before | ⟨yes,there⟩ | lapic
    · rw [is.1] at before
      cases before
    · rw [yes] at is
      exact is.2.elim (fun no => absurd no.symm Bool.false_ne_true) fun not_ => not_ there
    · exact other lapic
  cases vlapicPt with
  | none => exact all.weaken fun t is => rest t (Option.some_ne_none t).symm is
  | some t =>
    refine (resume_kept all t).weaken fun x is => ?_
    by_cases same : x = t
    · rw [same,Function.update_self] at is
      cases is
    · rw [Function.update_of_ne same] at is
      exact rest x (fun lapic => same (Option.some.inj lapic).symm) is

theorem adjust_kept (inv : Inv mode masked s) (steady : ∀ u, (s.pt t).vcpu = some u → u = v ∨ s.running u = true ∨ s.running v = false) :
    Inv mode masked (ptAdjustVcpu v s t) := by
  have ⟨dead,_,period,ticks,off⟩ := (inv.sane t).counted
  unfold ptAdjustVcpu
  cases known : (s.pt t).vcpu with
  | none => exact inv
  | some u =>
    dsimp only
    obtain ⟨once,lists⟩ := inv.linked t v
    obtain ⟨once',lists'⟩ := inv.unlisted t
    refine inv.changed t rfl (fun x apart => ⟨Function.update_of_ne apart ..,rfl,rfl,rfl,rfl⟩) (fun w => ?_) (fun w x => ?_) ?_
    · dsimp only
      split
      · exact once w
      · exact once' w
    · unfold setPt
      dsimp only
      rw [Function.update_self]
      cases on : (s.pt t).onList with
      | true =>
        rw [if_pos rfl,lists w x]
        exact or_congr_right (and_congr_right fun _ => ⟨fun is => ⟨rfl,congrArg some is.symm⟩,fun there => (Option.some.inj there.2).symm⟩)
      | false =>
        rw [if_neg Bool.false_ne_true,lists' w x]
        exact ⟨.inl,fun there => there.resolve_right fun same => absurd same.2.1 Bool.false_ne_true⟩
    · unfold setPt
      dsimp only
      rw [Function.update_self]
      refine ⟨⟨dead,fun _ => Option.some_ne_none _,period,ticks,off⟩,fun there w is runs zero => ?_⟩
      have is : v = w := Option.some.inj is
      rw [← is] at runs
      rcases steady u known with same | before | stopped
      · rw [same] at known
        exact (inv.sane t).armed there v known runs zero
      · exact (inv.sane t).armed there u known before zero
      · rw [stopped] at runs
        cases runs

theorem ptAdjustVcpu_frame (v : Nat) (s : State) (t : Nat) : (ptAdjustVcpu v s t).masked = s.masked ∧ (ptAdjustVcpu v s t).running = s.running ∧
    ∀ x u, ((ptAdjustVcpu v s t).pt x).vcpu = some u → u = v ∨ (s.pt x).vcpu = some u := by
  unfold ptAdjustVcpu
  split
  · exact ⟨rfl,rfl,fun _ _ is => .inr is⟩
  · refine ⟨rfl,rfl,fun x u is => ?_⟩
    unfold setPt at is
    dsimp only at is
    by_cases same : x = t
    · rw [same,Function.update_self] at is
      exact .inl (Option.some.inj is).symm
    · rw [Function.update_of_ne same] at is
      exact .inr is

theorem adjustAll_kept {timers : List Nat} (inv : Inv mode masked s)
    (steady : ∀ t ∈ timers, ∀ u, (s.pt t).vcpu = some u → u = v ∨ s.running u = true ∨ s.running v = false) :
    Inv mode masked (timers.foldl (ptAdjustVcpu v) s) ∧ (timers.foldl (ptAdjustVcpu v) s).masked = s.masked := by
  induction timers generalizing s with
  | nil => exact ⟨inv,rfl⟩
  | cons t rest ih =>
    obtain ⟨hidden,runs,targets⟩ := ptAdjustVcpu_frame v s t
    have kept := adjust_kept inv (steady t List.mem_cons_self)
    obtain ⟨done,same⟩ := ih kept fun x later u is => by
      rw [runs]
      cases targets x u is with
      | inl moved => exact .inl moved
      | inr before => exact steady x (List.mem_cons_of_mem t later) u before
    exact ⟨done,same.trans hidden⟩

theorem lint0_kept (inv : Inv mode s.masked s) (legal : Legal s (.lint0 masked v)) (steady : Steady s (.lint0 masked v)) :
    ∃ next, step mode s (.lint0 masked v) = some next ∧ Inv mode next.masked next := by
  have told : ∀ t, masked t = false → s.masked t = false ∨ (true = true ∧ t ∈ globalTimers) ∨ none = some t :=
    fun t clear_ => (legal t clear_).imp_right fun there => .inl ⟨rfl,there⟩
  have inv : Inv mode s.masked {s with masked := masked} := ⟨inv.once,inv.listed,inv.sane⟩
  refine ⟨_,rfl,?_⟩
  unfold vlapicAdjustI8259Target
  by_cases same : s.target = v
  · rw [if_pos same]
    exact mayUnmask_kept inv told
  · rw [if_neg same]
    have moved : Inv mode s.masked {s with masked := masked,target := v} := ⟨inv.once,inv.listed,inv.sane⟩
    obtain ⟨done,hidden⟩ := adjustAll_kept moved steady
    refine mayUnmask_kept done fun t clear_ => told t ?_
    unfold ptAdjustGlobalVcpuTarget at clear_
    rw [hidden] at clear_
    exact clear_

theorem step_kept {event : Event} (inv : Inv mode s.masked s) (fits : Legal s event ∧ Steady s event) :
    ∃ next, step mode s event = some next ∧ Inv mode next.masked next := by
  obtain ⟨legal,steady⟩ := fits
  cases event with
  | create t r => exact create_kept inv
  | destroy t => exact destroy_kept inv
  | expire t => exact expire_kept inv legal
  | deschedule v blocked => exact deschedule_kept inv
  | reschedule v clock => exact reschedule_kept inv legal
  | updateIrq v => exact updateIrq_kept inv
  | intrPost v matching now guestTime => exact intrPost_kept inv legal
  | mask masked =>
    refine ⟨_,rfl,inv.once,inv.listed,fun t => (inv.sane t).weaken fun is => ?_⟩
    by_contra clear_
    rw [legal t (Bool.eq_false_iff.mpr clear_)] at is
    cases is
  | unmask masked d vlapicPt =>
    have inv : Inv mode s.masked {s with masked := masked} := ⟨inv.once,inv.listed,inv.sane⟩
    exact ⟨_,rfl,mayUnmask_kept inv legal⟩
  | lint0 masked v => exact lint0_kept inv legal steady

theorem start_inv : Inv mode start.masked start := by
  have no : ¬(false = true) := Bool.false_ne_true
  refine ⟨fun _ => List.nodup_nil,fun v t => ⟨fun there => absurd there List.not_mem_nil,fun there => absurd there.1 no⟩,fun t => ?_⟩
  exact ⟨⟨fun _ => ⟨rfl,rfl,rfl⟩,fun there => absurd there no,fun there => absurd there no,fun _ there => absurd there no,fun there => absurd there no⟩,
    fun there => absurd there no⟩

theorem inv_ticking (inv : Inv mode s.masked s) : Ticking mode s := by
  refine ⟨fun keeps t there periodic => ?_,fun t v there target runs => ?_,fun t there off => (inv.sane t).counted.off there off⟩
  · have ticks := (inv.sane t).counted.ticks keeps there periodic
    have period := (inv.sane t).counted.period there periodic
    have elapsed : (s.pt t).scheduled - s.first t = (s.delivered t + (s.pt t).pendingIntrNr : Nat) * (s.pt t).period := by
      rw [ticks]
      omega
    rw [elapsed,Int.mul_ediv_cancel _ (by omega),Int.natCast_add]
  · by_cases zero : (s.pt t).pendingIntrNr = 0
    · exact .inr ((inv.sane t).armed there v target runs zero)
    · exact .inl (Nat.pos_of_ne_zero zero)

theorem ticks_kept_and_armed {events : List Event} (fits : Run.Guarded (fun s event => Legal s event ∧ Steady s event) (step mode) start events) :
    ∃ s, Run.run (step mode) start events = some s ∧ Ticking mode s := by
  obtain ⟨s,ran,inv⟩ := Run.guarded_total (P:=fun s => Inv mode s.masked s) (fun _ _ => step_kept) start_inv fits
  exact ⟨s,ran,inv_ticking inv⟩

instance expireDecidable (s : State) (t : Nat) : Decidable (Legal s (.expire t)) :=
  inferInstanceAs (Decidable ((s.pt t).timer ≠ none ∧ (s.pt t).pendingIntrNr + 1 < 2 ^ 32))

instance rescheduleDecidable (s : State) (v : Nat) (clock : Nat → Int) : Decidable (Legal s (.reschedule v clock)) :=
  inferInstanceAs (Decidable (∀ t ∈ s.tmList v, (s.pt t).pendingIntrNr + missedTicks (clock t) (s.pt t) < 2 ^ 32))

instance intrPostDecidable (s : State) (v : Nat) (matching : Nat → Bool) (now : Int) (guestTime : Nat) :
    Decidable (Legal s (.intrPost v matching now guestTime)) :=
  inferInstanceAs (Decidable (∀ t ∈ s.tmList v, (s.pt t).pendingIntrNr + missedTicks now (s.pt t) < 2 ^ 32))

-- A timer of 10 ms for vcpu 0.
def every10ms : Request := ⟨0,10000000,10000000,0,false,0,0,false⟩

-- A tick comes in and its interrupt is masked, then it is unmasked and
-- delivered when two more ticks are due.
def maskedTick : List Event :=
  [.create pit every10ms,.reschedule 0 fun _ => 0,.expire pit,.mask fun t => decide (t = pit),.updateIrq 0,.unmask (fun _ => false) true none,
    .updateIrq 0,.intrPost 0 (fun _ => true) 35000000 0,.deschedule 0 false]

theorem maskedTick_fits : Run.Guarded (fun s event => Legal s event ∧ Steady s event) (step .noDelayForMissedTicks) start maskedTick := by
  refine ⟨⟨trivial,trivial⟩,fun _ taken => ?_⟩
  cases taken
  refine ⟨⟨by decide +kernel,trivial⟩,fun _ taken => ?_⟩
  cases taken
  refine ⟨⟨by decide +kernel,trivial⟩,fun _ taken => ?_⟩
  cases taken
  refine ⟨⟨fun _ _ => rfl,trivial⟩,fun _ taken => ?_⟩
  cases taken
  refine ⟨⟨trivial,trivial⟩,fun _ taken => ?_⟩
  cases taken
  refine ⟨⟨fun t _ => ?_,trivial⟩,fun _ taken => ?_⟩
  · by_cases is : t = pit
    · rw [is]
      exact .inr (.inl ⟨rfl,by decide⟩)
    · exact .inl (decide_eq_false is)
  cases taken
  refine ⟨⟨trivial,trivial⟩,fun _ taken => ?_⟩
  cases taken
  refine ⟨⟨by decide +kernel,trivial⟩,fun _ taken => ?_⟩
  cases taken
  exact ⟨⟨trivial,trivial⟩,fun _ _ => trivial⟩

theorem ticks_kept_and_armed_masked :
    Run.Guarded (fun s event => Legal s event ∧ Steady s event) (step .noDelayForMissedTicks) start maskedTick ∧
      ∃ s, Run.run (step .noDelayForMissedTicks) start maskedTick = some s ∧ Ticking .noDelayForMissedTicks s :=
  ⟨maskedTick_fits,ticks_kept_and_armed maskedTick_fits⟩

-- The interrupts of the PIC go to vcpu 1, which is running, while vcpu 0 is off its cpu.
def newTarget : List Event :=
  [.create pit every10ms,.reschedule 0 fun _ => 0,.reschedule 1 fun _ => 0,.deschedule 0 false,.lint0 (fun _ => false) 1]

theorem retargeted_timer_stalls : Run.Guarded Legal (step .delayForMissedTicks) start newTarget ∧
    ∃ s, Run.run (step .delayForMissedTicks) start newTarget = some s ∧ ¬Ticking .delayForMissedTicks s := by
  refine ⟨⟨trivial,fun _ taken => ?_⟩,_,rfl,fun ticking => ?_⟩
  · cases taken
    refine ⟨by decide +kernel,fun _ taken => ?_⟩
    cases taken
    refine ⟨by decide +kernel,fun _ taken => ?_⟩
    cases taken
    refine ⟨trivial,fun _ taken => ?_⟩
    cases taken
    exact ⟨fun _ _ => .inl rfl,fun _ _ => trivial⟩
  · have armed := ticking.armed pit 1 (by decide +kernel) (by decide +kernel) (by decide +kernel)
    revert armed
    decide +kernel

end XenAet.PlatformTickRuns
