import Mathlib.Algebra.Group.Nat.Defs
import XenAet.Arinc653

namespace XenAet.Arinc653Frames
open XenAet.Arinc653 Library Library.Slots

variable {p : Priv} {at_ : Position} {now : Int} {vcpus : Vcpus} {tasklet : Bool} {s : State}

theorem stime_small {x : Int} (low : -2 ^ 63 ≤ x) (high : x < 2 ^ 63) : stime x = x := by
  unfold stime
  omega

theorem stime_top (x : Int) : stime x < 2 ^ 63 := by
  unfold stime
  omega

-- The schedules that are put in place.
structure Sound (p : Priv) : Prop where
  entries : p.numScheduleEntries ≤ arinc653MaxDomainsPerSchedule
  positive : ∀ i, i < p.numScheduleEntries → 0 < p.runtime i
  fits : before p.runtime p.numScheduleEntries ≤ p.majorFrame

-- The position, as of a call at `latest`, in the frame entered at `frame`.
structure Placed (p : Priv) (at_ : Position) (frame latest : Int) : Prop where
  some_ : 1 ≤ p.numScheduleEntries
  first : 0 ≤ frame
  entered : frame ≤ latest
  top : p.nextMajorFrame = frame + p.majorFrame
  inside : at_.schedIndex ≤ p.numScheduleEntries
  low : before p.runtime at_.schedIndex ≤ latest - frame
  switch : at_.schedIndex < p.numScheduleEntries → at_.nextSwitchTime = frame + before p.runtime (at_.schedIndex + 1)

-- The loop stops at the entry of the time, for it adds one run time after the
-- other to where the frame was entered.
theorem catchUp_placed {frame : Int} {turns index : Nat} {switch : Int} (sound : Sound p) (first : 0 ≤ frame)
    (top : frame + before p.runtime p.numScheduleEntries < 2 ^ 63)
    (reads : p.numScheduleEntries = arinc653MaxDomainsPerSchedule → now - frame < before p.runtime p.numScheduleEntries)
    (count : turns = p.numScheduleEntries - index) (inside : index ≤ p.numScheduleEntries) (low : before p.runtime index ≤ now - frame)
    (next : index < p.numScheduleEntries → switch = frame + before p.runtime (index + 1)) :
    ∃ index' switch', catchUp p now turns index switch = some (index',switch') ∧ index' ≤ p.numScheduleEntries ∧
      before p.runtime index' ≤ now - frame ∧
      (index' < p.numScheduleEntries → switch' = frame + before p.runtime (index' + 1) ∧ now < switch') := by
  induction turns generalizing index switch with
  | zero => exact ⟨index,switch,rfl,inside,low,fun more => by omega⟩
  | succ turns ih =>
    rw [catchUp]
    by_cases past : switch ≤ now ∧ index < p.numScheduleEntries
    · have is := next past.2
      have low' : before p.runtime (index + 1) ≤ now - frame := by omega
      have near : index + 1 < arinc653MaxDomainsPerSchedule := by
        by_contra far
        have bound := sound.entries
        have last : index + 1 = p.numScheduleEntries := by omega
        have full : p.numScheduleEntries = arinc653MaxDomainsPerSchedule := by omega
        have early := reads full
        rw [← last] at early
        omega
      have next' : index + 1 < p.numScheduleEntries →
          stime (switch + p.runtime (index + 1)) = frame + before p.runtime (index + 1 + 1) := by
        intro more
        have all := before_mono sound.positive (Nat.succ_le_of_lt more) (Nat.le_refl _)
        have nonneg := before_nonneg sound.positive (Nat.succ_le_of_lt more)
        have step : before p.runtime (index + 1 + 1) = before p.runtime (index + 1) + p.runtime (index + 1) := rfl
        rw [Nat.succ_eq_add_one] at all nonneg
        rw [is,stime_small (by omega) (by omega)]
        omega
      rw [if_pos past,if_pos near]
      exact ih (by omega) past.2 low' next'
    · rw [if_neg past]
      refine ⟨index,switch,rfl,inside,low,fun more => ⟨next more,?_⟩⟩
      by_contra late
      exact past ⟨Int.not_lt.mp late,more⟩

theorem catchUp_top {turns index index' : Nat} {switch switch' : Int} (top : switch < 2 ^ 63)
    (ran : catchUp p now turns index switch = some (index',switch')) : switch' < 2 ^ 63 := by
  induction turns generalizing index switch with
  | zero =>
    cases ran
    exact top
  | succ turns ih =>
    rw [catchUp] at ran
    split at ran
    · split at ran
      · exact ih (stime_top _) ran
      · cases ran
    · cases ran
      exact top

-- Without a frame it still stops.
theorem catchUp_stops (now : Int) {turns index : Nat} {switch : Int} (small : p.numScheduleEntries < arinc653MaxDomainsPerSchedule)
    (count : turns = p.numScheduleEntries - index) :
    ∃ index' switch', catchUp p now turns index switch = some (index',switch') ∧ (index' < p.numScheduleEntries → now < switch') := by
  induction turns generalizing index switch with
  | zero => exact ⟨index,switch,rfl,fun more => by omega⟩
  | succ turns ih =>
    rw [catchUp]
    by_cases past : switch ≤ now ∧ index < p.numScheduleEntries
    · have near : index + 1 < arinc653MaxDomainsPerSchedule := by omega
      rw [if_pos past,if_pos near]
      exact ih (by omega)
    · rw [if_neg past]
      refine ⟨index,switch,rfl,fun more => ?_⟩
      by_contra late
      exact past ⟨Int.not_lt.mp late,more⟩

-- No `BUG_ON` once the next switch and the next frame are to come.
theorem slice_some (nonneg : 0 ≤ now) (frame : now < p.nextMajorFrame) (switch : now < at_.nextSwitchTime) (top : at_.nextSwitchTime < 2 ^ 63) :
    slice p at_ now vcpus tasklet = some ⟨newTask p at_.schedIndex vcpus tasklet,at_.nextSwitchTime - now⟩ := by
  have time : stime (at_.nextSwitchTime - now) = at_.nextSwitchTime - now := stime_small (by omega) (by omega)
  unfold slice
  dsimp only
  rw [time,if_neg (Int.not_le.mpr frame),if_neg (by omega)]

theorem newTask_entry {index vc : Nat} (taken_ : newTask p index vcpus tasklet = some vc) :
    index < p.numScheduleEntries ∧ (p.schedule index).vc = some vc := by
  unfold newTask at taken_
  dsimp only at taken_
  split at taken_
  · cases taken_
  · have chosen := (Option.filter_eq_some_iff.mp taken_).1
    split at chosen
    · next inside => exact ⟨inside,chosen⟩
    · cases chosen

-- What a call leaves and answers.
structure Called (now : Int) (frame : Option Int) (done : Priv × Position × TaskSlice) : Prop where
  sound : Sound done.1
  frameTop : done.1.nextMajorFrame < 2 ^ 63
  switchTop : done.2.1.nextSwitchTime < 2 ^ 63
  placed : ∀ entered, frame = some entered → Placed done.1 done.2.1 entered now
  right : (Record.chosen done.1 frame now done.2.1.schedIndex done.2.2).Right

-- A position without a frame: the slice ends at the next switch.
theorem slice_called (vcpus : Vcpus) (tasklet : Bool) (sound : Sound p) (nonneg : 0 ≤ now) (below : now < p.nextMajorFrame) (frameTop : p.nextMajorFrame < 2 ^ 63)
    (switchTop : at_.nextSwitchTime < 2 ^ 63) (ahead : at_.schedIndex < p.numScheduleEntries → now < at_.nextSwitchTime) :
    ∃ ret, slice p (switchNext p at_) now vcpus tasklet = some ret ∧ ret.time = (switchNext p at_).nextSwitchTime - now ∧
      Called now none (p,switchNext p at_,ret) := by
  have both : now < (switchNext p at_).nextSwitchTime ∧ (switchNext p at_).nextSwitchTime < 2 ^ 63 := by
    unfold switchNext
    split
    · exact ⟨below,frameTop⟩
    · next more => exact ⟨ahead (Nat.not_le.mp more),switchTop⟩
  refine ⟨_,slice_some nonneg below both.1 both.2,rfl,⟨sound,frameTop,both.2,fun _ none_ => (by cases none_),?_,?_,fun _ none_ => (by cases none_)⟩⟩
  · exact Int.sub_pos.mpr both.1
  · exact fun vc => newTask_entry

theorem switchNext_index (p : Priv) (at_ : Position) : (switchNext p at_).schedIndex = at_.schedIndex := by
  unfold switchNext
  split <;> rfl

theorem Placed.switchNext {frame : Int} (placed : Placed p at_ frame now) : Placed p (switchNext p at_) frame now := by
  have index := switchNext_index p at_
  refine ⟨placed.some_,placed.first,placed.entered,placed.top,index ▸ placed.inside,index ▸ placed.low,fun more => ?_⟩
  rw [index] at more ⊢
  have same : Arinc653.switchNext p at_ = at_ := if_neg (Nat.not_le.mpr more)
  rw [same]
  exact placed.switch more

-- In a frame the next switch is at the end of the entry, or of the frame.
theorem Placed.inFrame {frame : Int} (sound : Sound p) (placed : Placed p at_ frame now)
    (ahead : at_.schedIndex < p.numScheduleEntries → now < at_.nextSwitchTime) :
    InFrame p frame now at_.schedIndex ((Arinc653.switchNext p at_).nextSwitchTime - now) := by
  have slot : at_.schedIndex < p.numScheduleEntries → now - frame < before p.runtime (at_.schedIndex + 1) := by
    intro more
    have later := ahead more
    rw [placed.switch more] at later
    omega
  have ends : at_.schedIndex < p.numScheduleEntries →
      (Arinc653.switchNext p at_).nextSwitchTime = frame + before p.runtime (at_.schedIndex + 1) := by
    intro more
    have same : Arinc653.switchNext p at_ = at_ := if_neg (Nat.not_le.mpr more)
    rw [same]
    exact placed.switch more
  refine ⟨placed.inside,fun i below => ?_,fun more => ?_,?_⟩
  · exact slot_iff sound.positive placed.inside placed.low slot below
  · have last := ends more
    omega
  · cases Nat.lt_or_ge at_.schedIndex p.numScheduleEntries with
    | inl more =>
      have last := ends more
      have all := before_mono sound.positive (Nat.succ_le_of_lt more) (Nat.le_refl _)
      have fits := sound.fits
      rw [Nat.succ_eq_add_one] at all
      omega
    | inr done =>
      have idle : (Arinc653.switchNext p at_).nextSwitchTime = p.nextMajorFrame := by
        rw [Arinc653.switchNext,if_pos done]
      have top := placed.top
      omega

theorem placed_called {frame : Int} (vcpus : Vcpus) (tasklet : Bool) (sound : Sound p) (placed : Placed p at_ frame now) (below : now < p.nextMajorFrame)
    (frameTop : p.nextMajorFrame < 2 ^ 63) (switchTop : at_.nextSwitchTime < 2 ^ 63)
    (ahead : at_.schedIndex < p.numScheduleEntries → now < at_.nextSwitchTime) :
    ∃ ret, slice p (switchNext p at_) now vcpus tasklet = some ret ∧ Called now (some frame) (p,switchNext p at_,ret) := by
  have nonneg : 0 ≤ now := Int.le_trans placed.first placed.entered
  obtain ⟨ret,taken,time,called⟩ := slice_called vcpus tasklet sound nonneg below frameTop switchTop ahead
  refine ⟨ret,taken,⟨sound,frameTop,called.switchTop,fun entered same => ?_,called.right.1,called.right.2.1,fun entered same => ?_⟩⟩
  · cases same
    exact placed.switchNext
  · cases same
    have index := switchNext_index p at_
    dsimp only
    rw [index,time]
    exact placed.inFrame sound ahead

structure Inv (s : State) : Prop where
  sound : Sound s.priv
  frameTop : s.priv.nextMajorFrame < 2 ^ 63
  switchTop : s.at_.nextSwitchTime < 2 ^ 63
  latest : 0 ≤ s.latest
  placed : ∀ entered, s.frame = some entered → Placed s.priv s.at_ entered s.latest
  log : ∀ record ∈ s.log, record.Right

-- The sum of an offered schedule and its major frame fit their types, and so
-- does the end of a frame that is entered. With all entries in use no call
-- comes after the last of them, nor for the old schedule.
def Fits (s : State) : Event → Prop
  | .set offer now => offer.majorFrame.toNat < 2 ^ 63 ∧ exactSum offer < 2 ^ 64 ∧ now < 2 ^ 63
  | .doSchedule now _ _ _ =>
    s.latest ≤ now ∧ (s.priv.numScheduleEntries < 1 → now + defaultTimeslice < 2 ^ 63) ∧
      (s.priv.nextMajorFrame ≤ now → now + s.priv.majorFrame < 2 ^ 63) ∧
      (s.priv.numScheduleEntries = arinc653MaxDomainsPerSchedule → s.priv.nextMajorFrame ≤ now ∨
        ∃ entered ∈ s.frame, now - entered < before s.priv.runtime s.priv.numScheduleEntries)
  | .allocVdata _ dom0 _ => dom0 = true → s.priv.majorFrame + defaultTimeslice < 2 ^ 63
  | _ => True

instance (s : State) : (event : Event) → Decidable (Fits s event)
  | .set offer now => inferInstanceAs (Decidable (offer.majorFrame.toNat < 2 ^ 63 ∧ exactSum offer < 2 ^ 64 ∧ now < 2 ^ 63))
  | .doSchedule now _ _ _ => inferInstanceAs (Decidable (s.latest ≤ now ∧
      (s.priv.numScheduleEntries < 1 → now + defaultTimeslice < 2 ^ 63) ∧
      (s.priv.nextMajorFrame ≤ now → now + s.priv.majorFrame < 2 ^ 63) ∧
      (s.priv.numScheduleEntries = arinc653MaxDomainsPerSchedule → s.priv.nextMajorFrame ≤ now ∨
        ∃ entered ∈ s.frame, now - entered < before s.priv.runtime s.priv.numScheduleEntries)))
  | .allocVdata _ dom0 _ => inferInstanceAs (Decidable (dom0 = true → s.priv.majorFrame + defaultTimeslice < 2 ^ 63))
  | .freeVdata _ => .isTrue trivial
  | .wake _ => .isTrue trivial
  | .sleep _ => .isTrue trivial

theorem enter_called (vcpus : Vcpus) (tasklet : Bool) (sound : Sound p) (some_ : 1 ≤ p.numScheduleEntries) (nonneg : 0 ≤ now)
    (room : now + p.majorFrame < 2 ^ 63) :
    ∃ ret, slice (enterFrame p now).1 (switchNext (enterFrame p now).1 (enterFrame p now).2) now vcpus tasklet = some ret ∧
      Called now (some now) ((enterFrame p now).1,switchNext (enterFrame p now).1 (enterFrame p now).2,ret) := by
  have fits := sound.fits
  have runs := sound.positive 0 some_
  have one : before p.runtime (0 + 1) = p.runtime 0 := Int.zero_add _
  have all := before_mono sound.positive some_ (Nat.le_refl _)
  have nextFrame : stime (now + p.majorFrame) = now + p.majorFrame := by
    rw [Nat.zero_add] at one
    exact stime_small (by omega) room
  have next : stime (now + p.runtime 0) = now + p.runtime 0 := by
    rw [Nat.zero_add] at one
    exact stime_small (by omega) (by omega)
  have frame : (enterFrame p now).1.nextMajorFrame = now + p.majorFrame := nextFrame
  have switch : (enterFrame p now).2.nextSwitchTime = now + p.runtime 0 := next
  have placed : Placed (enterFrame p now).1 (enterFrame p now).2 now now := by
    refine ⟨some_,nonneg,Int.le_refl _,frame,Nat.zero_le _,Int.le_of_eq (Int.sub_self now).symm,fun _ => ?_⟩
    rw [switch]
    exact congrArg (now + ·) one.symm
  rw [Nat.zero_add] at one
  exact placed_called vcpus tasklet ⟨sound.entries,sound.positive,sound.fits⟩ placed (by omega) (by omega) (by omega) fun _ => by omega

theorem doSchedule_called (vcpus : Vcpus) (tasklet : Bool) (inv : Inv s) (runnable local_ : Nat → Bool)
    (fits : Fits s (.doSchedule now runnable local_ tasklet)) :
    ∃ done, doSchedule s.priv s.at_ now vcpus tasklet = some done ∧ Called now (frameAt s.priv s.frame now) done := by
  obtain ⟨order,slack,room,reads⟩ := fits
  have nonneg : 0 ≤ now := Int.le_trans inv.latest order
  have sound := inv.sound
  unfold doSchedule advance frameAt
  by_cases none_ : s.priv.numScheduleEntries < 1
  · rw [if_pos none_,if_pos none_,Option.bind_some]
    have slack := slack none_
    have later : stime (now + defaultTimeslice) = now + defaultTimeslice := stime_small (by unfold defaultTimeslice; omega) slack
    have sound' : Sound {s.priv with nextMajorFrame := stime (now + defaultTimeslice)} := ⟨sound.entries,sound.positive,sound.fits⟩
    obtain ⟨ret,taken,_,called⟩ := slice_called vcpus tasklet sound' nonneg (by unfold defaultTimeslice at later ⊢; dsimp only; omega)
      (by dsimp only; omega) inv.switchTop fun more => by dsimp only at more; omega
    dsimp only
    rw [taken]
    exact ⟨_,rfl,called⟩
  · rw [if_neg none_,if_neg none_]
    have some_ : 1 ≤ s.priv.numScheduleEntries := Nat.not_lt.mp none_
    by_cases enter : s.priv.nextMajorFrame ≤ now
    · rw [if_pos enter,if_pos enter,Option.bind_some]
      obtain ⟨ret,taken,called⟩ := enter_called vcpus tasklet sound some_ nonneg (room enter)
      dsimp only
      rw [taken]
      exact ⟨_,rfl,called⟩
    · rw [if_neg enter,if_neg enter]
      have below := Int.not_le.mp enter
      cases inFrame : s.frame with
      | none =>
        have small : s.priv.numScheduleEntries < arinc653MaxDomainsPerSchedule := by
          refine Nat.lt_of_le_of_ne sound.entries fun full => ?_
          cases reads full with
          | inl entered => exact enter entered
          | inr entered =>
            obtain ⟨frame,is,_⟩ := entered
            rw [inFrame] at is
            exact absurd is (Option.not_mem_none frame)
        obtain ⟨index,switch,loop,ahead⟩ := catchUp_stops now small rfl
        have top : (⟨index,switch⟩ : Position).nextSwitchTime < 2 ^ 63 := catchUp_top inv.switchTop loop
        obtain ⟨ret,taken,_,called⟩ := slice_called vcpus tasklet sound nonneg below inv.frameTop top ahead
        rw [loop]
        dsimp only [Option.map_some,Option.bind_some]
        rw [taken]
        exact ⟨_,rfl,called⟩
      | some frame =>
        have placed := inv.placed frame inFrame
        have nextFrame := placed.top
        have top := inv.frameTop
        have fits := sound.fits
        have low := placed.low
        have reads : s.priv.numScheduleEntries = arinc653MaxDomainsPerSchedule →
            now - frame < before s.priv.runtime s.priv.numScheduleEntries := by
          intro full
          cases reads full with
          | inl entered => exact absurd entered enter
          | inr entered =>
            obtain ⟨entered,is,early⟩ := entered
            rw [inFrame,Option.mem_some_iff] at is
            rw [is]
            exact early
        obtain ⟨index,switch,loop,inside,low,next⟩ :=
          catchUp_placed sound placed.first (by omega) reads rfl placed.inside (by omega) placed.switch
        have switchTop : (⟨index,switch⟩ : Position).nextSwitchTime < 2 ^ 63 := catchUp_top inv.switchTop loop
        have placed' : Placed s.priv ⟨index,switch⟩ frame now :=
          ⟨some_,placed.first,Int.le_trans placed.entered order,placed.top,inside,low,fun more => (next more).1⟩
        obtain ⟨ret,taken,called⟩ := placed_called vcpus tasklet sound placed' below top switchTop fun more => (next more).2
        rw [loop]
        dsimp only [Option.map_some,Option.bind_some]
        rw [taken]
        exact ⟨_,rfl,called⟩

-- The total is the sum of the run times, cut to 64 bits.
theorem totalRuntime_some {offer : Offer} {k i : Nat} {total result : Int} (ran : totalRuntime offer (List.range' i k) total = some result) :
    (∀ j, i ≤ j → j < i + k → 0 < (offer.schedEntries j).runtime.toNat) ∧
      result % 2 ^ 64 = (total + before (fun j => (offer.schedEntries j).runtime.toNat) (i + k) -
        before (fun j => (offer.schedEntries j).runtime.toNat) i) % 2 ^ 64 := by
  induction k generalizing i total with
  | zero =>
    cases ran
    rw [Nat.add_zero]
    exact ⟨fun j low high => by omega,by omega⟩
  | succ k ih =>
    rw [List.range'_succ,totalRuntime] at ran
    split at ran
    · cases ran
    · next valid =>
      rw [not_or] at valid
      obtain ⟨positive,sum⟩ := ih ran
      have next : before (fun j => ((offer.schedEntries j).runtime.toNat : Int)) (i + 1) =
        before (fun j => ((offer.schedEntries j).runtime.toNat : Int)) i + (offer.schedEntries i).runtime.toNat := rfl
      rw [Nat.add_right_comm] at sum positive
      refine ⟨fun j low high => ?_,?_⟩
      · cases Nat.eq_or_lt_of_le low with
        | inl same =>
          rw [← same]
          exact Nat.pos_of_ne_zero valid.2
        | inr later => exact positive j later high
      · unfold stime at sum
        rw [sum,next,← Nat.add_assoc]
        omega

theorem schedSet_cases (p : Priv) (offer : Offer) (now : Int) :
    arinc653SchedSet p offer now = (einval,p) ∨
      (arinc653SchedSet p offer now = (0,install p offer now) ∧ offer.numSchedEntries.toNat ≤ arinc653MaxDomainsPerSchedule ∧
        (∀ i, i < offer.numSchedEntries.toNat → 0 < (offer.schedEntries i).runtime.toNat) ∧
        exactSum offer % 2 ^ 64 ≤ offer.majorFrame.toNat) := by
  unfold arinc653SchedSet
  split
  · exact .inl rfl
  · next valid =>
    cases checked : totalRuntime offer (List.range offer.numSchedEntries.toNat) 0 with
    | none => exact .inl rfl
    | some total =>
      dsimp only
      split
      · exact .inl rfl
      · next enough =>
        rw [List.range_eq_range'] at checked
        obtain ⟨positive,sum⟩ := totalRuntime_some checked
        rw [Nat.zero_add] at positive sum
        refine .inr ⟨rfl,by omega,fun i below => positive i (Nat.zero_le i) below,?_⟩
        have exact_ : total % 2 ^ 64 = exactSum offer % 2 ^ 64 := by
          rw [sum,exactSum,before,Int.zero_add,Int.sub_zero]
        omega

theorem update_runtime (p : Priv) (i : Nat) : (updateScheduleVcpus p).runtime i = p.runtime i := by
  unfold updateScheduleVcpus Priv.runtime
  dsimp only
  split <;> rfl

-- The vcpus of the entries do not matter to the times.
structure Same (p p' : Priv) : Prop where
  entries : p'.numScheduleEntries = p.numScheduleEntries
  runtime : p'.runtime = p.runtime
  majorFrame : p'.majorFrame = p.majorFrame
  nextMajorFrame : p'.nextMajorFrame = p.nextMajorFrame

theorem Sound.same {p' : Priv} (sound : Sound p) (same : Same p p') : Sound p' := by
  obtain ⟨entries,positive,fits⟩ := sound
  obtain ⟨num,runtime,major,_⟩ := same
  rw [← num] at entries positive fits
  rw [← runtime] at positive fits
  rw [← major] at fits
  exact ⟨entries,positive,fits⟩

theorem Placed.same {p' : Priv} {frame : Int} (placed : Placed p at_ frame now) (same : Same p p') : Placed p' at_ frame now := by
  obtain ⟨some_,first,entered,top,inside,low,switch⟩ := placed
  obtain ⟨num,runtime,major,next⟩ := same
  rw [← num] at some_ inside switch
  rw [← runtime] at low switch
  rw [← next,← major] at top
  exact ⟨some_,first,entered,top,inside,low,switch⟩

theorem update_same (p : Priv) : Same p (updateScheduleVcpus p) := ⟨rfl,funext (update_runtime p),rfl,rfl⟩

theorem install_sound {offer : Offer} (p : Priv) (now : Int) (entries : offer.numSchedEntries.toNat ≤ arinc653MaxDomainsPerSchedule)
    (positive : ∀ i, i < offer.numSchedEntries.toNat → 0 < (offer.schedEntries i).runtime.toNat)
    (fits : exactSum offer ≤ offer.majorFrame.toNat) (frame : offer.majorFrame.toNat < 2 ^ 63) : Sound (install p offer now) := by
  have positive' : ∀ i, i < offer.numSchedEntries.toNat → (0 : Int) < (offer.schedEntries i).runtime.toNat :=
    fun i below => Int.natCast_pos.mpr (positive i below)
  have runtime : ∀ i, i < offer.numSchedEntries.toNat → (install p offer now).runtime i = (offer.schedEntries i).runtime.toNat := by
    intro i below
    have all := before_mono positive' (Nat.succ_le_of_lt below) (Nat.le_refl _)
    have nonneg := before_nonneg positive' (Nat.le_of_lt below)
    have next : before (fun j => ((offer.schedEntries j).runtime.toNat : Int)) (i + 1) =
      before (fun j => ((offer.schedEntries j).runtime.toNat : Int)) i + (offer.schedEntries i).runtime.toNat := rfl
    have short : ((offer.schedEntries i).runtime.toNat : Int) < 2 ^ 63 := by
      rw [Nat.succ_eq_add_one] at all
      unfold exactSum at fits
      omega
    have stored : (install p offer now).runtime i = stime (offer.schedEntries i).runtime.toNat := by
      refine (update_runtime _ i).trans ?_
      unfold Priv.runtime
      dsimp only
      rw [if_pos below]
    rw [stored]
    exact stime_small (by omega) short
  have major : (install p offer now).majorFrame = offer.majorFrame.toNat := stime_small (by omega) (by omega)
  refine ⟨entries,fun i below => ?_,?_⟩
  · rw [runtime i below]
    exact positive' i below
  · rw [major]
    have sum : before (install p offer now).runtime offer.numSchedEntries.toNat = exactSum offer := before_congr runtime
    exact sum ▸ fits

theorem join_sound (a : Avcpu) (sound : Sound p) (room : p.majorFrame + defaultTimeslice < 2 ^ 63) : Sound (joinSchedule p a) := by
  unfold joinSchedule
  dsimp only
  split
  · next below =>
    have nonneg := before_nonneg sound.positive (Nat.le_refl _)
    have fits := sound.fits
    have slice : (0 : Int) < defaultTimeslice := by decide
    have major : stime (p.majorFrame + defaultTimeslice) = p.majorFrame + defaultTimeslice := stime_small (by omega) room
    have old : ∀ i, i < p.numScheduleEntries → (Function.update p.schedule p.numScheduleEntries
        ⟨(p.schedule p.numScheduleEntries).domHandle.set 0 0,a.vcpuId,defaultTimeslice,some a.vc⟩ i).runtime = p.runtime i := by
      intro i earlier
      rw [Function.update_of_ne (Nat.ne_of_lt earlier)]
      rfl
    have new : (Function.update p.schedule p.numScheduleEntries
        ⟨(p.schedule p.numScheduleEntries).domHandle.set 0 0,a.vcpuId,defaultTimeslice,some a.vc⟩ p.numScheduleEntries).runtime =
        defaultTimeslice := by
      rw [Function.update_self]
    refine ⟨below,fun i earlier => ?_,?_⟩
    · unfold Priv.runtime
      dsimp only
      cases Nat.eq_or_lt_of_le (Nat.le_of_lt_succ earlier) with
      | inl last =>
        rw [last,new]
        exact slice
      | inr earlier =>
        rw [old i earlier]
        exact sound.positive i earlier
    · unfold Priv.runtime
      dsimp only
      rw [before,new,before_congr old,major]
      exact Int.add_le_add_right fits _
  · exact sound

theorem alloc_same (p : Priv) (a : Avcpu) (idle : Bool) : Same p (allocVdata p a false idle) := by
  unfold allocVdata
  cases idle with
  | false => exact ⟨rfl,funext (update_runtime {p with vcpuList := a :: p.vcpuList}),rfl,rfl⟩
  | true => exact update_same p

theorem alloc_join (p : Priv) (a : Avcpu) (idle : Bool) : Same (joinSchedule p a) (allocVdata p a true idle) :=
  alloc_same (joinSchedule p a) a idle

theorem join_next (p : Priv) (a : Avcpu) : (joinSchedule p a).nextMajorFrame = p.nextMajorFrame := by
  unfold joinSchedule
  dsimp only
  split <;> rfl

theorem free_same (p : Priv) (vc : Nat) : Same p (freeVdata p vc) :=
  ⟨rfl,funext (update_runtime {p with vcpuList := p.vcpuList.filter fun a => decide (a.vc ≠ vc)}),rfl,rfl⟩

-- The vcpus may come and go without a trace in the times.
theorem Inv.same {p' : Priv} {awake : Nat → Bool} (inv : Inv s) (same : Same s.priv p') : Inv {s with priv := p',awake := awake} := by
  refine ⟨inv.sound.same same,?_,inv.switchTop,inv.latest,fun entered frame => ?_,inv.log⟩
  · dsimp only
    rw [same.nextMajorFrame]
    exact inv.frameTop
  · exact (inv.placed entered frame).same same

theorem set_kept {offer : Offer} (inv : Inv s) (fits : Fits s (.set offer now)) : ∃ next, step s (.set offer now) = some next ∧ Inv next := by
  obtain ⟨frame,sum,top⟩ := fits
  rw [step]
  cases schedSet_cases s.priv offer now with
  | inl refused =>
    rw [refused]
    have right : (Record.set offer einval).Right := fun accepted => absurd accepted (by decide)
    refine ⟨_,rfl,⟨inv.sound,inv.frameTop,inv.switchTop,inv.latest,inv.placed,?_⟩⟩
    exact List.forall_mem_cons.mpr ⟨right,inv.log⟩
  | inr accepted =>
    obtain ⟨taken,entries,positive,enough⟩ := accepted
    have nonneg : 0 ≤ exactSum offer := by
      have positive' : ∀ i, i < offer.numSchedEntries.toNat → (0 : Int) < (offer.schedEntries i).runtime.toNat :=
        fun i below => Int.natCast_pos.mpr (positive i below)
      exact before_nonneg positive' (Nat.le_refl _)
    have fits : exactSum offer ≤ offer.majorFrame.toNat := by
      rw [Int.emod_eq_of_lt nonneg sum] at enough
      exact enough
    rw [taken]
    refine ⟨_,rfl,⟨install_sound s.priv now entries positive fits frame,top,inv.switchTop,inv.latest,fun entered none_ => ?_,?_⟩⟩
    · cases none_
    · exact List.forall_mem_cons.mpr ⟨fun _ => fits,inv.log⟩

theorem doSchedule_kept {runnable local_ : Nat → Bool} (inv : Inv s) (fits : Fits s (.doSchedule now runnable local_ tasklet)) :
    ∃ next, step s (.doSchedule now runnable local_ tasklet) = some next ∧ Inv next := by
  have order := fits.1
  obtain ⟨done,ran,called⟩ := doSchedule_called ⟨s.awake,runnable,local_⟩ tasklet inv runnable local_ fits
  rw [step,ran]
  refine ⟨_,rfl,⟨called.sound,called.frameTop,called.switchTop,Int.le_trans inv.latest order,called.placed,?_⟩⟩
  exact List.forall_mem_cons.mpr ⟨called.right,inv.log⟩

theorem alloc_kept {a : Avcpu} {dom0 idle : Bool} (inv : Inv s) (fits : Fits s (.allocVdata a dom0 idle)) :
    ∃ next, step s (.allocVdata a dom0 idle) = some next ∧ Inv next := by
  refine ⟨_,rfl,?_⟩
  cases dom0 with
  | false => exact inv.same (alloc_same s.priv a idle)
  | true =>
    have same := alloc_join s.priv a idle
    refine ⟨(join_sound a inv.sound (fits rfl)).same same,?_,inv.switchTop,inv.latest,fun entered none_ => ?_,inv.log⟩
    · dsimp only
      rw [same.nextMajorFrame,join_next]
      exact inv.frameTop
    · cases none_

theorem step_kept {event : Event} (inv : Inv s) (fits : Fits s event) : ∃ next, step s event = some next ∧ Inv next := by
  have unchanged : Same s.priv s.priv := ⟨rfl,rfl,rfl,rfl⟩
  cases event with
  | set offer now => exact set_kept inv fits
  | doSchedule now runnable local_ tasklet => exact doSchedule_kept inv fits
  | allocVdata a dom0 idle => exact alloc_kept inv fits
  | freeVdata vc => exact ⟨_,rfl,inv.same (free_same s.priv vc)⟩
  | wake vc => exact ⟨_,rfl,inv.same unchanged⟩
  | sleep vc => exact ⟨_,rfl,inv.same unchanged⟩

theorem start_inv : Inv start := by
  have none_ : ∀ i, ¬i < start.priv.numScheduleEntries := fun i => Nat.not_lt_zero i
  refine ⟨⟨Nat.zero_le _,fun i below => absurd below (none_ i),Int.le_refl 0⟩,?_,?_,Int.le_refl 0,fun _ frame => ?_,fun _ listed => ?_⟩
  · exact (by decide : (0 : Int) < 2 ^ 63)
  · exact (by decide : (0 : Int) < 2 ^ 63)
  · cases frame
  · cases listed

-- Every accepted schedule fits its frame, and every call picks the entry of
-- its time and returns before the entry ends.
theorem time_partitioned (events : List Event) (fits : Run.Guarded Fits step start events) :
    ∃ s, Run.run step start events = some s ∧ ∀ record ∈ s.log, record.Right := by
  obtain ⟨s,ran,inv⟩ := Run.guarded_total (P:=Inv) (fun _ _ => step_kept) start_inv fits
  exact ⟨s,ran,inv.log⟩

def entry (vcpuId : Nat) (runtime : UInt64) : OfferEntry := ⟨[1],vcpuId,runtime⟩

def twoEntries : Offer := ⟨10,2,fun i => entry i (if i = 0 then 3 else 4)⟩

-- Entered at 5: the first entry, the second, the idle time, and a new frame.
def callsAt (times : List Int) : List Event := times.map fun now => .doSchedule now (fun _ => true) (fun _ => true) false

theorem time_partitioned_twoEntries :
    ∃ s, Run.run step start (.set twoEntries 2 :: callsAt [5,8,12,17]) = some s ∧ ∀ record ∈ s.log, record.Right := by
  exact time_partitioned _ (by decide +kernel)

-- The run times of two entries may wrap around to nothing. A full schedule is
-- read past its end in the idle time, and a frame that is too long is over
-- when it is entered.
def wrapping : Offer := ⟨1,2,fun i => entry i 9223372036854775808⟩

def fullSchedule : Offer := ⟨100,64,fun i => entry i 1⟩

def longFrame : Offer := ⟨9223372036854775808,1,fun i => entry i 1⟩

theorem partitioning_broken :
    (∃ s, Run.run step start [.set wrapping 0] = some s ∧ ∃ record ∈ s.log, ¬record.Right) ∧
      Run.run step start (.set fullSchedule 0 :: callsAt [0,70]) = none ∧
      Run.run step start (.set longFrame 0 :: callsAt [0]) = none := by
  refine ⟨⟨_,rfl,Record.set wrapping 0,List.mem_cons_self,?_⟩,?_,?_⟩
  · intro right
    have sum : exactSum wrapping ≤ wrapping.majorFrame.toNat := right rfl
    exact absurd sum (by decide)
  · decide +kernel
  · decide +kernel

end XenAet.Arinc653Frames
