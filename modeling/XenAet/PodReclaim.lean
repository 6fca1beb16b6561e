import XenAet.PodAccounts

namespace XenAet.PodReclaim
open Library PodCache PodOps PodAccounts
variable {s s' : State} {gfn mfn n order : Nat} {entry : Nat → Entry} {debug : Bool} {seen : Seen}

theorem isPod_iff {e : Entry} : e.isPod = true ↔ e = .populateOnDemand := by cases e <;> simp [Entry.isPod]

theorem setEntry_inside (low : gfn ≤ g) (high : g < gfn + n) : (setEntry s gfn n entry).p2m g = entry (g - gfn) := if_pos ⟨low,high⟩

theorem setEntry_outside (out : ¬(gfn ≤ g ∧ g < gfn + n)) : (setEntry s gfn n entry).p2m g = s.p2m g := if_neg out

-- What the p2m had is put back.
theorem setEntry_back {other : Nat → Entry} (had : ∀ g, gfn ≤ g → g < gfn + n → s.p2m g = entry (g - gfn)) :
    setEntry (setEntry s gfn n other) gfn n entry = s := by
  have same : (setEntry (setEntry s gfn n other) gfn n entry).p2m = s.p2m := by
    funext g
    by_cases inside : gfn ≤ g ∧ g < gfn + n
    · rw [setEntry_inside inside.1 inside.2,had g inside.1 inside.2]
    · rw [setEntry_outside inside,setEntry_outside inside]
  change {s with p2m := (setEntry (setEntry s gfn n other) gfn n entry).p2m} = s
  rw [same]

theorem setEntry_pods (pod : podAt s g = true) : podAt (setEntry s gfn n fun _ => .populateOnDemand) g = true := by
  by_cases inside : gfn ≤ g ∧ g < gfn + n
  · rw [podAt,setEntry_inside inside.1 inside.2]
    rfl
  · rw [podAt,setEntry_outside inside]
    exact pod

theorem setEntry_entries (entries : Entries s) (gfn n : Nat) (entry : Nat → Entry) :
    Census.Counted (podAt (setEntry s gfn n entry))
      (s.entryCount + Census.among (podAt (setEntry s gfn n entry)) gfn n - Census.among (podAt s) gfn n) :=
  Census.counted_change entries gfn n fun g out => by rw [podAt,setEntry_outside out,podAt]

theorem among_other (none_ : ∀ i, (entry i).isPod = false) : Census.among (podAt (setEntry s gfn n entry)) gfn n = 0 :=
  Census.among_none fun g low high => by rw [podAt,setEntry_inside low high]; exact none_ _

theorem mapped_fewer (mapped : Mapped s) (fewer : ∀ g type m, s'.p2m g = .ram type m → s.p2m g = .ram type m)
    (owned : s'.owned = s.owned) (listed : s'.listed = s.listed) : Mapped s' := by
  refine ⟨fun g type m here => ?_,fun g h type type' m here there => ?_⟩
  · rw [owned,listed]
    exact mapped.backed g type m (fewer g type m here)
  · exact mapped.apart g h type type' m (fewer g type m here) (fewer h type' m there)

-- Frame numbers whose pages go to the cache: what is left in their place is not ram.
theorem sound_reclaimed (sound : Sound s) (debug : Bool) (sized : order = pageOrder2M ∨ order = pageOrder4K) (start : mfn % 2 ^ order = 0)
    (type : Nat → RamType) (whole : ∀ i, i < 2 ^ order → s.p2m (gfn + i) = .ram (type i) (mfn + i)) (left : Entry)
    (notRam : left.isRam = false) :
    cacheAdd debug (setEntry s gfn (2 ^ order) fun _ => left) mfn order =
        .ok (added (setEntry s gfn (2 ^ order) fun _ => left) mfn order) ∧
      Sound {added (setEntry s gfn (2 ^ order) fun _ => left) mfn order with
        entryCount := s.entryCount + if left.isPod then 2 ^ order else 0} := by
  have ready : ∀ m, mfn ≤ m → m < mfn + 2 ^ order → s.owned m = true ∧ s.listed m = true := by
    intro m low high
    obtain ⟨i,rfl⟩ := Nat.exists_eq_add_of_le low
    exact sound.mapped.backed _ _ _ (whole i (by omega))
  have fewer : ∀ g type m, (setEntry s gfn (2 ^ order) fun _ => left).p2m g = .ram type m → s.p2m g = .ram type m ∧
      ¬(gfn ≤ g ∧ g < gfn + 2 ^ order) := by
    intro g type m here
    by_cases inside : gfn ≤ g ∧ g < gfn + 2 ^ order
    · rw [setEntry_inside inside.1 inside.2] at here
      rw [here] at notRam
      cases notRam
    · rw [setEntry_outside inside] at here
      exact ⟨here,inside⟩
  have free : ∀ g type m, (setEntry s gfn (2 ^ order) fun _ => left).p2m g = .ram type m → ¬(mfn ≤ m ∧ m < mfn + 2 ^ order) := by
    intro g type m here inside
    obtain ⟨here,out⟩ := fewer g type m here
    obtain ⟨i,rfl⟩ := Nat.exists_eq_add_of_le inside.1
    have same := sound.mapped.apart _ _ _ _ _ here (whole i (by omega))
    exact out (by omega)
  have removed : Cache (setEntry s gfn (2 ^ order) fun _ => left) := sound.cache.same rfl rfl rfl rfl rfl
  have mapped : Mapped (setEntry s gfn (2 ^ order) fun _ => left) :=
    mapped_fewer sound.mapped (fun g type m here => (fewer g type m here).1) rfl rfl
  refine ⟨cacheAdd_ok sized debug ready start,?_,(removed.added sized ready start).same rfl rfl rfl rfl rfl,
    (mapped.added free).same rfl fun g type m here => (mapped.added free).backed g type m here⟩
  have gone : Census.among (podAt s) gfn (2 ^ order) = 0 := Census.among_none fun g low high => by
    obtain ⟨i,rfl⟩ := Nat.exists_eq_add_of_le low
    rw [podAt,whole i (by omega)]
    rfl
  have counted := setEntry_entries sound.entries gfn (2 ^ order) fun _ => left
  have now : Census.among (podAt (setEntry s gfn (2 ^ order) fun _ => left)) gfn (2 ^ order) = if left.isPod then 2 ^ order else 0 := by
    cases pod : left.isPod with
    | true => exact Census.among_all fun g low high => by rw [podAt,setEntry_inside low high]; exact pod
    | false => exact among_other fun _ => pod
  have size : (s.entryCount + if left.isPod then 2 ^ order else 0 : Int) =
      s.entryCount + ((if left.isPod then 2 ^ order else 0 : Nat) : Int) - ((0 : Nat) : Int) := by
    cases left.isPod <;> simp
  have pods : podAt (added (setEntry s gfn (2 ^ order) fun _ => left) mfn order) = podAt (setEntry s gfn (2 ^ order) fun _ => left) := by
    funext g
    rw [podAt,added_p2m,podAt]
  rw [gone,now,← size,← pods] at counted
  exact counted

theorem zeroCheckSuperpage_sound (debug : Bool) (seen : Seen) (gfn : Nat) (sound : Sound s) :
    ∃ s' done, zeroCheckSuperpage debug seen gfn s = .ok (s',done) ∧ Sound s' ∧
      (∀ g, podAt s g = true → podAt s' g = true) ∧ (done = true → podAt s' gfn = true) := by
  have unchanged : ∃ s' done, (.ok (s,false) : Except Crash (State × Bool)) = .ok (s',done) ∧ Sound s' ∧
      (∀ g, podAt s g = true → podAt s' g = true) ∧ (done = true → podAt s' gfn = true) :=
    ⟨s,false,rfl,sound,fun _ pod => pod,fun done => by cases done⟩
  unfold zeroCheckSuperpage
  split
  · exact unchanged
  · split
    · next type mfn is =>
      split
      · exact unchanged
      · next fits =>
        split
        · exact unchanged
        · rw [not_or,Bool.not_eq_false,not_not] at fits
          obtain ⟨start,all⟩ := fits
          have whole : ∀ i, i < 2 ^ pageOrder2M → s.p2m (gfn + i) = .ram type (mfn + i) := by
            intro i below
            have frame := List.all_eq_true.mp all i (List.mem_range.mpr below)
            rw [superpageFrame,Bool.and_eq_true,decide_eq_true_eq] at frame
            exact frame.1
          dsimp only
          split
          · rw [setEntry_back fun g low high => ?_]
            · exact unchanged
            · obtain ⟨i,rfl⟩ := Nat.exists_eq_add_of_le low
              rw [Nat.add_sub_cancel_left]
              exact whole i (Nat.lt_of_add_lt_add_left high)
          · obtain ⟨adds,reclaimed⟩ := sound_reclaimed sound debug (.inl rfl) start (fun _ => type) whole .populateOnDemand rfl
            have first : podAt (setEntry s gfn (2 ^ pageOrder2M) fun _ => .populateOnDemand) gfn = true := by
              rw [podAt,setEntry_inside (Nat.le_refl gfn) (Nat.lt_add_of_pos_right (by decide))]
              rfl
            have adds : cacheAdd debug (setEntry s gfn superpagePages fun _ => .populateOnDemand) mfn pageOrder2M = _ := adds
            rw [adds]
            exact ⟨_,true,rfl,reclaimed,fun g pod => setEntry_pods pod,fun _ => first⟩
    · exact unchanged

-- The p2m with the pages of the candidates in it again.
def restored : List Candidate → (Nat → Entry) → Nat → Entry
  | [],p2m => p2m
  | c :: rest,p2m => fun g => if g = c.gfn then .ram c.type c.mfn else restored rest p2m g

def undone (cs : List Candidate) (s : State) : State := {s with p2m := restored cs s.p2m}

theorem restored_other {cs : List Candidate} {p2m : Nat → Entry} (other : ∀ c ∈ cs, g ≠ c.gfn) : restored cs p2m g = p2m g := by
  induction cs with
  | nil => rfl
  | cons c rest ih =>
    refine (if_neg (other c List.mem_cons_self)).trans ?_
    exact ih fun d listed => other d (List.mem_cons_of_mem c listed)

theorem setEntry_one (s : State) (gfn : Nat) (entry : Nat → Entry) :
    setEntry s gfn 1 entry = {s with p2m := fun g => if g = gfn then entry 0 else s.p2m g} := by
  have same : (setEntry s gfn 1 entry).p2m = fun g => if g = gfn then entry 0 else s.p2m g := by
    funext g
    by_cases here : g = gfn
    · rw [here,if_pos rfl,setEntry_inside (Nat.le_refl gfn) (Nat.lt_succ_self gfn),Nat.sub_self]
    · rw [if_neg here,setEntry_outside (by omega)]
  change {s with p2m := (setEntry s gfn 1 entry).p2m} = _
  rw [same]

-- The pages taken out and not put back are those it returns.
theorem zeroRemove_restored (seen : Seen) (cs : List Candidate) (apart : (cs.map Candidate.gfn).Nodup)
    (had : ∀ c ∈ cs, s.p2m c.gfn = .ram c.type c.mfn) :
    undone (zeroRemove seen cs s).2 (zeroRemove seen cs s).1 = s ∧
      (zeroRemove seen cs s).2.Sublist cs ∧ ∀ c ∈ (zeroRemove seen cs s).2, podAt (zeroRemove seen cs s).1 c.gfn = true := by
  induction cs generalizing s with
  | nil => exact ⟨rfl,List.Sublist.refl [],fun c listed => by cases listed⟩
  | cons c rest ih =>
    rw [List.map_cons,List.nodup_cons] at apart
    have here := had c List.mem_cons_self
    have later : ∀ d ∈ rest, s.p2m d.gfn = .ram d.type d.mfn := fun d listed => had d (List.mem_cons_of_mem c listed)
    rw [zeroRemove]
    split
    · obtain ⟨same,sub,pods⟩ := ih apart.2 later
      exact ⟨same,sub.cons c,pods⟩
    · dsimp only
      split
      · rw [restore,setEntry_back fun g low high => by rw [show g = c.gfn by omega]; exact here]
        obtain ⟨same,sub,pods⟩ := ih apart.2 later
        exact ⟨same,sub.cons c,pods⟩
      · have removedOther : ∀ g, g ≠ c.gfn → (setEntry s c.gfn 1 fun _ => .populateOnDemand).p2m g = s.p2m g :=
          fun g other => setEntry_outside (by omega)
        have removedHere : (setEntry s c.gfn 1 fun _ => .populateOnDemand).p2m c.gfn = .populateOnDemand :=
          setEntry_inside (Nat.le_refl c.gfn) (Nat.lt_succ_self c.gfn)
        have otherGfn : ∀ d ∈ rest, d.gfn ≠ c.gfn := fun d listed same => apart.1 (same ▸ List.mem_map_of_mem listed)
        obtain ⟨same,sub,pods⟩ := ih (s := setEntry s c.gfn 1 fun _ => .populateOnDemand) apart.2
          fun d listed => (removedOther _ (otherGfn d listed)).trans (later d listed)
        generalize zeroRemove seen rest (setEntry s c.gfn 1 fun _ => .populateOnDemand) = out at same sub pods
        obtain ⟨after,left⟩ := out
        dsimp only at same sub pods ⊢
        have p2m : restored left after.p2m = (setEntry s c.gfn 1 fun _ => .populateOnDemand).p2m := congrArg State.p2m same
        refine ⟨?_,sub.cons_cons c,fun d listed => ?_⟩
        · have all : restored (c :: left) after.p2m = s.p2m := by
            funext g
            dsimp only [restored]
            by_cases is : g = c.gfn
            · rw [if_pos is,is,here]
            · rw [if_neg is,p2m,removedOther g is]
          rw [undone,all]
          exact congrArg (fun t : State => {t with p2m := s.p2m}) same
        · rcases List.mem_cons.mp listed with rfl | listed
          · have there := congrFun p2m d.gfn
            rw [restored_other fun e inLeft same => otherGfn e (sub.subset inLeft) same.symm,removedHere] at there
            rw [podAt,there]
            rfl
          · exact pods d listed

theorem restored_set {cs : List Candidate} {p2m : Nat → Entry} (apart : ∀ c ∈ cs, c.gfn ≠ gfn) (left : Entry) :
    restored cs (fun g => if g = gfn then left else p2m g) = fun g => if g = gfn then left else restored cs p2m g := by
  induction cs with
  | nil => rfl
  | cons c rest ih =>
    funext g
    dsimp only [restored]
    rw [ih fun d listed => apart d (List.mem_cons_of_mem c listed)]
    by_cases is : g = c.gfn
    · rw [if_pos is,if_neg (is ▸ apart c List.mem_cons_self),if_pos is]
    · rw [if_neg is,if_neg is]

theorem zeroReclaim_sound (debug : Bool) (seen : Seen) (cs : List Candidate) (apart : (cs.map Candidate.gfn).Nodup)
    (pods : ∀ c ∈ cs, podAt s c.gfn = true) (sound : Sound (undone cs s)) :
    ∃ s', zeroReclaim debug seen cs s = .ok s' ∧ Sound s' ∧ ∀ g, podAt (undone cs s) g = true → podAt s' g = true := by
  induction cs generalizing s with
  | nil => exact ⟨s,rfl,sound,fun _ pod => pod⟩
  | cons c rest ih =>
    rw [List.map_cons,List.nodup_cons] at apart
    have otherGfn : ∀ d ∈ rest, d.gfn ≠ c.gfn := fun d listed same => apart.1 (same ▸ List.mem_map_of_mem listed)
    have later : ∀ d ∈ rest, podAt s d.gfn = true := fun d listed => pods d (List.mem_cons_of_mem c listed)
    rw [zeroReclaim]
    split
    · have same : undone rest (restore s c) = undone (c :: rest) s := by
        rw [restore,setEntry_one,undone,restored_set otherGfn]
        rfl
      rw [← same] at sound ⊢
      refine ih apart.2 (fun d listed => ?_) sound
      rw [podAt,restore,setEntry_outside (by have := otherGfn d listed; omega)]
      exact later d listed
    · have podHere : restored rest s.p2m c.gfn = .populateOnDemand := by
        rw [restored_other fun d listed same => otherGfn d listed same.symm]
        exact isPod_iff.mp (pods c List.mem_cons_self)
      have back : setEntry (undone (c :: rest) s) c.gfn 1 (fun _ => .populateOnDemand) = undone rest s := by
        rw [setEntry_one,undone,undone]
        refine congrArg (fun p2m => {s with p2m := p2m}) (funext fun g => ?_)
        dsimp only [restored]
        by_cases is : g = c.gfn
        · rw [if_pos is,is,podHere]
        · rw [if_neg is,if_neg is]
      have here : (undone (c :: rest) s).p2m c.gfn = .ram c.type c.mfn := if_pos rfl
      obtain ⟨_,reclaimed⟩ := sound_reclaimed sound debug (.inr rfl) (Nat.mod_one c.mfn) (fun _ => c.type)
        (fun i below => by rw [show i = 0 from Nat.lt_one_iff.mp below]; exact here) .populateOnDemand rfl
      have ready : ∀ m, c.mfn ≤ m → m < c.mfn + 2 ^ pageOrder4K → s.owned m = true ∧ s.listed m = true := fun m low high => by
        rw [show m = c.mfn from Nat.le_antisymm (Nat.lt_succ_iff.mp high) low]
        exact sound.mapped.backed c.gfn c.type c.mfn here
      rw [cacheAdd_ok (.inr rfl) debug ready (Nat.mod_one c.mfn)]
      change Sound {added (setEntry (undone (c :: rest) s) c.gfn 1 fun _ => .populateOnDemand) c.mfn pageOrder4K with
        entryCount := s.entryCount + 1} at reclaimed
      rw [back] at reclaimed
      obtain ⟨s',ran,kept,podsKept⟩ := ih (s := {added s c.mfn pageOrder4K with entryCount := s.entryCount + 1}) apart.2 later reclaimed
      refine ⟨s',ran,kept,fun g pod => podsKept g ?_⟩
      by_cases is : g = c.gfn
      · rw [is,podAt,here] at pod
        cases pod
      · have same : podAt (undone (c :: rest) s) g = podAt (undone rest s) g := by
          rw [podAt,podAt]
          exact congrArg Entry.isPod (if_neg is)
        rw [same] at pod
        exact pod

theorem candidate_some {c : Candidate} (is : candidate s seen gfn = some c) : c.gfn = gfn ∧ s.p2m gfn = .ram c.type c.mfn := by
  unfold candidate at is
  split at is
  · next had =>
    split at is
    · cases is
      exact ⟨rfl,had⟩
    · cases is
  · cases is

theorem candidates_apart (s : State) (seen : Seen) (gfns : List Nat) :
    ((gfns.filterMap (candidate s seen)).map Candidate.gfn).Sublist gfns ∧
      ∀ c ∈ gfns.filterMap (candidate s seen), s.p2m c.gfn = .ram c.type c.mfn := by
  refine ⟨?_,fun c listed => ?_⟩
  · induction gfns with
    | nil => exact List.Sublist.refl []
    | cons g rest ih =>
      cases is : candidate s seen g with
      | none =>
        rw [List.filterMap_cons_none is]
        exact ih.cons g
      | some c =>
        rw [List.filterMap_cons_some is,List.map_cons,(candidate_some is).1]
        exact ih.cons_cons g
  · obtain ⟨g,_,is⟩ := List.mem_filterMap.mp listed
    obtain ⟨rfl,had⟩ := candidate_some is
    exact had

theorem zeroCheck_sound (debug : Bool) (seen : Seen) {gfns : List Nat} (apart : gfns.Nodup) (sound : Sound s) :
    ∃ s', zeroCheck debug seen gfns s = .ok s' ∧ Sound s' ∧ ∀ g, podAt s g = true → podAt s' g = true := by
  obtain ⟨sub,had⟩ := candidates_apart s seen gfns
  obtain ⟨same,fewer,pods⟩ := zeroRemove_restored seen _ (apart.sublist sub) had
  have base : Sound (undone _ _) := same.symm ▸ sound
  obtain ⟨s',ran,kept,podsKept⟩ := zeroReclaim_sound debug seen _ ((apart.sublist sub).sublist (fewer.map Candidate.gfn)) pods base
  rw [same] at podsKept
  exact ⟨s',ran,kept,podsKept⟩

theorem sweepEnd_sound (debug : Bool) (seen : Seen) (i : Nat) {gfns : List Nat} (apart : gfns.Nodup) (sound : Sound s) :
    ∃ s', sweepEnd debug seen i gfns s = .ok s' ∧ Sound s' ∧ ∀ g, podAt s g = true → podAt s' g = true := by
  by_cases none_ : gfns = []
  · rw [sweepEnd,if_pos none_]
    exact ⟨_,rfl,sound.same rfl rfl rfl rfl rfl rfl rfl,fun _ pod => pod⟩
  · obtain ⟨s',ran,kept,pods⟩ := zeroCheck_sound debug seen apart sound
    rw [sweepEnd,if_neg none_,ran]
    exact ⟨_,rfl,kept.same rfl rfl rfl rfl rfl rfl rfl,pods⟩

-- The frame numbers still to be checked lie above those not yet looked at.
theorem sweepFrame_sound (debug : Bool) (seen : Seen) {i : Nat} {gfns : List Nat} (apart : gfns.Nodup) (above : ∀ g ∈ gfns, i < g)
    (room : gfns.length < podSweepStride) (sound : Sound s) :
    ∃ s' gfns', sweepFrame debug seen i gfns s = .ok (s',gfns') ∧ Sound s' ∧ (∀ g, podAt s g = true → podAt s' g = true) ∧
      gfns'.Nodup ∧ (∀ g ∈ gfns', i ≤ g) ∧ gfns'.length < podSweepStride := by
  have longer : (gfns ++ [i]).Nodup := by
    rw [List.nodup_append]
    exact ⟨apart,List.nodup_singleton i,fun g listed h one same => by
      have := above g listed
      rw [List.mem_singleton.mp one] at same
      omega⟩
  rw [sweepFrame]
  split
  · exact ⟨s,gfns,rfl,sound,fun _ pod => pod,apart,fun g listed => Nat.le_of_lt (above g listed),room⟩
  · rw [if_neg (by omega)]
    split
    · obtain ⟨s',ran,kept,pods⟩ := zeroCheck_sound debug seen longer sound
      rw [ran]
      exact ⟨s',[],rfl,kept,pods,List.nodup_nil,fun g listed => (by cases listed),(by decide)⟩
    · refine ⟨s,gfns ++ [i],rfl,sound,fun _ pod => pod,longer,fun g listed => ?_,by rw [List.length_append,List.length_singleton]; omega⟩
      rcases List.mem_append.mp listed with old | new
      · exact Nat.le_of_lt (above g old)
      · exact Nat.le_of_eq (List.mem_singleton.mp new).symm

theorem sweep_sound (debug : Bool) (seen : Seen) (limit i : Nat) {gfns : List Nat} (apart : gfns.Nodup) (above : ∀ g ∈ gfns, i < g)
    (room : gfns.length < podSweepStride) (sound : Sound s) :
    ∃ s', sweep debug seen limit i gfns s = .ok s' ∧ Sound s' ∧ ∀ g, podAt s g = true → podAt s' g = true := by
  induction i generalizing gfns s with
  | zero => exact sweepEnd_sound debug seen 0 apart sound
  | succ i ih =>
    obtain ⟨s',gfns',ran,kept,pods,apart',above',room'⟩ := sweepFrame_sound debug seen apart above room sound
    rw [sweep,ran]
    dsimp only
    split
    · obtain ⟨last,ended,sound',pods'⟩ := sweepEnd_sound debug seen (i + 1) apart' kept
      exact ⟨last,ended,sound',fun g pod => pods' g (pods g pod)⟩
    · obtain ⟨last,swept,sound',pods'⟩ := ih apart' above' room' kept
      exact ⟨last,swept,sound',fun g pod => pods' g (pods g pod)⟩

theorem emergencySweep_sound (debug : Bool) (seen : Seen) (sound : Sound s) :
    ∃ s', emergencySweep debug seen s = .ok s' ∧ Sound s' ∧ ∀ g, podAt s g = true → podAt s' g = true :=
  sweep_sound debug seen _ _ List.nodup_nil (fun g listed => by cases listed) (by decide)
    (sound.same rfl rfl rfl rfl rfl rfl rfl)

end XenAet.PodReclaim
