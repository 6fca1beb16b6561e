import XenAet.PodReclaim

namespace XenAet.PodZero
open Library PodCache PodOps PodAccounts PodReclaim

inductive Access where
  | n
  | r
  | w
  | rw
  | x
  | rx
  | wx
  | rwx
  | rx2rw
  | n2rwx
deriving DecidableEq

-- `count_info` of a machine frame.
structure PageInfo where
  allocated : Bool
  pageTable : Bool
  xenHeap : Bool
  count : Nat

def wordsPerPage : Nat := 512
def quickWords : Nat := 16

-- The machine frames when each is looked at: when the p2m is read, when the
-- first words are, when the frame is unmapped, and when all words are read.
structure Frames where
  info : Nat → PageInfo
  early : Nat → Nat → BitVec 64
  refs : Nat → Nat
  words : Nat → Nat → BitVec 64

structure Guest where
  state : State
  access : Nat → Access
  defaultAccess : Access
  shadow : Bool

-- One more reference for a shadow page table.
def maxRef (shadow : Bool) : Nat := if shadow then 2 else 1

def fits (f : Frames) (shadow : Bool) (m : Nat) : Bool :=
  (f.info m).allocated && !((f.info m).pageTable || (f.info m).xenHeap) && decide ((f.info m).count ≤ maxRef shadow)

def zeroUpTo (words : Nat → BitVec 64) (n : Nat) : Bool := (List.range n).all fun j => words j == 0

def Frames.seen (f : Frames) (shadow : Bool) : Seen :=
  ⟨fits f shadow,fun m => zeroUpTo (f.early m) quickWords,fun m => decide (f.refs m ≤ 1),fun m => zeroUpTo (f.words m) wordsPerPage⟩

-- Every `p2m_set_entry` here gives the default access right.
def Guest.setEntry (k : Guest) (gfn n : Nat) (entry : Nat → Entry) : Guest :=
  {k with state := PodCache.setEntry k.state gfn n entry,
          access := fun g => if gfn ≤ g ∧ g < gfn + n then k.defaultAccess else k.access g}

def Guest.added (k : Guest) (s : State) (n : Nat) : Guest := {k with state := {s with entryCount := s.entryCount + n}}

def zeroCheckSuperpage (debug : Bool) (f : Frames) (gfn : Nat) (k : Guest) : Except Crash (Guest × Bool) :=
  if gfn % superpagePages ≠ 0 then .ok (k,false)
  else match k.state.p2m gfn with
    | .ram type mfn =>
      if mfn % superpagePages ≠ 0 ∨ (List.range superpagePages).all (superpageFrame k.state (f.seen k.shadow) gfn type mfn) = false then .ok (k,false)
      else if everyPage (f.seen k.shadow).quick mfn superpagePages = false then .ok (k,false)
      else
        let removed := k.setEntry gfn superpagePages fun _ => .populateOnDemand
        if everyPage (f.seen k.shadow).alone mfn superpagePages = false ∨ everyPage (f.seen k.shadow).zero mfn superpagePages = false then
          .ok (removed.setEntry gfn superpagePages fun i => .ram type (mfn + i),false)
        else match cacheAdd debug removed.state mfn pageOrder2M with
          | .error crash => .error crash
          | .ok s => .ok (removed.added s superpagePages,true)
    | _ => .ok (k,false)

def Guest.restore (k : Guest) (c : Candidate) : Guest := k.setEntry c.gfn 1 fun _ => .ram c.type c.mfn

def Guest.remove (k : Guest) (c : Candidate) : Guest := k.setEntry c.gfn 1 fun _ => .populateOnDemand

def zeroRemove (seen : Seen) : List Candidate → Guest → Guest × List Candidate
  | [],k => (k,[])
  | c :: rest,k =>
    if seen.quick c.mfn = false then zeroRemove seen rest k
    else if seen.alone c.mfn = false then zeroRemove seen rest ((k.remove c).restore c)
    else
      let (k,left) := zeroRemove seen rest (k.remove c)
      (k,c :: left)

def zeroReclaim (debug : Bool) (seen : Seen) : List Candidate → Guest → Except Crash Guest
  | [],k => .ok k
  | c :: rest,k =>
    if seen.zero c.mfn = false then zeroReclaim debug seen rest (k.restore c)
    else match cacheAdd debug k.state c.mfn pageOrder4K with
      | .error crash => .error crash
      | .ok s => zeroReclaim debug seen rest (k.added s 1)

def zeroCheck (debug : Bool) (f : Frames) (gfns : List Nat) (k : Guest) : Except Crash Guest :=
  let candidates := gfns.filterMap (candidate k.state (f.seen k.shadow))
  zeroReclaim debug (f.seen k.shadow) (zeroRemove (f.seen k.shadow) candidates k).2 (zeroRemove (f.seen k.shadow) candidates k).1

-- The frame number has what it had, its access right included.
def Same (k k' : Guest) (g : Nat) : Prop := k'.state.p2m g = k.state.p2m g ∧ k'.access g = k.access g

-- It is to be populated on demand and its page, which nobody else had and which
-- was zero, is in the cache.
def Reclaimed (f : Frames) (k k' : Guest) (g : Nat) : Prop :=
  k'.state.p2m g = .populateOnDemand ∧
    ∃ type m, k.state.p2m g = .ram type m ∧ (∀ j < wordsPerPage, f.words m j = 0) ∧ f.refs m ≤ 1 ∧ m ∈ cached k'.state

structure Invisible (f : Frames) (k k' : Guest) (examined : Nat → Prop) : Prop where
  inside : ∀ g, examined g → Same k k' g ∨ Reclaimed f k k' g
  outside : ∀ g, ¬examined g → Same k k' g

def Covers (gfn g : Nat) : Prop := gfn ≤ g ∧ g < gfn + superpagePages

-- The superpage is taken out, and its pages are found in use or not zero.
structure WholePutBack (f : Frames) (k : Guest) (gfn : Nat) : Prop where
  aligned : gfn % superpagePages = 0
  found : ∃ type mfn, k.state.p2m gfn = .ram type mfn ∧ mfn % superpagePages = 0 ∧
    (List.range superpagePages).all (superpageFrame k.state (f.seen k.shadow) gfn type mfn) = true ∧
    everyPage (f.seen k.shadow).quick mfn superpagePages = true ∧
    ¬(everyPage (f.seen k.shadow).alone mfn superpagePages = true ∧ everyPage (f.seen k.shadow).zero mfn superpagePages = true)

def PutBack (f : Frames) (k : Guest) (g : Nat) : Prop :=
  ∃ c, candidate k.state (f.seen k.shadow) g = some c ∧ (f.seen k.shadow).quick c.mfn = true ∧
    ¬((f.seen k.shadow).alone c.mfn = true ∧ (f.seen k.shadow).zero c.mfn = true)

-- What a check adds to the cache: the pages it finds ordinary, zero and in no
-- other use.
def spare (seen : Seen) (m : Nat) : Bool := seen.fits m && seen.quick m && seen.alone m && seen.zero m

def Backed (seen : Seen) (s : State) (examined : Nat → Prop) : Prop :=
  ∀ g type m, examined g → s.p2m g = .ram type m → spare seen m = true → s.owned m = true ∧ s.listed m = true

def Unshared (seen : Seen) (s : State) (examined : Nat → Prop) : Prop :=
  ∀ g h type type' m, examined g → examined h → s.p2m g = .ram type m → s.p2m h = .ram type' m → spare seen m = true → g = h

variable {k k' : Guest} {f : Frames} {gfn n g : Nat} {entry : Nat → Entry} {seen : Seen}

theorem access_inside (low : gfn ≤ g) (high : g < gfn + n) : (k.setEntry gfn n entry).access g = k.defaultAccess := if_pos ⟨low,high⟩

theorem access_outside (out : ¬(gfn ≤ g ∧ g < gfn + n)) : (k.setEntry gfn n entry).access g = k.access g := if_neg out

theorem same_outside (out : ¬(gfn ≤ g ∧ g < gfn + n)) : Same k (k.setEntry gfn n entry) g := ⟨setEntry_outside out,access_outside out⟩

theorem Same.trans {k'' : Guest} (first : Same k k' g) (second : Same k' k'' g) : Same k k'' g :=
  ⟨second.1.trans first.1,second.2.trans first.2⟩

theorem invisible_refl (f : Frames) (k : Guest) (examined : Nat → Prop) : Invisible f k k examined :=
  ⟨fun _ _ => Or.inl ⟨rfl,rfl⟩,fun _ _ => ⟨rfl,rfl⟩⟩

theorem zeroUpTo_iff {words : Nat → BitVec 64} : zeroUpTo words n = true ↔ ∀ j < n, words j = 0 := by
  rw [zeroUpTo,List.all_eq_true]
  constructor
  · intro all j below
    exact eq_of_beq (all j (List.mem_range.mpr below))
  · intro all j listed
    exact beq_iff_eq.mpr (all j (List.mem_range.mp listed))

theorem seen_zero {shadow : Bool} {m : Nat} : (f.seen shadow).zero m = true ↔ ∀ j < wordsPerPage, f.words m j = 0 := by
  simp only [Frames.seen,zeroUpTo_iff]

theorem seen_alone {shadow : Bool} {m : Nat} : (f.seen shadow).alone m = true ↔ f.refs m ≤ 1 := by
  simp only [Frames.seen,decide_eq_true_iff]

-- What a superpage that is put back looks like.
def putBackWhole (k : Guest) (gfn : Nat) (type : RamType) (mfn : Nat) : Guest :=
  (k.setEntry gfn superpagePages fun _ => .populateOnDemand).setEntry gfn superpagePages fun i => .ram type (mfn + i)

theorem putBackWhole_p2m {type : RamType} {mfn : Nat} (whole : ∀ i < superpagePages, k.state.p2m (gfn + i) = .ram type (mfn + i)) (g : Nat) :
    (putBackWhole k gfn type mfn).state.p2m g = k.state.p2m g := by
  have back : (putBackWhole k gfn type mfn).state = k.state := by
    change PodCache.setEntry (PodCache.setEntry k.state gfn superpagePages fun _ => .populateOnDemand) gfn superpagePages (fun i => .ram type (mfn + i)) = k.state
    refine setEntry_back fun g low high => ?_
    obtain ⟨i,rfl⟩ := Nat.exists_eq_add_of_le low
    rw [Nat.add_sub_cancel_left]
    exact whole i (by omega)
  rw [back]

theorem putBackWhole_invisible {type : RamType} {mfn : Nat} (whole : ∀ i < superpagePages, k.state.p2m (gfn + i) = .ram type (mfn + i)) :
    Invisible f k (putBackWhole k gfn type mfn) (Covers gfn) ↔ ∀ g, Covers gfn g → k.access g = k.defaultAccess := by
  have given : ∀ g, Covers gfn g → (putBackWhole k gfn type mfn).access g = k.defaultAccess := fun g inside => access_inside inside.1 inside.2
  have left : ∀ g, ¬Covers gfn g → (putBackWhole k gfn type mfn).access g = k.access g := fun g out =>
    (access_outside out).trans (access_outside out)
  have p2m := putBackWhole_p2m whole
  constructor
  · intro invisible g inside
    rcases invisible.inside g inside with same | reclaimed
    · rw [← same.2]
      exact given g inside
    · obtain ⟨i,rfl⟩ := Nat.exists_eq_add_of_le inside.1
      have pod := reclaimed.1
      rw [p2m,whole i (by have := inside.2; omega)] at pod
      cases pod
  · intro default
    refine ⟨fun g inside => Or.inl ⟨p2m g,?_⟩,fun g out => ⟨p2m g,left g out⟩⟩
    rw [given g inside,default g inside]

theorem frames_whole {s : State} {type : RamType} {mfn : Nat} (all : (List.range superpagePages).all (superpageFrame s seen gfn type mfn) = true) :
    ∀ i < superpagePages, s.p2m (gfn + i) = .ram type (mfn + i) ∧ seen.fits (mfn + i) = true := by
  intro i below
  have frame := List.all_eq_true.mp all i (List.mem_range.mpr below)
  rw [superpageFrame,Bool.and_eq_true,decide_eq_true_eq] at frame
  exact frame

theorem reclaimed_invisible (debug : Bool) (backed : Backed (f.seen k.shadow) k.state (Covers gfn)) {type : RamType} {mfn : Nat}
    (start : mfn % superpagePages = 0)
    (frames : ∀ i < superpagePages, k.state.p2m (gfn + i) = .ram type (mfn + i) ∧ (f.seen k.shadow).fits (mfn + i) = true)
    (quick : everyPage (f.seen k.shadow).quick mfn superpagePages = true)
    (alone : everyPage (f.seen k.shadow).alone mfn superpagePages = true) (zero : everyPage (f.seen k.shadow).zero mfn superpagePages = true) :
    ∃ s, cacheAdd debug (k.setEntry gfn superpagePages fun _ => .populateOnDemand).state mfn pageOrder2M = .ok s ∧
      Invisible f k ((k.setEntry gfn superpagePages fun _ => .populateOnDemand).added s superpagePages) (Covers gfn) := by
  have ready : ∀ m, mfn ≤ m → m < mfn + 2 ^ pageOrder2M → k.state.owned m = true ∧ k.state.listed m = true := by
    intro m low high
    obtain ⟨i,rfl⟩ := Nat.exists_eq_add_of_le low
    have below : i < superpagePages := Nat.lt_of_add_lt_add_left high
    obtain ⟨here,fits⟩ := frames i below
    refine backed (gfn + i) type (mfn + i) ⟨Nat.le_add_right _ _,Nat.add_lt_add_left below _⟩ here ?_
    rw [spare,fits,everyPage_iff.mp quick _ low high,everyPage_iff.mp alone _ low high,everyPage_iff.mp zero _ low high]
    rfl
  have adds : cacheAdd debug (PodCache.setEntry k.state gfn superpagePages fun _ => .populateOnDemand) mfn pageOrder2M = _ :=
    cacheAdd_ok (.inl rfl) debug ready start
  have p2m : ∀ g, (added (PodCache.setEntry k.state gfn superpagePages fun _ => .populateOnDemand) mfn pageOrder2M).p2m g =
      (PodCache.setEntry k.state gfn superpagePages fun _ => .populateOnDemand).p2m g := congrFun (added_p2m _ _ _)
  refine ⟨added (PodCache.setEntry k.state gfn superpagePages fun _ => .populateOnDemand) mfn pageOrder2M,adds,?_,?_⟩
  · intro g inside
    obtain ⟨i,rfl⟩ := Nat.exists_eq_add_of_le inside.1
    have below : i < superpagePages := by have := inside.2; omega
    refine Or.inr ⟨?_,type,mfn + i,(frames i below).1,?_,?_,?_⟩
    · exact (p2m _).trans (setEntry_inside inside.1 inside.2)
    · have all := everyPage_iff.mp zero (mfn + i) (Nat.le_add_right _ _) (by omega)
      exact seen_zero.mp all
    · have all := everyPage_iff.mp alone (mfn + i) (Nat.le_add_right _ _) (by omega)
      exact seen_alone.mp all
    · refine (added_cached (.inl rfl) _ mfn).mem_iff.mpr ?_
      exact List.mem_append_left _ (List.mem_range'_1.mpr ⟨Nat.le_add_right _ _,Nat.add_lt_add_left below _⟩)
  · intro g out
    have same : Same k (k.setEntry gfn superpagePages fun _ => .populateOnDemand) g := same_outside out
    exact ⟨(p2m g).trans same.1,same.2⟩

theorem zeroCheckSuperpage_exact (debug : Bool) (f : Frames) (gfn : Nat) (backed : Backed (f.seen k.shadow) k.state (Covers gfn)) :
    ∃ k' done, zeroCheckSuperpage debug f gfn k = .ok (k',done) ∧
      (Invisible f k k' (Covers gfn) ↔ (WholePutBack f k gfn → ∀ g, Covers gfn g → k.access g = k.defaultAccess)) := by
  have unchanged : ¬WholePutBack f k gfn → ∃ k' done, (.ok (k,false) : Except Crash (Guest × Bool)) = .ok (k',done) ∧
      (Invisible f k k' (Covers gfn) ↔ (WholePutBack f k gfn → ∀ g, Covers gfn g → k.access g = k.defaultAccess)) := by
    intro not
    exact ⟨k,false,rfl,iff_of_true (invisible_refl _ _ _) fun back => absurd back not⟩
  unfold zeroCheckSuperpage
  split
  · next odd => exact unchanged fun back => odd back.aligned
  · next even =>
    rw [not_not] at even
    split
    · next type mfn is =>
      split
      · next unfit =>
        refine unchanged ?_
        rintro ⟨_,type',mfn',is',start,all,_⟩
        rw [is] at is'
        cases is'
        rcases unfit with odd | other
        · exact odd start
        · rw [all] at other
          cases other
      · next fit =>
        rw [not_or,Bool.not_eq_false,not_not] at fit
        obtain ⟨start,all⟩ := fit
        have frames := frames_whole all
        split
        · next slow =>
          refine unchanged ?_
          rintro ⟨_,type',mfn',is',_,_,quick,_⟩
          rw [is] at is'
          cases is'
          rw [quick] at slow
          cases slow
        · next quick =>
          rw [Bool.not_eq_false] at quick
          dsimp only
          split
          · next used =>
            refine ⟨_,false,rfl,?_⟩
            have back : WholePutBack f k gfn := by
              refine ⟨even,type,mfn,is,start,all,quick,?_⟩
              rintro ⟨alone,zero⟩
              rw [alone,zero] at used
              rcases used with wrong | wrong
              · cases wrong
              · cases wrong
            rw [forall_prop_of_true back]
            exact putBackWhole_invisible fun i below => (frames i below).1
          · next unused =>
            rw [not_or,Bool.not_eq_false,Bool.not_eq_false] at unused
            obtain ⟨s,adds,invisible⟩ := reclaimed_invisible debug backed start frames quick unused.1 unused.2
            rw [adds]
            refine ⟨_,true,rfl,iff_of_true invisible ?_⟩
            rintro ⟨_,type',mfn',is',_,_,_,not⟩
            rw [is] at is'
            cases is'
            exact absurd unused not
    · next other =>
      refine unchanged ?_
      rintro ⟨_,type,mfn,is,_⟩
      exact other type mfn is

theorem zeroRemove_state (seen : Seen) (cs : List Candidate) (k : Guest) :
    (zeroRemove seen cs k).1.state = (PodOps.zeroRemove seen cs k.state).1 ∧ (zeroRemove seen cs k).2 = (PodOps.zeroRemove seen cs k.state).2 := by
  induction cs generalizing k with
  | nil => exact ⟨rfl,rfl⟩
  | cons c rest ih =>
    rw [zeroRemove,PodOps.zeroRemove]
    split
    · exact ih k
    · dsimp only
      split
      · exact ih ((k.remove c).restore c)
      · obtain ⟨state,left⟩ := ih (k.remove c)
        exact ⟨state,congrArg (c :: ·) left⟩

theorem zeroReclaim_state (debug : Bool) (seen : Seen) (cs : List Candidate) (k : Guest) :
    (zeroReclaim debug seen cs k).map Guest.state = PodOps.zeroReclaim debug seen cs k.state := by
  induction cs generalizing k with
  | nil => rfl
  | cons c rest ih =>
    rw [zeroReclaim,PodOps.zeroReclaim]
    split
    · exact ih (k.restore c)
    · cases cacheAdd debug k.state c.mfn pageOrder4K with
      | error crash => rfl
      | ok s => exact ih (k.added s 1)

-- The two functions do to the accounts what those without access rights do.
theorem checks_refine (debug : Bool) (f : Frames) (k : Guest) :
    (∀ gfn, (zeroCheckSuperpage debug f gfn k).map (fun r => (r.1.state,r.2)) =
      PodOps.zeroCheckSuperpage debug (f.seen k.shadow) gfn k.state) ∧
    ∀ gfns, (zeroCheck debug f gfns k).map Guest.state = PodOps.zeroCheck debug (f.seen k.shadow) gfns k.state := by
  refine ⟨fun gfn => ?_,fun gfns => ?_⟩
  · unfold zeroCheckSuperpage PodOps.zeroCheckSuperpage
    split
    · rfl
    · cases k.state.p2m gfn with
      | ram type mfn =>
        dsimp only
        split
        · rfl
        · split
          · rfl
          · split
            · rfl
            · change Except.map _ (match cacheAdd debug (PodCache.setEntry k.state gfn superpagePages fun _ => .populateOnDemand) mfn pageOrder2M with
                | .error crash => .error crash
                | .ok s => .ok ((k.setEntry gfn superpagePages fun _ => .populateOnDemand).added s superpagePages,true)) = _
              cases cacheAdd debug (PodCache.setEntry k.state gfn superpagePages fun _ => .populateOnDemand) mfn pageOrder2M with
              | error crash => rfl
              | ok s => rfl
      | populateOnDemand => rfl
      | invalid => rfl
      | other type => rfl
  · obtain ⟨state,left⟩ := zeroRemove_state (f.seen k.shadow) (gfns.filterMap (candidate k.state (f.seen k.shadow))) k
    rw [zeroCheck,PodOps.zeroCheck,← state,← left]
    exact zeroReclaim_state _ _ _ _

variable {c : Candidate} {cs : List Candidate}

theorem set_one (k : Guest) (gfn : Nat) (left : Entry) :
    (k.setEntry gfn 1 fun _ => left).state.p2m gfn = left ∧ (k.setEntry gfn 1 fun _ => left).access gfn = k.defaultAccess ∧
      ∀ g, g ≠ gfn → Same k (k.setEntry gfn 1 fun _ => left) g := by
  have here : gfn ≤ gfn ∧ gfn < gfn + 1 := ⟨Nat.le_refl _,Nat.lt_succ_self _⟩
  exact ⟨if_pos here,if_pos here,fun g other => same_outside (by omega)⟩

-- What is behind the first pass: the pages that may be zero are out, but for
-- those in use elsewhere, and all of them have the default access right.
structure Removed (seen : Seen) (cs : List Candidate) (k : Guest) (r : Guest × List Candidate) : Prop where
  left : r.2 = cs.filter fun c => seen.quick c.mfn && seen.alone c.mfn
  default : r.1.defaultAccess = k.defaultAccess
  owned : r.1.state.owned = k.state.owned
  listed : r.1.state.listed = k.state.listed
  touched : ∀ c ∈ cs, seen.quick c.mfn = true → r.1.access c.gfn = k.defaultAccess ∧
    r.1.state.p2m c.gfn = if seen.alone c.mfn then .populateOnDemand else .ram c.type c.mfn
  others : ∀ g, (∀ c ∈ cs, seen.quick c.mfn = true → c.gfn ≠ g) → Same k r.1 g

theorem Removed.skip {r : Guest × List Candidate} (rest : Removed seen cs k r) (slow : seen.quick c.mfn = false) : Removed seen (c :: cs) k r := by
  refine ⟨?_,rest.default,rest.owned,rest.listed,?_,?_⟩
  · rw [rest.left,List.filter_cons_of_neg (by rw [slow,Bool.false_and]; decide)]
  · intro d member quick
    rcases List.mem_cons.mp member with rfl | later
    · rw [slow] at quick
      cases quick
    · exact rest.touched d later quick
  · intro g apart
    exact rest.others g fun d later => apart d (List.mem_cons_of_mem _ later)

-- The first of the candidates is changed to `now` and the others follow.
theorem Removed.change {r : Guest × List Candidate} {now : Guest} (rest : Removed seen cs now r) (other : ∀ d ∈ cs, d.gfn ≠ c.gfn)
    (quick : seen.quick c.mfn = true) (default : now.defaultAccess = k.defaultAccess) (owned : now.state.owned = k.state.owned)
    (onList : now.state.listed = k.state.listed)
    (access : now.access c.gfn = k.defaultAccess)
    (p2m : now.state.p2m c.gfn = if seen.alone c.mfn then .populateOnDemand else .ram c.type c.mfn) (same : ∀ g, g ≠ c.gfn → Same k now g) :
    Removed seen (c :: cs) k (r.1,if seen.alone c.mfn then c :: r.2 else r.2) := by
  refine ⟨?_,rest.default.trans default,rest.owned.trans owned,rest.listed.trans onList,?_,?_⟩
  · cases alone : seen.alone c.mfn with
    | true => rw [List.filter_cons_of_pos (by rw [quick,alone]; decide),← rest.left,if_pos rfl]
    | false => rw [List.filter_cons_of_neg (by rw [quick,alone]; decide),← rest.left,if_neg (by decide)]
  · intro d member fast
    rcases List.mem_cons.mp member with rfl | later
    · have kept := rest.others d.gfn fun e later _ => other e later
      exact ⟨kept.2.trans access,kept.1.trans p2m⟩
    · have touched := rest.touched d later fast
      rw [default] at touched
      exact touched
  · intro g apart
    have differ : g ≠ c.gfn := fun is => apart c List.mem_cons_self quick is.symm
    exact (same g differ).trans (rest.others g fun d later => apart d (List.mem_cons_of_mem _ later))

theorem zeroRemove_removed (seen : Seen) (apart : (cs.map Candidate.gfn).Nodup) (k : Guest) : Removed seen cs k (zeroRemove seen cs k) := by
  induction cs generalizing k with
  | nil => exact ⟨rfl,rfl,rfl,rfl,fun c member => (by cases member),fun g _ => ⟨rfl,rfl⟩⟩
  | cons c rest ih =>
    rw [List.map_cons,List.nodup_cons] at apart
    have other : ∀ d ∈ rest, d.gfn ≠ c.gfn := fun d listed same => apart.1 (same ▸ List.mem_map_of_mem listed)
    rw [zeroRemove]
    cases quick : seen.quick c.mfn with
    | false => exact (ih apart.2 k).skip quick
    | true =>
      rw [if_neg (by decide)]
      obtain ⟨pod,podAccess,podSame⟩ := set_one k c.gfn .populateOnDemand
      cases alone : seen.alone c.mfn with
      | false =>
        obtain ⟨ram,ramAccess,ramSame⟩ := set_one (k.remove c) c.gfn (.ram c.type c.mfn)
        have result := (ih apart.2 ((k.remove c).restore c)).change (k:=k) other quick rfl rfl rfl ramAccess (by rw [alone]; exact ram)
          fun g differ => (podSame g differ).trans (ramSame g differ)
        rw [alone] at result
        exact result
      | true =>
        have result := (ih apart.2 (k.remove c)).change (k:=k) other quick rfl rfl rfl podAccess (by rw [alone]; exact pod) podSame
        rw [alone] at result
        exact result

theorem cacheAdd_single (debug : Bool) {s : State} {m : Nat} (ready : s.owned m = true ∧ s.listed m = true) :
    cacheAdd debug s m pageOrder4K = .ok (added s m pageOrder4K) := by
  refine cacheAdd_ok (.inr rfl) debug (fun m' low high => ?_) (Nat.mod_one m)
  rw [show m' = m by simp only [pageOrder4K] at high; omega]
  exact ready

-- What is behind the second pass.
structure Reclaims (seen : Seen) (cs : List Candidate) (k k' : Guest) : Prop where
  grows : ∀ m ∈ cached k.state, m ∈ cached k'.state
  zero : ∀ c ∈ cs, seen.zero c.mfn = true → Same k k' c.gfn ∧ c.mfn ∈ cached k'.state
  back : ∀ c ∈ cs, seen.zero c.mfn = false → k'.state.p2m c.gfn = .ram c.type c.mfn ∧ k'.access c.gfn = k.defaultAccess
  others : ∀ g, (∀ c ∈ cs, c.gfn ≠ g) → Same k k' g

theorem added_same (k : Guest) (m : Nat) (g : Nat) : Same k (k.added (added k.state m pageOrder4K) 1) g :=
  ⟨congrFun (added_p2m k.state m pageOrder4K) g,rfl⟩

-- The pages added are off the domain's list, so that none may come twice.
theorem zeroReclaim_reclaims (debug : Bool) (seen : Seen) (apart : (cs.map Candidate.gfn).Nodup)
    (ready : ∀ c ∈ cs, seen.zero c.mfn = true → k.state.owned c.mfn = true ∧ k.state.listed c.mfn = true)
    (once : cs.Pairwise fun c d => seen.zero d.mfn = true → d.mfn ≠ c.mfn) :
    ∃ k', zeroReclaim debug seen cs k = .ok k' ∧ Reclaims seen cs k k' := by
  induction cs generalizing k with
  | nil =>
    exact ⟨k,rfl,fun m here => here,fun c member => (by cases member),fun c member => (by cases member),fun g _ => ⟨rfl,rfl⟩⟩
  | cons c rest ih =>
    rw [List.map_cons,List.nodup_cons] at apart
    have other : ∀ d ∈ rest, d.gfn ≠ c.gfn := fun d listed same => apart.1 (same ▸ List.mem_map_of_mem listed)
    obtain ⟨first_,once⟩ := List.pairwise_cons.mp once
    have later : ∀ d ∈ rest, seen.zero d.mfn = true → k.state.owned d.mfn = true ∧ k.state.listed d.mfn = true :=
      fun d listed => ready d (List.mem_cons_of_mem _ listed)
    rw [zeroReclaim]
    cases zero : seen.zero c.mfn with
    | false =>
      rw [if_pos rfl]
      obtain ⟨ram,access,same⟩ := set_one k c.gfn (.ram c.type c.mfn)
      obtain ⟨k',ran,done⟩ := ih (k:=k.restore c) apart.2 later once
      have first := done.others c.gfn other
      refine ⟨k',ran,done.grows,?_,?_,?_⟩
      · intro d member zeros
        rcases List.mem_cons.mp member with rfl | listed
        · rw [zero] at zeros
          cases zeros
        · obtain ⟨kept,held⟩ := done.zero d listed zeros
          exact ⟨(same d.gfn (other d listed)).trans kept,held⟩
      · intro d member nonzero
        rcases List.mem_cons.mp member with rfl | listed
        · exact ⟨first.1.trans ram,first.2.trans access⟩
        · exact done.back d listed nonzero
      · intro g differ
        exact (same g (differ c List.mem_cons_self).symm).trans (done.others g fun d listed => differ d (List.mem_cons_of_mem _ listed))
    | true =>
      rw [if_neg (by decide),cacheAdd_single debug (ready c List.mem_cons_self zero)]
      have still : ∀ d ∈ rest, seen.zero d.mfn = true → (added k.state c.mfn pageOrder4K).owned d.mfn = true ∧
          (added k.state c.mfn pageOrder4K).listed d.mfn = true := by
        intro d listed zeros
        have differ := first_ d listed zeros
        rw [added_owned,added_listed,Zones.moved_outside (by simp only [pageOrder4K]; omega)]
        exact later d listed zeros
      obtain ⟨k',ran,done⟩ := ih (k:=k.added (added k.state c.mfn pageOrder4K) 1) apart.2 still once
      have same := added_same k c.mfn
      have pages : ∀ m, m ∈ cached (k.added (added k.state c.mfn pageOrder4K) 1).state ↔ m = c.mfn ∨ m ∈ cached k.state := by
        intro m
        refine ((added_cached (.inr rfl) k.state c.mfn).mem_iff).trans ?_
        rw [List.mem_append,List.mem_range'_1,pageOrder4K]
        exact or_congr_left (by omega)
      refine ⟨k',ran,fun m here => done.grows m ((pages m).mpr (Or.inr here)),?_,?_,?_⟩
      · intro d member zeros
        rcases List.mem_cons.mp member with rfl | listed
        · exact ⟨(same d.gfn).trans (done.others d.gfn other),done.grows d.mfn ((pages d.mfn).mpr (Or.inl rfl))⟩
        · obtain ⟨kept,held⟩ := done.zero d listed zeros
          exact ⟨(same d.gfn).trans kept,held⟩
      · intro d member nonzero
        rcases List.mem_cons.mp member with rfl | listed
        · rw [zero] at nonzero
          cases nonzero
        · exact done.back d listed nonzero
      · intro g differ
        exact (same g).trans (done.others g fun d listed => differ d (List.mem_cons_of_mem _ listed))

theorem mem_candidates {s : State} {gfns : List Nat} : c ∈ gfns.filterMap (candidate s seen) ↔ c.gfn ∈ gfns ∧ candidate s seen c.gfn = some c := by
  rw [List.mem_filterMap]
  constructor
  · rintro ⟨g,listed,is⟩
    obtain ⟨rfl,_⟩ := candidate_some is
    exact ⟨listed,is⟩
  · rintro ⟨listed,is⟩
    exact ⟨c.gfn,listed,is⟩

-- What both passes do to a candidate and to the others.
structure Passed (seen : Seen) (cs : List Candidate) (k k' : Guest) : Prop where
  reclaimed : ∀ c ∈ cs, seen.quick c.mfn = true → seen.alone c.mfn = true ∧ seen.zero c.mfn = true →
    k'.state.p2m c.gfn = .populateOnDemand ∧ c.mfn ∈ cached k'.state
  back : ∀ c ∈ cs, seen.quick c.mfn = true → ¬(seen.alone c.mfn = true ∧ seen.zero c.mfn = true) →
    k'.state.p2m c.gfn = .ram c.type c.mfn ∧ k'.access c.gfn = k.defaultAccess
  others : ∀ g, (∀ c ∈ cs, seen.quick c.mfn = true → c.gfn ≠ g) → Same k k' g

theorem passes_passed {middle : Guest × List Candidate} (unique : ∀ c ∈ cs, ∀ d ∈ cs, c.gfn = d.gfn → c = d) (removed : Removed seen cs k middle)
    (reclaims : Reclaims seen middle.2 middle.1 k') : Passed seen cs k k' := by
  have left : ∀ c, c ∈ middle.2 ↔ c ∈ cs ∧ seen.quick c.mfn = true ∧ seen.alone c.mfn = true := by
    intro c
    rw [removed.left,List.mem_filter,Bool.and_eq_true]
  refine ⟨?_,?_,?_⟩
  · intro c member quick both
    obtain ⟨same,held⟩ := reclaims.zero c ((left c).mpr ⟨member,quick,both.1⟩) both.2
    refine ⟨?_,held⟩
    rw [same.1,(removed.touched c member quick).2,if_pos both.1]
  · intro c member quick not
    obtain ⟨access,p2m⟩ := removed.touched c member quick
    by_cases alone : seen.alone c.mfn = true
    · have nonzero : seen.zero c.mfn = false := by
        rw [← Bool.not_eq_true]
        exact fun zero => not ⟨alone,zero⟩
      obtain ⟨ram,default⟩ := reclaims.back c ((left c).mpr ⟨member,quick,alone⟩) nonzero
      exact ⟨ram,default.trans removed.default⟩
    · have same := reclaims.others c.gfn fun d kept is => by
        obtain ⟨listed,_,with_⟩ := (left d).mp kept
        rw [unique d listed c member is] at with_
        exact alone with_
      rw [if_neg alone] at p2m
      exact ⟨same.1.trans p2m,same.2.trans access⟩
  · intro g differ
    refine (removed.others g differ).trans (reclaims.others g fun c kept => ?_)
    obtain ⟨listed,quick,_⟩ := (left c).mp kept
    exact differ c listed quick

theorem candidate_fits {s : State} (is : candidate s seen gfn = some c) : seen.fits c.mfn = true := by
  unfold candidate at is
  split at is
  · split at is
    · next fits =>
      cases is
      exact fits
    · cases is
  · cases is

theorem zeroCheck_passed (debug : Bool) (f : Frames) {gfns : List Nat} (apart : gfns.Nodup)
    (backed : Backed (f.seen k.shadow) k.state (· ∈ gfns)) (unshared : Unshared (f.seen k.shadow) k.state (· ∈ gfns)) :
    ∃ k', zeroCheck debug f gfns k = .ok k' ∧ Passed (f.seen k.shadow) (gfns.filterMap (candidate k.state (f.seen k.shadow))) k k' := by
  obtain ⟨sub,had⟩ := candidates_apart k.state (f.seen k.shadow) gfns
  have distinct := apart.sublist sub
  have removed := zeroRemove_removed (f.seen k.shadow) distinct k
  have left : ∀ c, c ∈ (zeroRemove (f.seen k.shadow) (gfns.filterMap (candidate k.state (f.seen k.shadow))) k).2 →
      (f.seen k.shadow).zero c.mfn = true → (c.gfn ∈ gfns ∧ k.state.p2m c.gfn = .ram c.type c.mfn) ∧ spare (f.seen k.shadow) c.mfn = true := by
    intro c kept zero
    rw [removed.left,List.mem_filter,Bool.and_eq_true] at kept
    obtain ⟨listed,is⟩ := mem_candidates.mp kept.1
    rw [spare,candidate_fits is,kept.2.1,kept.2.2,zero]
    exact ⟨⟨listed,had c kept.1⟩,rfl⟩
  have gone : ((zeroRemove (f.seen k.shadow) (gfns.filterMap (candidate k.state (f.seen k.shadow))) k).2.map Candidate.gfn).Nodup := by
    rw [removed.left]
    exact distinct.sublist (List.filter_sublist.map Candidate.gfn)
  have once := (List.pairwise_map.mp gone).imp_of_mem (S:=fun c d => (f.seen k.shadow).zero d.mfn = true → d.mfn ≠ c.mfn) (by
    intro c d first second differ zero same
    obtain ⟨⟨later,there⟩,spares⟩ := left d second zero
    rw [same] at zero
    obtain ⟨⟨earlier,here⟩,_⟩ := left c first zero
    rw [← same] at here
    exact differ (unshared _ _ _ _ _ earlier later here there spares))
  obtain ⟨k',ran,reclaims⟩ := zeroReclaim_reclaims debug (f.seen k.shadow) gone (k:=(zeroRemove _ _ k).1) (by
    intro c kept zero
    obtain ⟨⟨listed,here⟩,spares⟩ := left c kept zero
    rw [removed.owned,removed.listed]
    exact backed _ _ _ listed here spares) once
  refine ⟨k',ran,passes_passed ?_ removed reclaims⟩
  intro c member d listed same
  have first := (mem_candidates.mp member).2
  rw [same,(mem_candidates.mp listed).2] at first
  exact (Option.some.inj first).symm

theorem zeroCheck_exact (debug : Bool) (f : Frames) {gfns : List Nat} (apart : gfns.Nodup)
    (backed : Backed (f.seen k.shadow) k.state (· ∈ gfns)) (unshared : Unshared (f.seen k.shadow) k.state (· ∈ gfns)) :
    ∃ k', zeroCheck debug f gfns k = .ok k' ∧
      (Invisible f k k' (· ∈ gfns) ↔ ∀ g ∈ gfns, PutBack f k g → k.access g = k.defaultAccess) := by
  obtain ⟨k',ran,passed⟩ := zeroCheck_passed debug f apart backed unshared
  refine ⟨k',ran,?_,?_⟩
  · rintro invisible g examined ⟨c,is,quick,not⟩
    obtain ⟨rfl,_⟩ := candidate_some is
    obtain ⟨ram,default⟩ := passed.back c (mem_candidates.mpr ⟨examined,is⟩) quick not
    rcases invisible.inside c.gfn examined with same | reclaimed
    · exact same.2.symm.trans default
    · cases ram.symm.trans reclaimed.1
  · intro default
    refine ⟨?_,?_⟩
    · intro g examined
      by_cases out : ∃ c, candidate k.state (f.seen k.shadow) g = some c ∧ (f.seen k.shadow).quick c.mfn = true
      · obtain ⟨c,is,quick⟩ := out
        obtain ⟨rfl,had⟩ := candidate_some is
        have member := mem_candidates.mpr ⟨examined,is⟩
        by_cases both : (f.seen k.shadow).alone c.mfn = true ∧ (f.seen k.shadow).zero c.mfn = true
        · obtain ⟨pod,held⟩ := passed.reclaimed c member quick both
          exact Or.inr ⟨pod,c.type,c.mfn,had,seen_zero.mp both.2,seen_alone.mp both.1,held⟩
        · obtain ⟨ram,given⟩ := passed.back c member quick both
          exact Or.inl ⟨ram.trans had.symm,given.trans (default c.gfn examined ⟨c,is,quick,both⟩).symm⟩
      · refine Or.inl (passed.others g ?_)
        rintro c member quick rfl
        exact out ⟨c,(mem_candidates.mp member).2,quick⟩
    · intro g out
      refine passed.others g ?_
      rintro c member _ rfl
      exact out (mem_candidates.mp member).1

theorem reclaim_invisible_exactly (k : Guest) (f : Frames) (debug : Bool) :
    (∀ gfn, Backed (f.seen k.shadow) k.state (Covers gfn) → ∃ k' done, zeroCheckSuperpage debug f gfn k = .ok (k',done) ∧
      (Invisible f k k' (Covers gfn) ↔ (WholePutBack f k gfn → ∀ g, Covers gfn g → k.access g = k.defaultAccess))) ∧
    ∀ gfns : List Nat, gfns.Nodup → Backed (f.seen k.shadow) k.state (· ∈ gfns) → Unshared (f.seen k.shadow) k.state (· ∈ gfns) →
      ∃ k', zeroCheck debug f gfns k = .ok k' ∧
      (Invisible f k k' (· ∈ gfns) ↔ ∀ g ∈ gfns, PutBack f k g → k.access g = k.defaultAccess) :=
  ⟨fun gfn => zeroCheckSuperpage_exact debug f gfn,fun _ apart => zeroCheck_exact debug f apart⟩

-- A guest of one page, which it may read and execute where `restricted`.
def onePage (restricted : Bool) : Guest :=
  ⟨⟨fun g => if g = 0 then .ram .rw 8 else .invalid,fun m => decide (m = 8),fun m => decide (m = 8),[],[],0,0,fun _ => 0,0,0,0,false,true⟩,
   fun _ => if restricted then .rx else .rwx,.rwx,false⟩

theorem onePage_sound (restricted : Bool) : Sound (onePage restricted).state := by
  have only : ∀ {g type m}, (onePage restricted).state.p2m g = .ram type m → g = 0 ∧ m = 8 := by
    intro g type m here
    change (if g = 0 then Entry.ram .rw 8 else .invalid) = .ram type m at here
    split at here
    · next first =>
      cases here
      exact ⟨first,rfl⟩
    · cases here
  refine ⟨⟨∅,fun g => ?_,rfl⟩,⟨rfl,List.nodup_nil,fun m here => (by cases here),fun m here => (by cases here)⟩,?_,?_⟩
  · refine iff_of_false (Finset.notMem_empty g) ?_
    change ¬(if g = 0 then Entry.ram .rw 8 else .invalid).isPod = true
    split
    · decide
    · decide
  · intro g type m here
    obtain ⟨rfl,rfl⟩ := only here
    exact ⟨rfl,rfl⟩
  · intro g h type type' m here there
    rw [(only here).1,(only there).1]

-- Its first words are zero, and the seventeenth is not.
def lateWord : Frames := ⟨fun _ => ⟨true,false,false,1⟩,fun _ _ => 0,fun _ => 1,fun _ j => if j = 16 then 1 else 0⟩

theorem unrestricted_invisible : ∃ k', zeroCheck true lateWord [0] (onePage false) = .ok k' ∧ Invisible lateWord (onePage false) k' (· ∈ [0]) := by
  obtain ⟨k',ran,exact_⟩ := (reclaim_invisible_exactly (onePage false) lateWord true).2 [0] (List.nodup_singleton 0)
    (fun g type m _ here _ => (onePage_sound false).mapped.backed g type m here)
    fun g h type type' m _ _ here there _ => (onePage_sound false).mapped.apart g h type type' m here there
  exact ⟨k',ran,exact_.mpr fun _ _ _ => rfl⟩

-- The page is put back for the guest to write.
theorem restriction_lost : Sound (onePage true).state ∧ (onePage true).access 0 = .rx ∧
    ∃ k', zeroCheck true lateWord [0] (onePage true) = .ok k' ∧ k'.access 0 = .rwx ∧ ¬Invisible lateWord (onePage true) k' (· ∈ [0]) := by
  refine ⟨onePage_sound true,rfl,?_⟩
  have runs : (zeroCheck true lateWord [0] (onePage true)).toOption.map (fun k => (k.state.p2m 0,k.access 0)) = some (.ram .rw 8,.rwx) := by
    decide +kernel
  cases ran : zeroCheck true lateWord [0] (onePage true) with
  | error crash =>
    rw [ran] at runs
    cases runs
  | ok k' =>
    rw [ran] at runs
    have is : (k'.state.p2m 0,k'.access 0) = (.ram .rw 8,.rwx) := Option.some.inj runs
    have p2m : k'.state.p2m 0 = .ram .rw 8 := congrArg Prod.fst is
    have access : k'.access 0 = .rwx := congrArg Prod.snd is
    refine ⟨k',rfl,access,fun invisible => ?_⟩
    rcases invisible.inside 0 List.mem_cons_self with same | reclaimed
    · cases access.symm.trans same.2
    · cases p2m.symm.trans reclaimed.1

end XenAet.PodZero
