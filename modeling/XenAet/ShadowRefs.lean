import Mathlib.Logic.Function.Basic
import XenAet.AetControl
import XenAet.Library.Run

namespace XenAet.ShadowRefs
open AetControl Library

def shTypeL132Shadow : Nat := 1
def shTypeFl132Shadow : Nat := 2
def shTypeL232Shadow : Nat := 3

-- `alive` is a shadow page with its head bit; `held` are the references that
-- `sh_get_ref` gave out and that were not dropped, the one of the pin apart.
structure Shadow where
  alive : Bool
  type : Nat
  pinned : Bool
  count : BitVec 25
  up : U64
  held : Nat

structure Domain where
  page : U64 → Shadow
  pinnedShadows : List U64

inductive Event where
  | create (smfn : U64) (type : Nat)
  | getRef (smfn entryPa : U64)
  | putRef (smfn entryPa : U64)
  | pin (smfn : U64)
  | unpin (smfn : U64)

section
variable (pinnable : Nat → Bool)

def shTypeHasUpPointer (t : Nat) : Bool :=
  if t == shTypeL132Shadow || t == shTypeFl132Shadow || t == shTypeL232Shadow then false else !pinnable t

-- `count` is read into 32 bits, tested there, and cut to its field when stored.
def shGetRef (sp : Shadow) (entryPa : U64) : Bool × Shadow :=
  let x : BitVec 32 := sp.count.setWidth 32
  let nx := x + 1
  if 1#32 <<< 26 ≤ nx then (false,sp)
  else
    let up := if entryPa ≠ 0 ∧ shTypeHasUpPointer pinnable sp.type = true ∧ sp.up = 0 then entryPa else sp.up
    (true,{sp with count := nx.setWidth 25,up})

-- `none` is the BUG of an underflow.
def shPutRef (sp : Shadow) (entryPa : U64) : Option Shadow :=
  let up := if entryPa ≠ 0 ∧ shTypeHasUpPointer pinnable sp.type = true ∧ sp.up = entryPa then 0 else sp.up
  let x : BitVec 32 := sp.count.setWidth 32
  let nx := x - 1
  if x = 0 then none
  else some {sp with count := nx.setWidth 25,up,alive := sp.alive && nx != 0}

def Domain.put (s : Domain) (smfn : U64) (sp : Shadow) : Domain := {s with page := Function.update s.page smfn sp}

def shPin (s : Domain) (smfn : U64) : Bool × Domain :=
  let sp := s.page smfn
  if sp.pinned then
    if s.pinnedShadows.head? = some smfn then (true,s)
    else (true,{s with pinnedShadows := smfn :: s.pinnedShadows.erase smfn})
  else
    match shGetRef pinnable sp 0 with
    | (false,_) => (false,s)
    | (true,sp) => (true,{s.put smfn {sp with pinned := true} with pinnedShadows := smfn :: s.pinnedShadows})

def shUnpin (s : Domain) (smfn : U64) : Option Domain :=
  let sp := s.page smfn
  if sp.pinned then
    (shPutRef pinnable {sp with pinned := false} 0).map fun sp =>
      {s.put smfn sp with pinnedShadows := s.pinnedShadows.erase smfn}
  else some s

-- `shadow_alloc` clears the fields of `u.sh`.
def create (sp : Shadow) (type : Nat) : Shadow := ⟨true,type,false,0,sp.up,0⟩

def step (s : Domain) : Event → Option Domain
  | .create smfn type => some (s.put smfn (create (s.page smfn) type))
  | .getRef smfn entryPa =>
    match shGetRef pinnable (s.page smfn) entryPa with
    | (false,_) => some s
    | (true,sp) => some (s.put smfn {sp with held := sp.held + 1})
  | .putRef smfn entryPa =>
    (shPutRef pinnable (s.page smfn) entryPa).map fun sp => s.put smfn {sp with held := sp.held - 1}
  | .pin smfn => some (shPin pinnable s smfn).2
  | .unpin smfn => shUnpin pinnable s smfn

end

def refs (sp : Shadow) : Nat := sp.held + if sp.pinned then 1 else 0

-- A page that is no shadow is created, a shadow is referenced, and a put drops
-- what a get took.
def Matched (s : Domain) : Event → Prop
  | .create smfn _ => (s.page smfn).alive = false
  | .getRef smfn _ | .pin smfn | .unpin smfn => (s.page smfn).alive = true
  | .putRef smfn _ => (s.page smfn).alive = true ∧ 0 < (s.page smfn).held

-- The page has fewer references than the field can count.
def Room (s : Domain) : Event → Prop
  | .getRef smfn _ => refs (s.page smfn) + 1 < 2^25
  | .pin smfn => (s.page smfn).pinned = false → refs (s.page smfn) + 1 < 2^25
  | _ => True

instance (s : Domain) : ∀ event, Decidable (Matched s event)
  | .create _ _ | .getRef _ _ | .pin _ | .unpin _ => inferInstanceAs (Decidable (_ = _))
  | .putRef _ _ => inferInstanceAs (Decidable (_ ∧ _))

instance (s : Domain) : ∀ event, Decidable (Room s event)
  | .getRef _ _ => inferInstanceAs (Decidable (_ < _))
  | .pin _ => inferInstanceAs (Decidable (_ → _))
  | .create _ _ | .putRef _ _ | .unpin _ => .isTrue trivial

def Drops (s : Domain) (smfn : U64) : Event → Prop
  | .putRef m _ => m = smfn
  | .unpin m => m = smfn ∧ (s.page smfn).pinned = true
  | _ => False

section
variable {pinnable : Nat → Bool} {s next : Domain} {sp : Shadow} {smfn m : U64}

-- The limit of `sh_get_ref` is a bit above the field, so that it never refuses.
theorem getRef_gives (pinnable : Nat → Bool) (sp : Shadow) (entryPa : U64) :
    ∃ up, shGetRef pinnable sp entryPa = (true,{sp with count := sp.count + 1,up}) := by
  have top := sp.count.isLt
  have small : ¬ 1#32 <<< 26 ≤ sp.count.setWidth 32 + 1 := by
    rw [BitVec.le_def]
    simp only [BitVec.toNat_add,BitVec.toNat_setWidth]
    change ¬ 2^26 ≤ (sp.count.toNat % 2^32 + 1) % 2^32
    omega
  have same : (sp.count.setWidth 32 + 1 : BitVec 32).setWidth 25 = sp.count + 1 := by bv_omega
  simp only [shGetRef,if_neg small,same]
  exact ⟨_,rfl⟩

theorem putRef_underflow (none_ : sp.count = 0) : shPutRef pinnable sp entryPa = none := by
  simp [shPutRef,none_]

theorem putRef_drops (pinnable : Nat → Bool) (entryPa : U64) (some_ : sp.count ≠ 0) :
    ∃ up, shPutRef pinnable sp entryPa = some {sp with count := sp.count - 1,up,alive := sp.alive && sp.count != 1} := by
  have taken : sp.count.setWidth 32 ≠ 0 := by bv_omega
  have same : (sp.count.setWidth 32 - 1 : BitVec 32).setWidth 25 = sp.count - 1 := by bv_omega
  have last : (sp.count.setWidth 32 - 1 != (0 : BitVec 32)) = (sp.count != 1) := by
    rw [Bool.eq_iff_iff,bne_iff_ne,bne_iff_ne]
    bv_omega
  simp only [shPutRef,if_neg taken,same,last]
  exact ⟨_,rfl⟩

@[simp] theorem put_page (s : Domain) (smfn : U64) (sp : Shadow) (m : U64) :
    (s.put smfn sp).page m = if m = smfn then sp else s.page m := Function.update_apply ..

@[simp] theorem put_pinned (s : Domain) (smfn : U64) (sp : Shadow) : (s.put smfn sp).pinnedShadows = s.pinnedShadows := rfl

-- What a shadow owes to its references.
def Counted (sp : Shadow) : Prop := sp.alive = true → sp.count.toNat = refs sp

structure Inv (s : Domain) : Prop where
  counted : ∀ m, Counted (s.page m)
  listed : ∀ m, m ∈ s.pinnedShadows ↔ (s.page m).alive = true ∧ (s.page m).pinned = true
  once : s.pinnedShadows.Nodup

-- What an event does to each page and to which of them stay.
structure Took (s : Domain) (event : Event) (next : Domain) : Prop where
  inv : Inv next
  ended : ∀ m, (s.page m).alive = true → ((next.page m).alive = false ↔ Drops s m event ∧ refs (s.page m) = 1)

theorem took_of (inv : Inv s) (pages : ∀ m, next.page m = if m = smfn then sp else s.page m) (counted : Counted sp)
    (listed : ∀ m, m ∈ next.pinnedShadows ↔ if m = smfn then sp.alive = true ∧ sp.pinned = true else m ∈ s.pinnedShadows)
    (once : next.pinnedShadows.Nodup) (others : ∀ m, Drops s m event → m = smfn)
    (ended : (s.page smfn).alive = true → (sp.alive = false ↔ Drops s smfn event ∧ refs (s.page smfn) = 1)) :
    Took s event next := by
  refine ⟨⟨fun m => ?_,fun m => ?_,once⟩,fun m lives => ?_⟩
  · rw [pages]
    split
    · exact counted
    · exact inv.counted m
  · rw [listed,pages]
    split
    · exact Iff.rfl
    · exact inv.listed m
  · rw [pages]
    by_cases same : m = smfn
    · rw [if_pos same]
      subst same
      exact ended lives
    · rw [if_neg same,lives]
      exact ⟨(fun dead => by cases dead),fun drop => absurd (others m drop.1) same⟩

theorem listed_same (inv : Inv s) (alive : sp.alive = (s.page smfn).alive) (pinned : sp.pinned = (s.page smfn).pinned) (m : U64) :
    m ∈ s.pinnedShadows ↔ if m = smfn then sp.alive = true ∧ sp.pinned = true else m ∈ s.pinnedShadows := by
  split
  · rename_i same
    rw [alive,pinned,same]
    exact inv.listed smfn
  · exact Iff.rfl

theorem counted_up (counted : Counted sp) (room : refs sp + 1 < 2^25) (lives : sp.alive = true) :
    (sp.count + 1).toNat = refs sp + 1 := by
  have count := counted lives
  bv_omega

theorem create_took (inv : Inv s) (fresh : (s.page smfn).alive = false) :
    Took s (.create smfn type) (s.put smfn (create (s.page smfn) type)) := by
  refine took_of inv (put_page s smfn _) (fun _ => rfl) (fun m => ?_) inv.once (fun m drop => drop.elim) fun lives => ?_
  · split
    · rename_i same
      have gone := (inv.listed smfn).mp.mt (by simp [fresh])
      rw [same]
      exact ⟨fun here => absurd here gone,fun pinned => by cases pinned.2⟩
    · exact Iff.rfl
  · rw [fresh] at lives
    cases lives

theorem getRef_took (inv : Inv s) (lives : (s.page smfn).alive = true) (room : refs (s.page smfn) + 1 < 2^25) :
    ∃ next, step pinnable s (.getRef smfn entryPa) = some next ∧ Took s (.getRef smfn entryPa) next := by
  obtain ⟨up,given⟩ := getRef_gives pinnable (s.page smfn) entryPa
  simp only [step,given]
  refine ⟨_,rfl,took_of inv (put_page s smfn _) (fun _ => ?_) (listed_same (s:=s) inv rfl rfl) inv.once (fun m drop => drop.elim)
    fun _ => ?_⟩
  · rw [counted_up (inv.counted smfn) room lives]
    exact Nat.add_right_comm ..
  · rw [lives]
    exact ⟨(fun dead => by cases dead),fun drop => drop.1.elim⟩

theorem pin_again_took (inv : Inv s) (lives : (s.page smfn).alive = true) (pinned : (s.page smfn).pinned = true) :
    Took s (.pin smfn) (shPin pinnable s smfn).2 := by
  have here : smfn ∈ s.pinnedShadows := (inv.listed smfn).mpr ⟨lives,pinned⟩
  have pages (m) : s.page m = if m = smfn then s.page smfn else s.page m := by
    split
    · rename_i same
      rw [same]
    · rfl
  have kept : (s.page smfn).alive = true → ((s.page smfn).alive = false ↔ Drops s smfn (.pin smfn) ∧ refs (s.page smfn) = 1) := by
    intro _
    rw [lives]
    exact ⟨(fun dead => by cases dead),fun drop => drop.1.elim⟩
  simp only [shPin,if_pos pinned]
  split
  · exact took_of inv pages (inv.counted smfn) (listed_same inv rfl rfl) inv.once (fun m drop => drop.elim) kept
  · refine took_of inv pages (inv.counted smfn) (fun m => ?_) ?_ (fun m drop => drop.elim) kept
    · rw [← listed_same inv rfl rfl,← (List.perm_cons_erase here).mem_iff]
    · exact (List.perm_cons_erase here).nodup_iff.mp inv.once

theorem pin_took (inv : Inv s) (lives : (s.page smfn).alive = true)
    (room : (s.page smfn).pinned = false → refs (s.page smfn) + 1 < 2^25) : Took s (.pin smfn) (shPin pinnable s smfn).2 := by
  cases pinned : (s.page smfn).pinned with
  | true => exact pin_again_took inv lives pinned
  | false =>
    obtain ⟨up,given⟩ := getRef_gives pinnable (s.page smfn) 0
    have new : smfn ∉ s.pinnedShadows := (inv.listed smfn).mp.mt (by simp [pinned])
    simp only [shPin,pinned,given,Bool.false_eq_true,if_false]
    refine took_of inv (put_page s smfn _) (fun _ => ?_) (fun m => ?_) (List.nodup_cons.mpr ⟨new,inv.once⟩) (fun m drop => drop.elim) fun _ => ?_
    · rw [counted_up (inv.counted smfn) (room pinned) lives]
      simp [refs,pinned]
    · split
      · rename_i same
        simp [same,lives]
      · rename_i other
        simp [other]
    · rw [lives]
      exact ⟨(fun dead => by cases dead),fun drop => drop.1.elim⟩

theorem count_last (counted : Counted sp) (lives : sp.alive = true) : (sp.alive && sp.count != 1) = false ↔ refs sp = 1 := by
  have count := counted lives
  rw [lives,Bool.true_and,bne_eq_false_iff_eq,← count]
  bv_omega

theorem counted_down (counted : Counted sp) (lives : sp.alive = true) (some_ : 0 < refs sp) :
    sp.count ≠ 0 ∧ (sp.count - 1).toNat = refs sp - 1 := by
  have count := counted lives
  constructor <;> bv_omega

theorem putRef_took (inv : Inv s) (lives : (s.page smfn).alive = true) (held : 0 < (s.page smfn).held) :
    ∃ next, step pinnable s (.putRef smfn entryPa) = some next ∧ Took s (.putRef smfn entryPa) next := by
  have some_ : 0 < refs (s.page smfn) := Nat.lt_of_lt_of_le held (Nat.le_add_right _ _)
  obtain ⟨taken,less⟩ := counted_down (inv.counted smfn) lives some_
  have last := count_last (inv.counted smfn) lives
  obtain ⟨up,dropped⟩ := putRef_drops pinnable entryPa taken
  rw [step,dropped]
  refine ⟨_,rfl,took_of inv (put_page s smfn _) (fun _ => ?_) (fun m => ?_) inv.once (fun m drop => drop.symm) fun _ => ?_⟩
  · rw [less]
    simp only [refs]
    omega
  · split
    · rename_i same
      rw [same,put_pinned,inv.listed]
      refine ⟨fun pinned => ⟨Bool.of_not_eq_false (last.not.mpr ?_),pinned.2⟩,fun pinned => ⟨lives,pinned.2⟩⟩
      -- The pin has a reference of its own beside the one that is dropped.
      rw [refs,pinned.2,if_pos rfl]
      omega
    · exact Iff.rfl
  · rw [last]
    exact ⟨fun one => ⟨rfl,one⟩,fun drop => drop.2⟩

theorem unpin_took (inv : Inv s) (lives : (s.page smfn).alive = true) :
    ∃ next, step pinnable s (.unpin smfn) = some next ∧ Took s (.unpin smfn) next := by
  cases pinned : (s.page smfn).pinned with
  | false =>
    refine ⟨s,by simp [step,shUnpin,pinned],⟨inv,fun m alive => ?_⟩⟩
    rw [alive]
    refine ⟨(fun dead => by cases dead),fun drop => ?_⟩
    obtain ⟨rfl,other⟩ := drop.1
    rw [pinned] at other
    cases other
  | true =>
    have one : refs (s.page smfn) = (s.page smfn).held + 1 := by rw [refs,pinned,if_pos rfl]
    obtain ⟨taken,less⟩ := counted_down (inv.counted smfn) lives (by omega)
    have last := count_last (inv.counted smfn) lives
    have unpinned : ({s.page smfn with pinned := false} : Shadow).count ≠ 0 := taken
    obtain ⟨up,dropped⟩ := putRef_drops pinnable 0 unpinned
    simp only [step,shUnpin,if_pos pinned,dropped]
    refine ⟨_,rfl,took_of inv (put_page s smfn _) (fun _ => ?_) (fun m => ?_) (inv.once.erase _) (fun m drop => drop.1.symm) fun _ => ?_⟩
    · rw [less,one]
      simp [refs]
    · rw [inv.once.mem_erase_iff]
      split
      · rename_i same
        simp [same]
      · rename_i other
        simp [other]
    · rw [last]
      exact ⟨fun alone => ⟨⟨rfl,pinned⟩,alone⟩,fun drop => drop.2⟩

theorem step_took (inv : Inv s) (event : Event) (matched : Matched s event) (room : Room s event) :
    ∃ next, step pinnable s event = some next ∧ Took s event next := by
  cases event with
  | create smfn type => exact ⟨_,rfl,create_took inv matched⟩
  | getRef smfn entryPa => exact getRef_took inv matched room
  | putRef smfn entryPa => exact putRef_took inv matched.1 matched.2
  | pin smfn => exact ⟨_,rfl,pin_took inv matched room⟩
  | unpin smfn => exact unpin_took inv matched

theorem refs_exact (none_ : ∀ m, (pages m).alive = false)
    (fits : Run.Guarded (fun s event => Matched s event ∧ Room s event) (step pinnable) ⟨pages,[]⟩ events) :
    ∃ s, Run.run (step pinnable) ⟨pages,[]⟩ events = some s ∧
      (∀ m, (s.page m).alive = true → (s.page m).count.toNat = refs (s.page m)) ∧
      ∀ event, Matched s event → Room s event → ∃ next, step pinnable s event = some next ∧
        ∀ m, (s.page m).alive = true → ((next.page m).alive = false ↔ Drops s m event ∧ refs (s.page m) = 1) := by
  have start : Inv ⟨pages,[]⟩ := by
    refine ⟨fun m lives => ?_,fun m => ?_,List.nodup_nil⟩
    · rw [none_ m] at lives
      cases lives
    · simp [none_ m]
  obtain ⟨s,ran,inv⟩ := Run.guarded_total (P:=Inv)
    (fun s event inv fits => (step_took inv event fits.1 fits.2).imp fun _ took => ⟨took.1,took.2.inv⟩) start fits
  refine ⟨s,ran,inv.counted,fun event matched room => ?_⟩
  obtain ⟨next,taken,took⟩ := step_took inv event matched room
  exact ⟨next,taken,took.ended⟩

theorem gets_run (pinnable : Nat → Bool) (smfn entryPa : U64) (n : Nat) (s : Domain) :
    ∃ last, Run.run (step pinnable) s (List.replicate n (.getRef smfn entryPa)) = some last ∧
      (last.page smfn).count = (s.page smfn).count + BitVec.ofNat 25 n ∧ (last.page smfn).held = (s.page smfn).held + n ∧
        (last.page smfn).alive = (s.page smfn).alive := by
  induction n generalizing s with
  | zero => exact ⟨s,rfl,by simp,rfl,rfl⟩
  | succ n ih =>
    obtain ⟨up,given⟩ := getRef_gives pinnable (s.page smfn) entryPa
    obtain ⟨last,ran,count,held,alive⟩ := ih (s.put smfn ⟨(s.page smfn).alive,(s.page smfn).type,(s.page smfn).pinned,
      (s.page smfn).count + 1,up,(s.page smfn).held + 1⟩)
    rw [put_page,if_pos rfl] at count held alive
    refine ⟨last,?_,?_,?_,alive⟩
    · rw [List.replicate_succ,Run.run_cons,step,given]
      exact ran
    · rw [count,Nat.add_comm n,BitVec.ofNat_add,← BitVec.add_assoc]
      rfl
    · rw [held]
      exact Nat.add_right_comm ..

theorem created_gets (pinnable : Nat → Bool) (smfn entryPa : U64) (type n : Nat) (s : Domain) :
    ∃ last, Run.run (step pinnable) s (.create smfn type :: List.replicate n (.getRef smfn entryPa)) = some last ∧
      (last.page smfn).count = BitVec.ofNat 25 n ∧ (last.page smfn).held = n ∧ (last.page smfn).alive = true := by
  obtain ⟨last,ran,count,held,alive⟩ := gets_run pinnable smfn entryPa n (s.put smfn (create (s.page smfn) type))
  rw [put_page,if_pos rfl,create] at count held alive
  exact ⟨last,ran,by simpa using count,by simpa using held,alive⟩

end

def noShadow : Shadow := ⟨false,0,false,0,0,0⟩

def pinOnce : List Event := [.create 0x900 13,.getRef 0x900 0,.pin 0x900,.putRef 0x900 0]

theorem refs_exact_pinOnce : ∃ s, Run.run (step fun _ => true) ⟨fun _ => noShadow,[]⟩ pinOnce = some s ∧
    (s.page 0x900).alive = true ∧ (s.page 0x900).count.toNat = refs (s.page 0x900) := by
  have fits : Run.Guarded (fun s event => Matched s event ∧ Room s event) (step fun _ => true) ⟨fun _ => noShadow,[]⟩ pinOnce := by
    decide +kernel
  obtain ⟨s,ran,counted,_⟩ := refs_exact (fun _ => rfl) fits
  have lives := Run.run_holds (P:=fun s => (s.page 0x900).alive = true) ran (by decide +kernel)
  exact ⟨s,ran,lives,counted 0x900 lives⟩

-- One reference more than the field counts, and the first put is a BUG.
theorem count_wraps : ∃ s, Run.run (step fun _ => false) ⟨fun _ => noShadow,[]⟩
    (.create 0x900 8 :: List.replicate (2^25) (.getRef 0x900 0)) = some s ∧ (s.page 0x900).alive = true ∧
      (s.page 0x900).held = 2^25 ∧ (s.page 0x900).count = 0 ∧ step (fun _ => false) s (.putRef 0x900 0) = none := by
  obtain ⟨s,ran,count,held,alive⟩ := created_gets (fun _ => false) 0x900 0 8 (2^25) ⟨fun _ => noShadow,[]⟩
  have zero : (s.page 0x900).count = 0 := count.trans rfl
  refine ⟨s,ran,alive,held,zero,?_⟩
  rw [step,putRef_underflow zero]
  rfl

end XenAet.ShadowRefs
