import XenAet.ShadowEntry
import XenAet.Library.Run

namespace XenAet.L4Track
open AetControl PageEntry Propagate ShadowEntry Library

-- The mark `vmx.c` sets: bits 40..63 and 10. What `multi.c` takes back is its
-- own constant of the same name, bits 51..62 and 10.
def vmxAetMagic : U64 := 0xffffff0000000400

abbrev Index := Fin 512

-- A shadow L4 page. Two ghosts: what each entry would hold without tracking,
-- and which entries are marked and still to be un-marked.
structure L4 where
  page : Index → U64
  plain : Index → U64
  pending : Index → Bool

def untracked (page : Index → U64) : L4 := ⟨page,page,fun _ => false⟩

structure Mode where
  external : Bool
  pv32 : Bool

def isGuestL4Slot (m : Mode) (i : Index) : Bool := if m.pv32 then i.val == 0 else i.val < 256 || 271 < i.val

def walked (m : Mode) (i : Index) : Bool := m.external || isGuestL4Slot m i

def l4TableOffset (va : U64) : Index := ⟨(va.toNat / 2^39) % 512,Nat.mod_lt _ (by decide)⟩

def marks (sl4e : U64) : Bool :=
  isPresent sl4e && !Masks.allOf sl4e vmxAetMagic && !Masks.anyOf sl4e vmxAetMagic

def shadowL4eSetAetMagic (s : L4) : L4 :=
  let page (i : Index) : U64 := if marks (s.page i) then s.page i ||| vmxAetMagic else s.page i
  {s with page,pending := fun i => s.pending i || marks (s.page i)}

def unmark (sl4e : U64) : U64 := sl4e &&& ~~~shL1eAetMagic

def unmarkAny (sl4e : U64) : U64 := if Masks.anyOf sl4e shL1eAetMagic then unmark sl4e else sl4e

-- The head of `sh_page_fault`: the entry of the faulting address, then every
-- present entry of the walk.
def pageFault (m : Mode) (s : L4) (va : U64) : L4 :=
  let first := Function.update s.page (l4TableOffset va) (unmarkAny (s.page (l4TableOffset va)))
  let page (i : Index) : U64 := if walked m i && isPresent (first i) then unmarkAny (first i) else first i
  {s with page,pending := fun _ => false}

def reverseL4AetMagic (s : L4) (va : U64) : L4 :=
  let i := l4TableOffset va
  {s with page := Function.update s.page i (unmark (s.page i)),pending := Function.update s.pending i false}

-- `shadow_set_l4e` un-marks, in the order of the page, the present entries that
-- equal `*sl4e`; it reads `*sl4e` again each time, so once the walk has passed
-- the entry itself the other copies no longer match.
def sweep (j : Index) : Nat → (Index → U64) → Index → U64
  | 0,page => page
  | k+1,page =>
    let page := sweep j k page
    if inside : k < 512 then
      if isPresent (page ⟨k,inside⟩) && page ⟨k,inside⟩ == page j then
        Function.update page ⟨k,inside⟩ (unmark (page ⟨k,inside⟩))
      else page
    else page

def swept (s : L4) (j : Index) : L4 :=
  let page := if shL1eIsAetMagic (s.page j) then sweep j 512 s.page else s.page
  {s with page,pending := fun i => s.pending i && page i == s.page i}

-- `refOk` is the answer of `sh_get_ref` and `sh_pin` for the new table.
def shadowSetL4e (s : L4) (j : Index) (new : U64) (refOk : Bool) : L4 :=
  let t := swept s j
  if s.page j = new then t
  else if isPresent new && !refOk then t
  else
    { page := Function.update t.page j new
      plain := Function.update t.plain j new
      pending := Function.update t.pending j false }

inductive Event where
  | mark
  | fault (va : U64)
  | reverse (va : U64)
  | set (j : Index) (new : U64) (refOk : Bool)

def step (m : Mode) (s : L4) : Event → Option L4
  | .mark => some (shadowL4eSetAetMagic s)
  | .fault va => some (pageFault m s va)
  | .reverse va => some (reverseL4AetMagic s va)
  | .set j new refOk => some (shadowSetL4e s j new refOk)

def Transparent (s : L4) : Prop := ∀ i, s.pending i = false → s.page i = s.plain i

-- An un-marking does no harm when it finds nothing to take back: no marked
-- entry where it takes marks back, and no mark bit in an entry it visits.
def Harmless (m : Mode) (s : L4) : Event → Prop
  | .mark => True
  | .fault va => (∀ i, s.pending i = false) ∧ ∀ i, i = l4TableOffset va ∨ (walked m i = true ∧ isPresent (s.page i) = true) →
      Masks.anyOf (s.page i) shL1eAetMagic = false
  | .reverse va => s.pending (l4TableOffset va) = false ∧ Masks.anyOf (s.page (l4TableOffset va)) shL1eAetMagic = false
  | .set j new refOk => shL1eIsAetMagic (s.page j) = true → isPresent (s.page j) = true →
      (∀ i, i < j → s.page i ≠ s.page j) ∧ s.page j ≠ new ∧ (isPresent new = true → refOk = true)

theorem vmxMagic_bit (i : Nat) : vmxAetMagic.getLsbD i = decide (i = 10 ∨ (40 ≤ i ∧ i < 64)) :=
  Masks.getLsbD_constant (p:=fun i => i = 10 ∨ (40 ≤ i ∧ i < 64)) (by decide) (fun _ _ => by omega) i

theorem unmark_bit (sl4e : U64) (i : Nat) :
    (unmark sl4e).getLsbD i = (sl4e.getLsbD i && !shL1eAetMagic.getLsbD i) := by
  by_cases small : i < 64
  · simp [unmark,small,-BitVec.getLsbD_eq_getElem]
  · simp [BitVec.getLsbD_of_ge _ i (show 64 ≤ i by omega)]

-- The two constants differ, so no mark is ever taken back: bit 40 stays.
theorem unmark_marked_ne (clear : Masks.anyOf sl4e vmxAetMagic = false) : unmark (sl4e ||| vmxAetMagic) ≠ sl4e := by
  intro same
  have left : (unmark (sl4e ||| vmxAetMagic)).getLsbD 40 = true := by
    simp [unmark_bit,aetMagic_bit,vmxMagic_bit,-BitVec.getLsbD_eq_getElem]
  rw [same] at left
  have found : Masks.anyOf sl4e vmxAetMagic = true := Masks.anyOf_iff.mpr ⟨40,left,by decide⟩
  rw [clear] at found
  cases found

theorem marked_ne (clear : Masks.anyOf sl4e vmxAetMagic = false) : sl4e ||| vmxAetMagic ≠ sl4e := by
  intro same
  have left : sl4e.getLsbD 40 = true := by
    rw [← same]; simp [vmxMagic_bit,-BitVec.getLsbD_eq_getElem]
  have found : Masks.anyOf sl4e vmxAetMagic = true := Masks.anyOf_iff.mpr ⟨40,left,by decide⟩
  rw [clear] at found
  cases found

theorem unmark_eq_iff : unmark sl4e = sl4e ↔ Masks.anyOf sl4e shL1eAetMagic = false := by
  constructor
  · intro same
    by_contra some_
    obtain ⟨i,here,there⟩ := Masks.anyOf_iff.mp (by simpa using some_)
    rw [← same,unmark_bit,there] at here
    simp at here
  · intro none_
    apply BitVec.eq_of_getLsbD_eq
    intro i _
    rw [unmark_bit]
    by_cases there : shL1eAetMagic.getLsbD i = true
    · by_contra differs
      have here : sl4e.getLsbD i = true := by simpa [there] using differs
      rw [Masks.anyOf_iff.mpr ⟨i,here,there⟩] at none_
      cases none_
    · simp [there]

theorem unmarkAny_eq (sl4e : U64) : unmarkAny sl4e = unmark sl4e := by
  unfold unmarkAny
  split
  · rfl
  · rename_i none_
    exact (unmark_eq_iff.mpr (by simpa using none_)).symm

theorem unmark_again (sl4e : U64) : unmark (unmark sl4e) = unmark sl4e := by
  apply BitVec.eq_of_getLsbD_eq
  intro i _
  rw [unmark_bit,unmark_bit,Bool.and_assoc,Bool.and_self]

theorem magic_unmark_ne (looks : shL1eIsAetMagic sl4e = true) : unmark sl4e ≠ sl4e := by
  intro same
  have none_ := unmark_eq_iff.mp same
  rw [Masks.anyOf_iff.mpr ⟨10,Masks.allOf_iff.mp looks 10 (by decide),by decide⟩] at none_
  cases none_

section
variable {m : Mode} {s next : L4}

structure Tracked (s : L4) : Prop where
  rest : Transparent s
  due : ∀ i, s.pending i = true → s.page i = s.plain i ||| vmxAetMagic ∧
    Masks.anyOf (s.plain i) vmxAetMagic = false

theorem due_lost (tracked : Tracked s) (due : s.pending i = true) :
    s.page i ≠ s.plain i ∧ unmark (s.page i) ≠ s.plain i := by
  obtain ⟨entry,clear⟩ := tracked.due i due
  rw [entry]
  exact ⟨marked_ne clear,unmark_marked_ne clear⟩

theorem mark_tracked (tracked : Tracked s) : Tracked (shadowL4eSetAetMagic s) := by
  refine ⟨fun i settled => ?_,fun i due => ?_⟩
  · simp only [shadowL4eSetAetMagic,Bool.or_eq_false_iff] at settled ⊢
    rw [settled.2]
    exact tracked.rest i settled.1
  · simp only [shadowL4eSetAetMagic,Bool.or_eq_true] at due ⊢
    cases waits : s.pending i with
    | true =>
      obtain ⟨entry,clear⟩ := tracked.due i waits
      have again : marks (s.page i) = false := by
        have found : Masks.anyOf (s.page i) vmxAetMagic = true := by
          refine Masks.anyOf_iff.mpr ⟨40,?_,by decide⟩
          rw [entry]; simp [vmxMagic_bit,-BitVec.getLsbD_eq_getElem]
        simp [marks,found]
      simp only [again]
      exact ⟨entry,clear⟩
    | false =>
      have now : marks (s.page i) = true := by simpa [waits] using due
      have clear : Masks.anyOf (s.page i) vmxAetMagic = false := by
        simp only [marks,Bool.and_eq_true,Bool.not_eq_true'] at now
        exact now.2
      rw [tracked.rest i waits] at now clear ⊢
      rw [now]
      exact ⟨rfl,clear⟩

def touched (m : Mode) (s : L4) (va : U64) (i : Index) : Prop :=
  i = l4TableOffset va ∨ (walked m i = true ∧ isPresent (s.page i) = true)

theorem fault_page (m : Mode) (s : L4) (va : U64) (i : Index) :
    (touched m s va i → (pageFault m s va).page i = unmark (s.page i)) ∧
    (¬ touched m s va i → (pageFault m s va).page i = s.page i) := by
  by_cases here : i = l4TableOffset va
  · subst here
    refine ⟨fun _ => ?_,fun other => absurd (.inl rfl) other⟩
    simp only [pageFault,Function.update_self,unmarkAny_eq,unmark_again]
    split <;> rfl
  · simp only [pageFault,Function.update_of_ne here,unmarkAny_eq]
    refine ⟨fun hit => ?_,fun other => ?_⟩
    · have visited := hit.resolve_left here
      rw [visited.1,visited.2]; rfl
    · rw [if_neg]
      intro visited
      exact other (.inr (by simpa using visited))

theorem fault_kept (tracked : Tracked s) (harmless : Harmless m s (.fault va)) : Tracked (pageFault m s va) := by
  refine ⟨fun i _ => ?_,fun i due => by cases due⟩
  have same := tracked.rest i (harmless.1 i)
  by_cases hit : touched m s va i
  · rw [(fault_page m s va i).1 hit,unmark_eq_iff.mpr (harmless.2 i hit)]
    exact same
  · rw [(fault_page m s va i).2 hit]
    exact same

theorem fault_needed (tracked : Tracked s) (clean : Transparent (pageFault m s va)) :
    Harmless m s (.fault va) := by
  have none_ : ∀ i, s.pending i = false := by
    intro i
    by_contra due
    obtain ⟨left,taken⟩ := due_lost tracked (by simpa using due)
    by_cases hit : touched m s va i
    · exact taken (((fault_page m s va i).1 hit).symm.trans (clean i rfl))
    · exact left (((fault_page m s va i).2 hit).symm.trans (clean i rfl))
  refine ⟨none_,fun i hit => ?_⟩
  apply unmark_eq_iff.mp
  have after := clean i rfl
  rw [(fault_page m s va i).1 hit] at after
  exact after.trans (tracked.rest i (none_ i)).symm

theorem reverse_kept (tracked : Tracked s) (harmless : Harmless m s (.reverse va)) :
    Tracked (reverseL4AetMagic s va) := by
  have same : reverseL4AetMagic s va = s := by
    have page := unmark_eq_iff.mpr harmless.2
    simp only [reverseL4AetMagic,page,Function.update_eq_self]
    rw [← harmless.1,Function.update_eq_self]
  rw [same]
  exact tracked

theorem reverse_needed (tracked : Tracked s) (clean : Transparent (reverseL4AetMagic s va)) :
    Harmless m s (.reverse va) := by
  have after : unmark (s.page (l4TableOffset va)) = s.plain (l4TableOffset va) := by
    simpa [reverseL4AetMagic] using clean (l4TableOffset va) (by simp [reverseL4AetMagic])
  have waits : s.pending (l4TableOffset va) = false := by
    by_contra due
    exact (due_lost tracked (by simpa using due)).2 after
  exact ⟨waits,unmark_eq_iff.mp (after.trans (tracked.rest _ waits).symm)⟩

-- Up to and including the entry itself the copies of a marked entry go with
-- it; behind it the comparison is with the un-marked word and changes nothing.
theorem sweep_page (page : Index → U64) (j : Index) (present : isPresent (page j) = true) (k : Nat) (i : Index) :
    sweep j k page i = if i.val < k ∧ i ≤ j ∧ page i = page j then unmark (page j) else page i := by
  induction k generalizing i with
  | zero => simp [sweep]
  | succ k ih =>
    simp only [sweep]
    split
    · rename_i inside
      have here : sweep j k page ⟨k,inside⟩ = page ⟨k,inside⟩ := by rw [ih,if_neg (by simp)]
      have target : sweep j k page j = if j.val < k then unmark (page j) else page j := by rw [ih]; simp
      by_cases at_ : i = ⟨k,inside⟩
      · subst at_
        rw [here,target]
        by_cases passed : j.val < k
        · -- behind the entry itself: a match is already un-marked
          have behind : ¬ (k < k+1 ∧ (⟨k,inside⟩ : Index) ≤ j ∧ page ⟨k,inside⟩ = page j) := by
            rintro ⟨_,le,_⟩
            have bound : k ≤ j.val := le
            omega
          rw [if_pos passed,if_neg behind]
          split
          · rename_i found
            rw [Bool.and_eq_true,beq_iff_eq] at found
            rw [Function.update_self,found.2,unmark_again]
          · exact here
        · rw [if_neg passed]
          by_cases copy : page ⟨k,inside⟩ = page j
          · rw [copy,present,if_pos (by simp),Function.update_self,if_pos]
            exact ⟨by simp,by simp only [Fin.le_def]; omega,rfl⟩
          · rw [if_neg (by simp [copy]),if_neg (by simp [copy]),here]
      · have apart : i.val ≠ k := fun same => at_ (Fin.ext same)
        have kept : (if isPresent (sweep j k page ⟨k,inside⟩) && sweep j k page ⟨k,inside⟩ == sweep j k page j then
            Function.update (sweep j k page) ⟨k,inside⟩ (unmark (sweep j k page ⟨k,inside⟩))
            else sweep j k page) i = sweep j k page i := by
          split
          · exact Function.update_of_ne at_ _ _
          · rfl
        rw [kept,ih]
        simp only [show i.val < k ↔ i.val < k+1 by omega]
    · rename_i outside
      have small := i.isLt
      rw [ih]
      simp only [show i.val < k ↔ i.val < k+1 by omega]

theorem sweep_absent (page : Index → U64) (j : Index) (absent : isPresent (page j) = false) (k : Nat) :
    sweep j k page = page := by
  induction k with
  | zero => rfl
  | succ k ih =>
    simp only [sweep,ih]
    split
    · rename_i inside
      rw [if_neg]
      intro found
      rw [Bool.and_eq_true,beq_iff_eq] at found
      rw [found.2,absent] at found
      cases found.1
    · rfl

theorem swept_same (other : ¬ (shL1eIsAetMagic (s.page j) = true ∧ isPresent (s.page j) = true)) :
    swept s j = s := by
  have page : (if shL1eIsAetMagic (s.page j) then sweep j 512 s.page else s.page) = s.page := by
    split
    · rename_i looks
      exact sweep_absent s.page j (by simpa [looks] using other) 512
    · rfl
  simp only [swept,page,beq_self_eq_true,Bool.and_true]

theorem swept_page (looks : shL1eIsAetMagic (s.page j) = true) (present : isPresent (s.page j) = true) (i : Index) :
    (swept s j).page i = if i ≤ j ∧ s.page i = s.page j then unmark (s.page j) else s.page i := by
  simp only [swept,looks,if_true]
  rw [sweep_page s.page j present]
  simp [i.isLt]

theorem swept_lost (tracked : Tracked s) (looks : shL1eIsAetMagic (s.page j) = true)
    (present : isPresent (s.page j) = true) (le : i ≤ j) (copy : s.page i = s.page j) :
    (swept s j).pending i = false ∧ (swept s j).page i ≠ s.plain i := by
  have entry : (swept s j).page i = unmark (s.page i) := by
    rw [swept_page looks present,if_pos ⟨le,copy⟩,copy]
  have differs : unmark (s.page i) ≠ s.page i := magic_unmark_ne (by rw [copy]; exact looks)
  have waits : (swept s j).pending i = (s.pending i && (swept s j).page i == s.page i) := rfl
  refine ⟨by rw [waits,entry]; simp [differs],?_⟩
  rw [entry]
  cases due : s.pending i with
  | true => exact (due_lost tracked due).2
  | false => rw [← tracked.rest i due]; exact differs

theorem set_written (s : L4) (changes : s.page j ≠ new) (may : isPresent new = true → refOk = true) :
    shadowSetL4e s j new refOk =
      ⟨Function.update (swept s j).page j new,Function.update s.plain j new,
        Function.update (swept s j).pending j false⟩ := by
  have taken : (isPresent new && !refOk) = false := by
    cases at_ : isPresent new with
    | true => simp [may at_]
    | false => rfl
  simp only [shadowSetL4e,if_neg changes,taken]
  rfl

theorem written_tracked (tracked : Tracked s) (page : Index → U64) (pending : Index → Bool)
    (same : ∀ i, i ≠ j → page i = s.page i ∧ pending i = s.pending i) :
    Tracked ⟨Function.update page j new,Function.update s.plain j new,Function.update pending j false⟩ := by
  refine ⟨fun i settled => ?_,fun i due => ?_⟩
  · by_cases here : i = j
    · subst here; simp
    · simp only [Function.update_of_ne here] at settled ⊢
      rw [(same i here).1]
      exact tracked.rest i ((same i here).2 ▸ settled)
  · by_cases here : i = j
    · subst here; simp at due
    · simp only [Function.update_of_ne here] at due ⊢
      rw [(same i here).1]
      exact tracked.due i ((same i here).2 ▸ due)

theorem set_kept (tracked : Tracked s) (harmless : Harmless m s (.set j new refOk)) :
    Tracked (shadowSetL4e s j new refOk) := by
  by_cases found : shL1eIsAetMagic (s.page j) = true ∧ isPresent (s.page j) = true
  · obtain ⟨single,changes,may⟩ := harmless found.1 found.2
    rw [set_written s changes may]
    apply written_tracked tracked
    intro i other
    have entry : (swept s j).page i = s.page i := by
      rw [swept_page found.1 found.2,if_neg]
      rintro ⟨le,copy⟩
      exact single i (lt_of_le_of_ne le other) copy
    have waits : (swept s j).pending i = (s.pending i && (swept s j).page i == s.page i) := rfl
    exact ⟨entry,by rw [waits,entry]; simp⟩
  · simp only [shadowSetL4e,swept_same found]
    split
    · exact tracked
    · split
      · exact tracked
      · exact written_tracked tracked _ _ fun _ _ => ⟨rfl,rfl⟩

theorem set_needed (tracked : Tracked s) (clean : Transparent (shadowSetL4e s j new refOk)) :
    Harmless m s (.set j new refOk) := by
  intro looks present
  -- without the write, and for copies below the entry with it, the swept
  -- words are final
  have unswept : ∀ i, i ≤ j → s.page i = s.page j → (shadowSetL4e s j new refOk).page i = (swept s j).page i →
      (shadowSetL4e s j new refOk).pending i = (swept s j).pending i →
      (shadowSetL4e s j new refOk).plain i = s.plain i → False := by
    intro i le copy page pending plain_
    obtain ⟨settled,lost⟩ := swept_lost tracked looks present le copy
    have after := clean i (pending.trans settled)
    rw [page,plain_] at after
    exact lost after
  have changes : s.page j ≠ new := by
    intro same
    have early : shadowSetL4e s j new refOk = swept s j := by simp only [shadowSetL4e,if_pos same]
    exact unswept j le_rfl rfl (by rw [early]) (by rw [early]) (by rw [early]; rfl)
  have may : isPresent new = true → refOk = true := by
    intro there
    by_contra refused
    have early : shadowSetL4e s j new refOk = swept s j := by
      simp only [shadowSetL4e,if_neg changes,there,Bool.not_eq_true _ ▸ refused]; rfl
    exact unswept j le_rfl rfl (by rw [early]) (by rw [early]) (by rw [early]; rfl)
  refine ⟨fun i less copy => ?_,changes,may⟩
  have other : i ≠ j := ne_of_lt less
  have written := set_written s changes may
  refine unswept i (le_of_lt less) copy ?_ ?_ ?_ <;> rw [written] <;> exact Function.update_of_ne other _ _

theorem step_kept (s : L4) (event : Event) (next : L4) (tracked : Tracked s) (harmless : Harmless m s event)
    (ran : step m s event = some next) : Tracked next := by
  cases event with
  | mark => cases ran; exact mark_tracked tracked
  | fault va => cases ran; exact fault_kept tracked harmless
  | reverse va => cases ran; exact reverse_kept tracked harmless
  | set j new refOk => cases ran; exact set_kept tracked harmless

theorem step_needed (s : L4) (event : Event) (next : L4) (tracked : Tracked s)
    (ran : step m s event = some next) (clean : Transparent next) : Harmless m s event := by
  cases event with
  | mark => trivial
  | fault va => cases ran; exact fault_needed tracked clean
  | reverse va => cases ran; exact reverse_needed tracked clean
  | set j new refOk => cases ran; exact set_needed tracked clean

-- For every page content and every order of marking and un-marking: tracking
-- is transparent exactly as long as no mark is ever taken back.
theorem tracking_transparent_iff (m : Mode) (page : Index → U64) (events : List Event) :
    (∀ first, first <+: events → ∀ s, Run.run (step m) (untracked page) first = some s → Transparent s) ↔
      Run.Guarded (Harmless m) (step m) (untracked page) events := by
  apply Run.guarded_exact (P:=Tracked) (Q:=Transparent)
  · exact fun _ tracked => tracked.rest
  · intro s event
    cases event <;> exact ⟨_,rfl⟩
  · exact step_kept
  · exact step_needed
  · exact ⟨fun _ _ => rfl,fun _ due => by cases due⟩

end

def onePage (i : Index) : U64 := if i.val = 0 then 0x1067 else 0

theorem mark_not_taken_back :
    ∃ s, Run.run (step ⟨true,false⟩) (untracked onePage) [.mark,.fault 0] = some s ∧
      s.pending 0 = false ∧ s.plain 0 = 0x1067 ∧ s.page 0 = 0x8007ff0000001067 :=
  ⟨_,rfl,by decide,by decide,by decide⟩

end XenAet.L4Track
