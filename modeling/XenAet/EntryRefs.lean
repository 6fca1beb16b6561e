import Mathlib.Algebra.BigOperators.Fin
import XenAet.ShadowEntry
import XenAet.Library.Run
import XenAet.Library.Counting

namespace XenAet.EntryRefs
open AetControl PageEntry Propagate ShadowEntry Library

abbrev Slot := U64 × Fin 512

-- The shadow L1 entries of one refcounting domain. `before` is a ghost: what a
-- marked slot held before it was marked. `refs` counts, for every machine
-- frame, the references taken less those dropped for these entries.
structure Shadows where
  live : Finset U64
  entry : Slot → U64
  before : Slot → Option U64
  refs : U64 → Int

def empty : Shadows := ⟨∅,fun _ => shadowL1eEmpty,fun _ => none,fun _ => 0⟩

-- `is_iomem_page`: no page structure, or owned by `dom_io`. For such a frame no
-- reference is taken or dropped.
section
variable (iomem : U64 → Bool)

def refFrame (sl1e : U64) : Option U64 :=
  if isPresent sl1e && !iomem (l1eGetPfn sl1e) then some (l1eGetPfn sl1e) else none

def move (delta : Int) (sl1e : U64) (refs : U64 → Int) : U64 → Int :=
  match refFrame iomem sl1e with
  | some f => Function.update refs f (refs f + delta)
  | none => refs

def getPageFromL1e (sl1e : U64) (refs : U64 → Int) : U64 → Int := move iomem 1 sl1e refs
def putPageFromL1e (sl1e : U64) (refs : U64 → Int) : U64 → Int := move iomem (-1) sl1e refs

inductive Event where
  | make (smfn : U64)
  | set (slot : Slot) (new : U64) (refused : Bool)
  | pending (smfn : U64)
  | fault (slot : Slot)
  | destroy (smfn : U64)
  deriving DecidableEq

def setSlot (s : Shadows) (slot : Slot) (new : U64) (refused : Bool) : Shadows :=
  let done := shadowSetL1e true refused (s.entry slot) new
  let refs := done.got.elim s.refs (getPageFromL1e iomem · s.refs)
  let refs := done.put.elim refs (putPageFromL1e iomem · refs)
  let before := if done.changed then Function.update s.before slot none else s.before
  {s with entry := Function.update s.entry slot done.entry,before,refs}

def markSlot (s : Shadows) (slot : Slot) : Shadows :=
  if markable (s.entry slot) then
    let before := Function.update s.before slot (some (s.entry slot))
    {s with entry := Function.update s.entry slot (marked (s.entry slot)),before}
  else s

def setPending (s : Shadows) (smfn : U64) : Shadows := markSlot (markSlot s (smfn,0)) (smfn,1)

def clearSlot (s : Shadows) (slot : Slot) : Shadows :=
  {s with entry := Function.update s.entry slot 0,before := Function.update s.before slot none}

def reverseL1AetMagic (s : Shadows) (slot : Slot) : Shadows :=
  if shL1eIsAetMagic (s.entry slot) then clearSlot s slot else s

def dropRow (row : Fin 512 → U64) (list : List (Fin 512)) (refs : U64 → Int) : U64 → Int :=
  list.foldl (fun refs i => if isMapping (row i) then putPageFromL1e iomem (row i) refs else refs) refs

def shDestroyL1Shadow (s : Shadows) (smfn : U64) : Shadows :=
  let refs := dropRow iomem (fun i => s.entry (smfn,i)) (List.finRange 512) s.refs
  {s with live := s.live.erase smfn,refs}

def makeShadow (s : Shadows) (smfn : U64) : Shadows :=
  let entry (slot : Slot) : U64 := if slot.1 = smfn then shadowL1eEmpty else s.entry slot
  let before (slot : Slot) : Option U64 := if slot.1 = smfn then none else s.before slot
  {s with live := insert smfn s.live,entry,before}

def step (s : Shadows) : Event → Option Shadows
  | .make smfn => if smfn ∈ s.live then none else some (makeShadow s smfn)
  | .set slot new refused => if slot.1 ∈ s.live then some (setSlot iomem s slot new refused) else none
  | .pending smfn => some (if smfn ∈ s.live then setPending s smfn else s)
  | .fault slot => if slot.1 ∈ s.live then some (reverseL1AetMagic s slot) else none
  | .destroy smfn => if smfn ∈ s.live then some (shDestroyL1Shadow iomem s smfn) else none

end

-- What a slot stands for: a marked one for the entry it was.
def standing (s : Shadows) (slot : Slot) : U64 := (s.before slot).getD (s.entry slot)

def mapping (s : Shadows) (f : U64) : Finset Slot :=
  (s.live ×ˢ Finset.univ).filter fun slot => isMapping (standing s slot) = true ∧ l1eGetPfn (standing s slot) = f

section
variable {iomem : U64 → Bool} {s next : Shadows}

def held (iomem : U64 → Bool) (sl1e : U64) : Option U64 :=
  if isMapping sl1e then refFrame iomem sl1e else none

def share (iomem : U64 → Bool) (f sl1e : U64) : Int := if held iomem sl1e = some f then 1 else 0

def tally (iomem : U64 → Bool) (s : Shadows) (f : U64) : Int :=
  ∑ slot ∈ s.live ×ˢ Finset.univ, share iomem f (standing s slot)

theorem share_unmapped (other : isMapping sl1e = false) : share iomem f sl1e = 0 := by
  simp [share,held,other]

theorem share_empty : share iomem f shadowL1eEmpty = 0 := share_unmapped (by decide)

theorem move_mapping (mapped : isMapping sl1e = true) :
    move iomem delta sl1e refs f = refs f + delta * share iomem f sl1e := by
  cases at_ : refFrame iomem sl1e with
  | none => simp [move,at_,share,held]
  | some g =>
    by_cases same : f = g
    · subst same; simp [move,at_,share,held,mapped]
    · simp [move,at_,share,held,mapped,same,Ne.symm same]

theorem set_refs (s : Shadows) (slot : Slot) (new : U64) (refused : Bool) (f : U64) :
    (setSlot iomem s slot new refused).refs f = s.refs f +
      share iomem f (shadowSetL1e true refused (s.entry slot) new).entry - share iomem f (s.entry slot) := by
  by_cases same : s.entry slot = new
  · simp [setSlot,shadowSetL1e,same]
  have put : ∀ refs : U64 → Int,
      (if isMapping (s.entry slot) then some (s.entry slot) else none).elim refs
        (putPageFromL1e iomem · refs) f = refs f - share iomem f (s.entry slot) := by
    intro refs
    cases old : isMapping (s.entry slot) with
    | true => simp [putPageFromL1e,move_mapping old,sub_eq_add_neg]
    | false => simp [share_unmapped old]
  cases counted : isMapping new with
  | false => simp [setSlot,shadowSetL1e,same,counted,put,share_unmapped counted]
  | true =>
    cases refused with
    | true => simp [setSlot,shadowSetL1e,same,counted,put,share_empty]
    | false => simp [setSlot,shadowSetL1e,same,counted,put,getPageFromL1e,move_mapping counted]

theorem set_standing (s : Shadows) (slot : Slot) (new : U64) (refused : Bool) (changes : s.entry slot ≠ new) :
    standing (setSlot iomem s slot new refused) = Function.update (standing s) slot
      (shadowSetL1e true refused (s.entry slot) new).entry := by
  funext x
  by_cases here : x = slot
  · subst here; simp [standing,setSlot,shadowSetL1e,changes]
  · simp [standing,setSlot,shadowSetL1e,changes,here]

theorem set_nothing (s : Shadows) (slot : Slot) (refused : Bool) :
    setSlot iomem s slot (s.entry slot) refused = s := by
  simp [setSlot,shadowSetL1e]

def Marks (s : Shadows) : Prop := ∀ slot, s.before slot ≠ none → shL1eIsAetMagic (s.entry slot) = true

theorem aet_magic_not_markable (looks : shL1eIsAetMagic sl1e = true) : markable sl1e = false := by
  have some_ : Masks.anyOf sl1e shL1eAetMagic = true :=
    Masks.anyOf_iff.mpr ⟨10,Masks.allOf_iff.mp looks 10 (by decide),by decide⟩
  simp [markable,some_]

theorem mark_standing (marks : Marks s) (slot : Slot) : standing (markSlot s slot) = standing s := by
  unfold markSlot
  split
  · rename_i may
    have clean : s.before slot = none := by
      by_contra was
      rw [aet_magic_not_markable (marks slot was)] at may
      cases may
    funext x
    by_cases here : x = slot
    · subst here; simp [standing,clean]
    · simp [standing,here]
  · rfl

theorem mark_marks (marks : Marks s) (slot : Slot) : Marks (markSlot s slot) := by
  unfold markSlot
  split
  · intro x was
    by_cases here : x = slot
    · subst here; simp [marked_is_aet_magic]
    · simp only [Function.update_of_ne here] at was ⊢
      exact marks x was
  · exact marks

theorem mark_same (s : Shadows) (slot : Slot) : (markSlot s slot).live = s.live ∧ (markSlot s slot).refs = s.refs := by
  unfold markSlot
  split <;> exact ⟨rfl,rfl⟩

structure Conserved (iomem : U64 → Bool) (s : Shadows) : Prop where
  balance : ∀ f, s.refs f = tally iomem s f
  marks : Marks s

theorem mark_conserved (kept : Conserved iomem s) (slot : Slot) : Conserved iomem (markSlot s slot) := by
  refine ⟨fun f => ?_,mark_marks kept.marks slot⟩
  rw [(mark_same s slot).2,tally,(mark_same s slot).1,mark_standing kept.marks]
  exact kept.balance f

-- The steps that keep the count: no entry is overwritten, reversed or
-- destroyed while the frame its word names is not the one it stands for.
def Settled (iomem : U64 → Bool) (s : Shadows) : Event → Prop
  | .set slot new _ => s.entry slot = new ∨ held iomem (s.entry slot) = held iomem (standing s slot)
  | .fault slot => shL1eIsAetMagic (s.entry slot) = true → held iomem (standing s slot) = none
  | .destroy smfn => ∀ i, held iomem (s.entry (smfn,i)) = held iomem (standing s (smfn,i))
  | _ => True

instance (iomem : U64 → Bool) (s : Shadows) : ∀ event, Decidable (Settled iomem s event)
  | .make _ => .isTrue trivial
  | .set _ _ _ => inferInstanceAs (Decidable (_ ∨ _))
  | .pending _ => .isTrue trivial
  | .fault _ => inferInstanceAs (Decidable (_ → _))
  | .destroy _ => inferInstanceAs (Decidable (∀ _, _ = _))

theorem tally_update (inside : slot.1 ∈ s.live) (f v : U64) :
    ∑ x ∈ s.live ×ˢ Finset.univ, share iomem f (Function.update (standing s) slot v x) =
      tally iomem s f - share iomem f (standing s slot) + share iomem f v := by
  have here : slot ∈ s.live ×ˢ (Finset.univ : Finset (Fin 512)) := by simp [inside]
  have moved : ∑ x ∈ s.live ×ˢ Finset.univ, share iomem f (Function.update (standing s) slot v x) +
      share iomem f (standing s slot) = tally iomem s f + share iomem f v :=
    Tally.sum_update (share iomem f) (standing s) here v
  omega

theorem set_conserved (kept : Conserved iomem s) (inside : slot.1 ∈ s.live)
    (settled : Settled iomem s (.set slot new refused)) : Conserved iomem (setSlot iomem s slot new refused) := by
  by_cases changes : s.entry slot = new
  · rw [← changes,set_nothing]; exact kept
  have same : held iomem (s.entry slot) = held iomem (standing s slot) := settled.resolve_left changes
  refine ⟨fun f => ?_,fun x was => ?_⟩
  · have live : (setSlot iomem s slot new refused).live = s.live := rfl
    rw [set_refs,tally,live,set_standing s slot new refused changes,tally_update inside,kept.balance,
      share,share,share,same]
    omega
  · by_cases here : x = slot
    · subst here; simp [setSlot,shadowSetL1e,changes] at was
    · simp only [setSlot,shadowSetL1e,changes,if_false,if_true,Function.update_of_ne here] at was ⊢
      exact kept.marks x was

theorem clear_standing (s : Shadows) (slot : Slot) :
    standing (clearSlot s slot) = Function.update (standing s) slot 0 := by
  funext x
  by_cases here : x = slot
  · subst here; simp [standing,clearSlot]
  · simp [standing,clearSlot,here]

theorem fault_conserved (kept : Conserved iomem s) (inside : slot.1 ∈ s.live)
    (settled : Settled iomem s (.fault slot)) : Conserved iomem (reverseL1AetMagic s slot) := by
  unfold reverseL1AetMagic
  split
  · rename_i looks
    refine ⟨fun f => ?_,fun x was => ?_⟩
    · have live : (clearSlot s slot).live = s.live := rfl
      have gone : share iomem f 0 = 0 := share_empty
      have refs : (clearSlot s slot).refs f = s.refs f := rfl
      have lost : share iomem f (standing s slot) = 0 := by simp [share,settled looks]
      rw [tally,live,clear_standing,tally_update inside,lost,gone,refs,kept.balance]
      omega
    · by_cases here : x = slot
      · subst here; simp [clearSlot] at was
      · simp only [clearSlot,Function.update_of_ne here] at was ⊢
        exact kept.marks x was
  · exact kept

theorem tally_rows (s : Shadows) (f : U64) :
    tally iomem s f = ∑ m ∈ s.live, ∑ i, share iomem f (standing s (m,i)) := by
  rw [tally,Finset.sum_product]

theorem drop_refs (row : Fin 512 → U64) (list : List (Fin 512)) (refs : U64 → Int) (f : U64) :
    dropRow iomem row list refs f = refs f - (list.map fun i => share iomem f (row i)).sum := by
  induction list generalizing refs with
  | nil => simp [dropRow]
  | cons i rest ih =>
    rw [dropRow,List.foldl_cons,← dropRow,ih,List.map_cons,List.sum_cons]
    cases mapped : isMapping (row i) with
    | true =>
      simp only [if_true,putPageFromL1e,move_mapping mapped]
      omega
    | false => simp [share_unmapped mapped]

theorem destroy_refs (s : Shadows) (smfn f : U64) :
    (shDestroyL1Shadow iomem s smfn).refs f = s.refs f - ∑ i, share iomem f (s.entry (smfn,i)) := by
  simp only [shDestroyL1Shadow,drop_refs,Fin.sum_univ_def]

theorem destroy_conserved (kept : Conserved iomem s) (inside : smfn ∈ s.live)
    (settled : Settled iomem s (.destroy smfn)) : Conserved iomem (shDestroyL1Shadow iomem s smfn) := by
  refine ⟨fun f => ?_,kept.marks⟩
  have row : ∑ i, share iomem f (s.entry (smfn,i)) = ∑ i, share iomem f (standing s (smfn,i)) :=
    Finset.sum_congr rfl fun i _ => by rw [share,share,settled i]
  have rest : tally iomem (shDestroyL1Shadow iomem s smfn) f =
      ∑ m ∈ s.live.erase smfn, ∑ i, share iomem f (standing s (m,i)) := tally_rows _ f
  have whole := Finset.add_sum_erase s.live (fun m => ∑ i, share iomem f (standing s (m,i))) inside
  rw [destroy_refs,row,rest,kept.balance,tally_rows]
  omega

theorem make_standing (s : Shadows) (smfn : U64) (slot : Slot) :
    standing (makeShadow s smfn) slot = if slot.1 = smfn then shadowL1eEmpty else standing s slot := by
  by_cases here : slot.1 = smfn <;> simp [standing,makeShadow,here]

theorem make_conserved (kept : Conserved iomem s) (unused : smfn ∉ s.live) :
    Conserved iomem (makeShadow s smfn) := by
  refine ⟨fun f => ?_,fun x was => ?_⟩
  · have row : ∑ i, share iomem f (standing (makeShadow s smfn) (smfn,i)) = 0 :=
      Finset.sum_eq_zero fun i _ => by rw [make_standing,if_pos rfl,share_empty]
    have others : ∑ m ∈ s.live, ∑ i, share iomem f (standing (makeShadow s smfn) (m,i)) =
        ∑ m ∈ s.live, ∑ i, share iomem f (standing s (m,i)) := by
      apply Finset.sum_congr rfl
      intro m member
      have apart : m ≠ smfn := fun same => unused (same ▸ member)
      simp only [make_standing,if_neg apart]
    have live : (makeShadow s smfn).live = insert smfn s.live := rfl
    have refs : (makeShadow s smfn).refs f = s.refs f := rfl
    rw [tally_rows,live,Finset.sum_insert unused,row,others,zero_add,← tally_rows,refs]
    exact kept.balance f
  · by_cases here : x.1 = smfn
    · simp [makeShadow,here] at was
    · simp only [makeShadow,if_neg here] at was ⊢
      exact kept.marks x was

theorem step_conserved (s : Shadows) (event : Event) (next : Shadows) (kept : Conserved iomem s)
    (settled : Settled iomem s event) (ran : step iomem s event = some next) : Conserved iomem next := by
  cases event with
  | make smfn =>
    obtain ⟨unused,same⟩ := Option.ite_none_left_eq_some.mp ran
    cases same
    exact make_conserved kept unused
  | set slot new refused =>
    obtain ⟨inside,same⟩ := Option.ite_none_right_eq_some.mp ran
    cases same
    exact set_conserved kept inside settled
  | pending smfn =>
    cases ran
    split
    · exact mark_conserved (mark_conserved kept _) _
    · exact kept
  | fault slot =>
    obtain ⟨inside,same⟩ := Option.ite_none_right_eq_some.mp ran
    cases same
    exact fault_conserved kept inside settled
  | destroy smfn =>
    obtain ⟨inside,same⟩ := Option.ite_none_right_eq_some.mp ran
    cases same
    exact destroy_conserved kept inside settled

theorem run_conserved (settled : Run.Guarded (Settled iomem) (step iomem) empty events)
    (ran : Run.run (step iomem) empty events = some s) : Conserved iomem s :=
  Run.guarded_invariant step_conserved ⟨fun _ => rfl,fun _ was => absurd rfl was⟩ settled ran

theorem tally_mapping (counted : iomem f = false) : tally iomem s f = (mapping s f).card := by
  have same : ∀ sl1e, held iomem sl1e = some f ↔ (isMapping sl1e = true ∧ l1eGetPfn sl1e = f) := by
    intro sl1e
    rw [held,Option.ite_none_right_eq_some]
    apply and_congr_right
    intro mapped
    have present : isPresent sl1e = true := (Bool.and_eq_true _ _ ▸ mapped).1
    rw [refFrame,Option.ite_none_right_eq_some]
    constructor
    · intro at_; exact Option.some.inj at_.2
    · rintro rfl
      simp [present,counted]
  simp only [tally,share,same,mapping,Finset.sum_boole]

-- In a run whose steps are all settled the references on a frame are the
-- entries that map it, and none is left when the last L1 shadow is gone.
theorem settled_runs_conserve (settled : Run.Guarded (Settled iomem) (step iomem) empty events)
    (ran : Run.run (step iomem) empty events = some s) :
    (∀ f, iomem f = false → s.refs f = (mapping s f).card) ∧ (s.live = ∅ → ∀ f, s.refs f = 0) := by
  have kept := run_conserved settled ran
  refine ⟨fun f counted => ?_,fun gone f => ?_⟩
  · rw [kept.balance,tally_mapping counted]
  · rw [kept.balance,tally,gone]; rfl

end

def highFrames (f : U64) : Bool := 0x100000 ≤ f

def mapped : List Event := [.make 0x900,.set (0x900,0) 0x80027 false]

theorem settled_runs_conserve_map :
    ∃ s, Run.run (step highFrames) empty (mapped ++ [.pending 0x900]) = some s ∧
      s.refs 0x80 = (mapping s 0x80).card := by
  obtain ⟨s,ran⟩ := Option.isSome_iff_exists.mp
    (show (Run.run (step highFrames) empty (mapped ++ [.pending 0x900])).isSome = true by decide +kernel)
  have settled : Run.Guarded (Settled highFrames) (step highFrames) empty (mapped ++ [.pending 0x900]) := by
    decide +kernel
  exact ⟨s,ran,(settled_runs_conserve settled ran).1 0x80 (by decide)⟩

-- The mark turns the frame into one with bit 39 set, and the fault drops the
-- whole word: the reference outlives the last shadow.
theorem reversed_entry_leaks :
    ∃ s, Run.run (step highFrames) empty (mapped ++ [.pending 0x900,.fault (0x900,0),.destroy 0x900]) = some s ∧
      s.live = ∅ ∧ s.refs 0x80 ≠ 0 := by
  obtain ⟨s,ran⟩ := Option.isSome_iff_exists.mp (show (Run.run (step highFrames) empty
    (mapped ++ [.pending 0x900,.fault (0x900,0),.destroy 0x900])).isSome = true by decide +kernel)
  have gone : (Run.run (step highFrames) empty
    (mapped ++ [.pending 0x900,.fault (0x900,0),.destroy 0x900])).map Shadows.live = some ∅ := by decide +kernel
  have left : (Run.run (step highFrames) empty (mapped ++ [.pending 0x900,.fault (0x900,0),.destroy 0x900])).map
    (fun s => s.refs 0x80) = some 1 := by decide +kernel
  rw [ran] at gone left
  have one : s.refs 0x80 = 1 := Option.some.inj left
  exact ⟨s,ran,Option.some.inj gone,by rw [one]; decide⟩

end XenAet.EntryRefs
