import XenAet.PendingFlush

namespace XenAet.PendingTlb
open AetControl ShadowPool PendingMarks PendingFlush Library

-- A user translation of the page numbered `page` that a CPU has loaded through
-- the L1 shadow `sl1mfn`; the CPU may use it until it flushes that page.
structure Translation where
  cpu : Nat
  page : Nat
  sl1mfn : U64
  deriving DecidableEq,Repr

-- `recorded` are the calls of `add_to_pending_page` since the last marking,
-- those that the function dropped included.
structure Machine where
  system : System
  tlb : List Translation
  recorded : List (U64 × U64)

inductive Event where
  | call (cpu : Nat) (event : PendingMarks.Event)
  | load (cpu : Nat) (va sl1mfn : U64)
  | flush (cpu : Nat) (va : U64)

def region (va : U64) : Nat := va.toNat / 2^21
def pageOf (va : U64) : Nat := va.toNat / 2^12

def allows (p : Pool) (sl1mfn va : U64) : Bool := userAccess (entryOf (p.page sl1mfn) (PageFault.l1TableOffset va).val)

-- `flush_tlb_one_local` reaches the CPU that runs it and no other.
def flushOneLocal (cpu : Nat) (va : U64) (tlb : List Translation) : List Translation :=
  tlb.filter fun t => !(t.cpu == cpu && t.page == pageOf va)

def flushMarked (cpu : Nat) (marks : List Marking) (tlb : List Translation) : List Translation :=
  marks.foldl (fun tlb m => flushOneLocal cpu m.va tlb) tlb

def recordedAfter (recorded : List (U64 × U64)) : PendingMarks.Event → List (U64 × U64)
  | .add sl1mfn va => recorded ++ [(sl1mfn,va)]
  | .setPending => []
  | _ => recorded

def tlbAfter (s : Machine) (cpu : Nat) : PendingMarks.Event → List Translation
  | .setPending => flushMarked cpu (markings s.system.pool s.system.pds) s.tlb
  | _ => s.tlb

def step (s : Machine) : Event → Option Machine
  | .call cpu event => (PendingMarks.step s.system event).map (⟨·,tlbAfter s cpu event,recordedAfter s.recorded event⟩)
  | .load cpu va sl1mfn =>
    if allows s.system.pool sl1mfn va then some ⟨s.system,⟨cpu,pageOf va,sl1mfn⟩ :: s.tlb,s.recorded⟩ else none
  | .flush cpu va => some ⟨s.system,flushOneLocal cpu va s.tlb,s.recorded⟩

-- A user access at `va` through `sl1mfn` goes through without a fault.
def Completes (s : Machine) (cpu : Nat) (va sl1mfn : U64) : Prop :=
  ⟨cpu,pageOf va,sl1mfn⟩ ∈ s.tlb ∨ allows s.system.pool sl1mfn va = true

instance : Decidable (Completes s cpu va sl1mfn) := inferInstanceAs (Decidable (_ ∨ _))

-- Between `s` and `next` the pending pages were marked: in every recorded
-- range an access through a marked entry faults.
def Seen (s next : Machine) : Prop :=
  ∀ m ∈ markings s.system.pool s.system.pds, ∀ r ∈ s.recorded, r.1 = m.sl1mfn →
    ∀ va, region va = region r.2 → (PageFault.l1TableOffset va).val = m.index → ∀ cpu, ¬ Completes next cpu va m.sl1mfn

-- The marking CPU is the only one with translations through the first entries
-- of the pending pages, and one shadow is recorded in one 2MB range only.
def Local (s : Machine) : Event → Prop
  | .call cpu .setPending => ∀ t ∈ s.tlb, t.page % 512 < consecutiveSetPage →
      (∃ node ∈ s.system.pds, node.sl1mfn = t.sl1mfn) → t.cpu = cpu
  | .call _ (.add sl1mfn va) => ∀ r ∈ s.recorded, r.1 = sl1mfn → region r.2 = region va
  | _ => True

instance (s : Machine) : ∀ event, Decidable (Local s event)
  | .call _ .setPending => inferInstanceAs (Decidable (∀ _ ∈ _, _ → _ → _))
  | .call _ (.add _ _) => List.decidableBAll _ _
  | .call _ (.alloc _ _ _) | .call _ (.free _) | .call _ (.grow _ _) | .call _ (.shrink _ _) | .call _ (.giveGuest _ _)
  | .call _ (.setTypeInfo _ _) | .call _ (.takeGuest _ _) | .call _ (.store _ _ _) | .load _ _ _ | .flush _ _ => .isTrue trivial

structure Inv (s : Machine) : Prop where
  kept : ∀ node ∈ s.system.pds, ∃ va, (node.sl1mfn,va) ∈ s.recorded ∧ node.va = vaStart va
  one : ∀ r ∈ s.recorded, ∀ r' ∈ s.recorded, r.1 = r'.1 → region r.2 = region r'.2

variable {s next : Machine} {t : Translation} {m : Marking} {node : Node}

theorem flushed_iff (marks : List Marking) (tlb : List Translation) : t ∈ flushMarked cpu marks tlb ↔
    t ∈ tlb ∧ ∀ m ∈ marks, ¬ (t.cpu = cpu ∧ t.page = pageOf m.va) := by
  induction marks generalizing tlb with
  | nil => simp [flushMarked]
  | cons m rest ih =>
    rw [flushMarked,List.foldl_cons,← flushMarked,ih,flushOneLocal]
    simp only [List.mem_filter,Bool.not_eq_true',Bool.and_eq_false_iff,beq_eq_false_iff_ne,List.forall_mem_cons,not_and_or,
      and_assoc]

theorem nothing_pending : Inv ⟨⟨pool,[]⟩,tlb,[]⟩ := ⟨(fun _ member => by cases member),fun _ member => by cases member⟩

theorem other_inv (inv : Inv s) (pds : next.system.pds = s.system.pds) (recorded : next.recorded = s.recorded) : Inv next := by
  refine ⟨?_,?_⟩
  · rw [pds,recorded]
    exact inv.kept
  · rw [recorded]
    exact inv.one

theorem add_inv (inv : Inv s) (near : ∀ r ∈ s.recorded, r.1 = sl1mfn → region r.2 = region va) :
    Inv ⟨addToPendingPage s.system sl1mfn va,s.tlb,s.recorded ++ [(sl1mfn,va)]⟩ := by
  refine ⟨fun node member => ?_,fun r member r' member' same => ?_⟩
  · rcases add_node member with old | ⟨owner,start⟩
    · obtain ⟨va',called,start⟩ := inv.kept node old
      exact ⟨va',List.mem_append_left _ called,start⟩
    · exact ⟨va,by simp [owner],start⟩
  · rcases List.mem_append.mp member with before | new <;> rcases List.mem_append.mp member' with before' | new'
    · exact inv.one r before r' before' same
    · rw [List.mem_singleton.mp new'] at same ⊢
      exact near r before same
    · rw [List.mem_singleton.mp new] at same ⊢
      exact (near r' before' same.symm).symm
    · rw [List.mem_singleton.mp new,List.mem_singleton.mp new']

theorem recorded_other (event : PendingMarks.Event) (mark : event ≠ .setPending) (add : ∀ sl1mfn va, event ≠ .add sl1mfn va) :
    recordedAfter recorded event = recorded := by
  cases event with
  | setPending => exact absurd rfl mark
  | add sl1mfn va => exact absurd rfl (add sl1mfn va)
  | _ => rfl

theorem step_inv (s : Machine) (event : Event) (next : Machine) (inv : Inv s) (near : Local s event)
    (ran : step s event = some next) : Inv next := by
  cases event with
  | load cpu va sl1mfn =>
    obtain ⟨_,same⟩ := Option.ite_none_right_eq_some.mp ran
    cases same
    exact other_inv inv rfl rfl
  | flush cpu va => cases ran; exact other_inv inv rfl rfl
  | call cpu event =>
    obtain ⟨system,called,rfl⟩ := Option.map_eq_some_iff.mp ran
    rcases step_pds event called with ⟨sl1mfn,va,rfl,rfl⟩ | ⟨rfl,_⟩ | ⟨same,mark,add⟩
    · exact add_inv inv near
    · cases called
      exact nothing_pending
    · exact other_inv inv same (recorded_other event mark add)

-- The page flushed for a mark is the one of every va of the kept range.
theorem flushed_page (start : node.va = vaStart va) (small : m.index < 512)
    (flushed : m.va = node.va + BitVec.ofNat 64 (m.index*2^12)) (near : region va' = region va)
    (place : (PageFault.l1TableOffset va').val = m.index) : pageOf m.va = pageOf va' := by
  have offset : (PageFault.l1TableOffset va').val = va'.toNat / 2^12 % 512 := rfl
  rw [offset] at place
  rw [pageOf,pageOf,flushed,start,flushed_toNat va small]
  rw [region,region] at near
  omega

theorem seen_of_inv (inv : Inv s) (alone : Local s (.call cpu .setPending)) (ran : step s (.call cpu .setPending) = some next) :
    Seen s next := by
  cases ran
  intro m member r called same va near place other
  obtain ⟨node,listed,owner,small,flushed⟩ := markings_node member
  rintro (cached | walked)
  · obtain ⟨loaded,missed⟩ := (flushed_iff _ _).mp cached
    have low : pageOf va % 512 < consecutiveSetPage := by
      rw [← place] at small
      exact small
    have here : other = cpu := alone _ loaded low ⟨node,listed,owner.symm⟩
    obtain ⟨va',kept,start⟩ := inv.kept node listed
    have region_ := inv.one r called _ kept (same.trans owner)
    have wide : consecutiveSetPage ≤ 512 := by decide
    exact missed m member ⟨here,(flushed_page start (by omega) flushed (near.trans region_) place).symm⟩
  · rw [allows,place] at walked
    have away := marking_away (p:=s.system.pool) member
    exact Bool.false_ne_true (away.symm.trans walked)

def begin_ (pool : Pool) (tlb : List Translation) : Machine := ⟨⟨pool,[]⟩,tlb,[]⟩

theorem marked_access_seen (near : Run.Guarded Local step (begin_ pool tlb) events)
    (ran : Run.run step (begin_ pool tlb) events = some s) (alone : Local s (.call cpu .setPending))
    (marks : step s (.call cpu .setPending) = some next) : Seen s next :=
  seen_of_inv (Run.guarded_invariant step_inv nothing_pending near ran) alone marks

-- Entry 1 of the shadow 0x900 is recorded at address 0 and used by the given CPUs.
theorem one_lt_entries : 1 < 512 := by decide

def usedBy (cpus : List Nat) : List Event :=
  (recordOne ++ [PendingMarks.Event.store 0x900 ⟨1,one_lt_entries⟩ 0x80027]).map (.call 0) ++ cpus.map (.load · 0x1000 0x900)

theorem marked_access_seen_one : ∃ s next, Run.run step (begin_ heapOnly []) (usedBy [0]) = some s ∧
    step s (.call 0 .setPending) = some next ∧ Completes s 0 0x1000 0x900 ∧ ¬ Completes next 0 0x1000 0x900 := by
  have near : Run.Guarded Local step (begin_ heapOnly []) (usedBy [0]) := by decide +kernel
  obtain ⟨s,ran,alone,marks,called,used⟩ := Run.run_reaches (s:=begin_ heapOnly [])
    (P:=fun s => Local s (.call 0 .setPending) ∧ markings s.system.pool s.system.pds = [⟨0x900,1,0x1000⟩] ∧
      s.recorded = [(0x900,0)] ∧ Completes s 0 0x1000 0x900)
    (show (Run.run step _ (usedBy [0])).any _ = true by decide +kernel)
  refine ⟨s,_,ran,rfl,used,?_⟩
  exact marked_access_seen near ran alone rfl ⟨0x900,1,0x1000⟩ (by simp [marks]) (0x900,0) (by simp [called]) rfl 0x1000 rfl rfl 0

-- A marked entry that stays usable at an address of the recorded range.
theorem missed_of (events : List Event) (cpu : Nat) (range va : U64)
    (seen : (Run.run step (begin_ heapOnly []) events).any (fun s => decide (⟨0x900,1,0x1000⟩ ∈ markings s.system.pool s.system.pds ∧
      (0x900,range) ∈ s.recorded ∧ (step s (.call 0 .setPending)).any (fun next => Completes next cpu va 0x900) = true)) = true) :
    ∃ s next, Run.run step (begin_ heapOnly []) events = some s ∧ step s (.call 0 .setPending) = some next ∧
      ⟨0x900,1,0x1000⟩ ∈ markings s.system.pool s.system.pds ∧ (0x900,range) ∈ s.recorded ∧ Completes next cpu va 0x900 := by
  obtain ⟨s,ran,marked,called,kept⟩ := Run.run_reaches seen
  exact ⟨s,_,ran,rfl,marked,called,of_decide_eq_true kept⟩

-- A second CPU keeps its translation, and so does the marking CPU for a second
-- range of the same shadow.
theorem marked_access_missed :
    (∃ s next, Run.run step (begin_ heapOnly []) (usedBy [0,1]) = some s ∧ step s (.call 0 .setPending) = some next ∧
      ⟨0x900,1,0x1000⟩ ∈ markings s.system.pool s.system.pds ∧ (0x900,0) ∈ s.recorded ∧ Completes next 1 0x1000 0x900) ∧
    ∃ s next, Run.run step (begin_ heapOnly []) (usedBy [0] ++ [.call 0 (.add 0x900 0x200000),.load 0 0x201000 0x900]) = some s ∧
      step s (.call 0 .setPending) = some next ∧ ⟨0x900,1,0x1000⟩ ∈ markings s.system.pool s.system.pds ∧
        (0x900,0x200000) ∈ s.recorded ∧ Completes next 0 0x201000 0x900 := by
  exact ⟨missed_of _ 1 0 0x1000 (by decide +kernel),missed_of _ 0 0x200000 0x201000 (by decide +kernel)⟩

end XenAet.PendingTlb
