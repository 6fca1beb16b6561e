import XenAet.ShadowPool

namespace XenAet.PendingMarks
open AetControl ShadowEntry ShadowPool Library

def isL1Type (type : Nat) : Bool := type == shTypeL1Shadow || type == shTypeFl1Shadow

structure Node where
  sl1mfn : U64
  va : U64
  owner : Role
  deriving DecidableEq,Repr

structure System where
  pool : Pool
  pds : List Node

def l1Mask : U64 := 0x1fffff
def pageMask : U64 := 0xfffffffffffff000

def addToPendingPage (s : System) (sl1mfn va : U64) : System :=
  if s.pds.any (fun node => node.sl1mfn == sl1mfn) then s
  else if maxPendingPage ≤ s.pds.length then s
  else {s with pds := s.pds ++ [⟨sl1mfn,va - (va &&& l1Mask &&& pageMask),(s.pool.page sl1mfn).role⟩]}

-- The only test is the type field of the page structure.
def markPage (s : Pool) (node : Node) : Pool :=
  let p := s.page node.sl1mfn
  let content (i : Fin 512) : U64 := if i.val < consecutiveSetPage then markEntry (p.content i) else p.content i
  if isL1Type p.u.type then s.put node.sl1mfn {p with content} else s

def setPendingPage (s : System) : System := ⟨s.pds.foldl markPage s.pool,[]⟩

inductive Event where
  | add (sl1mfn va : U64)
  | alloc (d : DomId) (type : Nat) (back : U64)
  | free (smfn : U64)
  | grow (d : DomId) (m : U64)
  | shrink (d : DomId) (flush : Bool)
  | giveGuest (m : U64) (d : DomId)
  | setTypeInfo (m w : U64)
  | takeGuest (m : U64) (flush : Bool)
  | store (m : U64) (i : Fin 512) (v : U64)
  | setPending

-- `set_aet_magic` records a page that it has just found as an L1 shadow.
def isL1Shadow : Role → Bool
  | .shadow _ type _ => isL1Type type
  | _ => false

def step (s : System) : Event → Option System
  | .add sl1mfn va => if isL1Shadow (s.pool.page sl1mfn).role then some (addToPendingPage s sl1mfn va) else none
  | .alloc d type back => (shadowAlloc s.pool d type back).map (⟨·,s.pds⟩)
  | .free smfn => (shadowFree s.pool smfn).map (⟨·,s.pds⟩)
  | .grow d m => (growPool s.pool d m).map (⟨·,s.pds⟩)
  | .shrink d flush => (shrinkPool s.pool d flush).map (⟨·,s.pds⟩)
  | .giveGuest m d => (ShadowPool.giveGuest s.pool m d).map (⟨·,s.pds⟩)
  | .setTypeInfo m w => (ShadowPool.setTypeInfo s.pool m w).map (⟨·,s.pds⟩)
  | .takeGuest m flush => (ShadowPool.takeGuest s.pool m flush).map (⟨·,s.pds⟩)
  | .store m i v => some ⟨ShadowPool.store s.pool m i v,s.pds⟩
  | .setPending => some (setPendingPage s)

-- No recorded page gets the type field of an L1 shadow again other than as
-- the shadow it was recorded as.
def NotReused (s : System) : Event → Prop
  | .alloc d type back => ∀ node ∈ s.pds, node.sl1mfn ∈ (s.pool.freelist d).take (shadowSize type) →
      isL1Type type = true → node.owner = .shadow d type back
  | .setTypeInfo m w => ∀ node ∈ s.pds, node.sl1mfn = m → isL1Type (ofTypeInfo w).type = false
  | _ => True

instance (s : System) : ∀ event, Decidable (NotReused s event)
  | .alloc _ _ _ => inferInstanceAs (Decidable (∀ _ ∈ _, _ → _ → _))
  | .setTypeInfo _ _ => inferInstanceAs (Decidable (∀ _ ∈ _, _ → _))
  | .add _ _ | .free _ | .grow _ _ | .shrink _ _ | .giveGuest _ _ | .takeGuest _ _ | .store _ _ _ | .setPending =>
    .isTrue trivial

structure Recorded (p : Pool) (node : Node) : Prop where
  shadow : isL1Shadow node.owner = true
  same : isL1Type (p.page node.sl1mfn).u.type = true → (p.page node.sl1mfn).role = node.owner

def Current (s : System) : Prop := ∀ node ∈ s.pds, Recorded s.pool node

section
variable {s next : System} {p q : Pool}

theorem recorded_of (held : Recorded p node)
    (moved : isL1Type (q.page node.sl1mfn).u.type = false ∨
      ((q.page node.sl1mfn).u.type = (p.page node.sl1mfn).u.type ∧
        (q.page node.sl1mfn).role = (p.page node.sl1mfn).role)) : Recorded q node := by
  refine ⟨held.shadow,fun reads => ?_⟩
  rcases moved with other | ⟨type,role⟩
  · rw [other] at reads; cases reads
  · rw [role]; exact held.same (by rw [← type]; exact reads)

theorem put_current (current : Current s) (pages : ∀ x, q.page x = if x = m then pg else s.pool.page x)
    (other : isL1Type pg.u.type = false) : Current ⟨q,s.pds⟩ := by
  intro node member
  apply recorded_of (current node member)
  by_cases here : node.sl1mfn = m
  · left; simp [pages,here,other]
  · right; simp [pages,here]

theorem flush_not_l1 (flush : Bool) (w : ShWord) : isL1Type (needTlbflush flush w).type = false := by
  cases flush <;> rfl

theorem alloc_current (current : Current s) (fresh : NotReused s (.alloc d type back))
    (ran : shadowAlloc s.pool d type back = some q) : Current ⟨q,s.pds⟩ := by
  intro node member
  have held := current node member
  rcases alloc_cases ran node.sl1mfn with ⟨taken,typed,used⟩ | same
  · refine ⟨held.shadow,fun reads => ?_⟩
    rw [show ({pool := q,pds := s.pds} : System).pool = q from rfl,typed] at reads
    exact used.trans (fresh node member taken reads).symm
  · exact recorded_of held (.inr same)

theorem free_current (current : Current s) (ran : shadowFree s.pool smfn = some q) : Current ⟨q,s.pds⟩ := by
  simp only [shadowFree] at ran
  split at ran
  · cases ran
    intro node member
    apply recorded_of (current node member)
    rcases free_cases (s.pool.group smfn) s.pool node.sl1mfn with zero | same
    · left; rw [zero]; rfl
    · right; rw [same]; exact ⟨rfl,rfl⟩
  · cases ran

theorem add_current (current : Current s) (found : isL1Shadow (s.pool.page sl1mfn).role = true) :
    Current (addToPendingPage s sl1mfn va) := by
  unfold addToPendingPage
  split
  · exact current
  · split
    · exact current
    · intro node member
      rcases List.mem_append.mp member with old | new
      · exact current node old
      · rw [List.mem_singleton.mp new]
        exact ⟨found,fun _ => rfl⟩

theorem step_current (s : System) (event : Event) (next : System) (current : Current s)
    (fresh : NotReused s event) (ran : step s event = some next) : Current next := by
  cases event with
  | add sl1mfn va =>
    obtain ⟨found,same⟩ := Option.ite_none_right_eq_some.mp ran
    cases same
    exact add_current current found
  | alloc d type back =>
    obtain ⟨q,got,rfl⟩ := Option.map_eq_some_iff.mp ran
    exact alloc_current current fresh got
  | free smfn =>
    obtain ⟨q,got,rfl⟩ := Option.map_eq_some_iff.mp ran
    exact free_current current got
  | grow d m | giveGuest m d =>
    obtain ⟨q,got,rfl⟩ := Option.map_eq_some_iff.mp ran
    obtain ⟨_,same⟩ := Option.ite_none_right_eq_some.mp got
    cases same
    exact put_current current (put_page _ _ _) rfl
  | shrink d flush =>
    obtain ⟨q,got,rfl⟩ := Option.map_eq_some_iff.mp ran
    simp only [shrinkPool] at got
    split at got
    · cases got
    · cases got
      exact put_current current (put_page _ _ _) (flush_not_l1 _ _)
  | setTypeInfo m w =>
    obtain ⟨q,got,rfl⟩ := Option.map_eq_some_iff.mp ran
    simp only [ShadowPool.setTypeInfo] at got
    split at got
    · cases got
      intro node member
      apply recorded_of (current node member)
      by_cases here : node.sl1mfn = m
      · left; simpa [here] using fresh node member here
      · right; simp [here]
    · cases got
  | takeGuest m flush =>
    obtain ⟨q,got,rfl⟩ := Option.map_eq_some_iff.mp ran
    simp only [ShadowPool.takeGuest] at got
    split at got
    · cases got
      exact put_current current (put_page _ _ _) (flush_not_l1 _ _)
    · cases got
  | store m i v =>
    cases ran
    intro node member
    apply recorded_of (current node member)
    by_cases here : node.sl1mfn = m
    · right; simp [ShadowPool.store,here]
    · right; simp [ShadowPool.store,here]
  | setPending => cases ran; intro node member; cases member

theorem mark_cases (nodes : List Node) (p : Pool) (m : U64) :
    (∃ node ∈ nodes, node.sl1mfn = m ∧ isL1Type (p.page m).u.type = true) ∨
      (nodes.foldl markPage p).page m = p.page m := by
  induction nodes generalizing p with
  | nil => exact .inr rfl
  | cons node rest ih =>
    rw [List.foldl_cons]
    by_cases here : isL1Type (p.page m).u.type = true ∧ node.sl1mfn = m
    · exact .inl ⟨node,List.mem_cons_self,here.2,here.1⟩
    have untouched : (markPage p node).page m = p.page m := by
      simp only [markPage]
      split
      · rename_i reads
        rw [put_page,if_neg]
        rintro rfl
        exact here ⟨reads,rfl⟩
      · rfl
    rcases ih (markPage p node) with ⟨other,member,same,reads⟩ | same
    · exact .inl ⟨other,List.mem_cons_of_mem _ member,same,by rw [← untouched]; exact reads⟩
    · exact .inr (same.trans untouched)

-- In a run without such reuse every word `set_pending_page` would change in a
-- state reached is in a live L1 shadow, of the domain and guest table the
-- entry was recorded for.
theorem pending_marks_live (fresh : Run.Guarded NotReused step ⟨pool,[]⟩ events)
    (ran : Run.run step ⟨pool,[]⟩ events = some s) (m : U64) (i : Fin 512)
    (changed : ((setPendingPage s).pool.page m).content i ≠ (s.pool.page m).content i) :
    ∃ node ∈ s.pds, node.sl1mfn = m ∧ (s.pool.page m).role = node.owner ∧
      ∃ d type back, node.owner = .shadow d type back ∧ isL1Type type = true := by
  have current := Run.guarded_invariant (P:=Current) step_current (fun _ member => by cases member) fresh ran
  rcases mark_cases s.pds s.pool m with ⟨node,member,here,reads⟩ | same
  · have held := current node member
    subst here
    refine ⟨node,member,rfl,held.same reads,?_⟩
    have shadow := held.shadow
    cases owner : node.owner with
    | shadow d type back => rw [owner] at shadow; exact ⟨d,type,back,rfl,shadow⟩
    | heap | pool d | guest d => rw [owner] at shadow; cases shadow
  · exact absurd (by rw [setPendingPage,same]) changed

end

def heapOnly : Pool := ⟨fun _ => ⟨ofTypeInfo 0,.heap,fun _ => 0⟩,fun _ => [],fun _ => []⟩

def recordOne : List Event := [.grow 1 0x900,.alloc 1 8 0x50,.add 0x900 0]

theorem pending_marks_live_one :
    ∃ s, Run.run step ⟨heapOnly,[]⟩ (recordOne ++ [.store 0x900 0 0x80027]) = some s ∧
      ∃ node ∈ s.pds, node.sl1mfn = 0x900 ∧ (s.pool.page 0x900).role = node.owner ∧
        ∃ d type back, node.owner = .shadow d type back ∧ isL1Type type = true := by
  obtain ⟨s,ran,changes⟩ := Run.run_reaches (s:=⟨heapOnly,[]⟩)
    (P:=fun s => ((setPendingPage s).pool.page 0x900).content 0 ≠ (s.pool.page 0x900).content 0)
    (show (Run.run step _ (recordOne ++ [.store 0x900 0 0x80027])).any _ = true by decide +kernel)
  exact ⟨s,ran,pending_marks_live (by decide +kernel) ran 0x900 0 changes⟩

-- The page comes back as the shadow of another table, or as memory of another
-- guest whose type count happens to be eight; it is marked all the same.
theorem stale_marks :
    (∃ s, Run.run step ⟨heapOnly,[]⟩ (recordOne ++ [.free 0x900,.alloc 1 8 0x60,.store 0x900 0 0x80027]) = some s ∧
      ((setPendingPage s).pool.page 0x900).content 0 ≠ (s.pool.page 0x900).content 0 ∧
      (s.pool.page 0x900).role = .shadow 1 8 0x60 ∧ s.pds.map Node.owner = [.shadow 1 8 0x50]) ∧
    (∃ s, Run.run step ⟨heapOnly,[]⟩ (recordOne ++ [.free 0x900,.shrink 1 false,.giveGuest 0x900 2,
        .setTypeInfo 0x900 0x7000000000000008,.store 0x900 0 0x27]) = some s ∧
      ((setPendingPage s).pool.page 0x900).content 0 ≠ (s.pool.page 0x900).content 0 ∧
      (s.pool.page 0x900).role = .guest 2) := by
  exact ⟨Run.run_reaches (by decide +kernel),Run.run_reaches (by decide +kernel)⟩

end XenAet.PendingMarks
