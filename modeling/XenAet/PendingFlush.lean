import XenAet.PageFault

namespace XenAet.PendingFlush
open AetControl PageEntry ShadowEntry ShadowPool PendingMarks PageFault Library

-- An entry that `set_pending_page` marks, with the address it flushes for it.
structure Marking where
  sl1mfn : U64
  index : Nat
  va : U64
  deriving DecidableEq,Repr

def vaStart (va : U64) : U64 := va - (va &&& l1Mask &&& pageMask)

def entryOf (p : Page) (i : Nat) : U64 := if inside : i < 512 then p.content ⟨i,inside⟩ else 0

-- The inner loop; `va` goes on by a page whether the entry is marked or not.
def markLoop (content : Nat → U64) (sl1mfn : U64) : Nat → Nat → U64 → List Marking
  | 0,_,_ => []
  | turns+1,i,va =>
    (if markable (content i) then [⟨sl1mfn,i,va⟩] else []) ++ markLoop content sl1mfn turns (i+1) (va + 0x1000)

def nodeMarkings (p : Pool) (node : Node) : List Marking :=
  if isL1Type (p.page node.sl1mfn).u.type then
    markLoop (entryOf (p.page node.sl1mfn)) node.sl1mfn consecutiveSetPage 0 node.va
  else []

def markings : Pool → List Node → List Marking
  | _,[] => []
  | p,node :: rest => nodeMarkings p node ++ markings (markPage p node) rest

variable {m : Marking} {p : Pool} {node : Node} {nodes : List Node} {sl1e sl1mfn va : U64} {s next : System}

theorem l1Part_toNat (va : U64) : (va &&& l1Mask &&& pageMask).toNat = va.toNat / 2^12 % 2^9 * 2^12 := by
  have mask (i) : (l1Mask &&& pageMask).getLsbD i = decide (12 ≤ i ∧ i < 21) :=
    Masks.getLsbD_constant (p:=fun i => 12 ≤ i ∧ i < 21) (by decide) (fun _ _ => by omega) i
  refine Nat.eq_of_testBit_eq fun i => ?_
  rw [← BitVec.getLsbD,BitVec.and_assoc,BitVec.getLsbD_and,mask,Nat.testBit_mul_two_pow]
  by_cases low : 12 ≤ i
  · rw [Nat.testBit_mod_two_pow,Nat.testBit_div_two_pow,show i - 12 + 12 = i by omega,decide_eq_true low,Bool.true_and,
      Bool.and_comm,BitVec.getLsbD]
    congr 1
    rw [decide_eq_decide]
    omega
  · simp [low]

theorem vaStart_toNat (va : U64) : (vaStart va).toNat = va.toNat / 2^21 * 2^21 + va.toNat % 2^12 := by
  have part := l1Part_toNat va
  have le : va &&& l1Mask &&& pageMask ≤ va := by
    rw [BitVec.le_def,part]
    omega
  rw [vaStart,BitVec.toNat_sub_of_le le,part]
  omega

theorem flushed_toNat (va : U64) (small : i < 512) :
    (vaStart va + BitVec.ofNat 64 (i*2^12)).toNat = va.toNat / 2^21 * 2^21 + i*2^12 + va.toNat % 2^12 := by
  have top := va.isLt
  rw [BitVec.toNat_add,vaStart_toNat,BitVec.toNat_ofNat,Nat.mod_eq_of_lt (show i*2^12 < 2^64 by omega),
    Nat.mod_eq_of_lt (by omega)]
  omega

theorem markLoop_mem (content : Nat → U64) (sl1mfn : U64) (turns i : Nat) (va : U64) (member : m ∈ markLoop content sl1mfn turns i va) :
    m.sl1mfn = sl1mfn ∧ i ≤ m.index ∧ m.index < i + turns ∧ markable (content m.index) = true ∧
      m.va = va + BitVec.ofNat 64 ((m.index - i)*2^12) := by
  induction turns generalizing i va with
  | zero => cases member
  | succ turns ih =>
    rw [markLoop,List.mem_append] at member
    rcases member with here | later
    · split at here
      · rename_i marks
        rw [List.mem_singleton] at here
        subst here
        exact ⟨rfl,le_rfl,Nat.lt_add_of_pos_right (Nat.succ_pos _),marks,by simp⟩
      · cases here
    · obtain ⟨same,low,high,marks,flushed⟩ := ih (i+1) _ later
      refine ⟨same,by omega,by omega,marks,?_⟩
      rw [flushed,show (m.index - i)*2^12 = 2^12 + (m.index - (i+1))*2^12 by omega,BitVec.ofNat_add,← BitVec.add_assoc]
      rfl

theorem node_marking (member : m ∈ nodeMarkings p node) :
    m.sl1mfn = node.sl1mfn ∧ m.index < consecutiveSetPage ∧ isL1Type (p.page node.sl1mfn).u.type = true ∧
      markable (entryOf (p.page node.sl1mfn) m.index) = true ∧ m.va = node.va + BitVec.ofNat 64 (m.index*2^12) := by
  unfold nodeMarkings at member
  split at member
  · rename_i typed
    obtain ⟨same,_,small,marks,flushed⟩ := markLoop_mem _ _ _ _ _ member
    exact ⟨same,by omega,typed,marks,flushed⟩
  · cases member

theorem markings_node (member : m ∈ markings p nodes) : ∃ node ∈ nodes, m.sl1mfn = node.sl1mfn ∧
    m.index < consecutiveSetPage ∧ m.va = node.va + BitVec.ofNat 64 (m.index*2^12) := by
  induction nodes generalizing p with
  | nil => cases member
  | cons node rest ih =>
    rw [markings,List.mem_append] at member
    rcases member with here | later
    · obtain ⟨same,small,_,_,flushed⟩ := node_marking here
      exact ⟨node,List.mem_cons_self,same,small,flushed⟩
    · obtain ⟨other,listed,facts⟩ := ih later
      exact ⟨other,List.mem_cons_of_mem _ listed,facts⟩

def userAccess (sl1e : U64) : Bool := Masks.anyOf (getPteFlags sl1e) pageUser && isPresent sl1e

theorem user_bit (sl1e : U64) : Masks.anyOf (getPteFlags sl1e) pageUser = sl1e.getLsbD 2 := by
  rw [pageUser,Masks.anyOf_bit,get_low _ (by decide)]

theorem marked_no_user (sl1e : U64) : Masks.anyOf (getPteFlags (marked sl1e)) pageUser = false := by
  rw [user_bit,marked_bit]
  simp

theorem markPage_entry (p : Pool) (node : Node) (sl1mfn : U64) (i : Nat) : entryOf ((markPage p node).page sl1mfn) i =
    if isL1Type (p.page node.sl1mfn).u.type = true ∧ sl1mfn = node.sl1mfn ∧ i < consecutiveSetPage
      then markEntry (entryOf (p.page sl1mfn) i) else entryOf (p.page sl1mfn) i := by
  simp only [markPage,entryOf]
  by_cases typed : isL1Type (p.page node.sl1mfn).u.type = true
  · rw [if_pos typed,put_page]
    by_cases same : sl1mfn = node.sl1mfn
    · subst same
      by_cases inside : i < 512
      · by_cases first : i < consecutiveSetPage <;> simp [typed,inside,first]
      · have late : ¬ i < consecutiveSetPage := fun early => inside (Nat.lt_trans early (by decide))
        simp [inside,late]
    · simp [same]
  · simp [typed]

theorem markLoop_has (content : Nat → U64) (sl1mfn : U64) {turns i j : Nat} (va : U64) (low : i ≤ j) (high : j < i + turns)
    (marks : markable (content j) = true) : ∃ m ∈ markLoop content sl1mfn turns i va, m.sl1mfn = sl1mfn ∧ m.index = j := by
  induction turns generalizing i va with
  | zero => omega
  | succ turns ih =>
    rw [markLoop]
    rcases Nat.eq_or_lt_of_le low with rfl | later
    · exact ⟨⟨sl1mfn,i,va⟩,by simp [marks],rfl,rfl⟩
    · obtain ⟨m,member,facts⟩ := ih (va + 0x1000) later (by omega)
      exact ⟨m,List.mem_append_right _ member,facts⟩

def Marks (ms : List Marking) (sl1mfn : U64) (i : Nat) : Prop := ∃ m ∈ ms, m.sl1mfn = sl1mfn ∧ m.index = i

-- One page: the entries of its list are those that the page is left with marked.
theorem markPage_marks (p : Pool) (node : Node) (sl1mfn : U64) (i : Nat) :
    (Marks (nodeMarkings p node) sl1mfn i ↔ isL1Type (p.page node.sl1mfn).u.type = true ∧ sl1mfn = node.sl1mfn ∧
      i < consecutiveSetPage ∧ markable (entryOf (p.page sl1mfn) i) = true) ∧
    (¬Marks (nodeMarkings p node) sl1mfn i → entryOf ((markPage p node).page sl1mfn) i = entryOf (p.page sl1mfn) i) := by
  have listed : Marks (nodeMarkings p node) sl1mfn i ↔ isL1Type (p.page node.sl1mfn).u.type = true ∧ sl1mfn = node.sl1mfn ∧
      i < consecutiveSetPage ∧ markable (entryOf (p.page sl1mfn) i) = true := by
    constructor
    · rintro ⟨m,member,rfl,rfl⟩
      obtain ⟨same,small,typed,marks,_⟩ := node_marking member
      rw [same]
      exact ⟨typed,rfl,small,marks⟩
    · rintro ⟨typed,rfl,small,marks⟩
      rw [Marks,nodeMarkings,if_pos typed]
      exact markLoop_has _ _ _ (Nat.zero_le i) (by omega) marks
  refine ⟨listed,fun unlisted => ?_⟩
  rw [listed] at unlisted
  rw [markPage_entry,ite_eq_right_iff,markEntry]
  rintro ⟨typed,same,small⟩
  rw [if_neg fun marks => unlisted ⟨typed,same,small,marks⟩]

theorem unmarkable_stays (nodes : List Node) {p : Pool} {sl1mfn : U64} {i : Nat} (clear_ : markable (entryOf (p.page sl1mfn) i) = false) :
    ¬Marks (markings p nodes) sl1mfn i ∧ entryOf ((nodes.foldl markPage p).page sl1mfn) i = entryOf (p.page sl1mfn) i := by
  induction nodes generalizing p with
  | nil =>
    refine ⟨?_,rfl⟩
    rintro ⟨_,member,_⟩
    cases member
  | cons node rest ih =>
    obtain ⟨listed,left⟩ := markPage_marks p node sl1mfn i
    have unlisted : ¬Marks (nodeMarkings p node) sl1mfn i := fun marks => by
      rw [(listed.mp marks).2.2.2] at clear_
      cases clear_
    rw [← left unlisted] at clear_ ⊢
    obtain ⟨later,same⟩ := ih clear_
    refine ⟨?_,same⟩
    rintro ⟨m,member,at_⟩
    rcases List.mem_append.mp member with here | after
    · exact unlisted ⟨m,here,at_⟩
    · exact later ⟨m,after,at_⟩

-- The whole call marks the entries that are listed, and no other.
theorem markings_exact (nodes : List Node) (p : Pool) (sl1mfn : U64) (i : Nat) :
    (Marks (markings p nodes) sl1mfn i → entryOf ((nodes.foldl markPage p).page sl1mfn) i = marked (entryOf (p.page sl1mfn) i)) ∧
    (¬Marks (markings p nodes) sl1mfn i → entryOf ((nodes.foldl markPage p).page sl1mfn) i = entryOf (p.page sl1mfn) i) := by
  induction nodes generalizing p with
  | nil =>
    refine ⟨?_,fun _ => rfl⟩
    rintro ⟨_,member,_⟩
    cases member
  | cons node rest ih =>
    obtain ⟨listed,left⟩ := markPage_marks p node sl1mfn i
    by_cases here : Marks (nodeMarkings p node) sl1mfn i
    · obtain ⟨typed,same,small,marks⟩ := listed.mp here
      have now : entryOf ((markPage p node).page sl1mfn) i = marked (entryOf (p.page sl1mfn) i) := by
        rw [markPage_entry,if_pos ⟨typed,same,small⟩,markEntry,if_pos marks]
      have once := unmarkable_stays rest (p:=markPage p node) (i:=i)
        (show markable (entryOf ((markPage p node).page sl1mfn) i) = false by rw [now,markable,marked_no_user,Bool.false_and,Bool.false_and,Bool.false_and])
      refine ⟨fun _ => once.2.trans now,fun none_ => absurd ?_ none_⟩
      obtain ⟨m,member,at_⟩ := here
      exact ⟨m,List.mem_append_left _ member,at_⟩
    · have later : Marks (markings p (node :: rest)) sl1mfn i ↔ Marks (markings (markPage p node) rest) sl1mfn i := by
        constructor
        · rintro ⟨m,member,at_⟩
          rcases List.mem_append.mp member with first | after
          · exact absurd ⟨m,first,at_⟩ here
          · exact ⟨m,after,at_⟩
        · rintro ⟨m,member,at_⟩
          exact ⟨m,List.mem_append_right _ member,at_⟩
      rw [later,← left here]
      exact ih (markPage p node)

-- After the call no marked entry lets a user in.
theorem marking_away (member : m ∈ markings p nodes) :
    userAccess (entryOf ((nodes.foldl markPage p).page m.sl1mfn) m.index) = false := by
  rw [(markings_exact nodes p m.sl1mfn m.index).1 ⟨m,member,rfl,rfl⟩,userAccess,marked_no_user,Bool.false_and]

theorem frameMask_bit (i : Nat) : AetMark.frameMask.getLsbD i = decide (i < 39) :=
  Masks.getLsbD_constant (p:=fun i => i < 39) (by decide) (fun _ _ => by omega) i

theorem addrMask_bit (i : Nat) : addrMask.getLsbD i = decide (12 ≤ i ∧ i < 52) :=
  Masks.getLsbD_constant (p:=fun i => 12 ≤ i ∧ i < 52) (by decide) (fun _ _ => by omega) i

theorem pfn_bit (x : U64) (i : Nat) : (l1eGetPfn x).getLsbD i = (x.getLsbD (12+i) && decide (i < 40)) := by
  rw [l1eGetPfn,BitVec.getLsbD_ushiftRight,BitVec.getLsbD_and,addrMask_bit]
  congr 1
  rw [decide_eq_decide]
  omega

-- Bit 51 is the one bit of the mark inside the frame number, and it was clear.
theorem marked_frame (willing : markable sl1e = true) : l1eGetPfn (marked sl1e) &&& AetMark.frameMask = l1eGetPfn sl1e := by
  have clear_ : sl1e.getLsbD 51 = false := by
    simp only [markable,Bool.and_eq_true,Bool.not_eq_true'] at willing
    by_contra set_
    have found : Masks.anyOf sl1e shL1eAetMagic = true := Masks.anyOf_iff.mpr ⟨51,by simpa using set_,by decide⟩
    rw [willing.2] at found
    cases found
  refine BitVec.eq_of_getLsbD_eq fun i small => ?_
  rw [BitVec.getLsbD_and,frameMask_bit,pfn_bit,pfn_bit,marked_bit,aetMagic_bit]
  rcases Nat.lt_trichotomy i 39 with low | rfl | high
  · have plain : ¬ (12 + i = 10 ∨ 51 ≤ 12 + i ∧ 12 + i < 63) := by omega
    simp [low,plain,show i < 40 by omega,show ¬ 12 + i = 2 by omega]
  · simp only [clear_,Nat.reduceAdd,Nat.lt_irrefl,decide_false,Bool.and_false,Bool.false_and]
  · simp [show ¬ i < 39 by omega,show ¬ i < 40 by omega]

-- The three things that can happen to the list of pending pages.
theorem step_pds (event : PendingMarks.Event) (ran : step s event = some next) :
    (∃ sl1mfn va, event = .add sl1mfn va ∧ next = PendingMarks.addToPendingPage s sl1mfn va) ∨
      (event = .setPending ∧ next.pds = []) ∨
      (next.pds = s.pds ∧ event ≠ .setPending ∧ ∀ sl1mfn va, event ≠ .add sl1mfn va) := by
  have kept {q : Option Pool} (ran : q.map (⟨·,s.pds⟩) = some next) : next.pds = s.pds := by
    obtain ⟨pool,_,rfl⟩ := Option.map_eq_some_iff.mp ran
    rfl
  cases event with
  | add sl1mfn va =>
    obtain ⟨_,same⟩ := Option.ite_none_right_eq_some.mp ran
    exact .inl ⟨sl1mfn,va,rfl,(Option.some.inj same).symm⟩
  | setPending => cases ran; exact .inr (.inl ⟨rfl,rfl⟩)
  | store m i v => cases ran; exact .inr (.inr ⟨rfl,by simp,by simp⟩)
  | alloc | free | grow | shrink | giveGuest | setTypeInfo | takeGuest => exact .inr (.inr ⟨kept ran,by simp,by simp⟩)

theorem add_node (member : node ∈ (PendingMarks.addToPendingPage s sl1mfn va).pds) :
    node ∈ s.pds ∨ node.sl1mfn = sl1mfn ∧ node.va = vaStart va := by
  unfold PendingMarks.addToPendingPage at member
  split_ifs at member
  · exact .inl member
  · exact .inl member
  · rcases List.mem_append.mp member with old | new
    · exact .inl old
    · rw [List.mem_singleton.mp new]
      exact .inr ⟨rfl,rfl⟩

def Starts (s : System) : Prop := ∀ node ∈ s.pds, ∃ va, node.va = vaStart va

theorem step_starts (s : System) (event : PendingMarks.Event) (next : System) (starts : Starts s) (ran : step s event = some next) :
    Starts next := by
  intro node member
  rcases step_pds event ran with ⟨sl1mfn,va,_,rfl⟩ | ⟨_,none_⟩ | ⟨same,_⟩
  · rcases add_node member with old | ⟨_,start⟩
    · exact starts node old
    · exact ⟨va,start⟩
  · rw [none_] at member
    cases member
  · rw [same] at member
    exact starts node member

theorem marking_offset (starts : Starts s) (member : m ∈ markings s.pool s.pds) : (l1TableOffset m.va).val = m.index := by
  obtain ⟨node,listed,_,small,flushed⟩ := markings_node member
  obtain ⟨va,start⟩ := starts node listed
  rw [consecutiveSetPage] at small
  have place : (l1TableOffset m.va).val = m.va.toNat / 2^12 % 512 := rfl
  rw [place,flushed,start,flushed_toNat va (by omega)]
  omega

theorem marking_lossless (ran : Run.run step ⟨pool,[]⟩ events = some s) :
    (∀ sl1e, markable sl1e = true → shL1eIsAetMagic (marked sl1e) = true ∧
      Masks.anyOf (getPteFlags (marked sl1e)) pageUser = false ∧ l1eGetPfn (marked sl1e) &&& AetMark.frameMask = l1eGetPfn sl1e) ∧
    ∀ m ∈ markings s.pool s.pds, (l1TableOffset m.va).val = m.index := by
  have starts := Run.run_history (P:=fun _ s => Starts s) (fun _ s event next held => step_starts s event next held)
    (fun _ member => by cases member) ran
  exact ⟨fun sl1e willing => ⟨marked_is_aet_magic sl1e,marked_no_user sl1e,marked_frame willing⟩,
    fun m member => marking_offset starts member⟩

theorem marking_lossless_one : ∃ s, Run.run step ⟨heapOnly,[]⟩ (recordOne ++ [.store 0x900 1 0x80027]) = some s ∧
    markings s.pool s.pds = [⟨0x900,1,0x1000⟩] ∧ ∀ m ∈ markings s.pool s.pds, (l1TableOffset m.va).val = m.index := by
  obtain ⟨s,ran,one⟩ := Run.run_reaches (s:=⟨heapOnly,[]⟩) (P:=fun s => markings s.pool s.pds = [⟨0x900,1,0x1000⟩])
    (show (Run.run step _ (recordOne ++ [.store 0x900 1 0x80027])).any _ = true by decide +kernel)
  exact ⟨s,ran,one,(marking_lossless ran).2⟩

end XenAet.PendingFlush
