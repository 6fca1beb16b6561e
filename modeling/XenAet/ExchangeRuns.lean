import XenAet.ExchangePages

namespace XenAet.ExchangeRuns
open XenAet.MemoryExchange XenAet.ExchangePages
open Library Zones

variable {s s' : State} {x : Input}

-- A chunk has as many input as output pages.
theorem chunkPages_eq (e : Exch) : e.chunkPages = 2 ^ e.outChunkOrder * 2 ^ e.out.extentOrder := by
  unfold Exch.chunkPages Exch.inChunkOrder Exch.outChunkOrder
  rw [← Nat.pow_add,← Nat.pow_add]
  congr 1
  omega

-- The checks make the input list a whole number of chunks.
theorem chunks_exact {e : Exch} (checked : sane e = true) : e.chunks * 2 ^ e.inChunkOrder = e.in_.nrExtents := by
  simp only [sane,Bool.and_eq_true,decide_eq_true_eq] at checked
  obtain ⟨⟨⟨_,fitsIn⟩,fitsOut⟩,sizes⟩ := checked
  have posIn : 0 < 2 ^ e.in_.extentOrder := Nat.two_pow_pos _
  have posOut : 0 < 2 ^ e.out.extentOrder := Nat.two_pow_pos _
  have boundIn := (Nat.le_div_iff_mul_le posIn).mp fitsIn
  have boundOut := (Nat.le_div_iff_mul_le posOut).mp fitsOut
  rw [Nat.mod_eq_of_lt (by omega),Nat.mod_eq_of_lt (by omega)] at sizes
  refine Nat.div_mul_cancel ?_
  unfold Exch.inChunkOrder
  by_cases larger : e.in_.extentOrder ≤ e.out.extentOrder
  · have split : 2 ^ e.out.extentOrder = 2 ^ (e.out.extentOrder - e.in_.extentOrder) * 2 ^ e.in_.extentOrder := by
      rw [← Nat.pow_add,Nat.sub_add_cancel larger]
    rw [split,← Nat.mul_assoc] at sizes
    exact ⟨e.out.nrExtents,by rw [Nat.mul_comm]; exact Nat.eq_of_mul_eq_mul_right posIn sizes⟩
  · rw [Nat.sub_eq_zero_of_le (by omega)]
    exact Nat.one_dvd _

-- The pages off the domain that `tot_pages` still counts.
def owed (s : State) : Int :=
  match s.pc with
  | .copyIn | .steal | .alloc | .fail => s.inChunkList.length
  | .destroy => s.exch.chunkPages
  | .assign => s.exch.chunkPages - s.j * 2 ^ s.exch.out.extentOrder
  | _ => 0

-- How far the chunk in hand is.
def Shape (s : State) : Prop :=
  match s.pc with
  | .idle | .chunk => s.inChunkList = [] ∧ s.outChunkList = []
  | .copyIn => s.j ≤ 2 ^ s.exch.inChunkOrder ∧ s.inChunkList.length = s.j * 2 ^ s.exch.in_.extentOrder ∧ s.outChunkList = []
  | .steal => s.j < 2 ^ s.exch.inChunkOrder ∧ s.k ≤ 2 ^ s.exch.in_.extentOrder ∧
      s.inChunkList.length = s.j * 2 ^ s.exch.in_.extentOrder + s.k ∧ s.outChunkList = []
  | .alloc => s.j ≤ 2 ^ s.exch.outChunkOrder ∧ s.inChunkList.length = s.exch.chunkPages ∧ s.outChunkList.length = s.j
  | .destroy => s.outChunkList.length = 2 ^ s.exch.outChunkOrder
  | .assign => s.inChunkList = [] ∧ s.outChunkList.length + s.j = 2 ^ s.exch.outChunkOrder
  | .fail => s.inChunkList ≠ [] → s.isDying = false ∧ ¬(s.debug = true ∧ s.translated = true)
  | .dying => s.inChunkList = []
  | .bug => False

-- Each page stolen is in hand, back or freed, each block allocated is in hand,
-- assigned or freed.
structure Kept (log : List Entry) (i : Nat) (ins outs : List Nat) : Prop where
  ins : ∀ c m, ⟨c,.stole,m⟩ ∈ log → (c = i ∧ m ∈ ins) ∨ ⟨c,.gaveBack,m⟩ ∈ log ∨ ⟨c,.freed,m⟩ ∈ log
  outs : ∀ c b, ⟨c,.allocated,b⟩ ∈ log → (c = i ∧ b ∈ outs) ∨ ⟨c,.assigned,b⟩ ∈ log ∨ ⟨c,.freedOut,b⟩ ∈ log

section Log
variable {log : List Entry} {i m b : Nat} {ins outs : List Nat} {deed : Deed}

theorem mem_append_one {entry new : Entry} : entry ∈ log ++ [new] ↔ entry ∈ log ∨ entry = new := by
  rw [List.mem_append,List.mem_singleton]

-- One half of the account: what a first deed took is in hand, or one of two last deeds settled it.
def Held (log : List Entry) (first last other : Deed) (i : Nat) (hand : List Nat) : Prop :=
  ∀ c m, ⟨c,first,m⟩ ∈ log → (c = i ∧ m ∈ hand) ∨ ⟨c,last,m⟩ ∈ log ∨ ⟨c,other,m⟩ ∈ log

variable {first last other : Deed} {hand : List Nat}

-- A longer log keeps what was settled, so only the entry of the new deed needs a look.
theorem Held.longer (held : Held log first last other i hand) {new : Entry} {c m : Nat} (old : ⟨c,first,m⟩ ∈ log) :
    (c = i ∧ m ∈ hand) ∨ ⟨c,last,m⟩ ∈ log ++ [new] ∨ ⟨c,other,m⟩ ∈ log ++ [new] := by
  rcases held c m old with inHand | settled | settled
  · exact .inl inHand
  · exact .inr (.inl (List.mem_append_left _ settled))
  · exact .inr (.inr (List.mem_append_left _ settled))

theorem Held.taken (held : Held log first last other i hand) (m : Nat) : Held (log ++ [⟨i,first,m⟩]) first last other i (m :: hand) := by
  intro c m' member
  rcases mem_append_one.mp member with old | new
  · exact (held.longer old).imp_left fun inHand => ⟨inHand.1,List.mem_cons_of_mem _ inHand.2⟩
  · cases new
    exact .inl ⟨rfl,List.mem_cons_self⟩

theorem Held.skip (held : Held log first last other i hand) (apart : first ≠ deed) : Held (log ++ [⟨i,deed,m⟩]) first last other i hand := by
  intro c m' member
  refine held.longer ((mem_append_one.mp member).resolve_right fun new => apart ?_)
  cases new
  rfl

theorem Held.settled (held : Held log first last other i (m :: hand)) (apart : first ≠ deed) (settles : deed = last ∨ deed = other) :
    Held (log ++ [⟨i,deed,m⟩]) first last other i hand := by
  intro c m' member
  rcases held.skip apart c m' member with ⟨rfl,inHand⟩ | done
  · rcases List.mem_cons.mp inHand with rfl | rest
    · have now : ⟨c,deed,m'⟩ ∈ log ++ [⟨c,deed,m'⟩] := mem_append_one.mpr (.inr rfl)
      rcases settles with rfl | rfl
      · exact .inr (.inl now)
      · exact .inr (.inr now)
    · exact .inl ⟨rfl,rest⟩
  · exact .inr done

theorem Kept.take (kept : Kept log i ins outs) (m : Nat) : Kept (log ++ [⟨i,.stole,m⟩]) i (m :: ins) outs :=
  ⟨Held.taken kept.ins m,Held.skip kept.outs (by simp)⟩

theorem Kept.alloc (kept : Kept log i ins outs) (b : Nat) : Kept (log ++ [⟨i,.allocated,b⟩]) i ins (b :: outs) :=
  ⟨Held.skip kept.ins (by simp),Held.taken kept.outs b⟩

theorem Kept.untake (kept : Kept log i (m :: ins) outs) (settles : deed = .gaveBack ∨ deed = .freed) :
    Kept (log ++ [⟨i,deed,m⟩]) i ins outs :=
  ⟨Held.settled kept.ins (by rcases settles with rfl | rfl <;> simp) settles,
    Held.skip kept.outs (by rcases settles with rfl | rfl <;> simp)⟩

theorem Kept.unalloc (kept : Kept log i ins (b :: outs)) (settles : deed = .assigned ∨ deed = .freedOut) :
    Kept (log ++ [⟨i,deed,b⟩]) i ins outs :=
  ⟨Held.skip kept.ins (by rcases settles with rfl | rfl <;> simp),
    Held.settled kept.outs (by rcases settles with rfl | rfl <;> simp) settles⟩

-- Between chunks nothing is in hand.
theorem Kept.renumber (kept : Kept log i [] []) (i' : Nat) : Kept log i' [] [] :=
  ⟨fun c m member => .inr ((kept.ins c m member).resolve_left (by simp)),fun c b member => .inr ((kept.outs c b member).resolve_left (by simp))⟩

end Log

-- Only pages of the chunk that failed are given back.
structure Logged (s : State) : Prop where
  kept : Kept s.log s.i s.inChunkList s.outChunkList
  back : ∀ c m, ⟨c,.gaveBack,m⟩ ∈ s.log → c = s.i ∧ (s.pc = .fail ∨ s.pc = .dying ∨ s.pc = .idle)

-- Where the loop stands, and what was told to the guest.
structure Told (s : State) : Prop where
  count : s.i = s.exch.first + s.completed
  running : s.pc ≠ .idle → sane s.exch = true ∧ s.i ≤ s.exch.chunks
  inside : s.pc ≠ .idle → s.pc ≠ .chunk → s.i < s.exch.chunks
  written : ∀ w, s.pc = .idle → s.written = some w → w = s.i * 2 ^ s.exch.inChunkOrder ∨ w = s.exch.nrExchanged ∧ s.log = [] ∧ s.completed = 0

structure Inv (s : State) : Prop where
  sorted : Sorted s.frames s.page s.allocated s.sharedM2P s.inChunkList s.outChunkList (2 ^ s.exch.out.extentOrder)
  counted : s.totPages = count s.frames s.page .mine + owed s
  shape : Shape s
  logged : Logged s
  told : Told s

-- Nothing has been given back before a chunk fails.
theorem Inv.none_back (inv : Inv s) (alive : s.pc ≠ .fail ∧ s.pc ≠ .dying ∧ s.pc ≠ .idle) (c m : Nat) : ⟨c,.gaveBack,m⟩ ∉ s.log := by
  intro member
  rcases (inv.logged.back c m member).2 with here | here | here
  · exact alive.1 here
  · exact alive.2.1 here
  · exact alive.2.2 here

-- A step inside a chunk leaves the loop where it stands.
theorem Inv.told_on (inv : Inv s) (here : s.pc = pc) (busy : pc ≠ .idle ∧ pc ≠ .chunk) (at_ : s'.i = s.i ∧ s'.exch = s.exch ∧ s'.completed = s.completed)
    (goes : s'.pc ≠ .idle) : Told s' := by
  subst here
  obtain ⟨i,exch,completed⟩ := at_
  refine ⟨?_,fun _ => ?_,fun _ _ => ?_,fun _ idle => absurd idle goes⟩
  · rw [i,exch,completed]
    exact inv.told.count
  · rw [i,exch]
    exact inv.told.running busy.1
  · rw [i,exch]
    exact inv.told.inside busy.1 busy.2

-- Before a chunk fails a step that gives nothing back keeps the log's account.
theorem Inv.logged_on (inv : Inv s) (here : s.pc = pc) (alive : pc ≠ .fail ∧ pc ≠ .dying ∧ pc ≠ .idle) (kept : Kept s'.log s'.i s'.inChunkList s'.outChunkList)
    (none_ : ∀ c m, ⟨c,.gaveBack,m⟩ ∈ s'.log → ⟨c,.gaveBack,m⟩ ∈ s.log) : Logged s' :=
  ⟨kept,fun c m member => absurd (none_ c m member) (inv.none_back (here ▸ alive) c m)⟩

theorem back_old {log : List Entry} {i b : Nat} {deed : Deed} (apart : Deed.gaveBack ≠ deed) (c m : Nat)
    (member : ⟨c,.gaveBack,m⟩ ∈ log ++ [⟨i,deed,b⟩]) : ⟨c,.gaveBack,m⟩ ∈ log := by
  refine (mem_append_one.mp member).resolve_right fun new => apart ?_
  cases new
  rfl

theorem refused_pc {errno : Errno} (refuses : refused s x = some errno) : s.pc = .copyIn ∨ s.pc = .steal ∨ s.pc = .alloc := by
  unfold refused at refuses
  split at refuses
  · exact .inl ‹_›
  · exact .inr (.inl ‹_›)
  · exact .inr (.inr ‹_›)
  · cases refuses

theorem refused_inv {errno : Errno} (inv : Inv s) (refuses : refused s x = some errno)
    (spared : s.inChunkList ≠ [] → s.isDying = false ∧ ¬(s.debug = true ∧ s.translated = true)) :
    Inv {s with pc := .fail,rc := some errno} := by
  have active := refused_pc refuses
  have owes : owed s = s.inChunkList.length := by
    unfold owed
    rcases active with here | here | here <;> rw [here]
  have alive : s.pc ≠ .idle ∧ s.pc ≠ .chunk := by
    rcases active with here | here | here <;> rw [here] <;> simp
  refine ⟨inv.sorted,?_,spared,⟨inv.logged.kept,fun c m member => ?_⟩,
    ⟨inv.told.count,fun _ => inv.told.running alive.1,fun _ _ => inv.told.inside alive.1 alive.2,fun _ idle => by cases idle⟩⟩
  · have counted := inv.counted
    rw [owes] at counted
    exact counted
  · exact ⟨(inv.logged.back c m member).1,.inl rfl⟩

-- Leaving with nothing in hand, whatever the copy back does.
theorem leave_inv (inv : Inv s) (ins : s.inChunkList = []) (outs : s.outChunkList = []) (clear : owed s = 0) (returned : Outcome) {w : Nat}
    (same : w = s.i * 2 ^ s.exch.inChunkOrder) : Inv (leave s x w returned) := by
  have counted := inv.counted
  rw [clear] at counted
  refine ⟨inv.sorted,counted,⟨ins,outs⟩,⟨inv.logged.kept,fun c m member => ⟨(inv.logged.back c m member).1,.inr (.inr rfl)⟩⟩,
    ⟨inv.told.count,fun busy => absurd rfl busy,fun busy => absurd rfl busy,fun w' _ told => ?_⟩⟩
  unfold leave at told
  dsimp only at told
  split at told
  · cases told
  · cases told
    exact .inl same

theorem stepChunk_inv (inv : Inv s) (here : s.pc = .chunk) : Inv (stepChunk s x) := by
  have shape := inv.shape
  have counted := inv.counted
  have alive : s.pc ≠ .idle := by rw [here]; simp
  have noneBack := inv.none_back (by rw [here]; simp)
  obtain ⟨checked,reached⟩ := inv.told.running alive
  simp only [Shape,here] at shape
  simp only [owed,here] at counted
  unfold stepChunk
  have clear : owed s = 0 := by rw [owed,here]
  split
  · rename_i more
    split
    · exact leave_inv inv shape.1 shape.2 clear _ rfl
    · refine ⟨inv.sorted,?_,⟨Nat.zero_le _,?_,shape.2⟩,⟨inv.logged.kept,fun c m member => absurd member (noneBack c m)⟩,
        ⟨inv.told.count,fun _ => ⟨checked,reached⟩,fun _ _ => more,fun _ idle => by cases idle⟩⟩
      · rw [counted,owed,shape.1]
        rfl
      · rw [shape.1,Nat.zero_mul]
        rfl
  · rename_i ended
    refine leave_inv inv shape.1 shape.2 clear _ ?_
    rw [← chunks_exact checked,Nat.le_antisymm reached (by omega)]

theorem stepCopyIn_inv (inv : Inv s) (here : s.pc = .copyIn) : Inv (stepCopyIn s) := by
  have shape := inv.shape
  have counted := inv.counted
  simp only [Shape,here] at shape
  simp only [owed,here] at counted
  unfold stepCopyIn
  split
  · rename_i more
    exact ⟨inv.sorted,counted,⟨more,Nat.zero_le _,shape.2⟩,inv.logged_on here (by simp) inv.logged.kept fun _ _ => id,
      inv.told_on here (by simp) ⟨rfl,rfl,rfl⟩ (by simp)⟩
  · have all : s.j = 2 ^ s.exch.inChunkOrder := by omega
    refine ⟨inv.sorted,counted,⟨Nat.zero_le _,?_,by rw [shape.2.2]; rfl⟩,
      inv.logged_on here (by simp) inv.logged.kept fun _ _ => id,
      inv.told_on here (by simp) ⟨rfl,rfl,rfl⟩ (by simp)⟩
    rw [shape.2.1,all,Nat.mul_comm]
    rfl

theorem steal_allowed (here : s.pc = .steal) (allowed : refused s x = none) (more : s.k < 2 ^ s.exch.in_.extentOrder) :
    s.page x.mfn = .mine ∧ s.allocated x.mfn = true := by
  simp only [refused,here] at allowed
  rw [if_pos more] at allowed
  split at allowed
  · cases allowed
  · split at allowed
    · cases allowed
    · rename_i fine
      rw [not_or] at fine
      have can := eq_true_of_ne_false fine.2
      simp only [stealable,Bool.and_eq_true,decide_eq_true_eq] at can
      exact can.1

theorem stepSteal_inv (inv : Inv s) (here : s.pc = .steal) (allowed : refused s x = none) : Inv (stepSteal s x) := by
  have shape := inv.shape
  have counted := inv.counted
  simp only [Shape,here] at shape
  simp only [owed,here] at counted
  unfold stepSteal
  split
  · rename_i more
    obtain ⟨mine,set_⟩ := steal_allowed here allowed more
    have fewer := uncount_page (p:=.stolen) (inv.sorted.known x.mfn (by rw [mine]; simp)) mine (by simp)
    refine ⟨inv.sorted.steal mine set_,?_,?_,inv.logged_on here (by simp) (inv.logged.kept.take x.mfn) (back_old (by simp)),
      inv.told_on here (by simp) ⟨rfl,rfl,rfl⟩ (by simp [here])⟩
    · simp only [owed,here,List.length_cons]
      push_cast
      omega
    · simp only [Shape,here,List.length_cons]
      exact ⟨shape.1,more,by omega,shape.2.2.2⟩
  · have all : s.k = 2 ^ s.exch.in_.extentOrder := by omega
    refine ⟨inv.sorted,counted,⟨by exact shape.1,?_,shape.2.2.2⟩,inv.logged_on here (by simp) inv.logged.kept fun _ _ => id,
      inv.told_on here (by simp) ⟨rfl,rfl,rfl⟩ (by simp)⟩
    rw [shape.2.2.1,all,Nat.succ_mul]

theorem alloc_allowed (here : s.pc = .alloc) (allowed : refused s x = none) (more : s.j < 2 ^ s.exch.outChunkOrder) :
    ∃ b, allocDomheapPages s x = some b ∧ ∀ m, b ≤ m → m < b + 2 ^ s.exch.out.extentOrder → s.page m = .free := by
  simp only [refused,here] at allowed
  split at allowed
  · cases allowed
  · rename_i fine
    cases found : allocDomheapPages s x with
    | none => exact absurd ⟨more,found⟩ fine
    | some b =>
      refine ⟨b,rfl,fun m low high => ?_⟩
      have fits := (Option.filter_eq_some_iff.mp found).2
      have at_ := of_decide_eq_true fits (m - b) (by omega)
      rwa [Nat.add_sub_cancel' low] at at_

theorem stepAlloc_inv (inv : Inv s) (here : s.pc = .alloc) (allowed : refused s x = none) : Inv (stepAlloc s x) := by
  have shape := inv.shape
  have counted := inv.counted
  simp only [Shape,here] at shape
  simp only [owed,here] at counted
  unfold stepAlloc
  split
  · rename_i more
    obtain ⟨b,found,unused⟩ := alloc_allowed here allowed more
    rw [found]
    have same : count s.frames (moved s.page b (2 ^ s.exch.out.extentOrder) .spare) .mine = count s.frames s.page .mine :=
      count_other (fun m low high => by rw [unused m low high]; simp) (by simp)
    refine ⟨inv.sorted.alloc unused,?_,?_,inv.logged_on here (by simp) (inv.logged.kept.alloc b) (back_old (by simp)),
      inv.told_on here (by simp) ⟨rfl,rfl,rfl⟩ (by simp [here])⟩
    · simp only [owed,here,same]
      exact counted
    · simp only [Shape,here,List.length_cons]
      exact ⟨more,shape.2.1,by omega⟩
  · have all : s.j = 2 ^ s.exch.outChunkOrder := by omega
    refine ⟨inv.sorted,?_,?_,inv.logged_on here (by simp) inv.logged.kept fun _ _ => id,
      inv.told_on here (by simp) ⟨rfl,rfl,rfl⟩ (by simp)⟩
    · rw [counted,owed,shape.2.1]
    · exact shape.2.2.trans all

theorem stepDestroy_inv (inv : Inv s) (here : s.pc = .destroy) : Inv (stepDestroy s) := by
  have shape := inv.shape
  have counted := inv.counted
  have sorted := inv.sorted
  have kept := inv.logged.kept
  simp only [Shape,here] at shape
  simp only [owed,here] at counted
  unfold stepDestroy
  cases list : s.inChunkList with
  | cons m rest =>
    rw [list] at sorted kept
    have stolen : s.page m = .stolen := (sorted.stolen m).mpr List.mem_cons_self
    have set_ : s.allocated m = true := sorted.marked m List.mem_cons_self
    have plain : ¬(s.translated = true ∧ s.sharedM2P m = true) := by
      rintro ⟨_,shared⟩
      have away := sorted.unshared m shared
      rw [stolen] at away
      cases away
    dsimp only
    rw [if_neg (by rw [set_]; simp),if_neg plain]
    refine ⟨sorted.untake (.inr rfl) _ fun m' differ => Function.update_of_ne differ _ _,?_,?_,inv.logged_on here (by simp) (kept.untake (.inr rfl)) (back_old (by simp)),
      inv.told_on here (by simp) ⟨rfl,rfl,rfl⟩ (by simp [here])⟩
    · simp only [owed,here]
      rw [recount_page (by rw [stolen]; simp) (by simp)]
      exact counted
    · simp only [Shape,here]
      exact shape
  | nil =>
    rw [list] at sorted kept
    refine ⟨sorted,?_,⟨rfl,shape⟩,inv.logged_on here (by simp) kept fun _ _ => id,
      inv.told_on here (by simp) ⟨rfl,rfl,rfl⟩ (by simp)⟩
    simp only [owed]
    rw [counted]
    simp

theorem assignPages_dying (b order : Nat) (doomed : s.isDying = true) : assignPages s b order = none := if_pos doomed

theorem assignPages_alive (b order : Nat) (alive : s.isDying = false) :
    assignPages s b order = some {s with page := Zones.moved s.page b (2 ^ order) .mine,
                                         allocated := fun m => if b ≤ m ∧ m < b + 2 ^ order then true else s.allocated m} :=
  if_neg (by rw [alive]; simp)

theorem stepAssign_inv (inv : Inv s) (here : s.pc = .assign) : Inv (stepAssign s x) := by
  have shape := inv.shape
  have counted := inv.counted
  have busy : s.pc ≠ .idle ∧ s.pc ≠ .chunk := by rw [here]; simp
  have sorted := inv.sorted
  have kept := inv.logged.kept
  simp only [Shape,here] at shape
  simp only [owed,here] at counted
  unfold stepAssign
  cases list : s.outChunkList with
  | cons b rest =>
    rw [list] at sorted kept shape
    obtain ⟨known,spare⟩ := sorted.block_known
    have notMine : ∀ m, b ≤ m → m < b + 2 ^ s.exch.out.extentOrder → s.page m ≠ .mine := fun m low high => by
      rw [spare m low high]
      simp
    dsimp only
    rcases Bool.eq_false_or_eq_true s.isDying with doomed | alive
    · rw [assignPages_dying _ _ doomed]
      refine ⟨sorted.unalloc (.inr rfl) _ fun _ _ => rfl,?_,shape.1,inv.logged_on here (by simp) (kept.unalloc (.inr rfl)) (back_old (by simp)),
        inv.told_on here (by simp) ⟨rfl,rfl,rfl⟩ (by simp)⟩
      · simp only [owed]
        rw [count_other notMine (by simp)]
        omega
    · rw [assignPages_alive _ _ alive]
      refine ⟨sorted.unalloc (.inl rfl) _ fun m' out => if_neg out,?_,?_,inv.logged_on here (by simp) (kept.unalloc (.inl rfl)) (back_old (by simp)),
        inv.told_on here (by simp) ⟨rfl,rfl,rfl⟩ (by simp [here])⟩
      · simp only [owed,here]
        rw [count_arrive known notMine]
        push_cast
        rw [Int.add_mul]
        omega
      · simp only [Shape,here]
        rw [List.length_cons] at shape
        exact ⟨shape.1,by omega⟩
  | nil =>
    rw [list,List.length_nil,Nat.zero_add] at shape
    dsimp only
    rw [if_neg fun wrong => wrong.2 shape.2]
    have full : (s.exch.chunkPages : Int) - s.j * 2 ^ s.exch.out.extentOrder = 0 := by
      rw [chunkPages_eq,shape.2]
      push_cast
      exact Int.sub_self _
    rw [full] at counted
    rw [shape.1,list] at kept
    rw [list] at sorted
    refine ⟨sorted,counted,⟨shape.1,rfl⟩,inv.logged_on here (by simp) ?_ fun _ _ => id,
      ⟨?_,fun _ => ⟨(inv.told.running busy.1).1,inv.told.inside busy.1 busy.2⟩,fun _ other => absurd rfl other,fun _ idle => by cases idle⟩⟩
    · dsimp only
      rw [shape.1]
      exact kept.renumber _
    · change s.i + 1 = s.exch.first + (s.completed + 1)
      rw [inv.told.count,Nat.add_assoc]

theorem stepFail_inv (inv : Inv s) (here : s.pc = .fail) : Inv (stepFail s) := by
  have shape := inv.shape
  have counted := inv.counted
  have sorted := inv.sorted
  have kept := inv.logged.kept
  simp only [Shape,here] at shape
  simp only [owed,here] at counted
  unfold stepFail
  cases list : s.inChunkList with
  | cons m rest =>
    obtain ⟨alive,plain⟩ := shape (by rw [list]; simp)
    rw [list] at sorted kept counted
    have stolen : s.page m = .stolen := (sorted.stolen m).mpr List.mem_cons_self
    dsimp only
    rw [if_neg plain,assignPages_alive _ _ alive]
    refine ⟨sorted.untake (.inl rfl) _ fun m' differ => if_neg (by omega),?_,?_,⟨kept.untake (.inl rfl),fun c m' member => ?_⟩,
      inv.told_on here (by simp) ⟨rfl,rfl,rfl⟩ (by simp [here])⟩
    · simp only [owed,here,Nat.pow_zero]
      rw [count_page (sorted.known m (by rw [stolen]; simp)) (by rw [stolen]; simp)]
      rw [List.length_cons] at counted
      push_cast at counted ⊢
      omega
    · simp only [Shape,here]
      exact fun _ => ⟨alive,plain⟩
    · rcases mem_append_one.mp member with old | new
      · exact ⟨(inv.logged.back c m' old).1,.inl here⟩
      · cases new
        exact ⟨rfl,.inl here⟩
  | nil =>
    rw [list] at sorted kept counted
    exact ⟨sorted,counted,rfl,⟨kept,fun c m member => ⟨(inv.logged.back c m member).1,.inr (.inl rfl)⟩⟩,
      inv.told_on here (by simp) ⟨rfl,rfl,rfl⟩ (by simp)⟩

theorem stepDying_inv (inv : Inv s) (here : s.pc = .dying) : Inv (stepDying s x) := by
  have shape := inv.shape
  have counted := inv.counted
  have sorted := inv.sorted
  have kept := inv.logged.kept
  simp only [Shape,here] at shape
  simp only [owed,here] at counted
  unfold stepDying
  cases list : s.outChunkList with
  | cons b rest =>
    rw [list] at sorted kept
    obtain ⟨_,spare⟩ := sorted.block_known
    refine ⟨sorted.unalloc (.inr rfl) _ fun _ _ => rfl,?_,?_,⟨kept.unalloc (.inr rfl),fun c m member => ?_⟩,
      inv.told_on here (by simp) ⟨rfl,rfl,rfl⟩ (by simp [here])⟩
    · simp only [owed,here]
      rw [count_other (fun m low high => by rw [spare m low high]; simp) (by simp)]
      exact counted
    · simp only [Shape,here]
      exact shape
    · exact ⟨(inv.logged.back c m (back_old (by simp) c m member)).1,.inr (.inl here)⟩
  | nil => exact leave_inv inv shape list (by rw [owed,here]) _ rfl

end XenAet.ExchangeRuns
