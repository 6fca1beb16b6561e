import XenAet.AetReuse
import XenAet.PageFault

namespace XenAet.AetBounds
open AetControl AetHistogram AetTrack PageEntry PageFault ShadowEntry Library

-- A cell of one of the arrays of `struct AET_ctrl`, by the indices used.
inductive Cell where
  | hns (d key pos : Int)
  | aetHist (d : Int) (bucket : Nat)
  | totRef (d : Int)
  | nodeCount (d : Int)
  | tvs (i : Nat)
  deriving DecidableEq,Repr

def Cell.InBounds : Cell → Prop
  | .hns d key pos => (0 ≤ d ∧ d < maxDomNr) ∧ (0 ≤ key ∧ key < hashSize) ∧ 0 ≤ pos ∧ pos < hashConflictNum
  | .aetHist d bucket => (0 ≤ d ∧ d < maxDomNr) ∧ bucket < maxPageNum
  | .totRef d => 0 ≤ d ∧ d < maxDomNr
  | .nodeCount d => 0 ≤ d ∧ d < maxDomNr
  | .tvs i => i < maxArraySize

instance : (cell : Cell) → Decidable cell.InBounds
  | .hns _ _ _ => inferInstanceAs (Decidable ((_ ∧ _) ∧ (_ ∧ _) ∧ _ ∧ _))
  | .aetHist _ _ => inferInstanceAs (Decidable ((_ ∧ _) ∧ _))
  | .totRef _ => inferInstanceAs (Decidable (_ ∧ _))
  | .nodeCount _ => inferInstanceAs (Decidable (_ ∧ _))
  | .tvs _ => inferInstanceAs (Decidable (_ < _))

-- `key` is an `int`, set from an unsigned remainder.
def keyInt (mfn : U64) : Int := (BitVec.ofNat 32 (keyOf mfn)).toInt

def logCells (c : AetCtrl) : List Cell :=
  if c.totalCount + 10 < BitVec.ofNat 64 maxArraySize then [.tvs c.totalCount.toNat] else []

def histogramCells (d : Int) (oldMc newMc : U64) : List Cell :=
  if newMc < oldMc then [] else
    match domainValueToIndex (newMc - oldMc) with
    | none => []
    | some i => if BitVec.ofNat 64 maxPageNum ≤ i then [] else [.aetHist d i.toNat]

-- The cells a hit touches; one whose look-up never returns stops before the end.
def hitCells (c : AetCtrl) (d : Int) (node : HashNode) (memCounter : U64) : List Cell :=
  histogramCells d node.memCounter (memCounter - mcDiff c node) ++
    (if node.memCounter < memCounter then logCells c else []) ++ [.totRef d]

def probeCells (c : AetCtrl) (d : Int) (mfn memCounter : U64) : List Nat → List Cell
  | [] => []
  | pos :: rest =>
    .hns d (keyInt mfn) pos ::
      if (c.hns d (keyOf mfn) pos).mfn = mfn then hitCells c d (c.hns d (keyOf mfn) pos) memCounter
      else if (c.hns d (keyOf mfn) pos).mfn = 0#64 then [.nodeCount d]
      else probeCells c d mfn memCounter rest

def trackCells (c : AetCtrl) (domainId : Int) (mfn memCounter : U64) : List Cell :=
  probeCells c (domainId-1) mfn memCounter (List.range hashConflictNum)

-- What `sh_page_fault` hands over, and the entry in the log it makes before.
def trackedMfn (r : Reading) : U64 := l1eGetPfn r.sl1e &&& AetMark.frameMask

def loggedFirst (f : Fault) (c : AetCtrl) (r : Reading) : AetCtrl :=
  addUserModeFaultCount (countFault c r.errorCode) f.va r.sl1e (entryAddress r.slot) (r.errorCode.setWidth 64) r.memCounter

def recordCells (f : Fault) (c : AetCtrl) (r : Reading) : List Cell :=
  if shL1eIsAetMagic r.sl1e then
    logCells c ++ if trackedMfn r = 0 then [] else trackCells (loggedFirst f c r) f.domainId (trackedMfn r) r.memCounter
  else []

inductive Event where
  | pageFault
  | setMagic (va l1 l1p ec mc : U64)
  | record (f : Fault) (r : Reading)

def step (c : AetCtrl) : Event → Option AetCtrl
  | .pageFault => some (addPageFaultCount c)
  | .setMagic va l1 l1p ec mc => some (addSetAetMagicCount c va l1 l1p ec mc)
  | .record f r => aetRecord f c r

variable {c next : AetCtrl} {f : Fault} {r : Reading} {mfn memCounter : U64} {domainId d : Int}

-- Outside the cells listed a call changes nothing.
structure Untouched (cells : List Cell) (c next : AetCtrl) : Prop where
  hns : ∀ d (key pos : Nat), .hns d key pos ∉ cells → next.hns d key pos = c.hns d key pos
  aetHist : ∀ d bucket, .aetHist d bucket ∉ cells → next.aetHist d bucket = c.aetHist d bucket
  totRef : ∀ d, .totRef d ∉ cells → next.totRef d = c.totRef d
  nodeCount : ∀ d, .nodeCount d ∉ cells → next.nodeCount d = c.nodeCount d
  tvs : ∀ i, .tvs i ∉ cells → next.tvs i = c.tvs i

theorem keyInt_eq (mfn : U64) : keyInt mfn = keyOf mfn := by
  have small : keyOf mfn < 49997 := Nat.mod_lt _ (by decide)
  rw [keyInt,BitVec.toInt_eq_toNat_of_lt,BitVec.toNat_ofNat,Nat.mod_eq_of_lt (by omega)]
  rw [BitVec.toNat_ofNat]
  omega

theorem slot_untouched (c : AetCtrl) (d : Int) (mfn : U64) (pos : Nat) (node : HashNode) (d' : Int) (key' pos' : Nat)
    (apart : Cell.hns d' key' pos' ≠ .hns d (keyInt mfn) pos) : (setSlot c d (keyOf mfn) pos node).hns d' key' pos' = c.hns d' key' pos' := by
  rw [slot_update,if_neg]
  rintro ⟨rfl,rfl,rfl⟩
  exact apart (by rw [keyInt_eq])

theorem logVa_tvs (row : TrackedVa) (i : Nat) (out : Cell.tvs i ∉ logCells c) : (logVa c row).tvs i = c.tvs i := by
  unfold logVa
  unfold logCells at out
  split at out
  · rename_i room
    rw [if_pos room]
    exact Function.update_of_ne (fun same => out (by rw [same]; exact List.mem_singleton_self _)) _ _
  · rename_i full
    rw [if_neg full]

theorem histogram_untouched (ran : addToAetHistogram c domainId oldMc newMc = some next) (d : Int) (bucket : Nat)
    (out : Cell.aetHist d bucket ∉ histogramCells (domainId-1) oldMc newMc) : next.aetHist d bucket = c.aetHist d bucket := by
  rcases histogram_cases ran with ⟨_,rfl⟩ | ⟨forward,i,returned,inside,rfl⟩
  · rfl
  · have small : ¬ BitVec.ofNat 64 maxPageNum ≤ i := by
      rw [BitVec.le_def,show (BitVec.ofNat 64 maxPageNum).toNat = maxPageNum from rfl,Nat.not_le]
      exact inside
    simp only [histogramCells,if_neg (BitVec.not_lt.mpr forward),returned,if_neg small,List.mem_singleton] at out
    by_cases same : d = domainId-1
    · subst same
      have other : bucket ≠ i.toNat := fun same => out (by rw [same])
      simp [bumpHist,other]
    · simp [bumpHist,same]

theorem hit_untouched (ran : trackHit c domainId mfn memCounter (keyOf mfn) pos = some next) :
    Untouched (.hns (domainId-1) (keyInt mfn) pos :: hitCells c (domainId-1) (c.hns (domainId-1) (keyOf mfn) pos) memCounter) c next := by
  obtain ⟨counted,hist,aetHist,totRef,nodeCount,_,_,hns⟩ := hit_cases ran
  obtain ⟨counted',hist',ran⟩ := Option.bind_eq_some_iff.mp ran
  rw [hist] at hist'
  cases hist'
  obtain ⟨logged,log,ran⟩ := Option.bind_eq_some_iff.mp ran
  refine ⟨fun d' key' pos' out => ?_,fun d' bucket out => ?_,fun d' out => ?_,fun _ _ => by rw [nodeCount],fun i out => ?_⟩
  · rw [hns]
    exact slot_untouched c _ mfn pos _ d' key' pos' fun same => out (by rw [same]; exact List.mem_cons_self)
  · rw [aetHist]
    exact histogram_untouched hist d' bucket fun there =>
      out (List.mem_cons_of_mem _ (List.mem_append_left _ (List.mem_append_left _ there)))
  · rw [totRef]
    exact Function.update_of_ne (fun same => out (by rw [same]; exact List.mem_cons_of_mem _ (List.mem_append_right _ (List.mem_singleton_self _)))) _ _
  · have same : counted.tvs = c.tvs ∧ counted.totalCount = c.totalCount := by
      rcases histogram_cases hist with ⟨_,rfl⟩ | ⟨_,_,_,_,rfl⟩ <;> exact ⟨rfl,rfl⟩
    have kept : next.tvs i = logged.tvs i := by
      cases ran
      rfl
    rw [kept,← same.1]
    unfold logHit at log
    split at log
    · rename_i forward
      obtain ⟨_,_,log⟩ := Option.bind_eq_some_iff.mp log
      cases log
      refine logVa_tvs _ i fun there => out (List.mem_cons_of_mem _ (List.mem_append_left _ (List.mem_append_right _ ?_)))
      rw [if_pos forward]
      simp only [logCells,same.2] at there ⊢
      exact there
    · cases log
      rfl

theorem probe_untouched (list : List Nat) (ran : probe c domainId mfn memCounter (keyOf mfn) list = some next) :
    Untouched (probeCells c (domainId-1) mfn memCounter list) c next := by
  induction list with
  | nil =>
    cases ran
    exact ⟨fun _ _ _ _ => rfl,fun _ _ _ => rfl,fun _ _ => rfl,fun _ _ => rfl,fun _ _ => rfl⟩
  | cons pos rest ih =>
    unfold probe at ran
    unfold probeCells
    split at ran
    · rename_i hit
      rw [if_pos hit]
      exact hit_untouched ran
    · rename_i miss
      rw [if_neg miss]
      split at ran
      · rename_i empty
        rw [if_pos empty]
        cases ran
        refine ⟨fun d' key' pos' out => ?_,fun _ _ _ => rfl,fun _ _ => rfl,fun d' out => ?_,fun _ _ => rfl⟩
        · exact slot_untouched c _ mfn pos _ d' key' pos' fun same => out (by rw [same]; exact List.mem_cons_self)
        · exact Function.update_of_ne (fun same => out (by rw [same]; simp)) _ _
      · rename_i full
        rw [if_neg full]
        have kept := ih ran
        exact ⟨fun d key pos out => kept.hns d key pos fun there => out (List.mem_cons_of_mem _ there),
          fun d bucket out => kept.aetHist d bucket fun there => out (List.mem_cons_of_mem _ there),
          fun d out => kept.totRef d fun there => out (List.mem_cons_of_mem _ there),
          fun d out => kept.nodeCount d fun there => out (List.mem_cons_of_mem _ there),
          fun i out => kept.tvs i fun there => out (List.mem_cons_of_mem _ there)⟩

theorem Untouched.trans {cells cells' : List Cell} {middle : AetCtrl} (first : Untouched cells c middle)
    (second : Untouched cells' middle next) : Untouched (cells ++ cells') c next := by
  have left {cell : Cell} (out : cell ∉ cells ++ cells') : cell ∉ cells := fun there => out (List.mem_append_left _ there)
  have right {cell : Cell} (out : cell ∉ cells ++ cells') : cell ∉ cells' := fun there => out (List.mem_append_right _ there)
  exact ⟨fun d key pos out => (second.hns d key pos (right out)).trans (first.hns d key pos (left out)),
    fun d bucket out => (second.aetHist d bucket (right out)).trans (first.aetHist d bucket (left out)),
    fun d out => (second.totRef d (right out)).trans (first.totRef d (left out)),
    fun d out => (second.nodeCount d (right out)).trans (first.nodeCount d (left out)),
    fun i out => (second.tvs i (right out)).trans (first.tvs i (left out))⟩

theorem countFault_arrays (c : AetCtrl) (errorCode : Flags) : Untouched [] c (countFault c errorCode) ∧
    (countFault c errorCode).totalCount = c.totalCount := by
  unfold countFault
  dsimp only
  split_ifs <;> exact ⟨⟨fun _ _ _ _ => rfl,fun _ _ _ => rfl,fun _ _ => rfl,fun _ _ => rfl,fun _ _ => rfl⟩,rfl⟩

theorem userLog_untouched (c : AetCtrl) (va l1 l1p ec mc : U64) : Untouched (logCells c) c (addUserModeFaultCount c va l1 l1p ec mc) := by
  obtain ⟨hist,tot,node,hns,_⟩ := log_tables c va l1 l1p ec mc
  exact ⟨fun _ _ _ _ => by rw [hns],fun _ _ _ => by rw [hist],fun _ _ => by rw [tot],fun _ _ => by rw [node],
    fun i out => logVa_tvs (c:={c with userModeFault:=c.userModeFault+1}) _ i out⟩

theorem record_untouched (ran : aetRecord f c r = some next) : Untouched (recordCells f c r) c next := by
  obtain ⟨counted,total⟩ := countFault_arrays c r.errorCode
  have first : Untouched (logCells c) c (loggedFirst f c r) := by
    have logged := userLog_untouched (countFault c r.errorCode) f.va r.sl1e (entryAddress r.slot) (r.errorCode.setWidth 64) r.memCounter
    rw [logCells,total] at logged
    exact counted.trans logged
  simp only [aetRecord] at ran
  unfold recordCells
  split at ran
  · rename_i magic
    rw [if_pos magic]
    obtain ⟨tracked,track,ran⟩ := Option.map_eq_some_iff.mp ran
    have last : Untouched [] tracked next := by
      rw [← ran]
      exact ⟨fun _ _ _ _ => rfl,fun _ _ _ => rfl,fun _ _ => rfl,fun _ _ => rfl,fun _ _ => rfl⟩
    split at track
    · rename_i zero
      rw [if_pos (show trackedMfn r = 0 from zero)]
      cases track
      exact first.trans last
    · rename_i some_
      rw [if_neg (show ¬ trackedMfn r = 0 from some_)]
      have whole := (first.trans (probe_untouched _ track)).trans last
      rw [List.append_nil] at whole
      exact whole
  · rename_i plain
    rw [if_neg plain]
    cases ran
    exact counted

-- The log stops ten entries before its end, so the counter never wraps.
def Logs (c : AetCtrl) : Prop := c.totalCount.toNat + 10 ≤ maxArraySize

theorem zeroed_logs : Logs zeroed := show (0 : U64).toNat + 10 ≤ maxArraySize by decide

theorem room_iff (logs : Logs c) : c.totalCount + 10 < BitVec.ofNat 64 maxArraySize ↔ c.totalCount.toNat + 10 < maxArraySize := by
  have sum : (c.totalCount + 10).toNat = c.totalCount.toNat + 10 := by
    rw [Logs,maxArraySize] at logs
    rw [BitVec.toNat_add,show (10 : U64).toNat = 10 from rfl,Nat.mod_eq_of_lt (by omega)]
  rw [BitVec.lt_def,sum,show (BitVec.ofNat 64 maxArraySize).toNat = maxArraySize from rfl]

theorem logVa_logs (row : TrackedVa) (logs : Logs c) : Logs (logVa c row) := by
  unfold logVa
  split
  · rename_i room
    rw [room_iff logs] at room
    have more := Tally.toNat_succ c.totalCount (by rw [maxArraySize] at room; omega)
    change (c.totalCount + 1).toNat + 10 ≤ maxArraySize
    omega
  · exact logs

theorem same_logs (logs : Logs c) (same : next.totalCount = c.totalCount) : Logs next := by
  rw [Logs,same]
  exact logs

theorem userLog_logs (va l1 l1p ec mc : U64) (logs : Logs c) : Logs (addUserModeFaultCount c va l1 l1p ec mc) :=
  logVa_logs _ (same_logs logs rfl)

theorem logHit_logs (logs : Logs c) (ran : logHit c node mfn memCounter = some next) : Logs next := by
  unfold logHit at ran
  split at ran
  · obtain ⟨i,_,ran⟩ := Option.bind_eq_some_iff.mp ran
    cases ran
    exact userLog_logs _ _ _ _ _ logs
  · cases ran
    exact logs

theorem hit_logs (logs : Logs c) (ran : trackHit c domainId mfn memCounter key pos = some next) : Logs next := by
  obtain ⟨counted,hist,ran⟩ := Option.bind_eq_some_iff.mp ran
  obtain ⟨logged,log,ran⟩ := Option.bind_eq_some_iff.mp ran
  cases ran
  have first : Logs counted := by
    rcases histogram_cases hist with ⟨_,rfl⟩ | ⟨_,_,_,_,rfl⟩ <;> exact logs
  have second : Logs logged := logHit_logs first log
  exact same_logs second rfl

theorem track_logs (logs : Logs c) (ran : trackAetFault c domainId mfn memCounter = some next) : Logs next := by
  rcases track_cases ran with ⟨pos,_,_,hit⟩ | ⟨pos,_,_,_,rfl⟩ | ⟨_,rfl⟩
  · exact hit_logs logs hit
  · exact logs
  · exact logs

theorem countFault_logs (errorCode : Flags) (logs : Logs c) : Logs (countFault c errorCode) := by
  unfold countFault
  dsimp only
  split_ifs <;> exact logs

theorem loggedFirst_logs (logs : Logs c) : Logs (loggedFirst f c r) :=
  userLog_logs _ _ _ _ _ (countFault_logs _ logs)

theorem step_logs (c : AetCtrl) (event : Event) (next : AetCtrl) (logs : Logs c) (ran : step c event = some next) : Logs next := by
  cases event with
  | pageFault => cases ran; exact logs
  | setMagic va l1 l1p ec mc =>
    cases ran
    exact same_logs (logVa_logs _ logs) rfl
  | record f r =>
    simp only [step,aetRecord] at ran
    split at ran
    · obtain ⟨tracked,track,ran⟩ := Option.map_eq_some_iff.mp ran
      rw [← ran]
      change Logs tracked
      split at track
      · cases track
        exact loggedFirst_logs logs
      · exact track_logs (loggedFirst_logs (f:=f) (r:=r) logs) track
    · cases ran
      exact countFault_logs _ logs

theorem logCells_bounded (logs : Logs c) : ∀ cell ∈ logCells c, cell.InBounds := by
  unfold logCells
  split
  · rename_i room
    rw [room_iff logs] at room
    rw [List.forall_mem_singleton]
    exact Nat.lt_of_le_of_lt (Nat.le_add_right _ 10) room
  · simp

theorem key_bounded (mfn : U64) : 0 ≤ keyInt mfn ∧ keyInt mfn < hashSize := by
  have small : keyOf mfn < hashSize := Nat.mod_lt _ (by decide)
  rw [keyInt_eq]
  omega

theorem histogram_bounded (tabled : 0 ≤ d ∧ d < maxDomNr) (oldMc newMc : U64) :
    ∀ cell ∈ histogramCells d oldMc newMc, cell.InBounds := by
  unfold histogramCells
  split
  · simp
  · split
    · simp
    · rename_i i returned
      split
      · simp
      · rw [List.forall_mem_singleton]
        exact ⟨tabled,index_in_range returned⟩

theorem hit_bounded (logs : Logs c) (tabled : 0 ≤ d ∧ d < maxDomNr) (node : HashNode) :
    ∀ cell ∈ hitCells c d node memCounter, cell.InBounds := by
  unfold hitCells
  rw [List.forall_mem_append,List.forall_mem_append,List.forall_mem_singleton]
  refine ⟨⟨histogram_bounded tabled _ _,?_⟩,tabled⟩
  split
  · exact logCells_bounded logs
  · simp

theorem probe_bounded (logs : Logs c) (tabled : 0 ≤ d ∧ d < maxDomNr) (list : List Nat)
    (inside : ∀ pos ∈ list, pos < hashConflictNum) : ∀ cell ∈ probeCells c d mfn memCounter list, cell.InBounds := by
  induction list with
  | nil => simp [probeCells]
  | cons pos rest ih =>
    rw [List.forall_mem_cons] at inside
    rw [probeCells,List.forall_mem_cons]
    refine ⟨⟨tabled,key_bounded mfn,Int.natCast_nonneg pos,Int.ofNat_lt.mpr inside.1⟩,?_⟩
    split
    · exact hit_bounded logs tabled _
    · split
      · rw [List.forall_mem_singleton]
        exact tabled
      · exact ih inside.2

-- The first cell looked at already has the domain's index.
theorem track_bounded_iff (logs : Logs c) :
    (∀ cell ∈ trackCells c domainId mfn memCounter, cell.InBounds) ↔ 1 ≤ domainId ∧ domainId ≤ maxDomNr := by
  constructor
  · intro bounded
    have first : (Cell.hns (domainId-1) (keyInt mfn) 0).InBounds := by
      refine bounded _ ?_
      rw [trackCells,show List.range hashConflictNum = [0,1] from rfl,probeCells]
      exact List.mem_cons_self
    have domain := first.1
    omega
  · rintro ⟨low,high⟩
    exact probe_bounded logs ⟨by omega,by omega⟩ _ fun pos member => List.mem_range.mp member

-- The domain has a table, unless the entry leads to no frame.
def Tabled : Event → Prop
  | .record f r => shL1eIsAetMagic r.sl1e = true → trackedMfn r ≠ 0 → 1 ≤ f.domainId ∧ f.domainId ≤ maxDomNr
  | _ => True

instance : (event : Event) → Decidable (Tabled event)
  | .record _ _ => inferInstanceAs (Decidable (_ → _ → _))
  | .pageFault => .isTrue trivial
  | .setMagic _ _ _ _ _ => .isTrue trivial

theorem record_bounded_iff (logs : Logs c) : (∀ cell ∈ recordCells f c r, cell.InBounds) ↔ Tabled (.record f r) := by
  unfold recordCells Tabled
  split
  · rename_i magic
    rw [List.forall_mem_append]
    split
    · rename_i zero
      exact ⟨fun _ _ some_ => absurd zero some_,fun _ => ⟨logCells_bounded logs,by simp⟩⟩
    · rename_i some_
      rw [track_bounded_iff (loggedFirst_logs logs)]
      exact ⟨fun both _ _ => both.2,fun tabled => ⟨logCells_bounded logs,tabled magic some_⟩⟩
  · rename_i plain
    exact ⟨fun _ magic => absurd magic plain,fun _ => by simp⟩

-- The call changes no other cells than those listed, and in a run over domains
-- with tables they are in bounds just when the call is for such a domain too.
theorem tracking_in_bounds_iff (tabled : Run.Guarded (fun _ => Tabled) step zeroed events)
    (ran : Run.run step zeroed events = some c) (f : Fault) (r : Reading) :
    ((∀ cell ∈ recordCells f c r, cell.InBounds) ↔ Tabled (.record f r)) ∧
      ∀ next, aetRecord f c r = some next → Untouched (recordCells f c r) c next := by
  have logs := Run.guarded_invariant (P:=Logs) (fun s event next held _ => step_logs s event next held)
    zeroed_logs tabled ran
  exact ⟨record_bounded_iff logs,fun next done => record_untouched done⟩

theorem entries_pos : 0 < 512 := by decide

-- A marked entry of frame 5, seen in the given domain.
def seen : Reading := ⟨⟨.one,0x900,⟨0,entries_pos⟩⟩,0x7ff8000000005463,0,100⟩

def faultIn (domainId : Int) : Fault :=
  ⟨0x400000,domainId,(Propagate.hvmContext .four false true).d,(Propagate.hvmContext .four false true).v,⟨true,false⟩,true,39,0x800⟩

theorem tracking_in_bounds_iff_one : ∃ c, Run.run step zeroed [.record (faultIn 1) seen,.pageFault] = some c ∧
    ∀ cell ∈ recordCells (faultIn 2) c seen, cell.InBounds := by
  have tabled : Run.Guarded (fun _ => Tabled) step zeroed [.record (faultIn 1) seen,.pageFault] := by decide +kernel
  obtain ⟨c,ran⟩ := Option.isSome_iff_exists.mp
    (show (Run.run step zeroed [.record (faultIn 1) seen,.pageFault]).isSome = true by decide +kernel)
  exact ⟨c,ran,(tracking_in_bounds_iff tabled ran (faultIn 2) seen).1.mpr (by decide)⟩

-- Domain 3 is tracked all the same, in the row behind the last.
theorem third_domain_out_of_bounds : ∃ cell ∈ recordCells (faultIn 3) zeroed seen, ¬ cell.InBounds :=
  ⟨.hns 2 5 0,by decide +kernel,by decide⟩

end XenAet.AetBounds
