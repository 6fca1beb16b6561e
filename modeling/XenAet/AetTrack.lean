import XenAet.AetHistogram
import XenAet.Library.Run

namespace XenAet.AetTrack
open AetControl AetHistogram Library
variable {c next : AetCtrl}

def bumpHist (c : AetCtrl) (d : Int) (bucket : Nat) : AetCtrl :=
  let row := Function.update (c.aetHist d) bucket (c.aetHist d bucket + 1)
  {c with aetHist:=Function.update c.aetHist d row}

-- `none` is the call that never returns from `domain_value_to_index`.
def addToAetHistogram (c : AetCtrl) (domainId : Int) (oldMc newMc : U64) : Option AetCtrl :=
  if newMc < oldMc then some c else do
    let compressedDis ← domainValueToIndex (newMc - oldMc)
    if BitVec.ofNat 64 maxPageNum ≤ compressedDis then some c
    else some (bumpHist c (domainId-1) compressedDis.toNat)

def setSlot (c : AetCtrl) (d : Int) (key pos : Nat) (node : HashNode) : AetCtrl :=
  let row := Function.update (c.hns d key) pos node
  {c with hns:=Function.update c.hns d (Function.update (c.hns d) key row)}

-- The memory references the shadow faults themselves added since the last
-- visit, twenty for each, in 64-bit arithmetic.
def mcDiff (c : AetCtrl) (node : HashNode) : U64 := (c.pageFaultCount - node.pf) * 20

def logHit (c : AetCtrl) (node : HashNode) (mfn memCounter : U64) : Option AetCtrl :=
  if node.memCounter < memCounter then do
    let index ← domainValueToIndex (memCounter - node.memCounter)
    return addUserModeFaultCount c mfn 0 (mcDiff c node) index (memCounter - node.memCounter - mcDiff c node)
  else some c

def trackHit (c : AetCtrl) (domainId : Int) (mfn memCounter : U64) (key pos : Nat) : Option AetCtrl := do
  let node := c.hns (domainId-1) key pos
  let counted ← addToAetHistogram c domainId node.memCounter (memCounter - mcDiff c node)
  let logged ← logHit counted node mfn memCounter
  let stored := setSlot logged (domainId-1) key pos ⟨node.mfn,memCounter,logged.pageFaultCount⟩
  return {stored with totRef:=Function.update stored.totRef (domainId-1) (stored.totRef (domainId-1) + 1)}

def trackInsert (c : AetCtrl) (domainId : Int) (mfn memCounter : U64) (key pos : Nat) : AetCtrl :=
  let stored := setSlot c (domainId-1) key pos ⟨mfn,memCounter,c.pageFaultCount⟩
  {stored with nodeCount:=Function.update stored.nodeCount (domainId-1) (stored.nodeCount (domainId-1) + 1)}

def probe (c : AetCtrl) (domainId : Int) (mfn memCounter : U64) (key : Nat) : List Nat → Option AetCtrl
  | [] => some {c with hashConflictNum:=c.hashConflictNum+1}
  | pos :: rest =>
    if (c.hns (domainId-1) key pos).mfn = mfn then trackHit c domainId mfn memCounter key pos
    else if (c.hns (domainId-1) key pos).mfn = 0#64 then some (trackInsert c domainId mfn memCounter key pos)
    else probe c domainId mfn memCounter key rest

def keyOf (mfn : U64) : Nat := mfn.toNat % hashSize

def trackAetFault (c : AetCtrl) (domainId : Int) (mfn memCounter : U64) : Option AetCtrl :=
  probe c domainId mfn memCounter (keyOf mfn) (List.range hashConflictNum)

-- What `sh_page_fault` may hand over: a domain that has a table, a frame that
-- is not 0, and any 64-bit counter.
structure TrackCall where
  domainId : Int
  mfn : U64
  memCounter : U64
  tabled : 1 ≤ domainId ∧ domainId ≤ maxDomNr
  framed : mfn ≠ 0#64

inductive Event where
  | pageFault
  | fault (call : TrackCall)

def step (c : AetCtrl) : Event → Option AetCtrl
  | .pageFault => some (addPageFaultCount c)
  | .fault call => trackAetFault c call.domainId call.mfn call.memCounter

def SameTables (c next : AetCtrl) : Prop :=
  next.aetHist = c.aetHist ∧ next.totRef = c.totRef ∧ next.nodeCount = c.nodeCount ∧
    next.hns = c.hns ∧ next.hashConflictNum = c.hashConflictNum ∧ next.pageFaultCount = c.pageFaultCount

theorem log_tables (c : AetCtrl) (va l1 l1p ec mc : U64) :
    SameTables c (addUserModeFaultCount c va l1 l1p ec mc) := by
  unfold addUserModeFaultCount logVa
  split <;> exact ⟨rfl,rfl,rfl,rfl,rfl,rfl⟩

theorem hit_log_tables (ran : logHit c node mfn memCounter = some next) : SameTables c next := by
  unfold logHit at ran
  split at ran
  · obtain ⟨i,_,ran⟩ := Option.bind_eq_some_iff.mp ran
    cases ran
    exact log_tables c _ _ _ _ _
  · cases ran; exact ⟨rfl,rfl,rfl,rfl,rfl,rfl⟩

theorem histogram_cases (ran : addToAetHistogram c domainId oldMc newMc = some next) :
    (newMc < oldMc ∧ next = c) ∨
    (oldMc ≤ newMc ∧ ∃ i, domainValueToIndex (newMc - oldMc) = some i ∧ i.toNat < maxPageNum ∧
      next = bumpHist c (domainId-1) i.toNat) := by
  unfold addToAetHistogram at ran
  split at ran
  · rename_i backward
    exact .inl ⟨backward,(Option.some.inj ran).symm⟩
  · rename_i forward
    obtain ⟨i,returned,rest⟩ := Option.bind_eq_some_iff.mp ran
    have inside := index_in_range returned
    split at rest
    · rename_i large
      have : maxPageNum ≤ i.toNat := by simpa [BitVec.le_def,maxPageNum] using large
      omega
    · exact .inr ⟨BitVec.not_lt.mp forward,i,returned,inside,(Option.some.inj rest).symm⟩

theorem hit_cases (ran : trackHit c domainId mfn memCounter key pos = some next) :
    ∃ counted, addToAetHistogram c domainId (c.hns (domainId-1) key pos).memCounter
        (memCounter - mcDiff c (c.hns (domainId-1) key pos)) = some counted ∧
      next.aetHist = counted.aetHist ∧
      next.totRef = Function.update c.totRef (domainId-1) (c.totRef (domainId-1) + 1) ∧
      next.nodeCount = c.nodeCount ∧ next.hashConflictNum = c.hashConflictNum ∧
      next.pageFaultCount = c.pageFaultCount ∧
      next.hns = (setSlot c (domainId-1) key pos
        ⟨(c.hns (domainId-1) key pos).mfn,memCounter,c.pageFaultCount⟩).hns := by
  obtain ⟨counted,hist,ran⟩ := Option.bind_eq_some_iff.mp ran
  obtain ⟨logged,log,ran⟩ := Option.bind_eq_some_iff.mp ran
  cases ran
  have same := hit_log_tables log
  have kept : counted.totRef = c.totRef ∧ counted.nodeCount = c.nodeCount ∧ counted.hns = c.hns ∧
      counted.hashConflictNum = c.hashConflictNum ∧ counted.pageFaultCount = c.pageFaultCount := by
    rcases histogram_cases hist with ⟨_,rfl⟩ | ⟨_,_,_,_,rfl⟩ <;> exact ⟨rfl,rfl,rfl,rfl,rfl⟩
  obtain ⟨histSame,totSame,nodeSame,hnsSame,conflictSame,pfSame⟩ := same
  obtain ⟨tot,node,hns,conflict,pf⟩ := kept
  refine ⟨counted,hist,histSame,?_,nodeSame.trans node,conflictSame.trans conflict,pfSame.trans pf,?_⟩
  · simp [setSlot,totSame,tot]
  · simp [setSlot,hnsSame,hns,pfSame,pf]

def Other (c : AetCtrl) (d : Int) (key : Nat) (mfn : U64) (q : Nat) : Prop :=
  (c.hns d key q).mfn ≠ mfn ∧ (c.hns d key q).mfn ≠ 0#64

theorem probe_cases (k n : Nat) (passed : ∀ q, q < k → Other c (domainId-1) key mfn q)
    (ran : probe c domainId mfn memCounter key (List.range' k n) = some next) :
    (∃ pos, pos < k+n ∧ (∀ q, q < pos → Other c (domainId-1) key mfn q) ∧
      (c.hns (domainId-1) key pos).mfn = mfn ∧ trackHit c domainId mfn memCounter key pos = some next) ∨
    (∃ pos, pos < k+n ∧ (∀ q, q < pos → Other c (domainId-1) key mfn q) ∧
      (c.hns (domainId-1) key pos).mfn = 0#64 ∧ next = trackInsert c domainId mfn memCounter key pos) ∨
    ((∀ q, q < k+n → Other c (domainId-1) key mfn q) ∧
      next = {c with hashConflictNum:=c.hashConflictNum+1}) := by
  induction n generalizing k with
  | zero => exact .inr (.inr ⟨by simpa using passed,(Option.some.inj ran).symm⟩)
  | succ n ih =>
    rw [List.range'_succ] at ran
    unfold probe at ran
    split at ran
    · rename_i hit
      exact .inl ⟨k,by omega,passed,hit,ran⟩
    · rename_i miss
      split at ran
      · rename_i empty
        exact .inr (.inl ⟨k,by omega,passed,empty,(Option.some.inj ran).symm⟩)
      · rename_i full
        have further : ∀ q, q < k+1 → Other c (domainId-1) key mfn q := by
          intro q early
          rcases Nat.lt_succ_iff_lt_or_eq.mp early with before | rfl
          · exact passed q before
          · exact ⟨miss,full⟩
        have rest := ih (k+1) further ran
        rwa [show k+1+n = k+(n+1) by omega] at rest

theorem track_cases (ran : trackAetFault c domainId mfn memCounter = some next) :
    (∃ pos, pos < hashConflictNum ∧ (c.hns (domainId-1) (keyOf mfn) pos).mfn = mfn ∧
      trackHit c domainId mfn memCounter (keyOf mfn) pos = some next) ∨
    (∃ pos, pos < hashConflictNum ∧ (∀ q, q < pos → Other c (domainId-1) (keyOf mfn) mfn q) ∧
      (c.hns (domainId-1) (keyOf mfn) pos).mfn = 0#64 ∧
      next = trackInsert c domainId mfn memCounter (keyOf mfn) pos) ∨
    ((∀ q, q < hashConflictNum → Other c (domainId-1) (keyOf mfn) mfn q) ∧
      next = {c with hashConflictNum:=c.hashConflictNum+1}) := by
  rw [trackAetFault,List.range_eq_range'] at ran
  rcases probe_cases 0 _ (by simp) ran with ⟨pos,small,_,hit,done⟩ | ⟨pos,small,before,empty,done⟩ | ⟨full,done⟩
  · exact .inl ⟨pos,by simpa using small,hit,done⟩
  · exact .inr (.inl ⟨pos,by simpa using small,before,empty,done⟩)
  · exact .inr (.inr ⟨by simpa using full,done⟩)

theorem slot_update (c : AetCtrl) (d : Int) (key pos : Nat) (node : HashNode) (d' : Int) (key' pos' : Nat) :
    (setSlot c d key pos node).hns d' key' pos' =
      if d' = d ∧ key' = key ∧ pos' = pos then node else c.hns d' key' pos' := by
  by_cases sameD : d' = d
  · subst d'
    by_cases sameKey : key' = key
    · subst key'
      by_cases samePos : pos' = pos <;> simp [setSlot,samePos]
    · simp [setSlot,sameKey]
  · simp [setSlot,sameD]

end XenAet.AetTrack
