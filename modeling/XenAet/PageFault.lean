import XenAet.AetMark
import XenAet.AetTrack
import XenAet.L4Track
import XenAet.Library.Counting
import XenAet.PendingMarks

namespace XenAet.PageFault
open AetControl AetTrack PageEntry Propagate ShadowEntry Library

-- The four-level `sh_page_fault`, compiled with (`aet`) and without `AET_PF`.
-- The answers of the functions it calls, and the shadow entries they store,
-- are inputs; both versions are run on the same ones.

inductive Level where
  | one | two | three | four
  deriving DecidableEq,Repr

structure Slot where
  level : Level
  mfn : U64
  index : Fin 512
  deriving DecidableEq,Repr

abbrev Shadows := Slot → U64

structure Store where
  slot : Slot
  word : U64

def pfecPagePresent : Flags := .twoPow 32 0
def pfecWriteAccess : Flags := .twoPow 32 1
def pfecUserMode : Flags := .twoPow 32 2
def pfecReservedBit : Flags := .twoPow 32 3

structure Reading where
  slot : Slot
  sl1e : U64
  errorCode : Flags
  memCounter : U64

structure Vars where
  errorCode : Flags
  lastWriteEmulOk : Bool
  lastEmulatedFrame : U64
  lastEmulatedMfn : U64
  deriving DecidableEq,Repr

structure State where
  shadows : Shadows
  vars : Vars
  ctrl : AetCtrl

structure Fault where
  va : U64
  domainId : Int
  d : Domain
  v : Vcpu
  mode : L4Track.Mode
  guestMode : Bool
  paddrBits : Nat
  sl4mfn : U64

inductive X86Emul where
  | okay | unhandleable | exception | retry
  deriving DecidableEq,Repr

structure Emulation where
  eventPending : Bool
  result : X86Emul
  written : List Store
  unshadowed : List Store
  isTable : Bool

-- Answers before the first walk. `linear` is the level-1 shadow the linear
-- map leads to, none when reading there faults.
structure Arrival where
  sl2e : Option U64
  gl1mfnValid : Bool
  gl1mfnOos : Bool
  linear : Option U64
  mmioHandled : U64 → Bool
  lockedByMe : Bool

-- Answers in one turn from the label `rewalk`. `sl1mfn` is none when
-- `shadow_get_and_create_l1e` fails.
structure Turn where
  host : Host
  rc : Flags
  l1e : U64
  l2e : U64
  crashed : Bool
  gmfn : U64
  p2mt : P2mType
  removed : List Store
  rewalk : Bool
  gwalkOk : Bool
  l2mfnValid : Bool
  l3mfnValid : Bool
  created : List Store
  sl1mfn : Option U64
  sl1Typed : Bool
  memCounter : U64
  isTable : Bool
  unsynced : List Store
  crashedLater : Bool
  gl1eStale : Bool
  refused : Bool
  prefetched : List Store
  gmfnOos : Bool
  wpEnabled : Bool
  unshadowed : List Store
  dyingUnused : Bool
  emulation : Emulation
  mmioHandled : U64 → Bool

inductive Exit where
  | leave (ret : Nat) (s : State)
  | again (s : State)
  | nullRead
  | hung

-- `walking` is a handler still rewalking when the given turns are used up.
inductive Result where
  | ended (ret : Nat) (s : State)
  | nullRead
  | hung
  | walking

def faultFixed : Nat := 1

def l1TableOffset (va : U64) : Fin 512 := ⟨(va.toNat / 2^12) % 512,Nat.mod_lt _ (by decide)⟩

def l1Slot (f : Fault) (sl1mfn : U64) : Slot := ⟨.one,sl1mfn,l1TableOffset f.va⟩
def l4Slot (f : Fault) : Slot := ⟨.four,f.sl4mfn,L4Track.l4TableOffset f.va⟩

def stores (ws : List Store) (m : Shadows) : Shadows := ws.foldl (fun m w => Function.update m w.slot w.word) m

def State.store (s : State) (ws : List Store) : State := {s with shadows := stores ws s.shadows}

def State.setError (s : State) (errorCode : Flags) : State := {s with vars := {s.vars with errorCode}}

def State.forgetEmul (s : State) (fast : Bool) : State :=
  if fast then {s with vars := {s.vars with lastWriteEmulOk := false}} else s

def State.rememberEmul (s : State) (va gmfn : U64) : State :=
  {s with vars := ⟨s.vars.errorCode,true,va >>> 12,gmfn⟩}

def State.error (s : State) (flag : Flags) : Bool := Masks.anyOf s.vars.errorCode flag

def earlyEmulation (f : Fault) (fast : Bool) (gmfn : U64) (e : Emulation) (s : State) : State :=
  if f.d.guestType = .hvm && e.eventPending then (s.forgetEmul fast).store e.unshadowed
  else
    let s := s.store e.written
    match e.result with
    | .unhandleable => (s.forgetEmul fast).store e.unshadowed
    | .okay => if e.isTable then (if fast then s else s.rememberEmul f.va gmfn) else s.forgetEmul fast
    | _ => s.forgetEmul fast

def shL1eMmioGfnMask : U64 := 0x00000000fffffff0
def shL1eMmioGetGfn (sl1e : U64) : U64 := (sl1e &&& shL1eMmioGfnMask) >>> 4

def entryAddress (slot : Slot) : U64 := (slot.mfn <<< 12) + BitVec.ofNat 64 (8 * slot.index.val)

def countFault (c : AetCtrl) (errorCode : Flags) : AetCtrl :=
  let reserved := Masks.anyOf errorCode pfecReservedBit
  let c := if reserved && Masks.anyOf errorCode pfecUserMode then addBothFaultCount c else c
  if reserved then addReservedBitFaultCount c else c

-- The counters of the AET part for one entry; none is a `track_aet_fault` that
-- never returns.
def aetRecord (f : Fault) (c : AetCtrl) (r : Reading) : Option AetCtrl :=
  let c := countFault c r.errorCode
  if shL1eIsAetMagic r.sl1e then
    let c := addUserModeFaultCount c f.va r.sl1e (entryAddress r.slot) (r.errorCode.setWidth 64) r.memCounter
    let mfn := l1eGetPfn r.sl1e &&& AetMark.frameMask
    let tracked := if mfn = 0 then some c else trackAetFault c f.domainId mfn r.memCounter
    tracked.map addTrackedAetMagicCount1
  else some c

def addToPendingPage (c : AetCtrl) (sl1mfn va : U64) : AetCtrl :=
  let i := c.setNum.toNat
  if (List.range i).any (fun k => (c.pds k).sl1mfn == sl1mfn) then c
  else if BitVec.ofNat 64 maxPendingPage ≤ c.setNum then c
  else
    let vaStart := va - (va &&& PendingMarks.l1Mask &&& PendingMarks.pageMask)
    {c with pds := Function.update c.pds i ⟨sl1mfn,vaStart⟩,setNum := c.setNum + 1}

-- The array up to `set_num`.
def pendingList (c : AetCtrl) : List PendingNode := (List.range c.setNum.toNat).map c.pds

-- The calls with a page that none before had.
def firstCalls (calls : List (U64 × U64)) : List (U64 × U64) :=
  calls.foldl (fun kept call => if kept.any (fun old => old.1 == call.1) then kept else kept ++ [call]) []

def pendingNode (call : U64 × U64) : PendingNode := ⟨call.1,call.2 - (call.2 &&& PendingMarks.l1Mask &&& PendingMarks.pageMask)⟩

theorem pending_add {c : AetCtrl} {kept : List (U64 × U64)} (holds : pendingList c = (kept.take maxPendingPage).map pendingNode) (call : U64 × U64) :
    pendingList (addToPendingPage c call.1 call.2) =
      ((if kept.any (fun old => old.1 == call.1) then kept else kept ++ [call]).take maxPendingPage).map pendingNode := by
  have count : c.setNum.toNat = min maxPendingPage kept.length := by simpa [pendingList] using congrArg List.length holds
  have full : BitVec.ofNat 64 maxPendingPage ≤ c.setNum ↔ maxPendingPage ≤ c.setNum.toNat := by simp [BitVec.le_def,maxPendingPage]
  by_cases room : kept.length < maxPendingPage
  · have all : kept.take maxPendingPage = kept := List.take_of_length_le (Nat.le_of_lt room)
    have known : (List.range c.setNum.toNat).any (fun k => (c.pds k).sl1mfn == call.1) = kept.any (fun old => old.1 == call.1) := by
      have through := congrArg (List.any · fun node => node.sl1mfn == call.1) holds
      simp only [pendingList,all,List.any_map] at through
      exact through
    have free : ¬BitVec.ofNat 64 maxPendingPage ≤ c.setNum := by rw [full]; omega
    unfold addToPendingPage
    dsimp only
    rw [known]
    by_cases old : kept.any (fun old => old.1 == call.1) = true
    · rw [if_pos old,if_pos old]
      exact holds
    · have fits : (kept ++ [call]).take maxPendingPage = kept ++ [call] := List.take_of_length_le (by simpa using room)
      have next : (c.setNum + 1).toNat = c.setNum.toNat + 1 := Tally.toNat_succ _ (by simp only [maxPendingPage] at room count; omega)
      rw [if_neg old,if_neg free,if_neg old,fits,List.map_append,← all,← holds,pendingList,pendingList]
      simp only [next,List.range_succ,List.map_append]
      congr 1
      · refine List.map_congr_left fun k below => Function.update_of_ne ?_ ..
        exact Nat.ne_of_lt (List.mem_range.mp below)
      · simp [pendingNode]
  · -- The array is full, and what comes is not among the first.
    have stays : addToPendingPage c call.1 call.2 = c := by
      unfold addToPendingPage
      dsimp only
      split
      · rfl
      · exact if_pos (full.mpr (by omega))
    rw [stays,holds]
    split
    · rfl
    · rw [List.take_append_of_le_length (Nat.not_lt.mp room)]

-- From an empty array, any calls of `add_to_pending_page` leave the pages in the
-- order in which they first came, each once, and the first thousand of them.
theorem pending_first_pages (c : AetCtrl) (empty : c.setNum = 0) (calls : List (U64 × U64)) :
    pendingList (calls.foldl (fun c call => addToPendingPage c call.1 call.2) c) = ((firstCalls calls).take maxPendingPage).map pendingNode := by
  have general (kept : List (U64 × U64)) (c : AetCtrl) (holds : pendingList c = (kept.take maxPendingPage).map pendingNode) :
      pendingList (calls.foldl (fun c call => addToPendingPage c call.1 call.2) c) =
        ((calls.foldl (fun kept call => if kept.any (fun old => old.1 == call.1) then kept else kept ++ [call]) kept).take maxPendingPage).map
          pendingNode := by
    induction calls generalizing kept c with
    | nil => exact holds
    | cons call rest ih => exact ih _ _ (pending_add holds call)
  exact general [] c (by rw [pendingList,empty]; rfl)

theorem pending_first_pages_twice : zeroed.setNum = 0 ∧
    pendingList ([(1,0x5000),(2,0x200000),(1,0x7000)].foldl (fun c call => addToPendingPage c call.1 call.2) zeroed) = [⟨1,0⟩,⟨2,0x200000⟩] :=
  ⟨rfl,(pending_first_pages zeroed rfl _).trans (by decide +kernel)⟩

-- `set_aet_magic` records the page and counts the entries it would mark, of the
-- first present ones; its own stores of marks are commented out.
def setAetMagic (f : Fault) (shadows : Shadows) (c : AetCtrl) (slot : Slot) (typed : Bool) : AetCtrl :=
  let vaStart := f.va - (f.va &&& PendingMarks.l1Mask &&& PendingMarks.pageMask)
  let present := ((List.finRange 512).map (Slot.mk .one slot.mfn)).filter fun here => isPresent (shadows here)
  let count (c : AetCtrl) (visit : Slot × Nat) : AetCtrl :=
    if markable (shadows visit.1) then
      addSetAetMagicCount c (vaStart + BitVec.ofNat 64 (visit.2 * 2^12)) (shadows visit.1) (entryAddress visit.1) 0 0
    else c
  if consecutiveSetPage ≤ slot.index.val || !typed then c
  else (present.take consecutiveSetPage).zipIdx.foldl count (addToPendingPage c slot.mfn f.va)

def aetPart (f : Fault) (t : Turn) (slot : Slot) (s : State) : Option State := do
  let c ← aetRecord f s.ctrl ⟨slot,s.shadows slot,s.vars.errorCode,t.memCounter⟩
  let big := Masks.anyOf (getPteFlags t.l2e) pagePse
  let c := if s.error pfecUserMode && isL1Track c && !big then setAetMagic f s.shadows c slot t.sl1Typed else c
  if shL1eIsAetMagic (s.shadows slot) then
    return {s with shadows := Function.update s.shadows slot 0,ctrl := addReversedAetMagicCount c}
  else return {s with ctrl := c}

def reverseL4AetMagic (f : Fault) (s : State) : State :=
  let sl4e := s.shadows (l4Slot f)
  if shL1eIsAetMagic sl4e then {s with shadows := Function.update s.shadows (l4Slot f) (L4Track.unmark sl4e)} else s

def shadowGetAndCreateL1e (aet : Bool) (f : Fault) (t : Turn) (s : State) : State × Option Slot :=
  if !t.l2mfnValid || !t.l3mfnValid then (s,none)
  else
    let s := if aet then reverseL4AetMagic f s else s
    (s.store t.created,t.sl1mfn.map (l1Slot f))

def emulateReadonly (f : Fault) (t : Turn) (s : State) : Exit :=
  let s := if t.isTable && t.dyingUnused then s.store t.unshadowed else s
  .leave faultFixed (earlyEmulation f false t.gmfn t.emulation s)

def emulate (f : Fault) (t : Turn) (s : State) : Exit :=
  if !f.d.refcounts || !f.guestMode then .leave 0 s
  else if s.error pfecUserMode then .leave faultFixed (s.store t.unshadowed)
  else emulateReadonly f t s

def finish (f : Fault) (t : Turn) (ft : FetchType) (s : State) : Exit :=
  if t.isTable && !(t.gmfnOos && !s.error pfecUserMode) && ft.isWrite then emulate f t s
  else if t.p2mt = .mmioDm then
    if !f.guestMode then .leave 0 s
    else .leave (if t.mmioHandled (guestL1eGetGfn .four t.l1e) then faultFixed else 0) s
  else if p2mIsReadonly t.p2mt && ft.isWrite then emulateReadonly f t s
  else if f.d.guestType = .hvm && !t.wpEnabled && s.vars.errorCode == (pfecWriteAccess ||| pfecPagePresent) &&
      (t.host.frame t.gmfn).mfnValid then emulate f t s
  else .leave faultFixed s

def State.setL1e (s : State) (refcounts refused : Bool) (slot : Slot) (sl1e : U64) : State :=
  {s with shadows := Function.update s.shadows slot (shadowSetL1e refcounts refused (s.shadows slot) sl1e).entry}

def install (f : Fault) (t : Turn) (ft : FetchType) (slot : Slot) (s : State) : Exit :=
  let s := if t.isTable && ft.isWrite then s.store t.unsynced else s
  if t.crashedLater then .leave 0 s
  else if t.gl1eStale then .again s
  else
    let sl1e := (shPropagate ⟨t.host,f.d,f.v,.four⟩ t.l1e t.gmfn 1 ft t.p2mt).sp
    finish f t ft ((s.setL1e f.d.refcounts t.refused slot sl1e).store t.prefetched)

-- Without AET the pointer is tested before anything reads through it.
def acquire (aet : Bool) (f : Fault) (t : Turn) (ft : FetchType) (s : State) : Exit :=
  match shadowGetAndCreateL1e aet f t s with
  | (s,none) => if aet then .nullRead else .leave 0 s
  | (s,some slot) =>
    if aet then
      match aetPart f t slot s with
      | none => .hung
      | some s => install f t ft slot s
    else install f t ft slot s

def pageInvalidBits (paddrBits : Nat) : Flags :=
  getPteFlags (BitVec.ofNat 64 (2^52 - 1) &&& ~~~BitVec.ofNat 64 (2^paddrBits - 1))

def badGfn (f : Fault) (t : Turn) : Bool :=
  f.d.refcounts && ((!p2mIsValid t.p2mt && !p2mIsGrant t.p2mt) || (!p2mIsMmio t.p2mt && !(t.host.frame t.gmfn).mfnValid))

def walkError (errorCode rc : Flags) : Flags :=
  let errorCode := errorCode &&& ~~~pfecPagePresent
  if Masks.anyOf rc pagePresent then errorCode else errorCode ||| pfecPagePresent

def turn (aet : Bool) (f : Fault) (t : Turn) (s : State) : Exit :=
  let s := s.setError (walkError s.vars.errorCode t.rc)
  if t.rc ≠ 0 then
    .leave 0 (if Masks.anyOf t.rc (pageInvalidBits f.paddrBits) then s.setError (s.vars.errorCode ||| pfecReservedBit) else s)
  else if t.crashed then .leave 0 s
  else if badGfn f t then .leave 0 s
  else
    let ft := if s.error pfecWriteAccess then .demandWrite else .demandRead
    let s := s.store t.removed
    if t.rewalk || !t.gwalkOk then .again s else acquire aet f t ft s

def walk (aet : Bool) (f : Fault) : List Turn → State → Result
  | [],_ => .walking
  | t :: rest,s =>
    match turn aet f t s with
    | .leave ret s => .ended ret s
    | .again s => walk aet f rest s
    | .nullRead => .nullRead
    | .hung => .hung

def slowPath (aet : Bool) (f : Fault) (arrival : Arrival) (turns : List Turn) (s : State) : Result :=
  if arrival.lockedByMe then .ended 0 s else walk aet f turns s

def Arrival.outOfSync (arrival : Arrival) : Bool :=
  match arrival.sl2e with
  | none => true
  | some sl2e => !isPresent sl2e || !arrival.gl1mfnValid || arrival.gl1mfnOos

def linearL1e (f : Fault) (arrival : Arrival) (shadows : Shadows) : U64 :=
  match arrival.linear with
  | none => 0
  | some sl1mfn => shadows (l1Slot f sl1mfn)

def reservedPath (aet : Bool) (f : Fault) (arrival : Arrival) (turns : List Turn) (s : State) : Result :=
  let flipped := s.setError (s.vars.errorCode ^^^ (pfecReservedBit ||| pfecPagePresent))
  let sl1e := linearL1e f arrival s.shadows
  if arrival.outOfSync then slowPath aet f arrival turns flipped
  else if arrival.linear.isSome && shL1eIsMagic sl1e then
    if shL1eIsGnp sl1e then .ended 0 flipped
    else .ended (if arrival.mmioHandled (shL1eMmioGetGfn sl1e) then faultFixed else 0) s
  else if aet && shL1eIsAetMagic sl1e then slowPath aet f arrival turns s
  else .ended faultFixed s

end XenAet.PageFault
