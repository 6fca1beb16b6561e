import XenAet.AetTrack

namespace XenAet.AetReuse
open AetControl AetHistogram AetTrack Library

-- A call of `track_aet_fault` with whatever it may be given.
structure AnyCall where
  domainId : Int
  mfn : U64
  memCounter : U64
  deriving DecidableEq,Repr

inductive Act where
  | pageFault
  | fault (call : AnyCall)
  deriving DecidableEq,Repr

def serve (c : AetCtrl) : Act → Option AetCtrl
  | .pageFault => some (addPageFaultCount c)
  | .fault call => trackAetFault c call.domainId call.mfn call.memCounter

def nodeAt (c : AetCtrl) (call : AnyCall) (pos : Nat) : HashNode := c.hns (call.domainId-1) (keyOf call.mfn) pos

-- The slot at which the loop over a bucket stops.
def slotOf (c : AetCtrl) (call : AnyCall) : Option Nat :=
  (List.range hashConflictNum).find? fun pos => (nodeAt c call pos).mfn = call.mfn ∨ (nodeAt c call pos).mfn = 0#64

def Found (c : AetCtrl) (call : AnyCall) (pos : Nat) : Prop :=
  slotOf c call = some pos ∧ (nodeAt c call pos).mfn = call.mfn

instance (c : AetCtrl) (call : AnyCall) (pos : Nat) : Decidable (Found c call pos) := inferInstanceAs (Decidable (_ ∧ _))

def corrected (c : AetCtrl) (call : AnyCall) (node : HashNode) : U64 := call.memCounter - mcDiff c node

-- What the call hands to `domain_value_to_index`, in the order it does.
def indexArgs (c : AetCtrl) (call : AnyCall) (node : HashNode) : List U64 :=
  (if corrected c call node < node.memCounter then [] else [corrected c call node - node.memCounter]) ++
    if node.memCounter < call.memCounter then [call.memCounter - node.memCounter] else []

variable {c next : AetCtrl} {call : AnyCall} {node : HashNode} {pos : Nat} {acts : List Act}

theorem probe_find (c : AetCtrl) (domainId : Int) (mfn memCounter : U64) (key : Nat) (list : List Nat) :
    probe c domainId mfn memCounter key list =
      match list.find? fun pos => (c.hns (domainId-1) key pos).mfn = mfn ∨ (c.hns (domainId-1) key pos).mfn = 0#64 with
      | none => some {c with hashConflictNum:=c.hashConflictNum+1}
      | some pos =>
        if (c.hns (domainId-1) key pos).mfn = mfn then trackHit c domainId mfn memCounter key pos
        else some (trackInsert c domainId mfn memCounter key pos) := by
  induction list with
  | nil => rfl
  | cons pos rest ih =>
    by_cases same : (c.hns (domainId-1) key pos).mfn = mfn
    · simp [probe,same]
    · by_cases empty : (c.hns (domainId-1) key pos).mfn = 0#64
      · have apart : ¬ 0#64 = mfn := by rwa [empty] at same
        simp [probe,empty,apart]
      · simp only [probe,if_neg same,if_neg empty,ih]
        rw [List.find?_cons_of_neg (by simp [same,empty])]

theorem serve_slot (c : AetCtrl) (call : AnyCall) : serve c (.fault call) = match slotOf c call with
    | none => some {c with hashConflictNum:=c.hashConflictNum+1}
    | some pos =>
      if (nodeAt c call pos).mfn = call.mfn then trackHit c call.domainId call.mfn call.memCounter (keyOf call.mfn) pos
      else some (trackInsert c call.domainId call.mfn call.memCounter (keyOf call.mfn) pos) :=
  probe_find ..

theorem serve_found (found : Found c call pos) :
    serve c (.fault call) = trackHit c call.domainId call.mfn call.memCounter (keyOf call.mfn) pos := by
  rw [serve_slot,found.1]
  exact if_pos found.2

theorem serve_missed (missed : ∀ pos, ¬ Found c call pos) : ∃ next, serve c (.fault call) = some next := by
  rw [serve_slot]
  cases stops : slotOf c call with
  | none => exact ⟨_,rfl⟩
  | some pos => exact ⟨_,if_neg fun same => missed pos ⟨stops,same⟩⟩

theorem index_returns_iff (value : U64) : (∃ i, domainValueToIndex value = some i) ↔ value.toNat ≤ lastValue := by
  constructor
  · rintro ⟨i,returned⟩
    exact (index_some value returned).1
  · intro fits
    exact ⟨_,index_exact value fits⟩

def Ends (value : U64) : Prop := ∃ fuel i, domainValueToIndexWith fuel value = some i

theorem ends_iff (value : U64) : Ends value ↔ value.toNat ≤ lastValue := by
  constructor
  · rintro ⟨fuel,i,returned⟩
    by_contra larger
    rw [index_hangs value (by omega)] at returned
    cases returned
  · intro fits
    exact ⟨512,(index_returns_iff value).mpr fits⟩

theorem bind_returns {α β : Type} {x : Option α} {f : α → Option β} (total : ∀ i, ∃ next, f i = some next) :
    (∃ next, x.bind f = some next) ↔ ∃ i, x = some i := by
  constructor
  · rintro ⟨next,ran⟩
    obtain ⟨i,returned,_⟩ := Option.bind_eq_some_iff.mp ran
    exact ⟨i,returned⟩
  · rintro ⟨i,returned⟩
    rw [returned]
    exact total i

theorem histogram_returns (c : AetCtrl) (domainId : Int) (oldMc newMc : U64) :
    (∃ next, addToAetHistogram c domainId oldMc newMc = some next) ↔
      ∀ value ∈ (if newMc < oldMc then [] else [newMc - oldMc]), value.toNat ≤ lastValue := by
  unfold addToAetHistogram
  split
  · simp
  · rw [List.forall_mem_singleton,← index_returns_iff]
    refine bind_returns fun i => ?_
    by_cases large : BitVec.ofNat 64 maxPageNum ≤ i
    · exact ⟨c,if_pos large⟩
    · exact ⟨_,if_neg large⟩

theorem log_returns (c : AetCtrl) (node : HashNode) (mfn memCounter : U64) :
    (∃ next, logHit c node mfn memCounter = some next) ↔
      ∀ value ∈ (if node.memCounter < memCounter then [memCounter - node.memCounter] else []), value.toNat ≤ lastValue := by
  unfold logHit
  split
  · rw [List.forall_mem_singleton,← index_returns_iff]
    exact bind_returns fun i => ⟨_,rfl⟩
  · simp

theorem hit_returns (found : Found c call pos) : (∃ next, serve c (.fault call) = some next) ↔
    ∀ value ∈ indexArgs c call (nodeAt c call pos), value.toNat ≤ lastValue := by
  rw [serve_found found,indexArgs,List.forall_mem_append,corrected,← histogram_returns c call.domainId]
  constructor
  · rintro ⟨next,ran⟩
    obtain ⟨counted,hist,ran⟩ := Option.bind_eq_some_iff.mp ran
    obtain ⟨logged,log,_⟩ := Option.bind_eq_some_iff.mp ran
    exact ⟨⟨counted,hist⟩,(log_returns counted _ call.mfn _).mp ⟨logged,log⟩⟩
  · rintro ⟨⟨counted,hist⟩,short⟩
    obtain ⟨logged,log⟩ := (log_returns counted _ call.mfn _).mpr short
    refine ⟨_,Option.bind_eq_some_iff.mpr ⟨counted,hist,Option.bind_eq_some_iff.mpr ⟨logged,log,rfl⟩⟩⟩

-- No distance the call looks up is in the last 255 of 64 bits.
def Short (c : AetCtrl) : Act → Prop
  | .pageFault => True
  | .fault call => ∀ pos < hashConflictNum, Found c call pos →
      ∀ value ∈ indexArgs c call (nodeAt c call pos), value.toNat ≤ lastValue

instance (c : AetCtrl) : ∀ act, Decidable (Short c act)
  | .pageFault => .isTrue trivial
  | .fault _ => Nat.decidableBallLT _ _

theorem found_small (found : Found c call pos) : pos < hashConflictNum :=
  List.mem_range.mp (List.mem_of_find?_eq_some found.1)

theorem found_once (found : Found c call pos) (other : Found c call q) : q = pos :=
  Option.some.inj (other.1.symm.trans found.1)

theorem serve_returns_iff (c : AetCtrl) (act : Act) : (∃ next, serve c act = some next) ↔ Short c act := by
  cases act with
  | pageFault => exact ⟨fun _ => trivial,fun _ => ⟨_,rfl⟩⟩
  | fault call =>
    by_cases some_ : ∃ pos, Found c call pos
    · obtain ⟨pos,found⟩ := some_
      rw [hit_returns found]
      constructor
      · intro short q _ other
        rw [found_once found other]
        exact short
      · intro short
        exact short pos (found_small found) found
    · have missed : ∀ pos, ¬ Found c call pos := fun pos found => some_ ⟨pos,found⟩
      exact ⟨fun _ pos _ found => absurd found (missed pos),fun _ => serve_missed missed⟩

-- In a run of such calls every state is reached, and from it the two look-ups
-- of the next call end just when that call is of the kind too.
theorem fault_ends_iff (short : Run.Guarded Short serve zeroed acts) : ∃ c, Run.run serve zeroed acts = some c ∧
    ∀ call, ((∀ pos, Found c call pos → ∀ value ∈ indexArgs c call (nodeAt c call pos), Ends value) ↔ Short c (.fault call)) ∧
      ((∃ next, serve c (.fault call) = some next) ↔ Short c (.fault call)) := by
  obtain ⟨c,ran,_⟩ := Run.guarded_total (P:=fun _ => True)
    (fun c act _ fits => ((serve_returns_iff c act).mpr fits).imp fun _ taken => ⟨taken,trivial⟩) trivial short
  refine ⟨c,ran,fun call => ⟨?_,serve_returns_iff c (.fault call)⟩⟩
  simp only [ends_iff]
  exact ⟨fun all pos _ found => all pos found,fun all pos found => all pos (found_small found) found⟩

def revisited : List Act := [.fault ⟨1,5,100⟩,.pageFault]

theorem fault_ends_iff_revisit : ∃ c, Run.run serve zeroed revisited = some c ∧
    ∃ next, serve c (.fault ⟨1,5,123⟩) = some next := by
  have short : Run.Guarded Short serve zeroed revisited := by decide +kernel
  obtain ⟨c,ran,ends⟩ := fault_ends_iff short
  obtain ⟨found,asked⟩ := Run.run_holds
    (P:=fun c => Found c ⟨1,5,123⟩ 0 ∧ indexArgs c ⟨1,5,123⟩ (nodeAt c ⟨1,5,123⟩ 0) = [3,23]) ran (by decide +kernel)
  refine ⟨c,ran,(ends _).2.mpr fun q _ other => ?_⟩
  rw [found_once found other,asked]
  simp [lastValue]

-- One shadow fault corrects the counter 10 by 20, which takes it below zero.
theorem corrected_below_zero_hangs : ∃ c, Run.run serve zeroed [.fault ⟨1,5,5⟩,.pageFault] = some c ∧
    ∃ pos value, Found c ⟨1,5,10⟩ pos ∧ value ∈ indexArgs c ⟨1,5,10⟩ (nodeAt c ⟨1,5,10⟩ pos) ∧
      ∀ fuel, domainValueToIndexWith fuel value = none := by
  obtain ⟨c,ran,found,asked⟩ := Run.run_reaches (s:=zeroed)
    (P:=fun c => Found c ⟨1,5,10⟩ 0 ∧ 0xfffffffffffffff1 ∈ indexArgs c ⟨1,5,10⟩ (nodeAt c ⟨1,5,10⟩ 0))
    (show (Run.run serve _ [.fault ⟨1,5,5⟩,.pageFault]).any _ = true by decide +kernel)
  exact ⟨c,ran,0,_,found,asked,index_hangs _ (by decide)⟩

-- The corrected counter and the distance, as mathematical integers.
def correctedInt (c : AetCtrl) (call : AnyCall) (node : HashNode) : Int :=
  call.memCounter.toNat - 20 * (c.pageFaultCount.toNat - node.pf.toNat)

def distance (c : AetCtrl) (call : AnyCall) (node : HashNode) : Int := correctedInt c call node - node.memCounter.toNat

-- What the call should do to the histogram of domain `d`.
structure Recorded (c next : AetCtrl) (d distance : Int) : Prop where
  ahead : 0 ≤ distance → distance < 2^64 ∧ ∃ i, domainValueToIndex (BitVec.ofInt 64 distance) = some i ∧
    next.aetHist = (bumpHist c d i.toNat).aetHist
  behind : distance < 0 → next.aetHist = c.aetHist

-- The sign test sees the sign of the distance, and the counter still fits.
def Signed (c : AetCtrl) (call : AnyCall) (node : HashNode) : Prop :=
  if 0 ≤ distance c call node then correctedInt c call node < 2^64 else corrected c call node < node.memCounter

instance (c : AetCtrl) (call : AnyCall) (node : HashNode) : Decidable (Signed c call node) := by
  unfold Signed
  infer_instance

theorem ofInt_toNat (x : U64) : BitVec.ofInt 64 x.toNat = x := by
  rw [BitVec.ofInt_natCast,BitVec.ofNat_toNat,BitVec.setWidth_eq]

theorem ofInt_sub (x : Int) (y : U64) : BitVec.ofInt 64 (x - y.toNat) = BitVec.ofInt 64 x - y := by
  have sum := BitVec.ofInt_add (n:=64) (x - y.toNat) y.toNat
  rw [Int.sub_add_cancel,ofInt_toNat] at sum
  rw [sum,BitVec.add_sub_cancel]

theorem corrected_word (c : AetCtrl) (call : AnyCall) (node : HashNode) :
    corrected c call node = BitVec.ofInt 64 (correctedInt c call node) := by
  have faults : mcDiff c node = BitVec.ofInt 64 (20 * (c.pageFaultCount.toNat - node.pf.toNat)) := by
    rw [BitVec.ofInt_mul,ofInt_sub,ofInt_toNat,mcDiff,BitVec.mul_comm]
    rfl
  have sum := BitVec.ofInt_add (n:=64) (correctedInt c call node) (20 * (c.pageFaultCount.toNat - node.pf.toNat))
  rw [correctedInt,Int.sub_add_cancel,ofInt_toNat,← faults] at sum
  rw [corrected,sum,BitVec.add_sub_cancel]
  rfl

theorem distance_word (c : AetCtrl) (call : AnyCall) (node : HashNode) :
    BitVec.ofInt 64 (distance c call node) = corrected c call node - node.memCounter := by
  rw [distance,ofInt_sub,← corrected_word]

theorem corrected_toNat (c : AetCtrl) (call : AnyCall) (node : HashNode) :
    ((corrected c call node).toNat : Int) = correctedInt c call node % 2^64 := by
  rw [corrected_word,BitVec.toNat_ofInt,Int.toNat_of_nonneg (Int.emod_nonneg _ (by decide))]
  rfl

theorem bump_differs (c : AetCtrl) (d : Int) (i : Nat) : (bumpHist c d i).aetHist ≠ c.aetHist := by
  intro same
  have there := congrFun (congrFun same d) i
  simp [bumpHist] at there

-- A hit that returns has recorded the distance just when its sign was seen.
theorem hit_recorded_iff (hist : addToAetHistogram c call.domainId node.memCounter (corrected c call node) = some counted)
    (same : next.aetHist = counted.aetHist) :
    Recorded c next (call.domainId-1) (distance c call node) ↔ Signed c call node := by
  have word := corrected_toNat c call node
  have apart : distance c call node = correctedInt c call node - node.memCounter.toNat := rfl
  have old := node.memCounter.isLt
  constructor
  · intro recorded
    unfold Signed
    split
    · rename_i ahead
      obtain ⟨fits,i,_,bumped⟩ := recorded.ahead ahead
      rcases histogram_cases hist with ⟨_,unchanged⟩ | ⟨passed,_⟩
      · rw [unchanged] at same
        exact absurd (bumped.symm.trans same) (bump_differs c _ _)
      · rw [BitVec.le_def] at passed
        omega
    · rename_i behind
      rcases histogram_cases hist with ⟨passed,_⟩ | ⟨_,i,_,_,rfl⟩
      · exact passed
      · exact absurd (same.symm.trans (recorded.behind (by omega))) (bump_differs c _ _)
  · intro signed
    unfold Signed at signed
    split at signed
    · rename_i ahead
      refine ⟨fun _ => ⟨by omega,?_⟩,fun behind => absurd ahead (by omega)⟩
      rcases histogram_cases hist with ⟨passed,_⟩ | ⟨_,i,index,_,rfl⟩
      · rw [BitVec.lt_def] at passed
        omega
      · exact ⟨i,by rw [distance_word]; exact index,same⟩
    · rename_i behind
      refine ⟨fun ahead => absurd ahead behind,fun _ => ?_⟩
      rcases histogram_cases hist with ⟨_,unchanged⟩ | ⟨passed,_⟩
      · rw [unchanged] at same
        exact same
      · exact absurd signed (BitVec.not_lt.mpr passed)

-- The call returns, and the distance it finds has its sign seen.
def Sound (c : AetCtrl) (act : Act) : Prop :=
  Short c act ∧ match act with
    | .pageFault => True
    | .fault call => ∀ pos < hashConflictNum, Found c call pos → Signed c call (nodeAt c call pos)

instance (c : AetCtrl) : ∀ act, Decidable (Sound c act)
  | .pageFault => inferInstanceAs (Decidable (_ ∧ True))
  | .fault _ => inferInstanceAs (Decidable (_ ∧ ∀ pos < hashConflictNum, _))

theorem reuse_recorded_iff (sound : Run.Guarded Sound serve zeroed acts) : ∃ c, Run.run serve zeroed acts = some c ∧
    ∀ call pos, Found c call pos →
      ((∃ next, serve c (.fault call) = some next ∧
        Recorded c next (call.domainId-1) (distance c call (nodeAt c call pos))) ↔ Sound c (.fault call)) := by
  obtain ⟨c,ran,_⟩ := Run.guarded_total (P:=fun _ => True)
    (fun c act _ fits => ((serve_returns_iff c act).mpr fits.1).imp fun _ taken => ⟨taken,trivial⟩) trivial sound
  refine ⟨c,ran,fun call pos found => ⟨?_,?_⟩⟩
  · rintro ⟨next,taken,recorded⟩
    refine ⟨(serve_returns_iff c _).mp ⟨next,taken⟩,fun q _ other => ?_⟩
    rw [found_once found other]
    obtain ⟨counted,hist,same,_⟩ := hit_cases ((serve_found found).symm.trans taken)
    exact (hit_recorded_iff hist same).mp recorded
  · rintro ⟨short,signed⟩
    obtain ⟨next,taken⟩ := (serve_returns_iff c _).mpr short
    obtain ⟨counted,hist,same,_⟩ := hit_cases ((serve_found found).symm.trans taken)
    exact ⟨next,taken,(hit_recorded_iff hist same).mpr (signed pos (found_small found) found)⟩

theorem reuse_recorded_iff_revisit : ∃ c, Run.run serve zeroed revisited = some c ∧
    ∃ next, serve c (.fault ⟨1,5,123⟩) = some next ∧ Recorded c next 0 (distance c ⟨1,5,123⟩ (nodeAt c ⟨1,5,123⟩ 0)) := by
  have sound : Run.Guarded Sound serve zeroed revisited := by decide +kernel
  obtain ⟨c,ran,exact_⟩ := reuse_recorded_iff sound
  obtain ⟨found,asked,signed⟩ := Run.run_holds
    (P:=fun c => Found c ⟨1,5,123⟩ 0 ∧ indexArgs c ⟨1,5,123⟩ (nodeAt c ⟨1,5,123⟩ 0) = [3,23] ∧
      Signed c ⟨1,5,123⟩ (nodeAt c ⟨1,5,123⟩ 0)) ran (by decide +kernel)
  refine ⟨c,ran,(exact_ _ 0 found).mpr ⟨fun q _ other => ?_,fun q _ other => ?_⟩⟩
  · rw [found_once found other,asked]
    simp [lastValue]
  · rw [found_once found other]
    exact signed

-- Fifty shadow faults since the last visit are worth 1000 references, more
-- than the 10 counted so far: a distance of -995 gets a bucket.
theorem negative_distance_recorded :
    ∃ c next, Run.run serve zeroed (.fault ⟨1,5,5⟩ :: List.replicate 50 .pageFault) = some c ∧ Found c ⟨1,5,10⟩ 0 ∧
      serve c (.fault ⟨1,5,10⟩) = some next ∧ distance c ⟨1,5,10⟩ (nodeAt c ⟨1,5,10⟩ 0) = -995 ∧
      ¬ Recorded c next 0 (distance c ⟨1,5,10⟩ (nodeAt c ⟨1,5,10⟩ 0)) := by
  obtain ⟨c,ran,found,asked,short,away⟩ := Run.run_reaches (s:=zeroed)
    (P:=fun c => Found c ⟨1,5,10⟩ 0 ∧ indexArgs c ⟨1,5,10⟩ (nodeAt c ⟨1,5,10⟩ 0) = [0xfffffffffffffc1d,5] ∧
      distance c ⟨1,5,10⟩ (nodeAt c ⟨1,5,10⟩ 0) = -995 ∧ ¬ Signed c ⟨1,5,10⟩ (nodeAt c ⟨1,5,10⟩ 0))
    (show (Run.run serve _ (.fault ⟨1,5,5⟩ :: List.replicate 50 .pageFault)).any _ = true by decide +kernel)
  have returns : ∀ value ∈ indexArgs c ⟨1,5,10⟩ (nodeAt c ⟨1,5,10⟩ 0), value.toNat ≤ lastValue := by
    rw [asked]
    simp [lastValue]
  obtain ⟨next,taken⟩ := (hit_returns found).mpr returns
  obtain ⟨counted,hist,same,_⟩ := hit_cases ((serve_found found).symm.trans taken)
  exact ⟨c,next,ran,found,taken,short,fun recorded => away ((hit_recorded_iff hist same).mp recorded)⟩

end XenAet.AetReuse
