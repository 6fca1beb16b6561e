import Mathlib.Algebra.BigOperators.Intervals
import XenAet.AetTrack
import XenAet.Library.Counting

namespace XenAet.AetTable
open AetControl AetTrack Library
variable {c next : AetCtrl} {call : TrackCall}

-- The hash table alone, whatever the counters say. Nothing in the code checks
-- the prefix property that find-or-insert in one loop relies on.
structure Formed (c : AetCtrl) : Prop where
  filled : ∀ d key q pos, q < pos → pos < hashConflictNum →
    (c.hns d key pos).mfn ≠ 0#64 → (c.hns d key q).mfn ≠ 0#64
  keyed : ∀ d key pos, pos < hashConflictNum →
    (c.hns d key pos).mfn ≠ 0#64 → keyOf (c.hns d key pos).mfn = key
  single : ∀ d key p q, p < hashConflictNum → q < hashConflictNum →
    (c.hns d key p).mfn ≠ 0#64 → (c.hns d key p).mfn = (c.hns d key q).mfn → p = q

theorem zeroed_formed : Formed zeroed := by
  refine ⟨?_,?_,?_⟩
  · intro d key q pos _ _ stored; exact absurd rfl stored
  · intro d key pos _ stored; exact absurd rfl stored
  · intro d key p q _ _ stored; exact absurd rfl stored

theorem stored_found (formed : Formed c) (small : pos < hashConflictNum)
    (stored : (c.hns d key pos).mfn = mfn) (framed : mfn ≠ 0#64) :
    key = keyOf mfn ∧ ∀ q, q < pos → (c.hns d key q).mfn ≠ 0#64 := by
  subst stored
  exact ⟨(formed.keyed d key pos small framed).symm,fun q before => formed.filled d key q pos before small framed⟩

theorem same_formed (formed : Formed c) (same : ∀ d key pos, (next.hns d key pos).mfn = (c.hns d key pos).mfn) :
    Formed next := by
  refine ⟨?_,?_,?_⟩
  · intro d key q pos; simpa only [same] using formed.filled d key q pos
  · intro d key pos; simpa only [same] using formed.keyed d key pos
  · intro d key p q; simpa only [same] using formed.single d key p q

inductive Visit (c : AetCtrl) (call : TrackCall) (next : AetCtrl) : Prop where
  | hit (pos : Nat) (small : pos < hashConflictNum)
      (found : (c.hns (call.domainId-1) (keyOf call.mfn) pos).mfn = call.mfn)
      (hns : next.hns = (setSlot c (call.domainId-1) (keyOf call.mfn) pos
        ⟨call.mfn,call.memCounter,c.pageFaultCount⟩).hns)
      (tot : next.totRef = Function.update c.totRef (call.domainId-1) (c.totRef (call.domainId-1) + 1))
      (node : next.nodeCount = c.nodeCount) (conflict : next.hashConflictNum = c.hashConflictNum)
  | insert (pos : Nat) (small : pos < hashConflictNum)
      (before : ∀ q, q < pos → Other c (call.domainId-1) (keyOf call.mfn) call.mfn q)
      (empty : (c.hns (call.domainId-1) (keyOf call.mfn) pos).mfn = 0#64)
      (hns : next.hns = (setSlot c (call.domainId-1) (keyOf call.mfn) pos
        ⟨call.mfn,call.memCounter,c.pageFaultCount⟩).hns)
      (tot : next.totRef = c.totRef)
      (node : next.nodeCount = Function.update c.nodeCount (call.domainId-1) (c.nodeCount (call.domainId-1) + 1))
      (conflict : next.hashConflictNum = c.hashConflictNum)
  | full (all : ∀ q, q < hashConflictNum → Other c (call.domainId-1) (keyOf call.mfn) call.mfn q)
      (hns : next.hns = c.hns) (tot : next.totRef = c.totRef) (node : next.nodeCount = c.nodeCount)
      (conflict : next.hashConflictNum = c.hashConflictNum + 1)

theorem visit_of_step (ran : step c (.fault call) = some next) : Visit c call next := by
  rcases track_cases ran with ⟨pos,small,found,hit⟩ | ⟨pos,small,before,empty,rfl⟩ | ⟨all,rfl⟩
  · obtain ⟨counted,_,_,tot,node,conflict,_,hns⟩ := hit_cases hit
    rw [found] at hns
    exact .hit pos small found hns tot node conflict
  · exact .insert pos small before empty rfl rfl rfl rfl
  · exact .full all rfl rfl rfl rfl

theorem written_slot (hns : next.hns = (setSlot c d key pos node).hns) (d' : Int) (key' pos' : Nat) :
    next.hns d' key' pos' = if d' = d ∧ key' = key ∧ pos' = pos then node else c.hns d' key' pos' := by
  rw [hns]; exact slot_update c d key pos node d' key' pos'

theorem hit_same (found : (c.hns d key pos).mfn = mfn) (hns : next.hns = (setSlot c d key pos ⟨mfn,mc,pf⟩).hns) :
    (next.hns d' key' pos').mfn = (c.hns d' key' pos').mfn := by
  rw [written_slot hns]
  split
  · rename_i here
    obtain ⟨rfl,rfl,rfl⟩ := here
    exact found.symm
  · rfl

theorem insert_formed (formed : Formed c) (small : pos < hashConflictNum) (framed : mfn ≠ 0#64)
    (before : ∀ q, q < pos → Other c d (keyOf mfn) mfn q) (empty : (c.hns d (keyOf mfn) pos).mfn = 0#64)
    (hns : next.hns = (setSlot c d (keyOf mfn) pos ⟨mfn,mc,pf⟩).hns) : Formed next := by
  -- No slot of the bucket holds `mfn` yet: earlier ones are taken by others,
  -- later ones are empty with the one that was probed.
  have fresh : ∀ q, q < hashConflictNum → (c.hns d (keyOf mfn) q).mfn ≠ mfn := by
    intro q inside same
    rcases Nat.lt_trichotomy q pos with early | rfl | late
    · exact (before q early).1 same
    · exact framed (same.symm.trans empty)
    · exact formed.filled d _ pos q late inside (by rw [same]; exact framed) empty
  refine ⟨?_,?_,?_⟩
  · intro d' key' q p earlier inside
    simp only [written_slot hns]
    split
    · rename_i here
      obtain ⟨rfl,rfl,rfl⟩ := here
      intro _
      rw [if_neg (by omega)]
      exact (before q earlier).2
    · intro stored
      split
      · exact framed
      · exact formed.filled d' key' q p earlier inside stored
  · intro d' key' p inside
    simp only [written_slot hns]
    split
    · rename_i here
      intro _
      exact here.2.1.symm
    · exact formed.keyed d' key' p inside
  · intro d' key' p q insideP insideQ
    simp only [written_slot hns]
    split
    · rename_i here
      obtain ⟨rfl,rfl,rfl⟩ := here
      intro _
      split
      · rename_i there; exact fun _ => there.2.2.symm
      · exact fun same => absurd same.symm (fresh q insideQ)
    · intro stored
      split
      · rename_i there
        obtain ⟨rfl,rfl,rfl⟩ := there
        exact fun same => absurd same (fresh p insideP)
      · exact formed.single d' key' p q insideP insideQ stored

theorem visit_formed (formed : Formed c) (visit : Visit c call next) : Formed next := by
  cases visit with
  | hit pos small found hns => exact same_formed formed fun _ _ _ => hit_same found hns
  | insert pos small before empty hns => exact insert_formed formed small call.framed before empty hns
  | full all hns => exact same_formed formed fun _ _ _ => by rw [hns]

def occupied (c : AetCtrl) (d : Int) : Finset (Nat × Nat) :=
  (Finset.range hashSize ×ˢ Finset.range hashConflictNum).filter fun slot => (c.hns d slot.1 slot.2).mfn ≠ 0#64

theorem occupied_same (same : ∀ d key pos, (next.hns d key pos).mfn = (c.hns d key pos).mfn) (d : Int) :
    occupied next d = occupied c d := by simp only [occupied,same]

theorem key_lt (mfn : U64) : keyOf mfn < hashSize := Nat.mod_lt _ (by decide)

theorem occupied_insert (small : pos < hashConflictNum) (framed : mfn ≠ 0#64)
    (hns : next.hns = (setSlot c d (keyOf mfn) pos ⟨mfn,mc,pf⟩).hns) (d' : Int) :
    occupied next d' = if d' = d then insert (keyOf mfn,pos) (occupied c d') else occupied c d' := by
  split
  · subst d'
    ext ⟨key,place⟩
    by_cases here : key = keyOf mfn ∧ place = pos
    · obtain ⟨rfl,rfl⟩ := here
      have there : (next.hns d (keyOf mfn) place).mfn ≠ 0#64 := by rw [written_slot hns,if_pos ⟨rfl,rfl,rfl⟩]; exact framed
      simp [occupied,key_lt,small,there]
    · have apart : ¬ (key,place) = (keyOf mfn,pos) := by simpa using here
      simp [occupied,written_slot hns,here]
  · rename_i apart
    simp [occupied,written_slot hns,apart]

theorem empty_not_occupied (empty : (c.hns d key pos).mfn = 0#64) : (key,pos) ∉ occupied c d := by
  simp [occupied,empty]

theorem occupied_small (c : AetCtrl) (d : Int) : (occupied c d).card ≤ hashSize * hashConflictNum := by
  refine (Finset.card_filter_le _ _).trans ?_
  simp

def Counted (c : AetCtrl) : Prop := ∀ d, (c.nodeCount d).toNat = (occupied c d).card

theorem zeroed_counted : Counted zeroed := by
  intro d
  have none : occupied zeroed d = ∅ := Finset.filter_false_of_mem fun _ _ stored => stored rfl
  rw [none]; rfl

theorem visit_counted (counted : Counted c) (visit : Visit c call next) : Counted next := by
  cases visit with
  | hit pos small found hns tot node =>
    intro d
    rw [node,occupied_same (fun _ _ _ => hit_same found hns) d]
    exact counted d
  | full all hns tot node =>
    intro d
    have same : occupied next d = occupied c d := occupied_same (fun _ _ _ => by rw [hns]) d
    rw [node,same]
    exact counted d
  | insert pos small before empty hns tot node =>
    intro d
    rw [node,occupied_insert small call.framed hns d]
    by_cases same : d = call.domainId-1
    · subst d
      have old := counted (call.domainId-1)
      have bound := occupied_small c (call.domainId-1)
      have fits : (occupied c (call.domainId-1)).card + 1 < 2^64 := by
        have : hashSize * hashConflictNum < 2^64 - 1 := by decide
        omega
      rw [Function.update_self,if_pos rfl,Finset.card_insert_of_notMem (empty_not_occupied empty),
        Tally.toNat_succ _ (by omega),old]
    · rw [Function.update_of_ne same,if_neg same]
      exact counted d

def counterFor (d : Int) (mfn : U64) : Event → Option U64
  | .pageFault => none
  | .fault call => if call.domainId-1 = d ∧ call.mfn = mfn then some call.memCounter else none

def latest (events : List Event) (d : Int) (mfn : U64) : Option U64 :=
  (events.filterMap (counterFor d mfn)).getLast?

theorem latest_snoc (past : List Event) (event : Event) (d : Int) (mfn : U64) :
    latest (past ++ [event]) d mfn = (counterFor d mfn event).or (latest past d mfn) := by
  cases at_ : counterFor d mfn event <;> simp [latest,at_]

def Recent (past : List Event) (c : AetCtrl) : Prop :=
  ∀ d key pos, pos < hashConflictNum → (c.hns d key pos).mfn ≠ 0#64 →
    latest past d (c.hns d key pos).mfn = some (c.hns d key pos).memCounter

theorem recent_other (recent : Recent past c) (small : pos < hashConflictNum)
    (stored : (c.hns d key pos).mfn ≠ 0#64)
    (apart : ¬ (call.domainId-1 = d ∧ call.mfn = (c.hns d key pos).mfn)) :
    latest (past ++ [.fault call]) d (c.hns d key pos).mfn = some (c.hns d key pos).memCounter := by
  rw [latest_snoc,counterFor,if_neg apart]
  exact recent d key pos small stored

theorem written_recent (recent : Recent past c)
    (hns : next.hns = (setSlot c (call.domainId-1) (keyOf call.mfn) pos ⟨call.mfn,call.memCounter,pf⟩).hns)
    (alone : ∀ key q, q < hashConflictNum → (c.hns (call.domainId-1) key q).mfn = call.mfn →
      key = keyOf call.mfn ∧ q = pos) : Recent (past ++ [.fault call]) next := by
  intro d key q small
  simp only [written_slot hns]
  split
  · rename_i here
    intro _
    simp [latest_snoc,counterFor,here.1]
  · rename_i elsewhere
    intro stored
    apply recent_other recent small stored
    rintro ⟨rfl,same⟩
    obtain ⟨rfl,rfl⟩ := alone key q small same.symm
    exact elsewhere ⟨rfl,rfl,rfl⟩

theorem visit_recent (formed : Formed c) (recent : Recent past c) (visit : Visit c call next) :
    Recent (past ++ [.fault call]) next := by
  cases visit with
  | hit pos small found hns =>
    apply written_recent recent hns
    intro key q inside same
    obtain ⟨rfl,_⟩ := stored_found formed inside same call.framed
    exact ⟨rfl,formed.single _ _ q pos inside small (by rw [same]; exact call.framed) (same.trans found.symm)⟩
  | insert pos small before empty hns =>
    apply written_recent recent hns
    intro key q inside same
    obtain ⟨rfl,earlier⟩ := stored_found formed inside same call.framed
    refine ⟨rfl,?_⟩
    rcases Nat.lt_trichotomy q pos with early | there | late
    · exact absurd same (before q early).1
    · exact there
    · exact absurd empty (earlier pos late)
  | full all hns =>
    intro d key q inside
    rw [hns]
    intro stored
    apply recent_other recent inside stored
    rintro ⟨rfl,same⟩
    obtain ⟨rfl,_⟩ := stored_found formed inside same.symm call.framed
    exact (all q inside).1 same.symm

def isFault : Event → Bool
  | .pageFault => false
  | .fault _ => true

def calls (events : List Event) : Nat := events.countP isFault

-- Every call ends in exactly one of the three kinds of counters. `ledger` adds
-- them as the code's 64-bit words, `ledgerNat` as numbers.
def ledger (c : AetCtrl) : U64 :=
  ∑ i ∈ Finset.range maxDomNr, c.totRef i + ∑ i ∈ Finset.range maxDomNr, c.nodeCount i + c.hashConflictNum

def ledgerNat (c : AetCtrl) : Nat :=
  ∑ i ∈ Finset.range maxDomNr, (c.totRef i).toNat + ∑ i ∈ Finset.range maxDomNr, (c.nodeCount i).toNat +
    c.hashConflictNum.toNat

theorem domain_index (call : TrackCall) : ∃ n ∈ Finset.range maxDomNr, call.domainId-1 = (n : Int) := by
  have tabled := call.tabled
  refine ⟨(call.domainId-1).toNat,Finset.mem_range.mpr ?_,?_⟩ <;> omega

theorem visit_ledger (visit : Visit c call next) : ledger next = ledger c + 1 := by
  obtain ⟨n,tabled,at_⟩ := domain_index call
  cases visit with
  | hit _ _ _ _ tot node conflict | insert _ _ _ _ _ tot node conflict =>
    rw [ledger,tot,node,conflict,at_,Tally.sum_bump Nat.cast_injective _ tabled,ledger]; ring
  | full all hns tot node conflict =>
    rw [ledger,tot,node,conflict,ledger]; ring

theorem visit_ledgerNat (visit : Visit c call next) (fits : ledgerNat c + 1 < 2^64) :
    ledgerNat next = ledgerNat c + 1 := by
  obtain ⟨n,tabled,at_⟩ := domain_index call
  unfold ledgerNat at fits ⊢
  cases visit with
  | hit _ _ _ _ tot node conflict | insert _ _ _ _ _ tot node conflict =>
    rw [tot,node,conflict,at_,Tally.sum_bump_nat Nat.cast_injective _ tabled (by omega)]; omega
  | full all hns tot node conflict =>
    rw [tot,node,conflict,Tally.toNat_succ _ (by omega)]; omega

structure Accounted (past : List Event) (c : AetCtrl) : Prop where
  formed : Formed c
  counted : Counted c
  recent : Recent past c
  total : ledger c = BitVec.ofNat 64 (calls past)
  exactly : calls past < 2^64 → ledgerNat c = calls past

theorem zeroed_accounted : Accounted [] zeroed := by
  refine ⟨zeroed_formed,zeroed_counted,?_,by decide,fun _ => by decide⟩
  intro d key pos _ stored
  exact absurd rfl stored

theorem step_accounted (past : List Event) (c : AetCtrl) (event : Event) (next : AetCtrl)
    (held : Accounted past c) (ran : step c event = some next) : Accounted (past ++ [event]) next := by
  cases event with
  | pageFault =>
    cases ran
    have more : calls (past ++ [.pageFault]) = calls past := by simp [calls,isFault]
    refine ⟨same_formed held.formed fun _ _ _ => rfl,held.counted,?_,?_,?_⟩
    · intro d key pos small stored
      rw [latest_snoc]
      exact held.recent d key pos small stored
    · rw [more]; exact held.total
    · rw [more]; exact held.exactly
  | fault call =>
    have visit := visit_of_step ran
    have more : calls (past ++ [.fault call]) = calls past + 1 := by simp [calls,isFault]
    refine ⟨visit_formed held.formed visit,visit_counted held.counted visit,
      visit_recent held.formed held.recent visit,?_,?_⟩
    · rw [visit_ledger visit,held.total,more,BitVec.ofNat_add]; rfl
    · intro fits
      rw [more] at fits ⊢
      have before := held.exactly (by omega)
      rw [visit_ledgerNat visit (by omega),before]

theorem step_keeps (ran : step c event = some next) (stored : (c.hns d key pos).mfn ≠ 0#64) :
    (next.hns d key pos).mfn = (c.hns d key pos).mfn := by
  cases event with
  | pageFault => cases ran; rfl
  | fault call =>
    cases visit_of_step ran with
    | hit place small found hns => exact hit_same found hns
    | full all hns => rw [hns]
    | insert place small before empty hns =>
      rw [written_slot hns]
      split
      · rename_i here
        obtain ⟨rfl,rfl,rfl⟩ := here
        exact absurd empty stored
      · rfl

theorem run_keeps (ran : Run.run step c events = some last) (stored : (c.hns d key pos).mfn ≠ 0#64) :
    (last.hns d key pos).mfn = (c.hns d key pos).mfn := by
  apply Run.run_history (P:=fun _ s => (s.hns d key pos).mfn = (c.hns d key pos).mfn) ?_ rfl ran
  intro _ s event next same taken
  have held : (s.hns d key pos).mfn ≠ 0#64 := by rw [same]; exact stored
  exact (step_keeps taken held).trans same

theorem run_accounted (ran : Run.run step zeroed events = some c) : Accounted events c :=
  Run.run_history step_accounted zeroed_accounted ran

theorem formed_once (formed : Formed c) (small : p < hashConflictNum) (small' : q < hashConflictNum)
    (stored : (c.hns d key p).mfn ≠ 0#64) (same : (c.hns d key p).mfn = (c.hns d key' q).mfn) :
    key = key' ∧ p = q := by
  have home := formed.keyed d key p small stored
  have other := formed.keyed d key' q small' (by rw [← same]; exact stored)
  rw [same,other] at home
  subst home
  exact ⟨rfl,formed.single d _ p q small small' stored same⟩

-- Page faults may come between the calls. Sums of counters are the code's
-- 64-bit words for runs of any length, and exact below 2^64 calls.
theorem track_runs_accounted (ran : Run.run step zeroed events = some c) :
    (∀ d key q pos, q < pos → pos < hashConflictNum →
      (c.hns d key pos).mfn ≠ 0#64 → (c.hns d key q).mfn ≠ 0#64) ∧
    (∀ d key pos, pos < hashConflictNum → (c.hns d key pos).mfn ≠ 0#64 →
      (c.hns d key pos).mfn.toNat % hashSize = key) ∧
    (∀ d key key' p q, p < hashConflictNum → q < hashConflictNum → (c.hns d key p).mfn ≠ 0#64 →
      (c.hns d key p).mfn = (c.hns d key' q).mfn → key = key' ∧ p = q) ∧
    (∀ more last, Run.run step c more = some last → ∀ d key pos,
      (c.hns d key pos).mfn ≠ 0#64 → (last.hns d key pos).mfn = (c.hns d key pos).mfn) ∧
    (∀ d, (c.nodeCount d).toNat = (occupied c d).card) ∧
    (∀ d key pos, pos < hashConflictNum → (c.hns d key pos).mfn ≠ 0#64 →
      latest events d (c.hns d key pos).mfn = some (c.hns d key pos).memCounter) ∧
    ledger c = BitVec.ofNat 64 (calls events) ∧
    (calls events < 2^64 → ledgerNat c = calls events) := by
  have held := run_accounted ran
  refine ⟨held.formed.filled,held.formed.keyed,?_,?_,held.counted,held.recent,held.total,held.exactly⟩
  · intro d key key' p q small small' stored same
    exact formed_once held.formed small small' stored same
  · intro more last ran d key pos stored
    exact run_keeps ran stored

def visitOf (mfn memCounter : U64) (framed : mfn ≠ 0#64) : Event :=
  .fault ⟨1,mfn,memCounter,by decide,framed⟩

theorem track_runs_accounted_revisit :
    ∃ c, Run.run step zeroed [visitOf 5 100 (by decide),.pageFault,visitOf 5 300 (by decide)] = some c ∧
      ledgerNat c = 2 := by
  obtain ⟨c,ran⟩ := Option.isSome_iff_exists.mp (show (Run.run step zeroed
    [visitOf 5 100 (by decide),.pageFault,visitOf 5 300 (by decide)]).isSome = true by decide +kernel)
  obtain ⟨_,_,_,_,_,_,_,exactly⟩ := track_runs_accounted ran
  exact ⟨c,ran,exactly (by decide)⟩

end XenAet.AetTable
