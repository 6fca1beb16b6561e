import XenAet.AetTable

namespace XenAet.AetMass
open AetControl AetHistogram AetTrack AetTable Library
variable {c next last : AetCtrl} {call : TrackCall}

def mass (c : AetCtrl) (d : Int) : U64 := ∑ b ∈ Finset.range maxPageNum, c.aetHist d b
def massNat (c : AetCtrl) (d : Int) : Nat := ∑ b ∈ Finset.range maxPageNum, (c.aetHist d b).toNat

-- A revisit is forward when the corrected counter has not fallen behind the
-- stored one; otherwise `add_to_aet_histogram` returns early and its caller
-- counts the reference all the same.
def Forward (c : AetCtrl) : Event → Prop
  | .pageFault => True
  | .fault call => ∀ pos, pos < hashConflictNum →
    (c.hns (call.domainId-1) (keyOf call.mfn) pos).mfn = call.mfn →
    (c.hns (call.domainId-1) (keyOf call.mfn) pos).memCounter ≤
      call.memCounter - mcDiff c (c.hns (call.domainId-1) (keyOf call.mfn) pos)

instance (c : AetCtrl) : ∀ event, Decidable (Forward c event)
  | .pageFault => .isTrue trivial
  | .fault _ => Nat.decidableBallLT _ _

theorem row_bump (f : Nat → U64) (inside : i < n) :
    ∑ b ∈ Finset.range n, Function.update f i (f i + 1) b = ∑ b ∈ Finset.range n, f b + 1 :=
  Tally.sum_bump Function.injective_id f (Finset.mem_range.mpr inside)

theorem row_bump_nat (f : Nat → U64) (inside : i < n)
    (fits : ∑ b ∈ Finset.range n, (f b).toNat + 1 < 2^64) :
    ∑ b ∈ Finset.range n, (Function.update f i (f i + 1) b).toNat = ∑ b ∈ Finset.range n, (f b).toNat + 1 :=
  Tally.sum_bump_nat Function.injective_id f (Finset.mem_range.mpr inside) fits

theorem bump_row (c : AetCtrl) (d : Int) (i : Nat) (d' : Int) : (bumpHist c d i).aetHist d' =
    if d' = d then Function.update (c.aetHist d) i (c.aetHist d i + 1) else c.aetHist d' := by
  by_cases same : d' = d
  · subst d'; simp [bumpHist]
  · simp [bumpHist,same]

inductive Recorded (c : AetCtrl) (call : TrackCall) (next : AetCtrl) : Prop where
  | revisit (i : Nat) (inside : i < maxPageNum)
      (hist : next.aetHist = (bumpHist c (call.domainId-1) i).aetHist)
      (tot : next.totRef = Function.update c.totRef (call.domainId-1) (c.totRef (call.domainId-1) + 1))
  | first (hist : next.aetHist = c.aetHist) (tot : next.totRef = c.totRef)

theorem recorded_of_forward (forward : Forward c (.fault call)) (ran : step c (.fault call) = some next) :
    Recorded c call next := by
  rcases track_cases ran with ⟨pos,small,found,hit⟩ | ⟨pos,_,_,_,rfl⟩ | ⟨_,rfl⟩
  · obtain ⟨counted,hist,same,tot,_⟩ := hit_cases hit
    rcases histogram_cases hist with ⟨backward,_⟩ | ⟨_,i,_,inside,rfl⟩
    · exact absurd (forward pos small found) (BitVec.not_le.mpr backward)
    · exact .revisit i.toNat inside same tot
  · exact .first rfl rfl
  · exact .first rfl rfl

structure Balanced (past : List Event) (c : AetCtrl) : Prop where
  words : ∀ d, mass c d = c.totRef d
  numbers : calls past < 2^64 → ∀ d, massNat c d = (c.totRef d).toNat ∧ (c.totRef d).toNat ≤ calls past

theorem zeroed_balanced : Balanced [] zeroed := by
  refine ⟨fun d => ?_,fun _ d => ⟨?_,Nat.le_refl _⟩⟩
  · exact Finset.sum_const_zero
  · exact Finset.sum_eq_zero fun _ _ => rfl

theorem recorded_balanced (held : Balanced past c) (recorded : Recorded c call next) :
    Balanced (past ++ [.fault call]) next := by
  have more : calls (past ++ [.fault call]) = calls past + 1 := by simp [calls,isFault]
  cases recorded with
  | first hist tot =>
    refine ⟨fun d => ?_,fun fits d => ?_⟩
    · rw [mass,hist,tot]; exact held.words d
    · rw [more] at fits ⊢
      obtain ⟨same,bound⟩ := held.numbers (by omega) d
      rw [massNat,hist,tot]
      exact ⟨same,by omega⟩
  | revisit i inside hist tot =>
    refine ⟨fun d => ?_,fun fits d => ?_⟩
    · rw [mass,hist,tot,bump_row]
      by_cases here : d = call.domainId-1
      · subst d
        rw [if_pos rfl,Function.update_self,row_bump _ inside,← held.words]; rfl
      · rw [if_neg here,Function.update_of_ne here]; exact held.words d
    · rw [more] at fits ⊢
      obtain ⟨same,bound⟩ := held.numbers (by omega) d
      rw [massNat,hist,tot,bump_row]
      by_cases here : d = call.domainId-1
      · subst d
        rw [massNat] at same
        rw [if_pos rfl,Function.update_self,row_bump_nat _ inside (by omega),Tally.toNat_succ _ (by omega),same]
        exact ⟨rfl,by omega⟩
      · rw [if_neg here,Function.update_of_ne here]
        exact ⟨same,by omega⟩

theorem step_balanced (past : List Event) (c : AetCtrl) (event : Event) (next : AetCtrl)
    (held : Balanced past c) (forward : Forward c event) (ran : step c event = some next) :
    Balanced (past ++ [event]) next := by
  cases event with
  | pageFault =>
    cases ran
    have more : calls (past ++ [.pageFault]) = calls past := by simp [calls,isFault]
    exact ⟨held.words,by rw [more]; exact held.numbers⟩
  | fault call => exact recorded_balanced held (recorded_of_forward forward ran)

theorem forward_runs_balanced (forward : Run.Guarded Forward step zeroed events)
    (ran : Run.run step zeroed events = some c) (d : Int) :
    mass c d = c.totRef d ∧ (calls events < 2^64 → massNat c d = (c.totRef d).toNat) := by
  have held := Run.guarded_history step_balanced [] zeroed_balanced forward ran
  exact ⟨held.words d,fun fits => (held.numbers fits d).1⟩

theorem forward_runs_balanced_revisit : ∃ c,
    Run.run step zeroed [visitOf 5 100 (by decide),visitOf 5 300 (by decide)] = some c ∧
      mass c 0 = c.totRef 0 ∧ c.totRef 0 = 1 := by
  obtain ⟨c,ran,counted⟩ := Run.run_reaches (s:=zeroed) (P:=fun c => c.totRef 0 = 1)
    (show (Run.run step _ [visitOf 5 100 (by decide),visitOf 5 300 (by decide)]).any _ = true by decide +kernel)
  exact ⟨c,ran,(forward_runs_balanced (by decide +kernel) ran 0).1,counted⟩

-- Five shadow faults between two visits correct the counter by 100, more than
-- the 50 references that passed: the reference is counted and not recorded.
def correctedBack : List Event :=
  [visitOf 5 100 (by decide),.pageFault,.pageFault,.pageFault,.pageFault,.pageFault,visitOf 5 150 (by decide)]

theorem corrected_back_loses_mass :
    ∃ c, Run.run step zeroed correctedBack = some c ∧ mass c 0 ≠ c.totRef 0 := by
  obtain ⟨c,ran⟩ := Option.isSome_iff_exists.mp
    (show (Run.run step zeroed correctedBack).isSome = true by decide +kernel)
  have counted : (Run.run step zeroed correctedBack).map (fun c => c.totRef 0) = some 1 := by decide +kernel
  have unused : (Run.run step zeroed correctedBack).map AetCtrl.aetHist = some zeroed.aetHist := by rfl
  rw [ran] at counted unused
  refine ⟨c,ran,?_⟩
  have total : c.totRef 0 = 1 := Option.some.inj counted
  rw [mass,Option.some.inj unused,total]
  simp [zeroed]

end XenAet.AetMass
