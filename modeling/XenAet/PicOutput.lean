import XenAet.VirtualPic
import XenAet.Library.Run

namespace XenAet.PicOutput
open Library VirtualPic
variable {s s' : State} {p : Pic} {v w : Vpic}

section Priority

theorem lowestBit_spec (mask : BitVec 8) (found : lowestBit mask ≠ prioNone) : lowestBit mask < 8 ∧ mask.getLsbD (lowestBit mask) = true := by
  rw [lowestBit] at found ⊢
  cases is : (List.range 8).find? mask.getLsbD with
  | none => exact absurd (by rw [is]; rfl) found
  | some i => exact ⟨List.mem_range.mp (List.mem_of_find?_eq_some is),List.find?_some is⟩

-- The line that a priority stands for is in the mask.
theorem priority_line (mask : BitVec 8) (found : vpicGetPriority v mask ≠ prioNone) :
    mask.getLsbD (lineOf v (vpicGetPriority v mask)) = true := by
  have some_ : mask ≠ 0#8 := fun none => found (by rw [vpicGetPriority,if_pos none])
  rw [vpicGetPriority,if_neg some_] at found ⊢
  obtain ⟨below,set_⟩ := lowestBit_spec _ found
  rw [BitVec.getLsbD_rotateRight] at set_
  rw [lineOf]
  generalize lowestBit (mask.rotateRight v.priorityAdd.toNat) = i at *
  rw [Bool.cond_decide] at set_
  by_cases low : i < 8 - v.priorityAdd.toNat % 8
  · rw [if_pos low] at set_
    rwa [show (i + v.priorityAdd.toNat) % 8 = v.priorityAdd.toNat % 8 + i by omega]
  · rw [if_neg low,Bool.and_eq_true] at set_
    rw [show (i + v.priorityAdd.toNat) % 8 = i - (8 - v.priorityAdd.toNat % 8) by omega]
    exact set_.2

theorem line_of_pending {c : Prop} [Decidable c] {n : Nat} (pending : 0 ≤ if c then (n : Int) else -1) :
    (if c then (n : Int) else -1) = n := by
  by_cases is : c
  · exact if_pos is
  · rw [if_neg is] at pending
    exact absurd pending (by decide)

theorem highest_line (pending : 0 ≤ vpicGetHighestPriorityIrq p v) :
    ∃ irq : Nat, vpicGetHighestPriorityIrq p v = irq ∧ irq < 8 ∧ v.irr.getLsbD irq = true := by
  rw [vpicGetHighestPriorityIrq] at pending ⊢
  dsimp only at pending ⊢
  by_cases none : vpicGetPriority v (v.irr &&& ~~~v.imr) = prioNone
  · rw [if_pos none] at pending
    exact absurd pending (by decide)
  rw [if_neg none] at pending ⊢
  have set_ := priority_line _ none
  rw [BitVec.getLsbD_and,Bool.and_eq_true] at set_
  exact ⟨_,line_of_pending pending,Nat.mod_lt _ (by decide),set_.1⟩

-- Masked lines do not count.
theorem highest_irr (irr : BitVec 8) (same : irr &&& ~~~v.imr = v.irr &&& ~~~v.imr) :
    vpicGetHighestPriorityIrq p {v with irr} = vpicGetHighestPriorityIrq p v := by
  rw [vpicGetHighestPriorityIrq,vpicGetHighestPriorityIrq]
  dsimp only
  rw [same]
  rfl

end Priority

abbrev pending (p : Pic) (v : Vpic) : Bool := decide (0 ≤ vpicGetHighestPriorityIrq p v)

structure Consistent (s : State) : Prop where
  master : s.master.intOutput = pending .master s.master
  slave : s.slave.intOutput = pending .slave s.slave
  cascade : s.master.irr.getLsbD 2 = s.slave.intOutput
  level : s.master.elcr.getLsbD 2 = true

theorem updateMaster_eq (s : State) : updateMaster s = {s with master := {s.master with intOutput := pending .master s.master}} := by
  rw [updateMaster]
  by_cases same : s.master.intOutput = pending .master s.master
  · rw [if_pos (beq_iff_eq.mpr same),← same]
  · rw [if_neg (fun is => same (beq_iff_eq.mp is)),Bool.eq_not_of_ne same,Bool.not_not]

theorem master_consistent (s : State) (v : Vpic) (held : Consistent s) (line : v.irr.getLsbD 2 = s.master.irr.getLsbD 2)
    (level : v.elcr.getLsbD 2 = true) : Consistent (vpicUpdateIntOutput {s with master := v} .master) := by
  rw [vpicUpdateIntOutput,updateMaster_eq]
  exact ⟨rfl,held.slave,line.trans held.cascade,level⟩

theorem slave_consistent (s : State) (v : Vpic) (held : Consistent s) (output : v.intOutput = s.slave.intOutput) :
    Consistent (vpicUpdateIntOutput {s with slave := v} .slave) := by
  rw [vpicUpdateIntOutput]
  by_cases same : v.intOutput = pending .slave v
  · rw [if_pos (beq_iff_eq.mpr same)]
    exact ⟨held.master,same,held.cascade.trans output.symm,held.level⟩
  · rw [if_neg (fun is => same (beq_iff_eq.mp is)),updateMaster_eq]
    refine ⟨rfl,?_,?_,held.level⟩
    · change (!v.intOutput) = pending .slave v
      rw [Bool.eq_not_of_ne same,Bool.not_not]
    · cases v.intOutput <;> simp [bit]

-- A change of one PIC, with its output brought up to date.
structure Changes (p : Pic) (v w : Vpic) : Prop where
  output : w.intOutput = v.intOutput
  line : p = .master → w.irr.getLsbD 2 = v.irr.getLsbD 2
  level : p = .master → w.elcr.getLsbD 2 = v.elcr.getLsbD 2

theorem update_consistent (held : Consistent s) (changes : Changes p (s.get p) w) : Consistent (vpicUpdateIntOutput (s.set_ p w) p) := by
  cases p with
  | master => exact master_consistent s w held (changes.line rfl) ((changes.level rfl).trans held.level)
  | slave => exact slave_consistent s w held changes.output

theorem bit_getLsbD (irq i : Nat) (low : i < 8) : (bit irq).getLsbD i = decide (i = irq) := by
  rw [bit,BitVec.getLsbD_shiftLeft]
  by_cases same : i = irq
  · subst same
    simp [low]
  · by_cases less : i < irq
    · simp [less,same]
    · have : i - irq ≠ 0 := by omega
      simp [less,same,low,this]

section Writes
variable (v : Vpic) (val : BitVec 8)

theorem eoi_changes (irq : Nat) (rotate : Bool) : Changes p v (eoi v irq rotate) := by
  rw [eoi]
  cases rotate <;> exact ⟨rfl,fun _ => rfl,fun _ => rfl⟩

theorem ocw2_changes : Changes p v (writeOcw2 v val) := by
  have same : Changes p v v := ⟨rfl,fun _ => rfl,fun _ => rfl⟩
  have nonSpecific (rotate : Bool) : Changes p v (writeOcw2.nonSpecific v rotate) := by
    rw [writeOcw2.nonSpecific]
    generalize vpicGetPriority v _ = priority
    by_cases none : priority = prioNone
    · rw [if_pos none]
      exact same
    · rw [if_neg none]
      exact eoi_changes v _ _
  rw [writeOcw2]
  split
  · exact ⟨rfl,fun _ => rfl,fun _ => rfl⟩
  · exact ⟨rfl,fun _ => rfl,fun _ => rfl⟩
  · exact nonSpecific false
  · exact nonSpecific true
  · exact eoi_changes v _ _
  · exact eoi_changes v _ _
  · exact ⟨rfl,fun _ => rfl,fun _ => rfl⟩
  · exact same

theorem odd_changes : Changes p v (writeOdd v val) := by
  have icw3 (u : Vpic) (changed : Changes p v u) : Changes p v (writeOdd.icw3 u) := by
    rw [writeOdd.icw3]
    dsimp only
    split
    · exact ⟨changed.output,changed.line,changed.level⟩
    · exact ⟨changed.output,changed.line,changed.level⟩
  rw [writeOdd]
  split
  · exact ⟨rfl,fun _ => rfl,fun _ => rfl⟩
  · dsimp only
    split
    · exact ⟨rfl,fun _ => rfl,fun _ => rfl⟩
    · exact icw3 _ ⟨rfl,fun _ => rfl,fun _ => rfl⟩
  · exact icw3 v ⟨rfl,fun _ => rfl,fun _ => rfl⟩
  · exact ⟨rfl,fun _ => rfl,fun _ => rfl⟩

-- ICW1 forgets the edges. Line 2 of the master is a level.
theorem icw1_changes (level : p = .master → v.elcr.getLsbD 2 = true) : Changes p v (writeIcw1 v val) := by
  refine ⟨rfl,fun is => ?_,fun _ => rfl⟩
  change (v.irr &&& v.elcr).getLsbD 2 = v.irr.getLsbD 2
  rw [BitVec.getLsbD_and,level is,Bool.and_true]

theorem write_changes (odd : Bool) (level : p = .master → v.elcr.getLsbD 2 = true) : Changes p v (writeRegister v odd val) := by
  rw [writeRegister]
  split
  · exact odd_changes v val
  · split
    · exact icw1_changes v val level
    · split
      · exact ⟨rfl,fun _ => rfl,fun _ => rfl⟩
      · exact ocw2_changes v val

end Writes

theorem Consistent.level_of (held : Consistent s) (is : p = .master) : (s.get p).elcr.getLsbD 2 = true := by
  subst is
  exact held.level

theorem intackOne_consistent (held : Consistent s) (irq : Nat) : Consistent (intackOne p irq s) := by
  rw [intackOne]
  refine update_consistent held ?_
  have acked : Changes p (s.get p)
      (if (s.get p).elcr &&& bit irq = 0#8 then {s.get p with irr := (s.get p).irr &&& ~~~bit irq} else s.get p) := by
    split
    · rename_i edge
      refine ⟨rfl,fun is => ?_,fun _ => rfl⟩
      -- A line that is acknowledged as an edge is not the level line 2.
      have other : irq ≠ 2 := by
        rintro rfl
        have none := congrArg (BitVec.getLsbD · 2) edge
        simp only [BitVec.getLsbD_and,held.level_of is,bit_getLsbD 2 2 (by decide)] at none
        exact absurd none (by decide)
      change ((s.get p).irr &&& ~~~bit irq).getLsbD 2 = (s.get p).irr.getLsbD 2
      rw [BitVec.getLsbD_and,BitVec.getLsbD_not,bit_getLsbD irq 2 (by decide)]
      simp [Ne.symm other]
    · exact ⟨rfl,fun _ => rfl,fun _ => rfl⟩
  generalize (if (s.get p).elcr &&& bit irq = 0#8 then {s.get p with irr := (s.get p).irr &&& ~~~bit irq} else s.get p) = u at acked
  split
  · exact ⟨acked.output,acked.line,acked.level⟩
  · split
    · exact ⟨acked.output,acked.line,acked.level⟩
    · exact acked

-- The line from the slave is pending while its output is, so that there is
-- an interrupt to take there.
theorem vpicIntack_consistent (held : Consistent s) : ∃ s' irq, vpicIntack p s = some (s',irq) ∧ Consistent s' := by
  rw [vpicIntack]
  by_cases output : (s.get p).intOutput = true
  · have waits : 0 ≤ vpicGetHighestPriorityIrq p (s.get p) := by
      cases p with
      | master => exact of_decide_eq_true (held.master.symm.trans output)
      | slave => exact of_decide_eq_true (held.slave.symm.trans output)
    obtain ⟨irq,is,_,set_⟩ := highest_line waits
    have acked := intackOne_consistent (p:=p) held irq
    rw [output,if_neg (by decide)]
    simp only [is]
    rw [if_neg (by omega)]
    simp only [Int.toNat_natCast]
    by_cases cascade : (irq : Int) = 2 ∧ p = .master
    · rw [if_pos cascade]
      obtain ⟨two,rfl⟩ := cascade
      have line : irq = 2 := by omega
      subst line
      have kept : (intackOne .master 2 s).slave = s.slave := by
        rw [intackOne,vpicUpdateIntOutput,updateMaster_eq]
        rfl
      have slave : 0 ≤ vpicGetHighestPriorityIrq .slave (intackOne .master 2 s).slave := by
        rw [kept]
        refine of_decide_eq_true (held.slave.symm.trans (held.cascade.symm.trans ?_))
        exact set_
      rw [if_neg (by omega)]
      exact ⟨_,_,rfl,intackOne_consistent acked _⟩
    · rw [if_neg cascade]
      exact ⟨_,_,rfl,acked⟩
  · rw [Bool.eq_false_iff.mpr output]
    exact ⟨s,-1,rfl,held⟩

theorem read_consistent (held : Consistent s) (odd : Bool) : ∃ s' val, vpicIoportRead p odd s = some (s',val) ∧ Consistent s' := by
  rw [vpicIoportRead]
  dsimp only
  by_cases poll : (s.get p).poll = true
  · have still : Consistent (s.set_ p {s.get p with poll := false}) := by
      cases p with
      | master | slave => exact ⟨held.master,held.slave,held.cascade,held.level⟩
    obtain ⟨s',irq,acked,kept⟩ := vpicIntack_consistent (p:=p) still
    rw [if_pos poll,acked]
    exact ⟨s',_,rfl,kept⟩
  · rw [if_neg poll]
    cases odd with
    | true => exact ⟨s,_,rfl,held⟩
    | false => exact ⟨s,_,rfl,held⟩

theorem elcr_consistent (held : Consistent s) (val : BitVec 8) : Consistent (writeElcr p val s) := by
  cases p with
  | slave => exact ⟨held.master,held.slave,held.cascade,held.level⟩
  | master =>
    refine ⟨held.master,held.slave,held.cascade,?_⟩
    change ((val &&& elcrMask .master) ||| bit 2).getLsbD 2 = true
    rw [BitVec.getLsbD_or,bit_getLsbD 2 2 (by decide)]
    simp

theorem edge_other (positive : Bool) (irr : BitVec 8) {line i : Nat} (low : i < 8) (other : i ≠ line) :
    (if positive then irr ||| bit line else irr &&& ~~~bit line).getLsbD i = irr.getLsbD i := by
  have out : (bit line).getLsbD i = false := by rw [bit_getLsbD line i low,decide_eq_false other]
  cases positive with
  | true => rw [if_pos rfl,BitVec.getLsbD_or,out,Bool.or_false]
  | false => rw [if_neg Bool.false_ne_true,BitVec.getLsbD_and,BitVec.getLsbD_not,out,decide_eq_true low,Bool.not_false,Bool.and_true,Bool.and_true]

theorem edge_mask (positive : Bool) (irr imr : BitVec 8) (line : Nat) (masked : imr &&& bit line ≠ 0#8) :
    (if positive then irr ||| bit line else irr &&& ~~~bit line) &&& ~~~imr = irr &&& ~~~imr := by
  have covered : imr.getLsbD line = true := by
    by_contra clear
    refine masked (BitVec.eq_of_getLsbD_eq fun i low => ?_)
    rw [BitVec.getLsbD_and,bit_getLsbD line i low,BitVec.getLsbD_zero]
    by_cases same : i = line
    · rw [same,Bool.not_eq_true _ |>.mp clear,Bool.false_and]
    · simp [same]
  refine BitVec.eq_of_getLsbD_eq fun i low => ?_
  by_cases same : i = line
  · subst same
    simp [covered]
  · rw [BitVec.getLsbD_and,BitVec.getLsbD_and,edge_other positive irr low same]

theorem edge_consistent (held : Consistent s) (positive : Bool) (irq : Nat) (low : irq < 16) : Consistent (vpicIrqEdge positive irq s) := by
  rw [vpicIrqEdge]
  by_cases two : irq = 2
  · rw [if_pos two]
    exact held
  rw [if_neg two]
  dsimp only
  have changes : Changes (picOf irq) (s.get (picOf irq)) {s.get (picOf irq) with
      irr := if positive then (s.get (picOf irq)).irr ||| bit (irq % 8) else (s.get (picOf irq)).irr &&& ~~~bit (irq % 8)} := by
    refine ⟨rfl,fun is => ?_,fun _ => rfl⟩
    -- On the master it is another line than 2.
    have small : irq < 8 := by
      by_contra large
      rw [picOf,if_neg large] at is
      cases is
    exact edge_other positive _ (by decide) (by omega)
  by_cases clear : (s.get (picOf irq)).imr &&& bit (irq % 8) = 0#8
  · rw [if_pos clear]
    exact update_consistent held changes
  · rw [if_neg clear]
    have same := fun p => highest_irr (p:=p) _ (edge_mask positive (s.get (picOf irq)).irr _ _ clear)
    cases is : picOf irq with
    | master =>
      rw [is] at same changes
      refine ⟨?_,held.slave,(changes.line rfl).trans held.cascade,held.level⟩
      exact held.master.trans (congrArg (fun n => decide ((0 : Int) ≤ n)) (same .master).symm)
    | slave =>
      rw [is] at same
      refine ⟨held.master,?_,held.cascade,held.level⟩
      exact held.slave.trans (congrArg (fun n => decide ((0 : Int) ≤ n)) (same .slave).symm)

inductive Event where
  | write (p : Pic) (odd : Bool) (val : BitVec 8)
  | read (p : Pic) (odd : Bool)
  | writeElcr (p : Pic) (val : BitVec 8)
  | readElcr (p : Pic)
  | positiveEdge (irq : Fin 16)
  | negativeEdge (irq : Fin 16)
  | ack (accepts : Bool)

def step (s : State) : Event → Option State
  | .write p odd val => some (vpicIoportWrite p odd val s)
  | .read p odd => (vpicIoportRead p odd s).map Prod.fst
  | .writeElcr p val => some (writeElcr p val s)
  | .readElcr _ => some s
  | .positiveEdge irq => some (vpicIrqPositiveEdge irq s)
  | .negativeEdge irq => some (vpicIrqNegativeEdge irq s)
  | .ack accepts => (vpicAckPendingIrq accepts s).map Prod.fst

theorem ack_consistent (held : Consistent s) (accepts : Bool) : ∃ s' vector, vpicAckPendingIrq accepts s = some (s',vector) ∧ Consistent s' := by
  rw [vpicAckPendingIrq]
  by_cases idle : (!accepts || !s.master.intOutput) = true
  · rw [if_pos idle]
    exact ⟨s,-1,rfl,held⟩
  · rw [if_neg idle]
    obtain ⟨s',irq,acked,kept⟩ := vpicIntack_consistent (p:=.master) held
    rw [acked]
    by_cases none : irq = -1
    · exact ⟨s',-1,congrArg some (if_pos none),kept⟩
    · exact ⟨s',_,congrArg some (if_neg none),kept⟩

theorem step_consistent (held : Consistent s) (e : Event) : ∃ s', step s e = some s' ∧ Consistent s' := by
  cases e with
  | write p odd val => exact ⟨_,rfl,update_consistent held (write_changes _ val odd fun is => held.level_of is)⟩
  | read p odd =>
    obtain ⟨s',val,done,kept⟩ := read_consistent (p:=p) held odd
    exact ⟨s',by rw [step,done]; rfl,kept⟩
  | writeElcr p val => exact ⟨_,rfl,elcr_consistent held val⟩
  | readElcr p => exact ⟨s,rfl,held⟩
  | positiveEdge irq => exact ⟨_,rfl,edge_consistent held true irq irq.isLt⟩
  | negativeEdge irq => exact ⟨_,rfl,edge_consistent held false irq irq.isLt⟩
  | ack accepts =>
    obtain ⟨s',vector,done,kept⟩ := ack_consistent held accepts
    exact ⟨s',by rw [step,done]; rfl,kept⟩

theorem reset_consistent : Consistent vpicReset := ⟨by decide,by decide,by decide,by decide⟩

theorem outputs_consistent (events : List Event) : ∃ s, Run.run step vpicReset events = some s ∧
    (∀ p, (s.get p).intOutput = decide (0 ≤ vpicGetHighestPriorityIrq p (s.get p))) ∧
    s.master.irr.getLsbD 2 = s.slave.intOutput := by
  have guarded : Run.Guarded (fun _ _ => True) step vpicReset events := Run.guarded_trivial fun _ _ => trivial
  obtain ⟨s,ran,held⟩ := Run.guarded_total (fun _ e held _ => step_consistent held e) reset_consistent guarded
  refine ⟨s,ran,fun p => ?_,held.cascade⟩
  cases p with
  | master => exact held.master
  | slave => exact held.slave

-- An interrupt of the slave is in service at both, and one of a higher
-- priority is taken while it is.
example : ((Run.run step vpicReset [.positiveEdge ⟨12,by decide⟩,.ack true,.positiveEdge ⟨1,by decide⟩,.ack true]).map
    fun s => (s.master.isr,s.slave.isr)) = some (6#8,0x10#8) := by decide +kernel

end XenAet.PicOutput
