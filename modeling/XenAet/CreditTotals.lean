import Mathlib.Data.List.Dedup
import Mathlib.Data.Finset.Dedup
import Mathlib.Data.Finset.Card
import XenAet.CreditSched
import XenAet.Library.Counting

namespace XenAet.CreditTotals
open Library CreditSched
variable {k : Config} {s s' : State} {d v : Nat}

-- What a domain adds to the weight of all.
def share (s : State) (d : Nat) : Nat := (s.dom d).weight * (s.dom d).activeVcpu.length

def total (s : State) : Nat := ∑ d ∈ s.activeSdom.toFinset, share s d

-- The data of one domain fits together.
structure DomFits (k : Config) (s : State) (d : Nat) : Prop where
  count : (s.dom d).activeVcpuCount = (s.dom d).activeVcpu.length
  small : (s.dom d).activeVcpuCount < 2^16
  distinct : (s.dom d).activeVcpu.Nodup
  own : ∀ v ∈ (s.dom d).activeVcpu, k.sdomOf v = d
  listed : d ∈ s.activeSdom ↔ (s.dom d).activeVcpu ≠ []
  busy : d ∈ s.activeSdom → k.idle d = false
  weight : 1 ≤ (s.dom d).weight ∧ (s.dom d).weight < 2^16

structure CpusFit (k : Config) (s : State) : Prop where
  number : s.ncpus = s.cpus.length
  distinct : s.cpus.Nodup
  known : ∀ cpu ∈ s.cpus, cpu < k.nrCpus
  tslice : s.tsliceMs ≤ tsliceMax
  credits : s.creditsPerTslice = schedCreditsPerMsec * s.tsliceMs
  credit : s.credit = s.ncpus * s.creditsPerTslice

structure Inv (k : Config) (s : State) : Prop where
  doms : ∀ d, DomFits k s d
  distinct : s.activeSdom.Nodup
  weight : s.weight = total s
  small : s.weight < 2^32
  cpus : CpusFit k s

section Sums

theorem share_idle (inv : ∀ d, DomFits k s d) (out : d ∉ s.activeSdom) : share s d = 0 := by
  have none : (s.dom d).activeVcpu = [] := by
    by_contra some_
    exact out ((inv d).listed.mpr some_)
  rw [share,none,List.length_nil,Nat.mul_zero]

-- The total over any places that hold all active domains.
theorem total_eq (inv : ∀ d, DomFits k s d) {places : Finset Nat} (all : s.activeSdom.toFinset ⊆ places) :
    total s = ∑ d ∈ places, share s d :=
  Finset.sum_subset all fun d _ out => share_idle inv (by simpa using out)

-- Where only one domain differs, the totals differ by its share.
theorem total_change (before : ∀ d, DomFits k s d) (after : ∀ d, DomFits k s' d) (d : Nat)
    (others : ∀ x, x ≠ d → s'.dom x = s.dom x) : total s' + share s d = total s + share s' d := by
  let places := insert d (s.activeSdom.toFinset ∪ s'.activeSdom.toFinset)
  have all : s.activeSdom.toFinset ⊆ places :=
    Finset.Subset.trans Finset.subset_union_left (Finset.subset_insert _ _)
  have all' : s'.activeSdom.toFinset ⊆ places :=
    Finset.Subset.trans Finset.subset_union_right (Finset.subset_insert _ _)
  rw [total_eq before all,total_eq after all']
  exact Tally.sum_change (f:=share s') (g:=share s) (Finset.mem_insert_self _ _) fun x other => by rw [share,share,others x other]

theorem share_le_total (inv : Inv k s) (d : Nat) : share s d ≤ s.weight := by
  rw [inv.weight]
  by_cases active : d ∈ s.activeSdom
  · exact Finset.single_le_sum (f:=share s) (fun _ _ => Nat.zero_le _) (List.mem_toFinset.mpr active)
  · rw [share_idle inv.doms active]
    exact Nat.zero_le _

end Sums

-- Two states that differ in one domain at most.
structure Apart (d : Nat) (s s' : State) : Prop where
  dom : ∀ x, x ≠ d → s'.dom x = s.dom x
  active : ∀ x, x ≠ d → (x ∈ s'.activeSdom ↔ x ∈ s.activeSdom)

theorem DomFits.of_same (fits : DomFits k s d) (dom : s'.dom d = s.dom d) (active : d ∈ s'.activeSdom ↔ d ∈ s.activeSdom) :
    DomFits k s' d := by
  obtain ⟨count,small,distinct,own,listed,busy,weight⟩ := fits
  exact ⟨by rw [dom]; exact count,by rw [dom]; exact small,by rw [dom]; exact distinct,by rw [dom]; exact own,
    by rw [active,dom]; exact listed,fun is => busy (active.mp is),by rw [dom]; exact weight⟩

-- A change of one domain keeps the totals if that domain fits afterwards and
-- the weight goes along with its share.
theorem Apart.inv (apart : Apart d s s') (inv : Inv k s) (here : DomFits k s' d) (distinct : s'.activeSdom.Nodup)
    (weight : s'.weight + share s d = s.weight + share s' d) (small : s'.weight < 2^32) (cpus : CpusFit k s') : Inv k s' := by
  have doms : ∀ x, DomFits k s' x := fun x => by
    by_cases same : x = d
    · rw [same]
      exact here
    · exact (inv.doms x).of_same (apart.dom x same) (apart.active x same)
  have change := total_change inv.doms doms d apart.dom
  have total := inv.weight
  exact ⟨doms,distinct,by omega,small,cpus⟩

theorem Inv.of_same (inv : Inv k s) (doms : s'.dom = s.dom) (sdoms : s'.activeSdom = s.activeSdom) (weight : s'.weight = s.weight)
    (cpus : CpusFit k s') : Inv k s' := by
  have total : total s' = total s := by
    rw [total,total,sdoms]
    exact Finset.sum_congr rfl fun d _ => by rw [share,share,doms]
  exact ⟨fun d => (inv.doms d).of_same (by rw [doms]) (by rw [sdoms]),by rw [sdoms]; exact inv.distinct,by rw [weight,total]; exact inv.weight,
    by rw [weight]; exact inv.small,cpus⟩

theorem CpusFit.of_same (fit : CpusFit k s) (number : s'.ncpus = s.ncpus) (cpus : s'.cpus = s.cpus) (tslice : s'.tsliceMs = s.tsliceMs)
    (credits : s'.creditsPerTslice = s.creditsPerTslice) (credit : s'.credit = s.credit) : CpusFit k s' :=
  ⟨by rw [number,cpus]; exact fit.number,by rw [cpus]; exact fit.distinct,by rw [cpus]; exact fit.known,by rw [tslice]; exact fit.tslice,
    by rw [credits,tslice]; exact fit.credits,by rw [credit,number,credits]; exact fit.credit⟩

section Vcpus

abbrev Active (k : Config) (s : State) (v : Nat) : Prop := v ∈ (s.dom (k.sdomOf v)).activeVcpu

theorem start_eq (active : ¬Active k s v) : ∃ s', vcpuAcctStart k v s = s' ∧
    s'.dom = Function.update s.dom (k.sdomOf v) ⟨v :: (s.dom (k.sdomOf v)).activeVcpu,((s.dom (k.sdomOf v)).activeVcpuCount + 1) % 2^16,
      (s.dom (k.sdomOf v)).weight,(s.dom (k.sdomOf v)).cap⟩ ∧
    s'.weight = (s.weight + (s.dom (k.sdomOf v)).weight) % 2^32 ∧
    s'.activeSdom = (if k.sdomOf v ∈ s.activeSdom then s.activeSdom else k.sdomOf v :: s.activeSdom) ∧
    (∀ k, CpusFit k s → CpusFit k s') := by
  rw [vcpuAcctStart,if_neg active]
  exact ⟨_,rfl,rfl,rfl,rfl,fun _ fit => fit.of_same rfl rfl rfl rfl rfl⟩

theorem start_inv (inv : Inv k s) (busy : k.idle (k.sdomOf v) = false)
    (room : ¬Active k s v → s.weight + (s.dom (k.sdomOf v)).weight < 2^32 ∧ (s.dom (k.sdomOf v)).activeVcpuCount + 1 < 2^16) :
    Inv k (vcpuAcctStart k v s) := by
  by_cases active : Active k s v
  · rw [vcpuAcctStart,if_pos active]
    exact inv
  obtain ⟨fits,few⟩ := room active
  obtain ⟨count,_,distinct,own,listed,_,weight⟩ := inv.doms (k.sdomOf v)
  obtain ⟨s',rfl,dom,weight',sdoms,cpus⟩ := start_eq active
  have here := (congrFun dom (k.sdomOf v)).trans (Function.update_self _ _ _)
  have apart : Apart (k.sdomOf v) s (vcpuAcctStart k v s) := by
    refine ⟨fun x other => by rw [dom,Function.update_of_ne other],fun x other => ?_⟩
    rw [sdoms]
    split
    · exact Iff.rfl
    · simp [other]
  refine apart.inv inv ⟨?_,?_,?_,?_,?_,fun _ => busy,?_⟩ ?_ ?_ (weight' ▸ Nat.mod_lt _ (by decide)) (cpus k inv.cpus)
  · rw [here,Nat.mod_eq_of_lt few,count,List.length_cons]
  · rw [here]
    exact Nat.mod_lt _ (by decide)
  · rw [here]
    exact List.nodup_cons.mpr ⟨active,distinct⟩
  · rw [here]
    intro w mem
    rcases List.mem_cons.mp mem with rfl | mem
    · rfl
    · exact own w mem
  · rw [here,sdoms]
    refine ⟨fun _ => List.cons_ne_nil _ _,fun _ => ?_⟩
    split
    · assumption
    · exact List.mem_cons_self
  · rw [here]
    exact weight
  · rw [sdoms]
    split
    · exact inv.distinct
    · exact List.nodup_cons.mpr ⟨by assumption,inv.distinct⟩
  · rw [share,share,here,weight',Nat.mod_eq_of_lt fits,List.length_cons,Nat.mul_succ]
    dsimp only
    omega

theorem stop_eq (active : Active k s v) (enough : (s.dom (k.sdomOf v)).weight ≤ s.weight) : ∃ s', vcpuAcctStopLocked k v s = some s' ∧
    s'.dom = Function.update s.dom (k.sdomOf v) ⟨(s.dom (k.sdomOf v)).activeVcpu.erase v,
      ((s.dom (k.sdomOf v)).activeVcpuCount + 2^16 - 1) % 2^16,(s.dom (k.sdomOf v)).weight,(s.dom (k.sdomOf v)).cap⟩ ∧
    s'.weight = s.weight - (s.dom (k.sdomOf v)).weight ∧
    s'.activeSdom = (if (s.dom (k.sdomOf v)).activeVcpu.erase v = [] then s.activeSdom.erase (k.sdomOf v) else s.activeSdom) ∧
    (∀ k, CpusFit k s → CpusFit k s') := by
  rw [vcpuAcctStopLocked,if_neg (not_not.mpr active),if_neg (Nat.not_lt.mpr enough)]
  exact ⟨_,rfl,rfl,rfl,rfl,fun _ fit => fit.of_same rfl rfl rfl rfl rfl⟩

theorem stop_inv (inv : Inv k s) (active : Active k s v) : ∃ s', vcpuAcctStopLocked k v s = some s' ∧ Inv k s' ∧
    Apart (k.sdomOf v) s s' ∧ (s'.dom (k.sdomOf v)).activeVcpu = (s.dom (k.sdomOf v)).activeVcpu.erase v := by
  obtain ⟨count,small,distinct,own,listed,busy,weight⟩ := inv.doms (k.sdomOf v)
  have some_ : 1 ≤ (s.dom (k.sdomOf v)).activeVcpu.length := List.length_pos_of_mem active
  have length := List.length_erase_of_mem active
  have enough : (s.dom (k.sdomOf v)).weight ≤ s.weight :=
    Nat.le_trans (Nat.le_mul_of_pos_right _ some_) (share_le_total inv (k.sdomOf v))
  have removed : k.sdomOf v ∉ s.activeSdom.erase (k.sdomOf v) := fun mem => (inv.distinct.mem_erase_iff.mp mem).1 rfl
  have here : k.sdomOf v ∈ s.activeSdom := listed.mpr (List.ne_nil_of_mem active)
  obtain ⟨s',stopped,dom,weight',sdoms,cpus⟩ := stop_eq active enough
  have apart : Apart (k.sdomOf v) s s' := by
    refine ⟨fun x other => by rw [dom,Function.update_of_ne other],fun x other => ?_⟩
    rw [sdoms]
    split
    · rw [inv.distinct.mem_erase_iff]
      exact ⟨And.right,fun mem => ⟨other,mem⟩⟩
    · exact Iff.rfl
  have here' := (congrFun dom (k.sdomOf v)).trans (Function.update_self _ _ _)
  refine ⟨s',stopped,apart.inv inv ⟨?_,?_,?_,?_,?_,fun _ => busy here,?_⟩ ?_ ?_ (weight' ▸ Nat.lt_of_le_of_lt (Nat.sub_le _ _) inv.small)
    (cpus k inv.cpus),apart,by rw [here']⟩
  · rw [here',length]
    dsimp only
    omega
  · rw [here']
    dsimp only
    omega
  · rw [here']
    exact distinct.erase v
  · rw [here']
    exact fun w mem => own w (List.mem_of_mem_erase mem)
  · rw [here',sdoms]
    split
    · rename_i none
      exact ⟨fun mem => absurd mem removed,fun some_ => absurd none some_⟩
    · rename_i rest
      exact ⟨fun _ => rest,fun _ => here⟩
  · rw [here']
    exact weight
  · rw [sdoms]
    split
    · exact inv.distinct.erase _
    · exact inv.distinct
  · have parts : (s.dom (k.sdomOf v)).weight * (s.dom (k.sdomOf v)).activeVcpu.length =
        (s.dom (k.sdomOf v)).weight * ((s.dom (k.sdomOf v)).activeVcpu.length - 1) + (s.dom (k.sdomOf v)).weight := by
      rw [← Nat.mul_succ,Nat.succ_eq_add_one,Nat.sub_add_cancel some_]
    rw [share,share,here',length,weight']
    dsimp only
    omega

theorem setVcpu_inv (inv : Inv k s) (svc : Vcpu) : Inv k (setVcpu s v svc) :=
  inv.of_same rfl rfl rfl (inv.cpus.of_same rfl rfl rfl rfl rfl)

theorem remove_inv (inv : Inv k s) : ∃ s', vcpuRemove k v s = some s' ∧ Inv k s' := by
  have kept := setVcpu_inv (v:=v) inv {s.vcpu v with parked := false}
  rw [vcpuRemove]
  by_cases active : Active k s v
  · obtain ⟨s',stopped,inv',_⟩ := stop_inv kept active
    exact ⟨s',(if_pos active).trans stopped,inv'⟩
  · exact ⟨_,if_neg active,kept⟩

end Vcpus

theorem u32_nat (n : Nat) : u32 n = n % 2^32 := by
  rw [u32]
  omega

theorem u32_sub (a b : Nat) (less : b ≤ a) (small : a < 2^32) : u32 ((a : Int) - b) = a - b := by
  rw [u32]
  omega

-- A change of weight and cap keeps the lists.
theorem reweigh_inv (inv : Inv k s) (w cap : Nat) (positive : 1 ≤ w) (low : w < 2^16)
    (weight : s'.weight + share s d = s.weight + w * (s.dom d).activeVcpu.length) (small : s'.weight < 2^32)
    (dom : s'.dom = Function.update s.dom d ⟨(s.dom d).activeVcpu,(s.dom d).activeVcpuCount,w,cap⟩) (sdoms : s'.activeSdom = s.activeSdom)
    (cpus : CpusFit k s') : Inv k s' := by
  have here := (congrFun dom d).trans (Function.update_self _ _ _)
  obtain ⟨count,few,distinct,own,listed,busy,_⟩ := inv.doms d
  have apart : Apart d s s' := ⟨fun x other => by rw [dom,Function.update_of_ne other],fun x _ => by rw [sdoms]⟩
  refine apart.inv inv ⟨?_,?_,?_,?_,?_,?_,?_⟩ (sdoms ▸ inv.distinct) ?_ small cpus
  · rw [here]
    exact count
  · rw [here]
    exact few
  · rw [here]
    exact distinct
  · rw [here]
    exact own
  · rw [here,sdoms]
    exact listed
  · rw [sdoms]
    exact busy
  · rw [here]
    exact ⟨positive,low⟩
  · have mine : share s' d = w * (s.dom d).activeVcpu.length := by rw [share,here]
    rw [mine]
    exact weight

-- The new weight of the domain does not take the total out of 32 bits.
def DomOp.Room (s : State) (d : Nat) : DomOp → Prop
  | .getinfo => True
  | .putinfo w _ => s.weight - (s.dom d).weight * (s.dom d).activeVcpuCount + w * (s.dom d).activeVcpuCount < 2^32

theorem domCntl_inv (inv : Inv k s) (op : DomOp) (word : ∀ w cap, op = .putinfo w cap → w < 2^16) (room : DomOp.Room s d op) :
    Inv k (domCntl d op s) := by
  cases op with
  | getinfo => exact inv
  | putinfo w cap =>
    have low := word w cap rfl
    simp only [DomOp.Room] at room
    have weight := (inv.doms d).weight
    have count := (inv.doms d).count
    by_cases zero : w = 0
    · have is : domCntl d (.putinfo w cap) s = _ := if_pos zero
      rw [is]
      exact reweigh_inv inv (s.dom d).weight _ weight.1 weight.2 rfl inv.small rfl rfl (inv.cpus.of_same rfl rfl rfl rfl rfl)
    · have is : domCntl d (.putinfo w cap) s = _ := if_neg zero
      rw [is]
      rw [count] at room
      have shared := share_le_total inv d
      have small := inv.small
      have total : (if d ∈ s.activeSdom then u32 (u32 (s.weight - (s.dom d).weight * (s.dom d).activeVcpuCount) +
          w * (s.dom d).activeVcpuCount) else s.weight) + share s d = s.weight + w * (s.dom d).activeVcpu.length := by
        by_cases active : d ∈ s.activeSdom
        · rw [share] at shared ⊢
          rw [if_pos active,count,← Int.natCast_mul,u32_sub _ _ shared small,← Int.natCast_mul,← Int.natCast_add,u32_nat,
            Nat.mod_eq_of_lt room]
          omega
        · have none : (s.dom d).activeVcpu = [] := by
            by_contra some_
            exact active ((inv.doms d).listed.mpr some_)
          rw [if_neg active,share,none,List.length_nil,Nat.mul_zero,Nat.mul_zero]
      refine reweigh_inv inv w _ (Nat.pos_of_ne_zero zero) low total ?_ rfl rfl (inv.cpus.of_same rfl rfl rfl rfl rfl)
      rw [share] at total shared
      dsimp only
      omega

section Cpus

theorem CpusFit.few (fit : CpusFit k s) : s.ncpus * (schedCreditsPerMsec * tsliceMax) < 2^32 := by
  have below : s.cpus.length ≤ k.nrCpus := by
    have sub : s.cpus.toFinset ⊆ Finset.range k.nrCpus := fun cpu mem => Finset.mem_range.mpr (fit.known cpu (List.mem_toFinset.mp mem))
    have card := Finset.card_le_card sub
    rwa [List.toFinset_card_of_nodup fit.distinct,Finset.card_range] at card
  rw [fit.number]
  exact Nat.lt_of_le_of_lt (Nat.mul_le_mul_right _ below) k.few

theorem CpusFit.small (fit : CpusFit k s) : s.credit < 2^32 := by
  rw [fit.credit,fit.credits]
  exact Nat.lt_of_le_of_lt (Nat.mul_le_mul_left _ (Nat.mul_le_mul_left _ fit.tslice)) fit.few

theorem allocPdata_inv (inv : Inv k s) {cpu : Nat} {found : Bool} (free : found = true → cpu ∉ s.cpus ∧ cpu < k.nrCpus) :
    Inv k (allocPdata cpu found s) := by
  cases found with
  | false => exact inv
  | true =>
    obtain ⟨new,known⟩ := free rfl
    obtain ⟨number,distinct,all,tslice,credits,credit⟩ := inv.cpus
    refine inv.of_same rfl rfl rfl ?_
    have fit : CpusFit k {s with credit := (s.ncpus + 1) * s.creditsPerTslice,ncpus := s.ncpus + 1,cpus := cpu :: s.cpus} := by
      refine ⟨congrArg (· + 1) number,List.nodup_cons.mpr ⟨new,distinct⟩,fun c mem => ?_,tslice,credits,rfl⟩
      rcases List.mem_cons.mp mem with rfl | mem
      · exact known
      · exact all c mem
    have exact_ : (s.credit + s.creditsPerTslice) % 2^32 = (s.ncpus + 1) * s.creditsPerTslice := by
      rw [credit,← Nat.succ_mul]
      exact Nat.mod_eq_of_lt fit.small
    exact ⟨fit.number,fit.distinct,fit.known,tslice,credits,exact_⟩

theorem freePdata_inv (inv : Inv k s) {cpu : Nat} {some_ : Bool} (there : some_ = true → cpu ∈ s.cpus) :
    Inv k (freePdata cpu some_ s) := by
  cases some_ with
  | false => exact inv
  | true =>
    have mem := there rfl
    have small := inv.cpus.small
    obtain ⟨number,distinct,all,tslice,credits,credit⟩ := inv.cpus
    have length := List.length_erase_of_mem mem
    have positive : 1 ≤ s.ncpus := number ▸ List.length_pos_of_mem mem
    have parts : s.ncpus * s.creditsPerTslice = (s.ncpus - 1) * s.creditsPerTslice + s.creditsPerTslice := by
      rw [← Nat.succ_mul,Nat.succ_eq_add_one,Nat.sub_add_cancel positive]
    refine inv.of_same rfl rfl rfl ⟨?_,distinct.erase cpu,fun c mem => all c (List.mem_of_mem_erase mem),tslice,credits,?_⟩
    · change s.ncpus - 1 = (s.cpus.erase cpu).length
      rw [length,number]
    · change u32 ((s.credit : Int) - s.creditsPerTslice) = (s.ncpus - 1) * s.creditsPerTslice
      rw [u32_sub _ _ (by omega) small]
      omega

-- The time slice is not changed while there are CPUs.
def SysOp.Keeps (s : State) (op : SysOp) : Prop :=
  match op with
  | .putinfo tsliceMs _ => op.Valid → s.ncpus = 0 ∨ tsliceMs = s.tsliceMs
  | _ => True

theorem sysCntl_inv (inv : Inv k s) (op : SysOp) (keeps : SysOp.Keeps s op) : Inv k (sysCntl op s).1 := by
  cases op with
  | getinfo => exact inv
  | other => exact inv
  | putinfo tsliceMs ratelimitUs =>
    rw [sysCntl]
    by_cases valid : (SysOp.putinfo tsliceMs ratelimitUs).Valid
    · rw [if_pos valid]
      obtain ⟨number,distinct,all,_,credits,credit⟩ := inv.cpus
      refine inv.of_same rfl rfl rfl ⟨number,distinct,all,valid.2.1,rfl,?_⟩
      change s.credit = s.ncpus * (schedCreditsPerMsec * tsliceMs)
      rw [credit,credits]
      rcases keeps valid with none | same
      · rw [none,Nat.zero_mul,Nat.zero_mul]
      · rw [same]
    · rw [if_neg valid]
      exact inv

end Cpus

section Accounting

theorem Apart.trans {s'' : State} (first : Apart d s s') (second : Apart d s' s'') : Apart d s s'' :=
  ⟨fun x other => (second.dom x other).trans (first.dom x other),fun x other => (second.active x other).trans (first.active x other)⟩

theorem setVcpu_apart (svc : Vcpu) : Apart d s (setVcpu s v svc) := ⟨fun _ _ => rfl,fun _ _ => Iff.rfl⟩

-- What the loop over the vcpus of a domain keeps; `rest` are those to come.
structure VcpusLeft (k : Config) (d : Nat) (start : State) (rest : List Nat) (p : State × Int) : Prop where
  inv : Inv k p.1
  apart : Apart d start p.1
  left : ∀ v ∈ rest, v ∈ (p.1.dom d).activeVcpu
  distinct : rest.Nodup

theorem VcpusLeft.set {start : State} {rest : List Nat} {p : State × Int} (loop : VcpusLeft k d start (v :: rest) p) (svc : Vcpu)
    (balance : Int) : VcpusLeft k d start rest (setVcpu p.1 v svc,balance) :=
  ⟨setVcpu_inv loop.inv svc,loop.apart.trans (setVcpu_apart svc),fun w mem => loop.left w (List.mem_cons_of_mem _ mem),
    (List.nodup_cons.mp loop.distinct).2⟩

theorem acctVcpu_left {start : State} {rest : List Nat} {p : State × Int} (fair cap : Nat) (loop : VcpusLeft k d start (v :: rest) p) :
    ∃ next, acctVcpu k d fair cap p v = some next ∧ VcpusLeft k d start rest next := by
  have mem := loop.left v List.mem_cons_self
  have own : k.sdomOf v = d := (loop.inv.doms d).own v mem
  rw [acctVcpu]
  dsimp only
  rw [if_neg (not_not.mpr own)]
  by_cases negative : s32 ((p.1.vcpu v).credit + fair) < 0
  · rw [if_pos negative]
    exact ⟨_,rfl,loop.set _ _⟩
  rw [if_neg negative]
  by_cases rich : (p.1.creditsPerTslice : Int) < s32 ((p.1.vcpu v).credit + fair)
  · rw [if_pos rich]
    have active : Active k p.1 v := by rw [Active,own]; exact mem
    obtain ⟨s',stopped,inv',apart',erased⟩ := stop_inv loop.inv active
    rw [stopped]
    rw [own] at apart' erased
    refine ⟨_,rfl,setVcpu_inv inv' _,(loop.apart.trans apart').trans (setVcpu_apart _),fun w other => ?_,
      (List.nodup_cons.mp loop.distinct).2⟩
    have differs : w ≠ v := fun same => (List.nodup_cons.mp loop.distinct).1 (same ▸ other)
    have kept : w ∈ (s'.dom d).activeVcpu := by
      rw [erased]
      exact (List.mem_erase_of_ne differs).mpr (loop.left w (List.mem_cons_of_mem _ other))
    exact kept
  · rw [if_neg rich]
    exact ⟨_,rfl,loop.set _ _⟩

-- What the loop over the domains keeps: the weight that is left covers the
-- domains to come.
structure DomsLeft (k : Config) (rest : List Nat) (p : Pass) : Prop where
  inv : Inv k p.s
  left : ∀ d ∈ rest, d ∈ p.s.activeSdom
  distinct : rest.Nodup
  enough : (rest.map (share p.s)).sum ≤ p.weightLeft

theorem front_inv (inv : Inv k s) (active : d ∈ s.activeSdom) : Inv k {s with activeSdom := d :: s.activeSdom.erase d} := by
  have perm : (d :: s.activeSdom.erase d).Perm s.activeSdom := (List.perm_cons_erase active).symm
  have total : total {s with activeSdom := d :: s.activeSdom.erase d} = total s := by
    rw [total,total,List.toFinset_eq_of_perm _ _ perm]
    rfl
  exact ⟨fun x => (inv.doms x).of_same rfl perm.mem_iff,perm.nodup_iff.mpr inv.distinct,inv.weight.trans total.symm,inv.small,
    inv.cpus.of_same rfl rfl rfl rfl rfl⟩

-- The loop over the vcpus starts with the domain at its place or moved to the
-- front.
theorem moved_left (balance : Int) (inv : Inv k s) (active : d ∈ s.activeSdom) (moved : Prop) [Decidable moved] :
    VcpusLeft k d s (s.dom d).activeVcpu (if moved then {s with activeSdom := d :: s.activeSdom.erase d} else s,balance) := by
  split
  · have perm : (d :: s.activeSdom.erase d).Perm s.activeSdom := (List.perm_cons_erase active).symm
    exact ⟨front_inv inv active,⟨fun _ _ => rfl,fun _ _ => perm.mem_iff⟩,fun _ mem => mem,(inv.doms d).distinct⟩
  · exact ⟨inv,⟨fun _ _ => rfl,fun _ _ => Iff.rfl⟩,fun _ mem => mem,(inv.doms d).distinct⟩

theorem vcpus_done {start : State} {vcpus rest : List Nat} {p : State × Int} {fair cap : Nat} (f : State × Int → Pass)
    (loop : VcpusLeft k d start vcpus p) (done : ∀ last, VcpusLeft k d start [] last → DomsLeft k rest (f last)) :
    ∃ next, (Run.run (acctVcpu k d fair cap) p vcpus).map f = some next ∧ DomsLeft k rest next := by
  obtain ⟨last,ran,left⟩ := Run.run_remaining (P:=VcpusLeft k d start) (fun _ _ _ loop => acctVcpu_left fair cap loop) loop
  exact ⟨f last,by rw [ran]; rfl,done last left⟩

theorem acctDom_left {rest : List Nat} {p : Pass} (weightTotal : Nat) (loop : DomsLeft k (d :: rest) p) :
    ∃ next, acctDom k weightTotal p d = some next ∧ DomsLeft k rest next := by
  have active := loop.left d List.mem_cons_self
  obtain ⟨count,_,_,_,listed,busy,weight⟩ := loop.inv.doms d
  have some_ : (p.s.dom d).activeVcpu ≠ [] := listed.mp active
  have positive : (p.s.dom d).activeVcpuCount ≠ 0 := by
    rw [count]
    exact fun none => some_ (List.length_eq_zero_iff.mp none)
  have covered := loop.enough
  rw [List.map_cons,List.sum_cons] at covered
  have share_eq : (p.s.dom d).weight * (p.s.dom d).activeVcpuCount = share p.s d := by rw [count,share]
  obtain ⟨new,others⟩ := List.nodup_cons.mp loop.distinct
  rw [acctDom]
  dsimp only
  rw [busy active,if_neg Bool.false_ne_true,if_neg positive,if_neg (by omega),share_eq,if_neg (by omega)]
  refine vcpus_done _ (moved_left p.creditBalance loop.inv active _) fun last done => ⟨done.inv,fun x mem => ?_,others,?_⟩
  · have other : x ≠ d := fun same => new (same ▸ mem)
    exact (done.apart.active x other).mpr (loop.left x (List.mem_cons_of_mem _ mem))
  · have same : rest.map (share last.1) = rest.map (share p.s) := by
      refine List.map_congr_left fun x mem => ?_
      have other : x ≠ d := fun same => new (same ▸ mem)
      rw [share,share,done.apart.dom x other]
    change (rest.map (share last.1)).sum ≤ p.weightLeft - share p.s d
    rw [same]
    omega

theorem acct_inv (inv : Inv k s) : ∃ s', acct k s = some s' ∧ Inv k s' := by
  rw [acct]
  dsimp only
  by_cases none : s.weight = 0
  · rw [if_pos none]
    exact ⟨_,rfl,inv.of_same rfl rfl rfl (inv.cpus.of_same rfl rfl rfl rfl rfl)⟩
  rw [if_neg none]
  have start : DomsLeft k s.activeSdom ⟨s,if s.creditBalance < 0 then u32 (s.credit - s.creditBalance) else s.credit,s.weight,false,0,0⟩ :=
    ⟨inv,fun _ mem => mem,inv.distinct,by rw [inv.weight,total,List.sum_toFinset _ inv.distinct]⟩
  obtain ⟨last,ran,done⟩ := Run.run_remaining (P:=DomsLeft k) (fun _ _ _ loop => acctDom_left s.weight loop) start
  rw [ran]
  exact ⟨_,rfl,done.inv.of_same rfl rfl rfl (done.inv.cpus.of_same rfl rfl rfl rfl rfl)⟩

end Accounting

inductive Event where
  | allocPdata (cpu : Nat) (found : Bool)
  | freePdata (cpu : Nat) (some_ : Bool)
  | acctStart (v : Nat)
  | acctStop (v : Nat)
  | vcpuRemove (v : Nat)
  | domCntl (d : Nat) (op : DomOp)
  | sysCntl (op : SysOp)
  | acct

def step (k : Config) (s : State) : Event → Option State
  | .allocPdata cpu found => some (allocPdata cpu found s)
  | .freePdata cpu some_ => some (freePdata cpu some_ s)
  | .acctStart v => some (vcpuAcctStart k v s)
  | .acctStop v => vcpuAcctStopLocked k v s
  | .vcpuRemove v => vcpuRemove k v s
  | .domCntl d op => some (domCntl d op s)
  | .sysCntl op => some (sysCntl op s).1
  | .acct => acct k s

-- CPUs are added once and only those with data are freed; accounting starts
-- for vcpus that are not idle ones and is stopped where it was started.
def Legal (k : Config) (s : State) : Event → Prop
  | .allocPdata cpu found => found = true → cpu ∉ s.cpus ∧ cpu < k.nrCpus
  | .freePdata cpu some_ => some_ = true → cpu ∈ s.cpus
  | .acctStart v => k.idle (k.sdomOf v) = false
  | .acctStop v => Active k s v
  | .domCntl _ (.putinfo w cap) => w < 2^16 ∧ cap < 2^16
  | _ => True

-- The counts stay in their words, and the time slice stays as it is while
-- there are CPUs.
def Keeps (k : Config) (s : State) : Event → Prop
  | .acctStart v => Active k s v ∨ s.weight + (s.dom (k.sdomOf v)).weight < 2^32 ∧ (s.dom (k.sdomOf v)).activeVcpuCount + 1 < 2^16
  | .domCntl d op => DomOp.Room s d op
  | .sysCntl op => SysOp.Keeps s op
  | _ => True

theorem step_inv (inv : Inv k s) (e : Event) (legal : Legal k s e ∧ Keeps k s e) : ∃ next, step k s e = some next ∧ Inv k next := by
  cases e with
  | allocPdata cpu found => exact ⟨_,rfl,allocPdata_inv inv legal.1⟩
  | freePdata cpu some_ => exact ⟨_,rfl,freePdata_inv inv legal.1⟩
  | acctStart v => exact ⟨_,rfl,start_inv inv legal.1 fun not => legal.2.resolve_left not⟩
  | acctStop v =>
    obtain ⟨s',stopped,inv',_⟩ := stop_inv inv legal.1
    exact ⟨s',stopped,inv'⟩
  | vcpuRemove v => exact remove_inv inv
  | domCntl d op =>
    refine ⟨_,rfl,domCntl_inv inv op (fun w cap is => ?_) legal.2⟩
    subst is
    exact legal.1.1
  | sysCntl op => exact ⟨_,rfl,sysCntl_inv inv op legal.2⟩
  | acct => exact acct_inv inv

theorem init_inv (k : Config) (tslice ratelimit : Nat) (valid : tslice ≤ tsliceMax) : Inv k (init tslice ratelimit) := by
  refine ⟨fun d => ⟨rfl,(by decide : 0 < 2^16),.nil,fun v mem => ?_,?_,fun mem => ?_,
      (by decide : 1 ≤ defaultWeight),(by decide : defaultWeight < 2^16)⟩,.nil,rfl,(by decide : 0 < 2^32),
    ⟨rfl,.nil,fun cpu mem => ?_,valid,rfl,(Nat.zero_mul _).symm⟩⟩
  · exact absurd mem List.not_mem_nil
  · exact ⟨fun mem => absurd mem List.not_mem_nil,fun some_ => absurd rfl some_⟩
  · exact absurd mem List.not_mem_nil
  · exact absurd mem List.not_mem_nil

theorem totals_match_parts (k : Config) (tslice ratelimit : Nat) (valid : tslice ≤ tsliceMax) (events : List Event)
    (legal : Run.Guarded (fun s e => Legal k s e ∧ Keeps k s e) (step k) (init tslice ratelimit) events) :
    ∃ s, Run.run (step k) (init tslice ratelimit) events = some s ∧
      s.credit = s.ncpus * s.creditsPerTslice ∧ s.ncpus = s.cpus.length ∧
      s.weight = ∑ d ∈ s.activeSdom.toFinset, (s.dom d).weight * (s.dom d).activeVcpuCount ∧
      ∀ d, (d ∈ s.activeSdom ↔ ∃ v, k.sdomOf v = d ∧ Active k s v) ∧
        (s.dom d).activeVcpuCount = (s.dom d).activeVcpu.length ∧ (s.dom d).activeVcpu.Nodup ∧
        ∀ v, v ∈ (s.dom d).activeVcpu ↔ k.sdomOf v = d ∧ Active k s v := by
  obtain ⟨s,ran,inv⟩ := Run.guarded_total (fun _ e inv => step_inv inv e) (init_inv k tslice ratelimit valid) legal
  have members (d v : Nat) : v ∈ (s.dom d).activeVcpu ↔ k.sdomOf v = d ∧ Active k s v := by
    constructor
    · intro mem
      have own := (inv.doms d).own v mem
      exact ⟨own,by rw [Active,own]; exact mem⟩
    · rintro ⟨rfl,active⟩
      exact active
  refine ⟨s,ran,inv.cpus.credit,inv.cpus.number,?_,fun d => ⟨?_,(inv.doms d).count,(inv.doms d).distinct,members d⟩⟩
  · rw [inv.weight,total]
    exact Finset.sum_congr rfl fun d _ => by rw [share,(inv.doms d).count]
  · rw [(inv.doms d).listed,List.ne_nil_iff_exists_cons]
    constructor
    · rintro ⟨v,rest,is⟩
      exact ⟨v,(members d v).mp (by rw [is]; exact List.mem_cons_self)⟩
    · rintro ⟨v,is⟩
      exact List.ne_nil_iff_exists_cons.mp (List.ne_nil_of_mem ((members d v).mpr is))

instance : ∀ s e, Decidable (Legal k s e)
  | s,.allocPdata cpu found => inferInstanceAs (Decidable (found = true → cpu ∉ s.cpus ∧ cpu < k.nrCpus))
  | s,.freePdata cpu some_ => inferInstanceAs (Decidable (some_ = true → cpu ∈ s.cpus))
  | _,.acctStart v => inferInstanceAs (Decidable (k.idle (k.sdomOf v) = false))
  | s,.acctStop v => inferInstanceAs (Decidable (Active k s v))
  | _,.domCntl _ (.putinfo w cap) => inferInstanceAs (Decidable (w < 2^16 ∧ cap < 2^16))
  | _,.vcpuRemove _ | _,.domCntl _ .getinfo | _,.sysCntl _ | _,.acct => .isTrue trivial

instance : ∀ s e, Decidable (Keeps k s e)
  | _,.allocPdata _ _ | _,.freePdata _ _ | _,.acctStop _ | _,.vcpuRemove _ | _,.domCntl _ .getinfo | _,.sysCntl .getinfo | _,.sysCntl .other =>
    .isTrue trivial
  | _,.acctStart _ => inferInstanceAs (Decidable (_ ∨ _))
  | s,.domCntl d (.putinfo w _) => inferInstanceAs (Decidable
      (s.weight - (s.dom d).weight * (s.dom d).activeVcpuCount + w * (s.dom d).activeVcpuCount < 2^32))
  | s,.sysCntl (.putinfo tsliceMs ratelimitUs) => inferInstanceAs (Decidable
      ((SysOp.putinfo tsliceMs ratelimitUs).Valid → s.ncpus = 0 ∨ tsliceMs = s.tsliceMs))
  | _,.acct => .isTrue trivial

-- Eight vcpus to a domain.
def eight : Config := ⟨256,by decide,fun v => v / 8,fun d => d == 32767⟩

def busy : List Event := [.sysCntl (.putinfo 50 0),.allocPdata 0 true,.allocPdata 1 true,.acctStart 8,.acctStart 9,.acctStart 17,
  .domCntl 1 (.putinfo 512 40),.acct,.acct,.acctStart 16,.sysCntl (.putinfo 50 1000),.vcpuRemove 17,.acctStop 16,.freePdata 0 true]

theorem totals_match_after_accounting : ∃ s, Run.run (step eight) (init 30 1000) busy = some s ∧
    s.credit = s.ncpus * s.creditsPerTslice ∧ s.ncpus = s.cpus.length ∧
    s.weight = ∑ d ∈ s.activeSdom.toFinset, (s.dom d).weight * (s.dom d).activeVcpuCount ∧
    ∀ d, (d ∈ s.activeSdom ↔ ∃ v, eight.sdomOf v = d ∧ Active eight s v) ∧
      (s.dom d).activeVcpuCount = (s.dom d).activeVcpu.length ∧ (s.dom d).activeVcpu.Nodup ∧
      ∀ v, v ∈ (s.dom d).activeVcpu ↔ eight.sdomOf v = d ∧ Active eight s v := by
  have legal : Run.Guarded (fun s e => Legal eight s e ∧ Keeps eight s e) (step eight) (init 30 1000) busy := by decide +kernel
  exact totals_match_parts eight 30 1000 (by decide) busy legal

-- A longer time slice is set while a CPU is in use, and the CPU is taken away.
theorem credit_not_rescaled : ∃ s s', Run.run (step eight) (init 30 1000) [.allocPdata 0 true,.sysCntl (.putinfo 1000 1000)] = some s ∧
    s.ncpus = 1 ∧ s.credit = 300 ∧ s.creditsPerTslice = 10000 ∧
    Run.run (step eight) s [.freePdata 0 true] = some s' ∧ s'.ncpus = 0 ∧ s'.credit = 4294957596 :=
  ⟨_,_,rfl,by decide,by decide,by decide,rfl,by decide,by decide⟩

end XenAet.CreditTotals
