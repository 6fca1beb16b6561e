import Mathlib.Data.Finset.Card
import Mathlib.Data.Finset.Insert
import Mathlib.Data.Finset.SDiff
import Mathlib.Data.Fintype.Card
import Mathlib.Data.List.FinRange
import XenAet.Library.Loops

namespace XenAet.CpuPick
variable {n fuel : Nat}

-- A CPU mask is the set of its bits below nr_cpu_ids, here `n`; `none` stands
-- for the answer nr_cpu_ids of a search that finds no bit.
def cpumaskNext (cpu : Fin n) (mask : Finset (Fin n)) : Option (Fin n) :=
  (List.finRange n).find? fun c => decide (cpu < c) && decide (c ∈ mask)
def cpumaskFirst (mask : Finset (Fin n)) : Option (Fin n) :=
  (List.finRange n).find? fun c => decide (c ∈ mask)
def cpumaskCycle (cpu : Fin n) (mask : Finset (Fin n)) : Option (Fin n) :=
  match cpumaskNext cpu mask with
  | some c => some c
  | none => cpumaskFirst mask

theorem cpumaskFirst_found {mask : Finset (Fin n)} (some_ : mask.Nonempty) :
    ∃ c, cpumaskFirst mask = some c ∧ c ∈ mask := by
  obtain ⟨d,there⟩ := some_
  have found : (cpumaskFirst mask).isSome = true := by
    rw [cpumaskFirst,List.find?_isSome]
    exact ⟨d,List.mem_finRange d,decide_eq_true there⟩
  obtain ⟨c,here⟩ := Option.isSome_iff_exists.mp found
  have member := List.find?_some here
  exact ⟨c,here,of_decide_eq_true member⟩

theorem cpumaskCycle_found {mask : Finset (Fin n)} (cpu : Fin n) (some_ : mask.Nonempty) :
    ∃ c, cpumaskCycle cpu mask = some c ∧ c ∈ mask := by
  rw [cpumaskCycle]
  cases next : cpumaskNext cpu mask with
  | none => exact cpumaskFirst_found some_
  | some c =>
    have both := List.find?_some next
    rw [Bool.and_eq_true,decide_eq_true_iff,decide_eq_true_iff] at both
    exact ⟨c,rfl,both.2⟩

-- cpu_sibling_mask and cpu_core_mask: threads of one core, cores of one socket.
structure Topology (n : Nat) where
  sibling : Fin n → Finset (Fin n)
  core : Fin n → Finset (Fin n)
  siblingSelf : ∀ c, c ∈ sibling c
  coreSelf : ∀ c, c ∈ core c
  siblingClass : ∀ a b, b ∈ sibling a → sibling b = sibling a
  coreClass : ∀ a b, b ∈ core a → core b = core a
  siblingInCore : ∀ c, sibling c ⊆ core c

theorem Topology.core_symm (t : Topology n) (a b : Fin n) : a ∈ t.core b ↔ b ∈ t.core a := by
  constructor
  · intro here
    rw [t.coreClass b a here]
    exact t.coreSelf b
  · intro here
    rw [t.coreClass a b here]
    exact t.coreSelf a

-- The mask that two CPUs of one socket, or of two, are compared by.
def Topology.group (t : Topology n) (same : Bool) : Fin n → Finset (Fin n) :=
  if same then t.sibling else t.core

theorem Topology.mem_group (t : Topology n) (same : Bool) (c : Fin n) : c ∈ t.group same c := by
  cases same with
  | false => exact t.coreSelf c
  | true => exact t.siblingSelf c

-- The vcpus on a pcpu as the picked one sees them.
inductive Who where
  | idle | self | other
deriving DecidableEq,Repr

-- What the function reads: `online` is the cpupool's mask, `idlers` the
-- scheduler's, `bias` each pcpu's idle_bias.  `current` is the vcpu running on
-- a pcpu, which is not on its runq.  __runq_insert keeps the idle vcpu, of the
-- lowest priority, behind all others.
structure Sched (n : Nat) where
  topology : Topology n
  online : Finset (Fin n)
  onlineMap : Finset (Fin n)
  idlers : Finset (Fin n)
  bias : Fin n → Fin n
  runq : Fin n → List Who
  current : Fin n → Who
  smtPowerSavings : Bool
  idleLast : ∀ cpu, (runq cpu).Pairwise fun a b => a = .idle → b = .idle

structure Vcpu (n : Nat) where
  processor : Fin n
  hard : Finset (Fin n)
  soft : Finset (Fin n)

-- IS_RUNQ_IDLE
def runqIdle : List Who → Bool
  | [] => true
  | who::_ => who == .idle

inductive Step where
  | soft | hard
deriving DecidableEq,Repr

def vcpuHasSoftAffinity (v : Vcpu n) (mask : Finset (Fin n)) : Bool :=
  !(decide (v.soft = Finset.univ) || decide (v.soft ∩ mask = ∅))

def balanceCpumask (v : Vcpu n) : Step → Finset (Fin n)
  | .soft => if v.soft ∩ v.hard = ∅ then v.hard else v.soft ∩ v.hard
  | .hard => v.hard

-- The two ways not to return: a failed ASSERT, and the bound on turns spent.
inductive Stop where
  | assertion | running
deriving DecidableEq,Repr

-- The variables of the while loop; `spc` is the pcpu whose idle_bias was used last.
structure Choice (n : Nat) where
  cpu : Fin n
  cpus : Finset (Fin n)
  spc : Option (Fin n)

def better (smt : Bool) (factor weightCpu weightNxt : Nat) : Bool :=
  if smt then decide (weightCpu > weightNxt) else decide (weightCpu*factor < weightNxt)

def scanTurn (k : Sched n) (idlers : Finset (Fin n)) (c : Choice n) : Except Stop (Choice n) :=
  match cpumaskCycle c.cpu c.cpus with
  | none => .error .assertion
  | some nxt =>
    let same := decide (c.cpu ∈ k.topology.core nxt)
    if decide (nxt ∈ k.topology.core c.cpu) = same then
      let migrateFactor := if same then 1 else 2
      let cpuIdlers := idlers ∩ k.topology.group same c.cpu
      let nxtIdlers := idlers ∩ k.topology.group same nxt
      if better k.smtPowerSavings migrateFactor cpuIdlers.card nxtIdlers.card then
        match cpumaskCycle (k.bias nxt) (c.cpus ∩ nxtIdlers) with
        | none => .error .assertion
        | some cpu => .ok ⟨cpu,c.cpus \ k.topology.sibling cpu,some nxt⟩
      else .ok ⟨c.cpu,c.cpus \ nxtIdlers,c.spc⟩
    else .error .assertion

def scan (k : Sched n) (idlers : Finset (Fin n)) (fuel : Nat) (c : Choice n) : Except Stop (Choice n) :=
  Library.While.tryLoop .running (fun c => !decide (c.cpus = ∅)) (scanTurn k idlers) fuel c

-- The idlers of one balance step: the vcpu is discounted on its own CPU.
def stepIdlers (k : Sched n) (v : Vcpu n) (cpu : Fin n) : Finset (Fin n) :=
  if v.processor = cpu ∧ runqIdle (k.runq cpu) = true then insert cpu (k.onlineMap ∩ k.idlers)
  else k.onlineMap ∩ k.idlers

-- What a balance step leaves: the CPU, the pcpu to remember it in, and whether
-- the CPU is among the step's idlers.
structure Picked (n : Nat) where
  cpu : Fin n
  spc : Option (Fin n)
  idle : Bool

def startOn (v : Vcpu n) (cpus : Finset (Fin n)) : Option (Fin n) :=
  if v.processor ∈ cpus then some v.processor else cpumaskCycle v.processor cpus

def moveToIdle (cpu : Fin n) (cpus : Finset (Fin n)) : Option (Fin n) :=
  if cpu ∉ cpus ∧ cpus ≠ ∅ then cpumaskCycle cpu cpus else some cpu

def balance (k : Sched n) (v : Vcpu n) (fuel : Nat) (step : Step) (spc : Option (Fin n)) :
    Except Stop (Picked n) :=
  let cpus := balanceCpumask v step ∩ k.online
  match startOn v cpus with
  | none => .error .assertion
  | some cpu =>
    if cpu ∈ cpus then
      let idlers := stepIdlers k v cpu
      match moveToIdle cpu (cpus ∩ idlers) with
      | none => .error .assertion
      | some first =>
        (scan k idlers fuel ⟨first,(cpus ∩ idlers).erase first,spc⟩).bind fun last =>
          .ok ⟨last.cpu,last.spc,decide (last.cpu ∈ idlers)⟩
    else .error .assertion

def pick (k : Sched n) (v : Vcpu n) (fuel : Nat) : Except Stop (Picked n) :=
  (if vcpuHasSoftAffinity v (v.hard ∩ k.online) then balance k v fuel .soft none
    else .ok ⟨v.processor,none,false⟩).bind fun first =>
      if first.idle then .ok first else balance k v fuel .hard first.spc

-- _csched_cpu_pick: the CPU, and the scheduler with the bias remembered.
def cpuPick (k : Sched n) (v : Vcpu n) (fuel : Nat) (commit : Bool) : Except Stop (Fin n × Sched n) :=
  (pick k v fuel).bind fun last =>
    match last.spc with
    | none => .ok (last.cpu,k)
    | some spc =>
      .ok (last.cpu,if commit then {k with bias := Function.update k.bias spc last.cpu} else k)

def cschedCpuPick (k : Sched n) (v : Vcpu n) (fuel : Nat) : Except Stop (Fin n × Sched n) :=
  cpuPick k v fuel true

-- The scan leaves `cpu` for `nxt`.
def outweighs (k : Sched n) (idlers : Finset (Fin n)) (cpu nxt : Fin n) : Bool :=
  let same := decide (cpu ∈ k.topology.core nxt)
  better k.smtPowerSavings (if same then 1 else 2) (idlers ∩ k.topology.group same cpu).card (idlers ∩ k.topology.group same nxt).card

theorem outweighs_self (k : Sched n) (idlers : Finset (Fin n)) (cpu : Fin n) : outweighs k idlers cpu cpu = false := by
  simp [outweighs,better,k.topology.coreSelf cpu]

-- CPUs of one group weigh the same against `cpu`.
theorem outweighs_group (k : Sched n) (idlers : Finset (Fin n)) {cpu nxt d : Fin n}
    (grouped : d ∈ k.topology.group (decide (cpu ∈ k.topology.core nxt)) nxt) : outweighs k idlers cpu d = outweighs k idlers cpu nxt := by
  have core : k.topology.core d = k.topology.core nxt := by
    refine k.topology.coreClass nxt d ?_
    generalize decide (cpu ∈ k.topology.core nxt) = same at grouped
    cases same with
    | false => exact grouped
    | true => exact k.topology.siblingInCore nxt grouped
  have group : k.topology.group (decide (cpu ∈ k.topology.core nxt)) d = k.topology.group (decide (cpu ∈ k.topology.core nxt)) nxt := by
    generalize decide (cpu ∈ k.topology.core nxt) = same at grouped ⊢
    cases same with
    | false => exact core
    | true => exact k.topology.siblingClass nxt d grouped
  simp only [outweighs,core,group]

-- One turn of the scan stays inside the candidates `a`, all of them idlers, and
-- takes at least one candidate away.  The CPU it began with is kept for as long
-- as no candidate outweighs it, and once left it is not a candidate any more.
structure Inside (k : Sched n) (idlers a : Finset (Fin n)) (first : Fin n) (c : Choice n) : Prop where
  cpu : c.cpu ∈ a
  cpus : c.cpus ⊆ a
  away : first ∉ c.cpus
  kept : c.cpu = first → ∀ d ∈ a, d ∈ c.cpus ∨ outweighs k idlers first d = false
  left : c.cpu ≠ first → ∃ d ∈ a, outweighs k idlers first d = true

theorem card_sdiff_less {cpus away : Finset (Fin n)} {c : Fin n} (here : c ∈ cpus) (gone : c ∈ away) :
    (cpus \ away).card < cpus.card := by
  apply Finset.card_lt_card
  refine ⟨Finset.sdiff_subset,?_⟩
  intro back
  exact (Finset.mem_sdiff.mp (back here)).2 gone

section
variable {k : Sched n} {idlers a : Finset (Fin n)} {first : Fin n} {c : Choice n}

theorem scanTurn_inside (idle : a ⊆ idlers) (inside : Inside k idlers a first c) (more : c.cpus.Nonempty) :
    ∃ next, scanTurn k idlers c = .ok next ∧ Inside k idlers a first next ∧ next.cpus.card < c.cpus.card := by
  obtain ⟨nxt,found,candidate⟩ := cpumaskCycle_found c.cpu more
  have symmetric : decide (nxt ∈ k.topology.core c.cpu) = decide (c.cpu ∈ k.topology.core nxt) :=
    decide_eq_decide.mpr (k.topology.core_symm nxt c.cpu)
  -- the next candidate is an idler of its own group, so neither set is empty
  have grouped : nxt ∈ idlers ∩ k.topology.group (decide (c.cpu ∈ k.topology.core nxt)) nxt :=
    Finset.mem_inter.mpr ⟨idle (inside.cpus candidate),k.topology.mem_group _ nxt⟩
  simp only [scanTurn,found,symmetric,if_true]
  change ∃ next, (if outweighs k idlers c.cpu nxt = true then _ else _) = _ ∧ _
  split
  · next more =>
    obtain ⟨cpu,biased,member⟩ := cpumaskCycle_found (k.bias nxt)
      ⟨nxt,Finset.mem_inter.mpr ⟨candidate,grouped⟩⟩
    have still := (Finset.mem_inter.mp member).1
    rw [biased]
    refine ⟨_,rfl,?_,?_⟩
    on_goal 2 => exact card_sdiff_less still (k.topology.siblingSelf cpu)
    refine ⟨inside.cpus still,Finset.sdiff_subset.trans inside.cpus,fun back => inside.away (Finset.mem_sdiff.mp back).1,?_,?_⟩
    · rintro rfl
      exact absurd still inside.away
    · intro _
      by_cases own : c.cpu = first
      · exact ⟨nxt,inside.cpus candidate,own ▸ more⟩
      · exact inside.left own
  · next less =>
    refine ⟨_,rfl,?_,?_⟩
    on_goal 2 => exact card_sdiff_less candidate grouped
    refine ⟨inside.cpu,Finset.sdiff_subset.trans inside.cpus,fun back => inside.away (Finset.mem_sdiff.mp back).1,?_,inside.left⟩
    intro own d there
    rcases inside.kept own d there with waits | lighter
    · by_cases here : d ∈ idlers ∩ k.topology.group (decide (c.cpu ∈ k.topology.core nxt)) nxt
      · have same := outweighs_group k idlers (Finset.mem_inter.mp here).2
        refine .inr ?_
        rw [← own,same,← Bool.not_eq_true]
        exact less
      · exact .inl (Finset.mem_sdiff.mpr ⟨waits,here⟩)
    · exact .inr lighter

theorem scan_inside (idle : a ⊆ idlers) (inside : Inside k idlers a first c) (enough : n ≤ fuel) :
    ∃ last, scan k idlers fuel c = .ok last ∧ last.cpu ∈ a ∧ (last.cpu = first ↔ ∀ d ∈ a, outweighs k idlers first d = false) := by
  have turn : ∀ c, Inside k idlers a first c → (!decide (c.cpus = ∅)) = true →
      ∃ next, scanTurn k idlers c = .ok next ∧ Inside k idlers a first next ∧ next.cpus.card < c.cpus.card := by
    intro c inside go
    apply scanTurn_inside idle inside
    rw [Bool.not_eq_true',decide_eq_false_iff_not] at go
    exact Finset.nonempty_iff_ne_empty.mpr go
  have few : c.cpus.card ≤ fuel := by
    have bound := Finset.card_le_univ c.cpus
    rw [Fintype.card_fin] at bound
    exact Nat.le_trans bound enough
  obtain ⟨last,ended,kept,stopped⟩ := Library.While.tryLoop_ends Stop.running
    (fun c : Choice n => !decide (c.cpus = ∅)) (fun c => c.cpus.card) inside few turn
  have empty : last.cpus = ∅ := by simpa using stopped
  refine ⟨last,ended,kept.cpu,fun own d there => ?_,fun lighter => ?_⟩
  · refine (kept.kept own d there).resolve_left ?_
    rw [empty]
    exact Finset.notMem_empty d
  · by_contra other
    obtain ⟨d,there,heavier⟩ := kept.left other
    rw [lighter d there] at heavier
    cases heavier

end

theorem scan_empty {k : Sched n} {idlers : Finset (Fin n)} {c : Choice n} (none_ : c.cpus = ∅) :
    scan k idlers fuel c = .ok c := by
  apply Library.While.tryLoop_stop
  rw [Bool.not_eq_false',decide_eq_true_iff]
  exact none_

theorem startOn_found {cpus : Finset (Fin n)} (v : Vcpu n) (some_ : cpus.Nonempty) :
    ∃ cpu, startOn v cpus = some cpu ∧ cpu ∈ cpus := by
  rw [startOn]
  split
  · next here => exact ⟨_,rfl,here⟩
  · exact cpumaskCycle_found v.processor some_

theorem moveToIdle_found {cpus : Finset (Fin n)} (cpu : Fin n) (some_ : cpus.Nonempty) :
    ∃ first, moveToIdle cpu cpus = some first ∧ first ∈ cpus := by
  rw [moveToIdle]
  split
  · exact cpumaskCycle_found cpu some_
  · next stays =>
    refine ⟨cpu,rfl,?_⟩
    by_contra busy
    exact stays ⟨busy,Finset.nonempty_iff_ne_empty.mp some_⟩

theorem moveToIdle_empty (cpu : Fin n) : moveToIdle cpu ∅ = some cpu := by
  rw [moveToIdle,if_neg]
  intro both
  exact both.2 rfl

-- Idle in the sense of the masks, and the vcpu's own CPU with nobody else on it.
def Sched.Idle (k : Sched n) (cpu : Fin n) : Prop := cpu ∈ k.idlers ∧ cpu ∈ k.onlineMap
def Sched.Alone (k : Sched n) (cpu : Fin n) : Prop :=
  (∀ who ∈ k.runq cpu, who ≠ .other) ∧ k.current cpu ≠ .other

-- What counts as idle in the function: the masks, or the own CPU with an idle runq.
def Counted (k : Sched n) (v : Vcpu n) (cpu : Fin n) : Prop :=
  k.Idle cpu ∨ cpu = v.processor ∧ runqIdle (k.runq cpu) = true

instance (k : Sched n) (cpu : Fin n) : Decidable (k.Idle cpu) := inferInstanceAs (Decidable (_ ∧ _))
instance (k : Sched n) (v : Vcpu n) (cpu : Fin n) : Decidable (Counted k v cpu) := inferInstanceAs (Decidable (_ ∨ _))

theorem mem_stepIdlers {k : Sched n} {v : Vcpu n} {cpu c : Fin n} (idle : c ∈ stepIdlers k v cpu) :
    Counted k v c := by
  rw [stepIdlers] at idle
  split at idle
  · next own =>
    rcases Finset.mem_insert.mp idle with rfl | masked
    · exact .inr ⟨own.1.symm,own.2⟩
    · exact .inl ⟨(Finset.mem_inter.mp masked).2,(Finset.mem_inter.mp masked).1⟩
  · exact .inl ⟨(Finset.mem_inter.mp idle).2,(Finset.mem_inter.mp idle).1⟩

theorem stepIdlers_idle {k : Sched n} {v : Vcpu n} {c : Fin n} (cpu : Fin n) (idle : k.Idle c) :
    c ∈ stepIdlers k v cpu := by
  have masked : c ∈ k.onlineMap ∩ k.idlers := Finset.mem_inter.mpr ⟨idle.2,idle.1⟩
  rw [stepIdlers]
  split
  · exact Finset.mem_insert_of_mem masked
  · exact masked

-- The idlers when the vcpu's own CPU passes for one.
def ownIdlers (k : Sched n) (v : Vcpu n) : Finset (Fin n) := insert v.processor (k.onlineMap ∩ k.idlers)

-- What one balance step does with the candidates `cpus` of its mask.
structure Balanced (k : Sched n) (v : Vcpu n) (cpus : Finset (Fin n)) (last : Picked n) : Prop where
  allowed : last.cpu ∈ cpus
  counted : last.idle = true → Counted k v last.cpu
  found : (∃ c ∈ cpus, Counted k v c) → last.idle = true
  own : v.processor ∈ cpus → runqIdle (k.runq v.processor) = true →
    (last.cpu = v.processor ↔ ∀ c ∈ cpus, k.Idle c → outweighs k (ownIdlers k v) v.processor c = false)

theorem startOn_own {cpus : Finset (Fin n)} {v : Vcpu n} (here : v.processor ∈ cpus) : startOn v cpus = some v.processor := if_pos here

theorem stepIdlers_own {k : Sched n} {v : Vcpu n} (resting : runqIdle (k.runq v.processor) = true) :
    stepIdlers k v v.processor = ownIdlers k v := if_pos ⟨rfl,resting⟩

theorem balance_eq {k : Sched n} {v : Vcpu n} {step : Step} {spc : Option (Fin n)} {cpus : Finset (Fin n)}
    {cpu first : Fin n} {last : Choice n} (masked : balanceCpumask v step ∩ k.online = cpus)
    (started : startOn v cpus = some cpu) (member : cpu ∈ cpus)
    (moved : moveToIdle cpu (cpus ∩ stepIdlers k v cpu) = some first)
    (scanned : scan k (stepIdlers k v cpu) fuel ⟨first,(cpus ∩ stepIdlers k v cpu).erase first,spc⟩ = .ok last) :
    balance k v fuel step spc = .ok ⟨last.cpu,last.spc,decide (last.cpu ∈ stepIdlers k v cpu)⟩ := by
  rw [balance,masked]
  simp only [started,member,if_true,moved]
  rw [scanned]
  rfl

theorem counted_stepIdlers {k : Sched n} {v : Vcpu n} {cpus : Finset (Fin n)} {cpu c : Fin n} (started : startOn v cpus = some cpu)
    (candidate : c ∈ cpus) (counted : Counted k v c) : c ∈ stepIdlers k v cpu := by
  rcases counted with idle | ⟨rfl,resting⟩
  · exact stepIdlers_idle cpu idle
  · cases (startOn_own candidate).symm.trans started
    rw [stepIdlers_own resting]
    exact Finset.mem_insert_self ..

theorem balance_ends {k : Sched n} {v : Vcpu n} (step : Step) (spc : Option (Fin n))
    (some_ : (balanceCpumask v step ∩ k.online).Nonempty) (enough : n ≤ fuel) :
    ∃ last, balance k v fuel step spc = .ok last ∧ Balanced k v (balanceCpumask v step ∩ k.online) last := by
  generalize masked : balanceCpumask v step ∩ k.online = cpus at *
  obtain ⟨cpu,started,member⟩ := startOn_found v some_
  by_cases idle : (cpus ∩ stepIdlers k v cpu).Nonempty
  · obtain ⟨first,moved,candidate⟩ := moveToIdle_found cpu idle
    have inside : Inside k (stepIdlers k v cpu) (cpus ∩ stepIdlers k v cpu) first
        ⟨first,(cpus ∩ stepIdlers k v cpu).erase first,spc⟩ := by
      refine ⟨candidate,Finset.erase_subset first _,Finset.notMem_erase first _,fun _ d there => ?_,fun wrong => absurd rfl wrong⟩
      by_cases same : d = first
      · subst same
        exact .inr (outweighs_self k _ d)
      · exact .inl (Finset.mem_erase.mpr ⟨same,there⟩)
    obtain ⟨last,scanned,ended,stays⟩ := scan_inside Finset.inter_subset_right inside enough
    have both := Finset.mem_inter.mp ended
    refine ⟨_,balance_eq masked started member moved scanned,both.1,fun _ => mem_stepIdlers both.2,fun _ => decide_eq_true both.2,?_⟩
    intro here resting
    cases (startOn_own here).symm.trans started
    rw [stepIdlers_own resting] at moved stays
    have own : v.processor ∈ cpus ∩ ownIdlers k v := Finset.mem_inter.mpr ⟨here,Finset.mem_insert_self ..⟩
    obtain rfl : v.processor = first := by
      rw [moveToIdle,if_neg fun both => both.1 own] at moved
      exact Option.some.inj moved
    rw [stays]
    constructor
    · intro lighter c candidate resting
      exact lighter c (Finset.mem_inter.mpr ⟨candidate,Finset.mem_insert_of_mem (Finset.mem_inter.mpr ⟨resting.2,resting.1⟩)⟩)
    · intro lighter d there
      obtain ⟨candidate,counted⟩ := Finset.mem_inter.mp there
      rcases Finset.mem_insert.mp counted with rfl | resting
      · exact outweighs_self ..
      · exact lighter d candidate ⟨(Finset.mem_inter.mp resting).2,(Finset.mem_inter.mp resting).1⟩
  · -- no candidate is idle: the step keeps the CPU it started on
    have empty : cpus ∩ stepIdlers k v cpu = ∅ := Finset.not_nonempty_iff_eq_empty.mp idle
    have moved : moveToIdle cpu (cpus ∩ stepIdlers k v cpu) = some cpu := by
      rw [empty]
      exact moveToIdle_empty cpu
    have rest : Choice.cpus ⟨cpu,(cpus ∩ stepIdlers k v cpu).erase cpu,spc⟩ = ∅ := by
      rw [empty]
      exact Finset.erase_empty cpu
    have nobody {c : Fin n} (candidate : c ∈ cpus) (counted : Counted k v c) : False :=
      idle ⟨c,Finset.mem_inter.mpr ⟨candidate,counted_stepIdlers started candidate counted⟩⟩
    refine ⟨_,balance_eq masked started member moved (scan_empty rest),member,?_,?_,?_⟩
    · intro counted
      exact mem_stepIdlers (of_decide_eq_true counted)
    · rintro ⟨c,candidate,counted⟩
      exact (nobody candidate counted).elim
    · intro here resting
      exact (nobody here (.inr ⟨rfl,resting⟩)).elim

theorem balanceCpumask_hard (v : Vcpu n) (step : Step) : balanceCpumask v step ⊆ v.hard := by
  cases step with
  | hard => exact Finset.Subset.refl _
  | soft =>
    rw [balanceCpumask]
    split
    · exact Finset.Subset.refl _
    · exact Finset.inter_subset_right

theorem softStep_candidates {k : Sched n} {v : Vcpu n}
    (soft : vcpuHasSoftAffinity v (v.hard ∩ k.online) = true) :
    (balanceCpumask v .soft ∩ k.online).Nonempty := by
  rw [vcpuHasSoftAffinity,Bool.not_eq_true',Bool.or_eq_false_iff,decide_eq_false_iff_not,
    decide_eq_false_iff_not] at soft
  obtain ⟨c,there⟩ := Finset.nonempty_iff_ne_empty.mpr soft.2
  obtain ⟨liked,rest⟩ := Finset.mem_inter.mp there
  obtain ⟨hard,online⟩ := Finset.mem_inter.mp rest
  refine ⟨c,Finset.mem_inter.mpr ⟨?_,online⟩⟩
  rw [balanceCpumask]
  split
  · exact hard
  · exact Finset.mem_inter.mpr ⟨liked,hard⟩

-- The pass that decides: the soft one if one of its candidates is counted.
def lastStep (k : Sched n) (v : Vcpu n) : Step :=
  if vcpuHasSoftAffinity v (v.hard ∩ k.online) = true ∧ ∃ c ∈ balanceCpumask v .soft ∩ k.online, Counted k v c then .soft else .hard

-- Both passes together.  A pass that ends on a counted CPU is the last one, so
-- only the hard pass can miss, and its mask is the whole intersection.
theorem pick_ends {k : Sched n} {v : Vcpu n} (able : (v.hard ∩ k.online).Nonempty) (enough : n ≤ fuel) :
    ∃ last, pick k v fuel = .ok last ∧ Balanced k v (balanceCpumask v (lastStep k v) ∩ k.online) last ∧
      ((∃ c ∈ v.hard ∩ k.online, k.Idle c) → Counted k v last.cpu) := by
  have hardPass : ∀ spc, lastStep k v = .hard → ∃ last, balance k v fuel .hard spc = .ok last ∧
      Balanced k v (balanceCpumask v (lastStep k v) ∩ k.online) last ∧ ((∃ c ∈ v.hard ∩ k.online, k.Idle c) → Counted k v last.cpu) := by
    intro spc decides
    rw [decides]
    obtain ⟨last,ended,balanced⟩ := balance_ends .hard spc able enough
    exact ⟨last,ended,balanced,fun ⟨c,candidate,idle⟩ => balanced.counted (balanced.found ⟨c,candidate,.inl idle⟩)⟩
  rw [pick]
  split
  · next soft =>
    obtain ⟨first,ended,balanced⟩ := balance_ends .soft none (softStep_candidates soft) enough
    simp only [ended,Except.bind]
    split
    · next idle =>
      have decides : lastStep k v = .soft := if_pos ⟨soft,first.cpu,balanced.allowed,balanced.counted idle⟩
      rw [decides]
      exact ⟨first,rfl,balanced,fun _ => balanced.counted idle⟩
    · next busy => exact hardPass first.spc (if_neg fun both => busy (balanced.found both.2))
  · next none_ =>
    simp only [Except.bind]
    exact hardPass none (if_neg fun both => none_ both.1)

theorem cpuPick_eq {k : Sched n} {v : Vcpu n} {last : Picked n} (commit : Bool)
    (picked : pick k v fuel = .ok last) : ∃ later, cpuPick k v fuel commit = .ok (last.cpu,later) := by
  simp only [cpuPick,picked,Except.bind]
  cases last.spc with
  | none => exact ⟨k,rfl⟩
  | some spc => exact ⟨_,rfl⟩

theorem runqIdle_all {k : Sched n} {cpu : Fin n} (resting : runqIdle (k.runq cpu) = true) :
    ∀ who ∈ k.runq cpu, who = .idle := by
  have ordered := k.idleLast cpu
  generalize k.runq cpu = queue at *
  cases queue with
  | nil =>
    intro who member
    cases member
  | cons head rest =>
    have idle : head = .idle := beq_iff_eq.mp resting
    intro who member
    rcases List.mem_cons.mp member with rfl | behind
    · exact idle
    · exact (List.pairwise_cons.mp ordered).1 who behind idle

-- The vcpu's own CPU is counted by its runq alone: another vcpu runs there, and
-- no idle candidate of the deciding pass outweighs it.
structure Misjudged (k : Sched n) (v : Vcpu n) : Prop where
  candidate : v.processor ∈ balanceCpumask v (lastStep k v) ∩ k.online
  resting : runqIdle (k.runq v.processor) = true
  busy : ¬k.Idle v.processor
  other : k.current v.processor = .other
  heaviest : ∀ c ∈ balanceCpumask v (lastStep k v) ∩ k.online, k.Idle c → outweighs k (ownIdlers k v) v.processor c = false

theorem Balanced.idle_iff {k : Sched n} {v : Vcpu n} {last : Picked n} (balanced : Balanced k v (balanceCpumask v (lastStep k v) ∩ k.online) last)
    (counted : Counted k v last.cpu) : (k.Idle last.cpu ∨ last.cpu = v.processor ∧ k.Alone last.cpu) ↔ ¬Misjudged k v := by
  constructor
  · intro good bad
    have own := (balanced.own bad.candidate bad.resting).mpr bad.heaviest
    rw [own] at good
    rcases good with idle | ⟨_,alone⟩
    · exact bad.busy idle
    · exact alone.2 bad.other
  · intro right
    rcases counted with idle | ⟨own,resting⟩
    · exact .inl idle
    · by_contra neither
      obtain ⟨busy,shared⟩ := not_or.mp neither
      have candidate := own ▸ balanced.allowed
      rw [own] at resting busy
      refine right ⟨candidate,resting,busy,?_,(balanced.own candidate resting).mp own⟩
      by_contra nobody
      refine shared ⟨own,?_,own ▸ nobody⟩
      intro who member other
      rw [own] at member
      rw [runqIdle_all resting who member] at other
      cases other

-- For every number of turns from nr_cpu_ids on the function returns, with a CPU
-- it is allowed to use; with some allowed CPU idle it is one the function
-- counts as idle, and it is idle exactly when the vcpu's own is not misjudged.
theorem picks_idle_cpu (k : Sched n) (v : Vcpu n) (commit : Bool) (able : (v.hard ∩ k.online).Nonempty)
    (enough : n ≤ fuel) :
    ∃ cpu later, cpuPick k v fuel commit = .ok (cpu,later) ∧ cpu ∈ v.hard ∧ cpu ∈ k.online ∧
      ((∃ c ∈ v.hard ∩ k.online, k.Idle c) →
        Counted k v cpu ∧ ((k.Idle cpu ∨ cpu = v.processor ∧ k.Alone cpu) ↔ ¬Misjudged k v)) := by
  obtain ⟨last,picked,balanced,found⟩ := pick_ends able enough
  obtain ⟨later,returned⟩ := cpuPick_eq commit picked
  have both := Finset.mem_inter.mp balanced.allowed
  refine ⟨last.cpu,later,returned,balanceCpumask_hard v _ both.1,both.2,?_⟩
  intro some_
  exact ⟨found some_,balanced.idle_iff (found some_)⟩

-- Two sockets of one core with two threads each.
def twoThreads (c : Fin 4) : Finset (Fin 4) := if c < 2 then {0,1} else {2,3}

theorem twoThreads_self : ∀ c, c ∈ twoThreads c := by
  decide

theorem twoThreads_class : ∀ a b, b ∈ twoThreads a → twoThreads b = twoThreads a := by
  decide

def twoSockets : Topology 4 where
  sibling := twoThreads
  core := twoThreads
  siblingSelf := twoThreads_self
  coreSelf := twoThreads_self
  siblingClass := twoThreads_class
  coreClass := twoThreads_class
  siblingInCore _ := Finset.Subset.refl _

theorem oneWaiting (first : Who) : [first].Pairwise fun a b => a = .idle → b = .idle :=
  List.pairwise_singleton _ _

-- CPU 0 runs some vcpu and has only the idle one waiting; the others are idle.
def oneBusy (running : Who) : Sched 4 where
  topology := twoSockets
  online := {0,1,2,3}
  onlineMap := {0,1,2,3}
  idlers := {1,2,3}
  bias _ := 3
  runq _ := [.idle]
  current c := if c = 0 then running else .idle
  smtPowerSavings := false
  idleLast _ := oneWaiting .idle

def pinned : Vcpu 4 where
  processor := 0
  hard := {0,1,2,3}
  soft := {0,1,2,3}

theorem running_vcpu_placed : ∃ cpu later, cpuPick (oneBusy .self) pinned 4 true = .ok (cpu,later) ∧
    ((oneBusy .self).Idle cpu ∨ cpu = 0 ∧ (oneBusy .self).Alone cpu) := by
  obtain ⟨cpu,later,returned,_,_,found⟩ := picks_idle_cpu (oneBusy .self) pinned true
    ⟨0,by decide⟩ (Nat.le_refl 4)
  have some_ : ∃ c ∈ pinned.hard ∩ (oneBusy .self).online, (oneBusy .self).Idle c := ⟨1,by decide,by decide,by decide⟩
  refine ⟨cpu,later,returned,(found some_).2.mpr ?_⟩
  intro misjudged
  cases misjudged.other

-- A vcpu that is not running is given the CPU another vcpu runs on, with its
-- three others idle: its own CPU passes as idle because only the runq is read.
theorem busy_cpu_picked : ∃ later, cpuPick (oneBusy .other) pinned 4 true = .ok (0,later) ∧
    (∃ c ∈ pinned.hard ∩ (oneBusy .other).online, (oneBusy .other).Idle c) ∧
    ¬ (oneBusy .other).Idle 0 ∧ ¬ (oneBusy .other).Alone 0 := by
  have busy : 0 ∉ (oneBusy .other).idlers := by decide
  refine ⟨oneBusy .other,rfl,⟨1,by decide,by decide,by decide⟩,?_,?_⟩
  · intro idle
    exact busy idle.1
  · intro alone
    exact alone.2 rfl

end XenAet.CpuPick
