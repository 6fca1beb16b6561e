import XenAet.ExchangeSafety

namespace XenAet.ExchangeHolds
open XenAet.MemoryExchange XenAet.ExchangeSafety
open Library

abbrev Gfn : Type := BitVec 64

inductive Call where
  | getGfnUnshare (gfn : Gfn)
  | putGfn (gfn : Gfn)
deriving DecidableEq

-- How often each gfn is held; a hold that is not there cannot be put.
def hold (held : Gfn → Nat) : Call → Option (Gfn → Nat)
  | .getGfnUnshare g => some (Function.update held g (held g + 1))
  | .putGfn g => if held g = 0 then none else some (Function.update held g (held g - 1))

def unheld : Gfn → Nat := fun _ => 0

-- The call of the function with the last gfn it has read of the list, how
-- often `k--` was done, and what it has called.
structure Traced where
  state : State
  gmfn : Gfn
  back : Nat
  calls : List Call

-- The body of the innermost loop: what it calls and the error it gives up with.
def stealGfn (s : State) (x : Input) (gfn : Gfn) : List Call × Option Errno :=
  if x.shared then ([.getGfnUnshare gfn,.putGfn gfn],some .ENOMEM)
  else if x.valid = false then ([.getGfnUnshare gfn,.putGfn gfn],some .EINVAL)
  else if stealable s x = false then ([.getGfnUnshare gfn,.putGfn gfn],some .EINVAL)
  else ([.getGfnUnshare gfn,.putGfn gfn],none)

def Traced.gfn (t : Traced) : Gfn := t.gmfn + BitVec.ofNat 64 t.state.k

def gfnCalls (t : Traced) (x : Input) : List Call :=
  match t.state.pc with
  | .steal => if t.state.k < 2 ^ t.state.exch.in_.extentOrder then (stealGfn t.state x t.gfn).1 else []
  | .fail => if t.state.inChunkList = [] then [] else [.putGfn (t.gfn - BitVec.ofNat 64 t.back)]
  | _ => []

inductive Event where
  | call (x : Input) (e : Exch) (denied : Option Errno)
  | tick (x : Input) (gmfn : Gfn)
  | outside (a : Outside)

-- Where the list cannot be read, `gmfn` is whatever the copy has left in it.
def tickTraced (t : Traced) (x : Input) (gmfn : Gfn) : Option Traced :=
  (tick t.state x).map fun s =>
    ⟨s,if t.state.pc = .copyIn ∧ t.state.j < 2 ^ t.state.exch.inChunkOrder then gmfn else t.gmfn,
     if t.state.pc = .fail then t.back + 1 else 0,t.calls ++ gfnCalls t x⟩

def step (t : Traced) : Event → Option Traced
  | .call x e denied => (memoryExchange t.state x e denied).map fun s => ⟨{s with k := 0},t.gmfn,0,[]⟩
  | .tick x gmfn => tickTraced t x gmfn
  | .outside a => (outside t.state a).map fun s => {t with state := s}

-- No put without a hold, and nothing held when the function has returned.
structure Orderly (t : Traced) : Prop where
  held : (Run.run hold unheld t.calls).isSome
  balanced : t.state.pc = .idle → ∀ g, t.calls.count (.putGfn g) = t.calls.count (.getGfnUnshare g)
  returned : t.state.pc = .idle → Run.run hold unheld t.calls = some unheld

-- A failure finds no page of its chunk stolen.
def NoneStolen (t : Traced) : Event → Prop
  | .tick _ _ => t.state.pc = .fail → t.state.inChunkList = []
  | _ => True

instance : ∀ t e, Decidable (NoneStolen t e)
  | t,.tick _ _ => inferInstanceAs (Decidable (t.state.pc = .fail → t.state.inChunkList = []))
  | _,.call _ _ _ => .isTrue trivial
  | _,.outside _ => .isTrue trivial

variable {t t' : Traced} {x : Input}

theorem hold_pair (held : Gfn → Nat) (g : Gfn) : Run.run hold held [.getGfnUnshare g,.putGfn g] = some held := by
  have back : Function.update (Function.update held g (held g + 1)) g (held g) = held := by
    rw [Function.update_idem,Function.update_eq_self]
  simp only [Run.run_cons,Run.run_nil,hold,Option.bind_some,Function.update_self,Nat.add_one_ne_zero,if_false,Nat.add_sub_cancel,back]

-- Every way through the body puts the gfn it got, and gives up as the step does.
theorem stealGfn_calls (s : State) (x : Input) (g : Gfn) : (stealGfn s x g).1 = [.getGfnUnshare g,.putGfn g] := by
  unfold stealGfn
  split
  · rfl
  · split
    · rfl
    · split
      · rfl
      · rfl

-- What is called since the call began leaves nothing held.
structure Settled (t : Traced) : Prop where
  balanced : ∀ g, t.calls.count (.putGfn g) = t.calls.count (.getGfnUnshare g)
  unheld : Run.run hold unheld t.calls = some unheld

theorem Settled.orderly (settled : Settled t) : Orderly t :=
  ⟨by rw [settled.unheld]; rfl,fun _ => settled.balanced,fun _ => settled.unheld⟩

theorem gfnCalls_none_or_pair (t : Traced) (x : Input) (none_ : t.state.pc = .fail → t.state.inChunkList = []) :
    gfnCalls t x = [] ∨ gfnCalls t x = [.getGfnUnshare t.gfn,.putGfn t.gfn] := by
  unfold gfnCalls
  split
  · split
    · exact Or.inr (stealGfn_calls _ _ _)
    · exact Or.inl rfl
  · rename_i here
    rw [if_pos (none_ here)]
    exact Or.inl rfl
  · exact Or.inl rfl

theorem tick_settled {gmfn : Gfn} (settled : Settled t) (none_ : t.state.pc = .fail → t.state.inChunkList = [])
    (taken : tickTraced t x gmfn = some t') : Settled t' := by
  obtain ⟨s,_,rfl⟩ := Option.map_eq_some_iff.mp taken
  rcases gfnCalls_none_or_pair t x none_ with calls | calls
  · refine ⟨?_,?_⟩
    · simpa only [calls,List.append_nil] using settled.balanced
    · simpa only [calls,List.append_nil] using settled.unheld
  · refine ⟨?_,?_⟩
    · intro g
      dsimp only
      rw [calls,List.count_append,List.count_append,settled.balanced g]
      congr 1
      simp [List.count_cons]
    · dsimp only
      rw [calls,Run.run_append,settled.unheld]
      exact hold_pair _ _

theorem step_settled {e : Event} (settled : Settled t) (allowed : NoneStolen t e) (taken : step t e = some t') : Settled t' := by
  cases e with
  | call x e denied =>
    obtain ⟨s,_,rfl⟩ := Option.map_eq_some_iff.mp taken
    exact ⟨fun _ => rfl,rfl⟩
  | tick x gmfn => exact tick_settled settled allowed taken
  | outside a =>
    obtain ⟨s,_,rfl⟩ := Option.map_eq_some_iff.mp taken
    exact ⟨settled.balanced,settled.unheld⟩

-- The put of the failure path finds nothing held.
theorem step_needed {e : Event} (settled : Settled t) (taken : step t e = some t') (orderly : Orderly t') : NoneStolen t e := by
  cases e with
  | call x e denied => trivial
  | outside a => trivial
  | tick x gmfn =>
    intro failing
    by_contra stolen
    obtain ⟨s,_,rfl⟩ := Option.map_eq_some_iff.mp taken
    have calls : gfnCalls t x = [.putGfn (t.gfn - BitVec.ofNat 64 t.back)] := by simp only [gfnCalls,failing,if_neg stolen]
    have held := orderly.held
    dsimp only at held
    rw [calls,Run.run_append,settled.unheld] at held
    cases held

theorem step_taken_or_allowed (t : Traced) (e : Event) : (∃ t', step t e = some t') ∨ NoneStolen t e := by
  cases e with
  | call x e denied => exact Or.inr trivial
  | outside a => exact Or.inr trivial
  | tick x gmfn =>
    by_cases failing : t.state.pc = .fail
    · have goes : tick t.state x = some (stepFail t.state) := by simp only [tick,refused,failing]
      refine Or.inl (Option.isSome_iff_exists.mp ?_)
      rw [step,tickTraced,goes]
      rfl
    · exact Or.inr fun here => absurd here failing

theorem holds_balance_exactly (t : Traced) (fresh : t.calls = []) (events : List Event) :
    (∀ first, first <+: events → ∀ last, Run.run step t first = some last → Orderly last) ↔ Run.Guarded NoneStolen step t events := by
  have start : Settled t := ⟨fun _ => by rw [fresh]; rfl,by rw [fresh]; rfl⟩
  apply Run.guarded_exact_refusing (P:=Settled) (Q:=Orderly)
  · intro t settled
    exact settled.orderly
  · exact step_taken_or_allowed
  · intro t e next settled allowed taken
    exact step_settled settled allowed taken
  · intro t e next settled taken orderly
    exact step_needed settled taken orderly
  · exact start

def untraced : Traced := ⟨twoPages,0,0,[]⟩

-- Two pages for a block of two, each read from the list as 16 and 17.
def tracedExchange : List Event :=
  [.call fine pairForBlock none,.tick fine 0,.tick fine 16,.tick fine 0,.tick fine 0,.tick fine 17,.tick {fine with mfn := 1} 0,.tick fine 0,.tick fine 0,
   .tick fine 0,.tick fine 0,.tick fine 0,.tick fine 0,.tick fine 0,.tick fine 0,.tick fine 0,.tick fine 0]

theorem exchange_holds_balance : ∃ last, Run.run step untraced tracedExchange = some last ∧ last.state.pc = .idle ∧ Orderly last ∧
    last.calls = [.getGfnUnshare 16,.putGfn 16,.getGfnUnshare 17,.putGfn 17] := by
  have runs : (Run.run step untraced tracedExchange).map (fun t => (t.state.pc,t.calls)) =
      some (.idle,[.getGfnUnshare 16,.putGfn 16,.getGfnUnshare 17,.putGfn 17]) := by decide +kernel
  obtain ⟨last,ran,is⟩ := Option.map_eq_some_iff.mp runs
  have guarded : Run.Guarded NoneStolen step untraced tracedExchange := by decide +kernel
  have orderly := (holds_balance_exactly untraced rfl tracedExchange).mpr guarded _ (List.prefix_refl _) last ran
  exact ⟨last,ran,congrArg Prod.fst is,orderly,congrArg Prod.snd is⟩

-- The first page is stolen and the second number cannot be read: the gfn of
-- the page was put, and then another one is.
def secondUnread : List Event :=
  [.call fine pairForBlock none,.tick fine 0,.tick fine 16,.tick fine 0,.tick fine 0,.tick {fine with fault := true} 16,.tick fine 0,.tick fine 0,.tick fine 0]

theorem failure_puts_again : ∃ last, Run.run step untraced secondUnread = some last ∧ last.state.pc = .idle ∧
    last.calls = [.getGfnUnshare 16,.putGfn 16,.putGfn 17] ∧ ¬Orderly last := by
  have runs : (Run.run step untraced secondUnread).map (fun t => (t.state.pc,t.calls)) =
      some (.idle,[.getGfnUnshare 16,.putGfn 16,.putGfn 17]) := by decide +kernel
  obtain ⟨last,ran,is⟩ := Option.map_eq_some_iff.mp runs
  have idle : last.state.pc = .idle := congrArg Prod.fst is
  have calls : last.calls = [.getGfnUnshare 16,.putGfn 16,.putGfn 17] := congrArg Prod.snd is
  refine ⟨last,ran,idle,calls,?_⟩
  intro orderly
  have balanced := orderly.balanced idle 17
  rw [calls] at balanced
  exact absurd balanced (by decide)

end XenAet.ExchangeHolds
