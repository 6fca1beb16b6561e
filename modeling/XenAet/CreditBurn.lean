import XenAet.CreditSched

namespace XenAet.CreditBurn
open Library CreditSched

-- MILLISECS(1) in nanoseconds.
def millisec : Nat := 1000000

-- The time of one credit.
def creditTime : Int := 100000

-- A vcpu on its CPU at time `now`. `burned` are the credits taken off its
-- `credit` and `ran` is how long it has been running, both since it was created.
structure State where
  startTime : Int
  residual : Nat
  burned : Nat
  now : Int
  ran : Int

-- `val` has 64 bits and `credits` 32.
def burnCredits (s : State) : State :=
  let delta := s.now - s.startTime
  if delta ≤ 0 then s
  else
    let val := ((delta * schedCreditsPerMsec + s.residual) % 2^64).toNat
    let credits : Nat := val / millisec % 2^32
    {s with residual := val % millisec,burned := s.burned + credits
            startTime := s.startTime + (credits * millisec / schedCreditsPerMsec : Nat)}

def pass (s : State) (time : Nat) : State := {s with now := s.now + time,ran := s.ran + time}

-- The vcpu runs for some time and its credits are burned: at a tick, or in
-- `csched_schedule`, after which it is off its CPU for some time. It is chosen
-- again at once where the rate limit keeps it running.
inductive Event where
  | tick (time : Nat)
  | schedule (time away : Nat)

def next (s : State) : Event → State
  | .tick time => burnCredits (pass s time)
  | .schedule time away =>
    let s := burnCredits (pass s time)
    let off := {s with startTime := s.startTime - s.now,now := s.now + away}
    {off with startTime := off.startTime + off.now}

def step (s : State) (e : Event) : Option State := some (next s e)

-- A new vcpu that is chosen for the first time.
def start (now : Int) : State := ⟨0 + now,0,0,now,0⟩

def Exact (s : State) : Prop := s.burned * creditTime - s.ran < creditTime ∧ s.ran - s.burned * creditTime < creditTime

def Event.time : Event → Nat
  | .tick time => time
  | .schedule time _ => time

-- `credits == val`.
def Fits (s : State) (e : Event) : Prop :=
  (s.now + e.time - s.startTime) * schedCreditsPerMsec + s.residual < 2^32 * millisec

-- The time for which credits were burned ends at `start_time`, less than one
-- credit from now.
structure Inv (s : State) : Prop where
  residual : s.residual < millisec
  accounted : s.burned * creditTime = s.ran + (s.startTime - s.now)
  ahead : s.startTime - s.now < creditTime
  behind : s.now - s.startTime < creditTime

variable {s : State}

theorem Inv.exact (inv : Inv s) : Exact s := by
  have accounted := inv.accounted
  have ahead := inv.ahead
  have behind := inv.behind
  exact ⟨by omega,by omega⟩

-- Burning moves `start_time` by the time of the credits burned.
theorem burn_moves (s : State) : ∃ credits : Nat, (burnCredits s).burned = s.burned + credits ∧
    (burnCredits s).startTime = s.startTime + credits * creditTime ∧ credits < 2^32 ∧
    (burnCredits s).now = s.now ∧ (burnCredits s).ran = s.ran := by
  unfold burnCredits
  dsimp only
  split
  · exact ⟨0,rfl,by omega,by decide,rfl,rfl⟩
  · refine ⟨_,rfl,?_,Nat.mod_lt _ (by decide),rfl,rfl⟩
    simp only [millisec,schedCreditsPerMsec,creditTime]
    omega

theorem burn_late {n : Nat} (late : 0 < s.now - s.startTime) (val : (s.now - s.startTime) * schedCreditsPerMsec + s.residual = n) :
    (burnCredits s).residual = n % 2^64 % millisec ∧
      (burnCredits s).startTime = s.startTime + (n % 2^64 / millisec % 2^32 : Nat) * creditTime := by
  have word : (((s.now - s.startTime) * schedCreditsPerMsec + s.residual) % 2^64).toNat = n % 2^64 := by
    rw [val]
    omega
  unfold burnCredits
  dsimp only
  rw [if_neg (by omega),word]
  refine ⟨rfl,?_⟩
  simp only [millisec,schedCreditsPerMsec,creditTime]
  omega

-- What is left to burn is less than one credit, where `credits` has room for all.
theorem burn_near (residual : s.residual < millisec) (ahead : s.startTime - s.now < creditTime)
    (fits : (s.now - s.startTime) * schedCreditsPerMsec + s.residual < 2^32 * millisec) :
    (burnCredits s).residual < millisec ∧ (burnCredits s).startTime - s.now < creditTime ∧
      s.now - (burnCredits s).startTime < creditTime := by
  by_cases late : 0 < s.now - s.startTime
  · obtain ⟨n,val⟩ := Int.eq_ofNat_of_zero_le (a:=(s.now - s.startTime) * schedCreditsPerMsec + s.residual)
      (by rw [schedCreditsPerMsec]; omega)
    obtain ⟨left,moved⟩ := burn_late late val
    simp only [millisec,schedCreditsPerMsec,creditTime] at *
    have small : n % 2^64 = n := Nat.mod_eq_of_lt (by omega)
    have all : n / 1000000 % 2^32 = n / 1000000 := Nat.mod_eq_of_lt (by omega)
    rw [small] at left
    rw [small,all] at moved
    rw [left,moved]
    exact ⟨Nat.mod_lt _ (by decide),by omega,by omega⟩
  · have same : burnCredits s = s := if_pos (Int.not_lt.mp late)
    rw [same]
    refine ⟨residual,ahead,?_⟩
    rw [creditTime]
    omega

-- Otherwise nearly 2^32 credits or more are left.
theorem burn_far (residual : s.residual < millisec)
    (large : ¬(s.now - s.startTime) * schedCreditsPerMsec + s.residual < 2^32 * millisec) :
    creditTime ≤ s.now - (burnCredits s).startTime := by
  have late : 0 < s.now - s.startTime := by
    simp only [millisec,schedCreditsPerMsec] at *
    omega
  obtain ⟨n,val⟩ := Int.eq_ofNat_of_zero_le (a:=(s.now - s.startTime) * schedCreditsPerMsec + s.residual)
    (by rw [schedCreditsPerMsec]; omega)
  obtain ⟨_,moved⟩ := burn_late late val
  rw [val] at large
  simp only [millisec,schedCreditsPerMsec,creditTime] at *
  rw [moved]
  by_cases small : n < 2^64
  · rw [Nat.mod_eq_of_lt small]
    omega
  · have few : n % 2^64 / 1000000 % 2^32 < 2^32 := Nat.mod_lt _ (by decide)
    generalize n % 2^64 / 1000000 % 2^32 = credits at few
    omega

-- Time off the CPU is added to `start_time` too.
theorem next_burned (s : State) (e : Event) : (next s e).startTime - (next s e).now =
      (burnCredits (pass s e.time)).startTime - (pass s e.time).now ∧
    (next s e).residual = (burnCredits (pass s e.time)).residual ∧ (next s e).burned = (burnCredits (pass s e.time)).burned ∧
    (next s e).ran = (pass s e.time).ran := by
  obtain ⟨_,_,_,_,now,ran⟩ := burn_moves (pass s e.time)
  cases e with
  | tick time =>
    simp only [Event.time] at now ran
    exact ⟨by simp only [next,Event.time,now],rfl,rfl,ran⟩
  | schedule time away =>
    simp only [Event.time] at now ran
    refine ⟨?_,rfl,rfl,ran⟩
    simp only [next,Event.time,now]
    omega

theorem next_accounted (inv : Inv s) (e : Event) :
    (next s e).burned * creditTime = (next s e).ran + ((next s e).startTime - (next s e).now) := by
  obtain ⟨place,_,burned,ran⟩ := next_burned s e
  obtain ⟨credits,more,moved,_,_,_⟩ := burn_moves (pass s e.time)
  have accounted := inv.accounted
  have time : (pass s e.time).startTime = s.startTime ∧ (pass s e.time).now = s.now + e.time ∧ (pass s e.time).ran = s.ran + e.time ∧
      (pass s e.time).burned = s.burned := ⟨rfl,rfl,rfl,rfl⟩
  rw [place,burned,ran,more,moved,time.1,time.2.1,time.2.2.1,time.2.2.2]
  simp only [creditTime] at *
  push_cast
  omega

theorem next_inv (inv : Inv s) (e : Event) (fits : Fits s e) : Inv (next s e) := by
  obtain ⟨place,left,_,_⟩ := next_burned s e
  have ahead : (pass s e.time).startTime - (pass s e.time).now < creditTime := by
    have := inv.ahead
    simp only [pass]
    omega
  obtain ⟨small,above,below⟩ := burn_near (s:=pass s e.time) inv.residual ahead fits
  refine ⟨?_,next_accounted inv e,?_,?_⟩
  · rw [left]
    exact small
  · rw [place]
    exact above
  · omega

theorem next_needs (inv : Inv s) (e : Event) (exact_ : Exact (next s e)) : Fits s e := by
  by_contra large
  have far := burn_far (s:=pass s e.time) inv.residual large
  obtain ⟨place,_,_,_⟩ := next_burned s e
  have accounted := next_accounted inv e
  obtain ⟨_,below⟩ := exact_
  omega

theorem start_inv (now : Int) : Inv (start now) := by
  refine ⟨?_,?_,?_,?_⟩
  · simp [start,millisec]
  · simp [start]
  · simp [start,creditTime]
  · simp [start,creditTime]

-- At every call, in every run in which no call has 2^32 credits or more to burn.
theorem burned_follows_time (now : Int) (events : List Event) :
    (∀ first, first <+: events → ∀ s, Run.run step (start now) first = some s → Exact s) ↔
      Run.Guarded Fits step (start now) events :=
  Run.guarded_exact (P:=Inv) (fun _ inv => inv.exact) (fun s e => ⟨next s e,rfl⟩)
    (fun s e after inv fits taken => by cases taken; exact next_inv inv e fits)
    (fun s e after inv taken exact_ => by cases taken; exact next_needs inv e exact_) (start_inv now)

-- A vcpu that runs for as long as 2^32 credits last and is not sampled meanwhile.
theorem long_run_unburned : ∃ s, Run.run step (start 0) [.tick 429496729600000] = some s ∧ s.burned = 0 ∧ ¬Exact s :=
  ⟨_,rfl,by decide +kernel,by rw [Exact]; decide +kernel⟩

end XenAet.CreditBurn
