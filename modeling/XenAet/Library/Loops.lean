import Mathlib.Logic.Function.Iterate

namespace Library.While
variable {S : Type} {cond : S → Bool} {body : S → S} {s last : S} {fuel : Nat}

-- A `while` loop with an explicit bound on its turns; `none` is a loop still
-- running when the bound is spent.
def loop (cond : S → Bool) (body : S → S) : Nat → S → Option S
  | 0,s => if cond s then none else some s
  | fuel+1,s => if cond s then loop cond body fuel (body s) else some s

theorem loop_stop (stop : cond s = false) : loop cond body fuel s = some s := by
  cases fuel <;> simp [loop,stop]

theorem loop_turn (go : cond s = true) :
    loop cond body (fuel+1) s = loop cond body fuel (body s) := by
  simp [loop,go]

theorem loop_exits (turns : Nat) (enough : turns ≤ fuel)
    (go : ∀ i, i < turns → cond (body^[i] s) = true) (stop : cond (body^[turns] s) = false) :
    loop cond body fuel s = some (body^[turns] s) := by
  induction turns generalizing s fuel with
  | zero => exact loop_stop stop
  | succ turns ih =>
    have first : cond s = true := go 0 (Nat.succ_pos _)
    obtain ⟨fuel,rfl⟩ := Nat.exists_eq_add_of_le' enough
    rw [← Nat.add_assoc,loop_turn first]
    exact ih (by omega) (fun i small => go (i+1) (by omega)) stop

theorem loop_forever {P : S → Prop} (start : P s) (go : ∀ s, P s → cond s = true)
    (kept : ∀ s, P s → P (body s)) (fuel : Nat) : loop cond body fuel s = none := by
  induction fuel generalizing s with
  | zero => simp [loop,go s start]
  | succ fuel ih => rw [loop_turn (go s start)]; exact ih (kept s start)

-- The same loop with a body that can fail: the first failure is the outcome,
-- and `stuck` a loop still running when the bound is spent.
def tryLoop {E : Type} (stuck : E) (cond : S → Bool) (body : S → Except E S) : Nat → S → Except E S
  | 0,s => if cond s then .error stuck else .ok s
  | fuel+1,s => if cond s then (body s).bind (tryLoop stuck cond body fuel) else .ok s

section Try
variable {E : Type} {stuck : E} {attempt : S → Except E S}

theorem tryLoop_stop (stop : cond s = false) : tryLoop stuck cond attempt fuel s = .ok s := by
  cases fuel <;> simp [tryLoop,stop]

theorem tryLoop_turn {next : S} (go : cond s = true) (turned : attempt s = .ok next) :
    tryLoop stuck cond attempt (fuel+1) s = tryLoop stuck cond attempt fuel next := by
  simp [tryLoop,go,turned,Except.bind]

theorem tryLoop_ends {P : S → Prop} (stuck : E) (cond : S → Bool) (measure : S → Nat) (start : P s)
    (enough : measure s ≤ fuel)
    (turn : ∀ s, P s → cond s = true → ∃ next, attempt s = .ok next ∧ P next ∧ measure next < measure s) :
    ∃ last, tryLoop stuck cond attempt fuel s = .ok last ∧ P last ∧ cond last = false := by
  induction fuel generalizing s with
  | zero =>
    cases go : cond s with
    | false => exact ⟨s,tryLoop_stop go,start,go⟩
    | true =>
      obtain ⟨_,_,_,less⟩ := turn s start go
      omega
  | succ fuel ih =>
    cases go : cond s with
    | false => exact ⟨s,tryLoop_stop go,start,go⟩
    | true =>
      obtain ⟨next,turned,kept,less⟩ := turn s start go
      rw [tryLoop_turn go turned]
      exact ih kept (by omega)

end Try

end Library.While

namespace Library.Eventually
variable {S : Type} {step : S → S} {P bad : S → Prop} {s t u : S}

-- A machine that takes its steps by itself; one that waits for ever stays
-- where it is.
def Ever (step : S → S) (P : S → Prop) (s : S) : Prop := ∃ n, P (step^[n] s)

theorem ever_turn : Ever step P s ↔ P s ∨ Ever step P (step s) := by
  constructor
  · rintro ⟨n,seen⟩
    cases n with
    | zero => exact .inl seen
    | succ n => exact .inr ⟨n,seen⟩
  · rintro (now | ⟨n,seen⟩)
    · exact ⟨0,now⟩
    · exact ⟨n+1,seen⟩

theorem ever_fixed (fixed : step s = s) : Ever step P s ↔ P s := by
  constructor
  · rintro ⟨n,seen⟩
    rwa [Function.iterate_fixed fixed] at seen
  · intro now
    exact ⟨0,now⟩

-- From one state to another past no bad one.
def Passes (step : S → S) (bad : S → Prop) (s t : S) : Prop := ∃ n, step^[n] s = t ∧ ∀ k, k < n → ¬bad (step^[k] s)

theorem passes_refl : Passes step bad s s := ⟨0,rfl,fun _ none_ => absurd none_ (Nat.not_lt_zero _)⟩

theorem passes_turn (good : ¬bad s) (rest : Passes step bad (step s) t) : Passes step bad s t := by
  obtain ⟨n,ends,clean⟩ := rest
  refine ⟨n+1,ends,fun k before => ?_⟩
  cases k with
  | zero => exact good
  | succ k => exact clean k (Nat.lt_of_succ_lt_succ before)

theorem passes_trans (first : Passes step bad s t) (second : Passes step bad t u) : Passes step bad s u := by
  obtain ⟨n,ends,clean⟩ := first
  induction n generalizing s with
  | zero =>
    cases ends
    exact second
  | succ n ih =>
    apply passes_turn (clean 0 (Nat.succ_pos n))
    exact ih ends fun k before => clean (k+1) (Nat.succ_lt_succ before)

theorem ever_after (passes : Passes step bad s t) (seen : P t) : Ever step P s := by
  obtain ⟨n,ends,_⟩ := passes
  exact ⟨n,by rwa [ends]⟩

theorem never_before (passes : Passes step bad s t) (never : ¬Ever step bad t) : ¬Ever step bad s := by
  obtain ⟨n,ends,clean⟩ := passes
  rintro ⟨k,seen⟩
  by_cases before : k < n
  · exact clean k before seen
  · obtain ⟨j,rfl⟩ := Nat.exists_eq_add_of_le' (Nat.not_lt.mp before)
    rw [Function.iterate_add_apply,ends] at seen
    exact never ⟨j,seen⟩

end Library.Eventually
