import Mathlib.Data.Option.Basic
import Mathlib.Data.List.Infix

namespace Library.Run
variable {S A : Type} {step : S → A → Option S} {ok : S → A → Prop} {s last : S} {acts : List A}

-- A run takes its actions in order; `none` is an action that does not return.
-- Every prefix of a run is a run, so a fact about the last state of all runs
-- is a fact about every state reached.
def run (step : S → A → Option S) : S → List A → Option S
  | s,[] => some s
  | s,a :: rest => (step s a).bind (run step · rest)

@[simp] theorem run_nil : run step s [] = some s := rfl

@[simp] theorem run_cons : run step s (a :: rest) = (step s a).bind (run step · rest) := rfl

theorem run_cons_some (ran : run step s (a :: rest) = some last) :
    ∃ next, step s a = some next ∧ run step next rest = some last :=
  Option.bind_eq_some_iff.mp ran

theorem run_append (first second : List A) :
    run step s (first ++ second) = (run step s first).bind (run step · second) := by
  induction first generalizing s with
  | nil => rfl
  | cons a rest ih =>
    cases taken : step s a with
    | none => simp [taken]
    | some next => simpa [taken] using ih (s:=next)

def Guarded (ok : S → A → Prop) (step : S → A → Option S) : S → List A → Prop
  | _,[] => True
  | s,a :: rest => ok s a ∧ ∀ next, step s a = some next → Guarded ok step next rest

instance guardedDecidable [∀ s a, Decidable (ok s a)] : ∀ s acts, Decidable (Guarded ok step s acts)
  | _,[] => .isTrue trivial
  | s,a :: rest =>
    have := fun next => guardedDecidable next rest
    match taken : step s a with
    | none => decidable_of_iff (ok s a) (by simp [Guarded,taken])
    | some next => decidable_of_iff (ok s a ∧ Guarded ok step next rest) (by simp [Guarded,taken])

theorem guarded_trivial (all : ∀ s a, ok s a) : Guarded ok step s acts := by
  induction acts generalizing s with
  | nil => trivial
  | cons a rest ih => exact ⟨all s a,fun _ _ => ih⟩

theorem guarded_of_mem (all : ∀ s, ∀ a ∈ acts, ok s a) : Guarded ok step s acts := by
  induction acts generalizing s with
  | nil => trivial
  | cons a rest ih => exact ⟨all s a (by simp),fun _ _ => ih fun s b later => all s b (by simp [later])⟩

-- Two guards that agree wherever the run can come.
theorem guarded_congr {other : S → A → Prop} {P : S → Prop} (agree : ∀ s a, P s → (ok s a ↔ other s a))
    (kept : ∀ s a next, P s → step s a = some next → P next) (start : P s) : Guarded ok step s acts ↔ Guarded other step s acts := by
  induction acts generalizing s with
  | nil => exact Iff.rfl
  | cons a rest ih =>
    refine and_congr (agree s a start) (forall_congr' fun next => ?_)
    exact ⟨fun held taken => (ih (kept s a next start taken)).mp (held taken),fun held taken => (ih (kept s a next start taken)).mpr (held taken)⟩

theorem guarded_append {first second : List A} (guarded : Guarded ok step s (first ++ second)) :
    Guarded ok step s first ∧ ∀ next, run step s first = some next → Guarded ok step next second := by
  induction first generalizing s with
  | nil => exact ⟨trivial,fun next same => by cases same; exact guarded⟩
  | cons a rest ih =>
    refine ⟨⟨guarded.1,fun next taken => (ih (guarded.2 next taken)).1⟩,fun next ran => ?_⟩
    obtain ⟨middle,taken,tail⟩ := run_cons_some ran
    exact (ih (guarded.2 middle taken)).2 next tail

-- One induction for every invariant: `P` may look at the actions taken so far,
-- so a history-dependent invariant needs no ghost field in the state.
theorem guarded_history {P : List A → S → Prop}
    (preserved : ∀ past s a next, P past s → ok s a → step s a = some next → P (past ++ [a]) next)
    (past : List A) (start : P past s) (guarded : Guarded ok step s acts)
    (ran : run step s acts = some last) : P (past ++ acts) last := by
  induction acts generalizing past s with
  | nil => cases ran; simpa using start
  | cons a rest ih =>
    obtain ⟨next,taken,tail⟩ := run_cons_some ran
    have kept := preserved past s a next start guarded.1 taken
    simpa using ih (past ++ [a]) kept (guarded.2 next taken) tail

theorem guarded_invariant {P : S → Prop}
    (preserved : ∀ s a next, P s → ok s a → step s a = some next → P next)
    (start : P s) (guarded : Guarded ok step s acts) (ran : run step s acts = some last) : P last :=
  guarded_history (P:=fun _ s => P s) (fun _ => preserved) [] start guarded ran

-- An invariant under which no allowed action is refused.
theorem guarded_total {P : S → Prop} (progress : ∀ s a, P s → ok s a → ∃ next, step s a = some next ∧ P next)
    (start : P s) (guarded : Guarded ok step s acts) : ∃ last, run step s acts = some last ∧ P last := by
  induction acts generalizing s with
  | nil => exact ⟨s,rfl,start⟩
  | cons a rest ih =>
    obtain ⟨next,taken,kept⟩ := progress s a start guarded.1
    obtain ⟨last,ran,held⟩ := ih kept (guarded.2 next taken)
    exact ⟨last,by rw [run_cons,taken]; exact ran,held⟩

-- A loop over a list, with an invariant that looks at what is left of it.
theorem run_remaining {P : List A → S → Prop}
    (progress : ∀ a rest s, P (a :: rest) s → ∃ next, step s a = some next ∧ P rest next) (start : P acts s) :
    ∃ last, run step s acts = some last ∧ P [] last := by
  induction acts generalizing s with
  | nil => exact ⟨s,rfl,start⟩
  | cons a rest ih =>
    obtain ⟨next,taken,kept⟩ := progress a rest s start
    obtain ⟨last,ran,held⟩ := ih kept
    exact ⟨last,by rw [run_cons,taken]; exact ran,held⟩

-- When the guard is both enough to keep `P` and needed for `Q`, the runs all
-- of whose states satisfy `Q` are exactly the guarded ones. An action that the
-- state refuses must be allowed, as nothing comes of it.
theorem guarded_exact_refusing {P Q : S → Prop} (strong : ∀ s, P s → Q s)
    (total : ∀ s a, (∃ next, step s a = some next) ∨ ok s a)
    (kept : ∀ s a next, P s → ok s a → step s a = some next → P next)
    (needed : ∀ s a next, P s → step s a = some next → Q next → ok s a) (start : P s) :
    (∀ first, first <+: acts → ∀ last, run step s first = some last → Q last) ↔ Guarded ok step s acts := by
  constructor
  · intro always
    induction acts generalizing s with
    | nil => trivial
    | cons a rest ih =>
      have allowed : ok s a := by
        rcases total s a with ⟨next,taken⟩ | allowed
        · have reached : Q next := always [a] (by simp) next (by simp [taken])
          exact needed s a next start taken reached
        · exact allowed
      refine ⟨allowed,fun next taken => ?_⟩
      refine ih (kept s a next start allowed taken) fun first before last ran => ?_
      exact always (a :: first) (List.cons_prefix_cons.mpr ⟨rfl,before⟩) last (by simp [taken,ran])
  · rintro guarded first ⟨second,rfl⟩ last ran
    exact strong last (guarded_invariant kept start (guarded_append guarded).1 ran)

theorem guarded_exact {P Q : S → Prop} (strong : ∀ s, P s → Q s)
    (total : ∀ s a, ∃ next, step s a = some next)
    (kept : ∀ s a next, P s → ok s a → step s a = some next → P next)
    (needed : ∀ s a next, P s → step s a = some next → Q next → ok s a) (start : P s) :
    (∀ first, first <+: acts → ∀ last, run step s first = some last → Q last) ↔ Guarded ok step s acts :=
  guarded_exact_refusing strong (fun s a => Or.inl (total s a)) kept needed start

theorem run_history {P : List A → S → Prop}
    (preserved : ∀ past s a next, P past s → step s a = some next → P (past ++ [a]) next)
    (start : P [] s) (ran : run step s acts = some last) : P acts last := by
  have free : Guarded (fun _ _ => True) step s acts := guarded_trivial fun _ _ => trivial
  exact guarded_history (fun past s a next held _ => preserved past s a next held) [] start free ran

theorem run_reaches {P : S → Prop} [DecidablePred P] (seen : (run step s acts).any (fun t => decide (P t)) = true) :
    ∃ t, run step s acts = some t ∧ P t := by
  obtain ⟨t,ran,held⟩ := (Option.any_eq_true ..).mp seen
  exact ⟨t,ran,of_decide_eq_true held⟩

theorem run_holds {P : S → Prop} [DecidablePred P] (ran : run step s acts = some last)
    (seen : (run step s acts).any (fun t => decide (P t)) = true) : P last := by
  obtain ⟨t,ran',held⟩ := run_reaches seen
  rw [ran] at ran'
  cases ran'
  exact held

end Library.Run
