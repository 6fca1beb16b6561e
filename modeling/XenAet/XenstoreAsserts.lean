import XenAet.XenstoreRuns

namespace XenAet.XenstoreAsserts
open XenAet.XenstoreNode XenAet.XenstoreWrite XenAet.XenstoreServer XenAet.XenstoreRuns
open Library

variable {s s' : State} {key : Key} {conn : Connection} {txId : BitVec 32} {body : Body} {reply : Reply}

-- The two failures a client must not be able to cause.
def Sane {α : Type} (result : Except Crash α) : Prop := result ≠ .error .assertion ∧ result ≠ .error .freedTransaction

theorem Sane.ok {α : Type} (a : α) : Sane (Except.ok a : Except Crash α) := ⟨by simp,by simp⟩

-- Between requests no connection points at a transaction; during one only its own does.
def IdleBut (key : Key) (s : State) : Prop := ∀ other conn, other ≠ key → s.conns other = some conn → conn.transaction = none

theorem IdleBut.setConn (idle : IdleBut key s) (other : Key) (conn : Connection) (kept : other ≠ key → conn.transaction = none) :
    IdleBut key (setConn s other conn) := by
  intro third conn' differ is
  by_cases same : third = other
  · subst same
    rw [setConn_self] at is
    cases is
    exact kept differ
  · rw [setConn_other s conn same] at is
    exact idle third conn' differ is

theorem IdleBut.drop (idle : IdleBut key s) (other : Key) : IdleBut key (dropConn s other) := by
  intro third conn differ is
  have before : s.conns third = some conn := by
    by_cases same : third = other
    · subst same
      cases third <;> simp [dropConn] at is
    · cases other <;> simpa [dropConn,same] using is
  exact idle third conn differ before

-- A pointer is to an open transaction.
def Points (conn : Connection) : Prop := ∀ id, conn.transaction = some id → (lookup conn.transactions id).isSome = true

theorem reset_sane (idle : conn.transaction = none) : Sane (resetConn s key conn) := by
  rw [resetConn,connDeleteAllTransactions,idle]
  exact .ok _

theorem serve_sane (points : Points conn) (request : Request) : Sane (serve s key conn request) := by
  unfold serve
  split
  · exact .ok _
  · rename_i id pointed
    obtain ⟨t,found⟩ := Option.isSome_iff_exists.mp (points id pointed)
    rw [found]
    exact .ok _

theorem start_sane : Sane (doTransactionStart s key conn) := by
  unfold doTransactionStart
  split
  · exact .ok _
  · split
    · exact .ok _
    · split
      · exact ⟨by simp,by simp⟩
      · exact .ok _

theorem end_sane (points : Points conn) (commit : Option Bool) : Sane (doTransactionEnd s key conn commit) := by
  unfold doTransactionEnd
  split
  · exact .ok _
  · split
    · exact .ok _
    · rename_i id pointed
      obtain ⟨t,found⟩ := Option.isSome_iff_exists.mp (points id pointed)
      rw [found]
      dsimp only
      repeat' split
      all_goals exact .ok _

theorem introduce_sane (idle : IdleBut key s) (args : Option (Nat × Nat × Nat)) (fault : Option Errno) :
    Sane (doIntroduce s key conn args fault) := by
  unfold doIntroduce
  repeat' split
  any_goals exact .ok _
  rename_i allowed
  exact reset_sane (idle _ _ allowed.2 (by assumption))

theorem setTarget_sane (args : Option (Nat × Nat)) : Sane (doSetTarget s conn args) := by
  unfold doSetTarget
  repeat' split
  all_goals exact .ok _

theorem release_sane (arg : Option Nat) (held : Bool) : Sane (doRelease s conn arg held) := by
  unfold doRelease
  repeat' split
  all_goals exact .ok _

theorem other_sane (points : Points conn) (given : Reply) : Sane (doOther s conn given) := by
  unfold doOther
  split
  · exact .ok _
  · rename_i id pointed
    rw [if_pos (points id pointed)]
    exact .ok _

theorem dispatch_sane (points : Points conn) (idle : IdleBut key s) :
    Sane (dispatch s key conn body) ↔ (body = .resetWatches → conn.transaction = none) := by
  have fine {P : Prop} (sane : Sane (dispatch s key conn body)) (holds : P) : Sane (dispatch s key conn body) ↔ P := ⟨fun _ => holds,fun _ => sane⟩
  cases body with
  | store request => exact fine (serve_sane points request) (by simp)
  | start => exact fine start_sane (by simp)
  | end_ commit => exact fine (end_sane points commit) (by simp)
  | introduce args fault => exact fine (introduce_sane idle args fault) (by simp)
  | setTarget args => exact fine (setTarget_sane args) (by simp)
  | release domid held => exact fine (release_sane domid held) (by simp)
  | other given => exact fine (other_sane points given) (by simp)
  | resetWatches =>
    -- The one handler that frees the transaction of its own request.
    cases pointed : conn.transaction with
    | none => exact fine (reset_sane pointed) (by simp)
    | some id =>
      rw [dispatch,resetConn,connDeleteAllTransactions,pointed]
      exact ⟨fun sane => absurd rfl sane.1,fun none_ => by simp at none_⟩

theorem settle_sane (key : Key) (result : Except Crash (State × Reply)) : Sane (settle key result) ↔ Sane result := by
  unfold settle
  split
  · exact ⟨fun sane => ⟨fun eq => sane.1 (by cases eq; rfl),fun eq => sane.2 (by cases eq; rfl)⟩,
      fun sane => ⟨fun eq => sane.1 (by cases eq; rfl),fun eq => sane.2 (by cases eq; rfl)⟩⟩
  · split
    · exact ⟨fun _ => .ok _,fun _ => ⟨by simp,by simp⟩⟩
    · exact ⟨fun _ => .ok _,fun _ => .ok _⟩

theorem dispatch_idle (idle : IdleBut key s) (done : dispatch s key conn body = .ok (s',reply)) : IdleBut key s' := by
  have own (state : State) (same : state.conns = s.conns) (conn' : Connection) : IdleBut key (setConn state key conn') :=
    IdleBut.setConn (fun other conn differ is => idle other conn differ (same ▸ is)) key conn' fun differ => absurd rfl differ
  cases dispatch_cases done with
  | unchanged | direct => exact idle
  | within => exact own _ rfl _
  | started | closed | committed | reset => exact own s rfl _
  | reintroduced _ _ clear => exact idle.setConn _ _ fun _ => clear
  | introduced => exact idle.setConn _ _ fun _ => rfl
  | @targeted _ _ d _ _ there => exact idle.setConn _ _ fun differ => idle _ d differ there
  | released => exact idle.drop _

def Idle (s : State) : Prop := ∀ key conn, s.conns key = some conn → conn.transaction = none

theorem Idle.but (idle : Idle s) (key : Key) : IdleBut key s := fun other conn _ there => idle other conn there

-- The connection left out is idle too once its transaction pointer is clear.
theorem cleared_idle {conn : Connection} (but : IdleBut key s) (clear : conn.transaction = none) : Idle (setConn s key conn) := by
  intro other conn' there
  by_cases same : other = key
  · subst same
    rw [setConn_self] at there
    cases there
    exact clear
  · rw [setConn_other _ _ same] at there
    exact but other conn' same there

theorem step_idle {event : Event} {answer : Option Reply} (idle : Idle s) (taken : step s event = .ok (s',answer)) : Idle s' := by
  cases step_stepped taken with
  | unknown | already => exact idle
  | served is done =>
    obtain ⟨rfl,_⟩ | ⟨found,middle,conn',_,handled,here,rfl⟩ := processMessage_ok done
    · exact idle
    · have after := dispatch_idle ((idle.but _).setConn _ _ fun differ => absurd rfl differ) handled
      exact cleared_idle after rfl
  | accepted => exact cleared_idle (idle.but _) rfl
  | dropped key =>
    intro other conn there
    refine (idle.but key).drop key other conn (fun same => ?_) there
    subst same
    cases other <;> simp [dropConn] at there

theorem run_idle {events : List Event} (fresh : Fresh s) (ran : Run.run next s events = some s') : Idle s' := by
  refine Run.run_history (P:=fun _ s => Idle s) (fun _ s event last idle taken => ?_) (fun key conn is => (fresh.idle key conn is).2) ran
  obtain ⟨answer,stepped⟩ := next_some taken
  exact step_idle idle stepped

-- RESET_WATCHES must not be sent with the number of an open transaction.
def Calm (s : State) : Event → Prop
  | .request key txId .resetWatches => ∀ conn, s.conns key = some conn → txId = 0 ∨ lookup conn.transactions txId = none
  | _ => True

theorem processMessage_sane (idle : Idle s) (is : s.conns key = some conn) (txId : BitVec 32) (body : Body) :
    Sane (processMessage s key conn txId body) ↔ (body = .resetWatches → txId = 0 ∨ lookup conn.transactions txId = none) := by
  have but : IdleBut key s := fun other conn _ there => idle other conn there
  have pointed (found : Option (BitVec 32)) : IdleBut key (setConn s key {conn with transaction := found}) :=
    but.setConn key _ fun differ => absurd rfl differ
  unfold processMessage transactionLookup
  by_cases zero : txId = 0
  · rw [if_pos zero]
    dsimp only
    rw [idle key conn is,if_neg (by simp),settle_sane,dispatch_sane (fun id eq => by cases eq) (pointed none)]
    simp [zero]
  · rw [if_neg zero]
    cases found : lookup conn.transactions txId with
    | none => exact ⟨fun _ _ => .inr rfl,fun _ => .ok _⟩
    | some t =>
      dsimp only
      rw [idle key conn is,if_neg (by simp),settle_sane,dispatch_sane ?_ (pointed (some txId))]
      · have differs : ¬txId = 0#32 := zero
        simp [differs]
      · intro id eq
        cases eq
        rw [found]
        rfl

theorem asserts_hold_iff {events : List Event} (start : Fresh s) (ran : Run.run next s events = some s') (event : Event) :
    (step s' event ≠ .error .assertion ∧ step s' event ≠ .error .freedTransaction) ↔ Calm s' event := by
  have idle := run_idle start ran
  cases event with
  | accept n canWrite =>
    refine iff_of_true ?_ trivial
    rw [step]
    split
    all_goals exact Sane.ok _
  | drop key => exact iff_of_true (Sane.ok _) trivial
  | request key txId body =>
    cases is : s'.conns key with
    | none =>
      refine iff_of_true ?_ ?_
      · rw [step,is]
        exact Sane.ok _
      · cases body with
        | resetWatches => exact fun conn there => by rw [is] at there; cases there
        | _ => trivial
    | some conn =>
      have message := processMessage_sane idle is txId body
      have answered : (step s' (.request key txId body) ≠ .error .assertion ∧ step s' (.request key txId body) ≠ .error .freedTransaction) ↔
          Sane (processMessage s' key conn txId body) := by
        rw [step,is]
        dsimp only
        cases processMessage s' key conn txId body with
        | error crash => simp [Sane,Except.map]
        | ok result => simp [Sane,Except.map]
      rw [answered,message]
      cases body with
      | resetWatches =>
        refine ⟨fun calm conn' there => ?_,fun calm _ => calm conn is⟩
        rw [is] at there
        cases there
        exact calm rfl
      | _ => exact iff_of_true (by simp) trivial

-- A guest starts a transaction and resets its watches outside it.
def resetOutside : List Event :=
  [.request (.domain 0) 0 (.introduce (some (3,7,1)) none),.request (.domain 3) 0 .start]

theorem asserts_hold_iff_resetOutside : ∃ s, Run.run next boot resetOutside = some s ∧
    step s (.request (.domain 3) 0 .resetWatches) ≠ .error .assertion := by
  have runs : (Run.run next boot resetOutside).isSome = true := by decide +kernel
  obtain ⟨s,ran⟩ := Option.isSome_iff_exists.mp runs
  exact ⟨s,ran,((asserts_hold_iff boot_fresh ran (.request (.domain 3) 0 .resetWatches)).mpr fun _ _ => .inl rfl).1⟩

-- Inside, the daemon is gone.
theorem resetInside_aborts : (Run.run next boot resetOutside).map (fun s =>
    ((s.conns (.domain 3)).map fun conn => conn.who.unprivileged,
      match step s (.request (.domain 3) 1 .resetWatches) with | .error crash => some crash | .ok _ => none)) =
    some (some true,some .assertion) := by decide +kernel

end XenAet.XenstoreAsserts
