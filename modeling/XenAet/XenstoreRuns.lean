import XenAet.XenstoreRemove
import XenAet.XenstoreServer

namespace XenAet.XenstoreRuns
open XenAet.XenstoreNode XenAet.XenstoreWrite XenAet.XenstoreRemove XenAet.XenstoreServer
open Library

variable {s s' : State} {key : Key} {conn : Connection} {t : Transaction} {who : Requester} {reply : Reply}

-- The requests of a log executed one after the other on some database, each with
-- the target and the entry counts it had.
def replay (who : Requester) (store : Store) (changedDomains : List (Nat × Int)) : List Entry → (Store × List (Nat × Int)) × List Reply
  | [] => ((store,changedDomains),[])
  | entry :: rest =>
    let (v,reply) := inside {who with target := entry.target} store changedDomains entry.nbentry entry.request
    let (last,replies) := replay who v.store (v.changedDomains.getD []) rest
    (last,reply :: replies)

theorem replay_append (who : Requester) (store : Store) (changedDomains : List (Nat × Int)) (first second : List Entry) :
    replay who store changedDomains (first ++ second) =
      ((replay who (replay who store changedDomains first).1.1 (replay who store changedDomains first).1.2 second).1,
        (replay who store changedDomains first).2 ++
          (replay who (replay who store changedDomains first).1.1 (replay who store changedDomains first).1.2 second).2) := by
  induction first generalizing store changedDomains with
  | nil => rfl
  | cons entry rest ih =>
    rw [List.cons_append,replay,replay]
    dsimp only
    rw [ih]
    rfl

-- A replay takes the target of each request, not the connection's.
theorem replay_target (who : Requester) (target : Option Nat) (store : Store) (changedDomains : List (Nat × Int)) (log : List Entry) :
    replay {who with target := target} store changedDomains log = replay who store changedDomains log := by
  induction log generalizing store changedDomains with
  | nil => rfl
  | cons entry rest ih =>
    rw [replay,replay]
    dsimp only
    rw [ih]

theorem replay_logged {base store : Store} {changedDomains : List (Nat × Int)} {log : List Entry}
    (replays : replay who base [] log = ((store,changedDomains),log.map Entry.reply)) (nbentry : Nat → Option Nat) (request : Request) :
    replay who base [] (log ++ [⟨who.target,nbentry,request,(inside who store changedDomains nbentry request).2⟩]) =
      (((inside who store changedDomains nbentry request).1.store,
          (inside who store changedDomains nbentry request).1.changedDomains.getD []),
        (log ++ [(⟨who.target,nbentry,request,(inside who store changedDomains nbentry request).2⟩ : Entry)]).map Entry.reply) := by
  rw [replay_append,replays,List.map_append]
  rfl

-- An open transaction: its copy is what its own requests make of the database
-- it started from, and that is still the database if nothing changed since.
structure Sound (store : Store) (generation : Nat) (who : Requester) (t : Transaction) : Prop where
  tree : Tree t.store
  word : t.generation = generationWord t.began
  began : t.began ≤ generation
  same : t.began = generation → store = t.base
  replays : replay who t.base [] t.log = ((t.store,t.changedDomains),t.log.map Entry.reply)

structure Held (s : State) : Prop where
  tree : Tree s.store
  sound : ∀ key conn, s.conns key = some conn → ∀ t ∈ conn.transactions, Sound s.store s.generation conn.who t

theorem Held.setConn (held : Held s) (key : Key) (sound : ∀ t ∈ conn.transactions, Sound s.store s.generation conn.who t) :
    Held (setConn s key conn) := by
  refine ⟨held.tree,fun other conn' is => ?_⟩
  by_cases same : other = key
  · subst same
    rw [setConn_self] at is
    cases is
    exact sound
  · rw [setConn_other s conn same] at is
    exact held.sound other conn' is

theorem Held.without (held : Held s) (key : Key) (nbentry : Nat → Option Nat) :
    Held {s with conns := Function.update s.conns key none,nbentry := nbentry} := by
  refine ⟨held.tree,fun other conn is => ?_⟩
  dsimp only at is
  by_cases same : other = key
  · subst same
    rw [Function.update_self] at is
    cases is
  · rw [Function.update_of_ne same] at is
    exact held.sound other conn is

-- A change of the database is counted, so no transaction that was open then
-- still has the same count.
theorem Held.change (held : Held s) (store : Store) (tree : Tree store) (nbentry : Nat → Option Nat) :
    Held {s with store := store,nbentry := nbentry,generation := s.generation + 1} := by
  refine ⟨tree,fun key conn is t member => ?_⟩
  have old := held.sound key conn is t member
  refine ⟨old.tree,old.word,Nat.le_succ_of_le old.began,fun same => ?_,old.replays⟩
  have before := old.began
  change t.began = s.generation + 1 at same
  omega

theorem lookup_mem {transactions : List Transaction} {id : BitVec 32} (found : lookup transactions id = some t) :
    t ∈ transactions := List.mem_of_find?_eq_some found

theorem mem_setTransaction {id : BitVec 32} {new : Transaction} {transactions : List Transaction}
    (member : t ∈ setTransaction id new transactions) : t = new ∨ t ∈ transactions := by
  induction transactions with
  | nil => cases member
  | cons first rest ih =>
    rw [setTransaction] at member
    split at member
    · rcases List.mem_cons.mp member with rfl | later
      · exact .inl rfl
      · exact .inr (List.mem_cons_of_mem _ later)
    · rcases List.mem_cons.mp member with rfl | later
      · exact .inr List.mem_cons_self
      · exact (ih later).imp_right (List.mem_cons_of_mem _)

-- A request that is answered, on the connection's own view or in its transaction.
inductive Served (s : State) (key : Key) (conn : Connection) (request : Request) (reply : Reply) : State → Prop where
  | direct (settled : Settles s.store (v,reply)) : Served s key conn request reply
      {s with store := v.store,nbentry := v.nbentry,generation := if v.changed then s.generation + 1 else s.generation}
  | within {id : BitVec 32} {old : Transaction} (found : lookup conn.transactions id = some old)
      (ran : inside conn.who old.store old.changedDomains s.nbentry request = (v,reply)) (settled : Settles old.store (v,reply)) :
      Served s key conn request reply
        (setConn {s with nbentry := v.nbentry} key
          {conn with
            transactions := setTransaction id
              {old with store := v.store,changedDomains := v.changedDomains.getD [],
                        log := old.log ++ [⟨conn.who.target,s.nbentry,request,reply⟩]}
              conn.transactions})

def closing (conn : Connection) (id : BitVec 32) : Connection :=
  {conn with transaction := none,transactions := conn.transactions.eraseP fun t => t.id = id,transactionStarted := conn.transactionStarted - 1}

-- What a request can do to the state. Only a privileged connection reaches
-- another one.
inductive Dispatched (s : State) (key : Key) (conn : Connection) : Body → State → Reply → Prop where
  | unchanged {body : Body} (reply : Reply) : (∀ request, body ≠ .store request) → Dispatched s key conn body s reply
  | direct {request : Request} {v : View} {reply : Reply} : conn.transaction = none →
      handle conn.who ⟨s.store,s.nbentry,none,false⟩ request = (v,reply) → Dispatched s key conn (.store request)
        {s with store := v.store,nbentry := v.nbentry,generation := if v.changed then s.generation + 1 else s.generation} reply
  | within {request : Request} {id : BitVec 32} {t : Transaction} {v : View} {reply : Reply} : conn.transaction = some id →
      lookup conn.transactions id = some t → inside conn.who t.store t.changedDomains s.nbentry request = (v,reply) →
      Dispatched s key conn (.store request)
        (setConn {s with nbentry := v.nbentry} key
          {conn with
            transactions := setTransaction id
              {t with store := v.store,changedDomains := v.changedDomains.getD [],
                      log := t.log ++ [⟨conn.who.target,s.nbentry,request,reply⟩]}
              conn.transactions}) reply
  | started {id : BitVec 32} (reply : Reply) : pickId conn.transactions (2 ^ 32) conn.nextTransactionId = some id →
      Dispatched s key conn .start
        (setConn s key {conn with
          transactions := conn.transactions ++ [⟨id,generationWord s.generation,s.store,[],s.store,s.generation,[]⟩],
          nextTransactionId := id + 1,transactionStarted := conn.transactionStarted + 1}) reply
  | closed {id : BitVec 32} {t : Transaction} (commit : Bool) (reply : Reply) : conn.transaction = some id → lookup conn.transactions id = some t →
      Dispatched s key conn (.end_ (some commit)) (setConn s key (closing conn id)) reply
  | committed {id : BitVec 32} {t : Transaction} : conn.transaction = some id → lookup conn.transactions id = some t →
      t.generation = generationWord s.generation → Dispatched s key conn (.end_ (some true))
        {setConn s key (closing conn id) with
          store := t.store,nbentry := t.changedDomains.foldl domainEntryFix s.nbentry,generation := s.generation + 1} .ack
  | reset : conn.transaction = none →
      Dispatched s key conn .resetWatches (setConn s key {conn with transactions := [],transactionStarted := 0}) .ack
  | reintroduced {args : Option (Nat × Nat × Nat)} {fault : Option Errno} {domid : Nat} {old : Connection} : conn.who.unprivileged = false →
      s.conns (.domain domid) = some old → old.transaction = none → Dispatched s key conn (.introduce args fault)
        (setConn s (.domain domid) {old with transactions := [],transactionStarted := 0}) .ack
  | introduced {args : Option (Nat × Nat × Nat)} {fault : Option Errno} {domid : Nat} (mfn : Nat) : conn.who.unprivileged = false →
      s.conns (.domain domid) = none → Dispatched s key conn (.introduce args fault) (newDomain s domid mfn) .ack
  | targeted {args : Option (Nat × Nat)} {domid : Nat} {d : Connection} (tdomid : Nat) : conn.who.unprivileged = false →
      s.conns (.domain domid) = some d → Dispatched s key conn (.setTarget args)
        (setConn s (.domain domid) {d with who := {d.who with target := some tdomid}}) .ack
  | released {arg : Option Nat} {held : Bool} (domid : Nat) : conn.who.unprivileged = false →
      Dispatched s key conn (.release arg held) (dropConn s (.domain domid)) .ack

theorem serve_dispatched {request : Request} (served : serve s key conn request = .ok (s',reply)) :
    Dispatched s key conn (.store request) s' reply := by
  unfold serve at served
  split at served
  · next pointed =>
    cases ran : handle conn.who ⟨s.store,s.nbentry,none,false⟩ request with
    | mk v answer =>
      rw [ran] at served
      cases served
      exact .direct pointed ran
  · next id pointed =>
    split at served
    · cases served
    · next t found =>
      cases ran : inside conn.who t.store t.changedDomains s.nbentry request with
      | mk v answer =>
        rw [ran] at served
        cases served
        exact .within pointed found ran

theorem end_dispatched {commit : Option Bool} (ended : doTransactionEnd s key conn commit = .ok (s',reply)) :
    Dispatched s key conn (.end_ commit) s' reply := by
  unfold doTransactionEnd at ended
  split at ended
  · cases ended
    exact .unchanged _ nofun
  · next commit =>
    split at ended
    · cases ended
      exact .unchanged _ nofun
    · next id pointed =>
      split at ended
      · cases ended
      · next t found =>
        dsimp only at ended
        split at ended
        · next yes =>
          subst yes
          split at ended
          · cases ended
            exact .closed true _ pointed found
          · next word =>
            cases ended
            exact .committed pointed found (not_not.mp word)
        · cases ended
          exact .closed commit _ pointed found

theorem reset_ok (reset : resetConn s key conn = .ok (s',reply)) :
    conn.transaction = none ∧ s' = setConn s key {conn with transactions := [],transactionStarted := 0} ∧ reply = .ack := by
  unfold resetConn connDeleteAllTransactions at reset
  cases pointed : conn.transaction with
  | none =>
    rw [pointed] at reset
    cases reset
    exact ⟨rfl,rfl,rfl⟩
  | some id =>
    rw [pointed] at reset
    cases reset

theorem introduce_dispatched {args : Option (Nat × Nat × Nat)} {fault : Option Errno}
    (introduced : doIntroduce s key conn args fault = .ok (s',reply)) : Dispatched s key conn (.introduce args fault) s' reply := by
  unfold doIntroduce at introduced
  split at introduced
  · cases introduced
    exact .unchanged _ nofun
  · split at introduced
    · cases introduced
      exact .unchanged _ nofun
    · next may =>
      have privileged : conn.who.unprivileged = false := Bool.eq_false_iff.mpr fun wrong => may (.inl wrong)
      split at introduced
      · cases introduced
        exact .unchanged _ nofun
      · split at introduced
        · cases introduced
          exact .unchanged _ nofun
        · cases introduced
          exact .introduced _ privileged ‹_›
        · split at introduced
          · obtain ⟨idle,rfl,rfl⟩ := reset_ok introduced
            exact .reintroduced privileged ‹_› idle
          · cases introduced
            exact .unchanged _ nofun

theorem dispatch_cases {body : Body} (done : dispatch s key conn body = .ok (s',reply)) :
    Dispatched s key conn body s' reply := by
  cases body with
  | store request => exact serve_dispatched done
  | start =>
    change doTransactionStart s key conn = _ at done
    unfold doTransactionStart at done
    split at done
    · cases done
      exact .unchanged _ nofun
    · split at done
      · cases done
        exact .unchanged _ nofun
      · split at done
        · cases done
        · cases done
          exact .started _ ‹_›
  | end_ commit => exact end_dispatched done
  | introduce args fault => exact introduce_dispatched done
  | setTarget args =>
    change doSetTarget s conn args = _ at done
    unfold doSetTarget at done
    split at done
    · cases done
      exact .unchanged _ nofun
    · split at done
      · cases done
        exact .unchanged _ nofun
      · next may =>
        split at done
        · cases done
          exact .targeted _ (Bool.eq_false_iff.mpr fun wrong => may (.inl wrong)) ‹_›
        · cases done
          exact .unchanged _ nofun
  | release domid held =>
    change doRelease s conn domid held = _ at done
    unfold doRelease at done
    split at done
    · cases done
      exact .unchanged _ nofun
    · split at done
      · cases done
        exact .unchanged _ nofun
      · split at done
        · cases done
          exact .unchanged _ nofun
        · next may =>
          split at done
          · cases done
            exact .unchanged _ nofun
          · cases done
            cases held with
            | true => exact .unchanged _ nofun
            | false => exact .released _ (Bool.eq_false_iff.mpr may)
  | resetWatches =>
    obtain ⟨idle,rfl,rfl⟩ := reset_ok done
    exact .reset idle
  | other given =>
    change doOther s conn given = _ at done
    unfold doOther at done
    split at done
    · cases done
      exact .unchanged _ nofun
    · split at done
      · cases done
        exact .unchanged _ nofun
      · cases done

theorem serve_cases {request : Request} (held : Held s) (is : s.conns key = some conn)
    (served : serve s key conn request = .ok (s',reply)) : Served s key conn request reply s' := by
  cases serve_dispatched served with
  | unchanged _ apart => exact absurd rfl (apart request)
  | direct outside ran =>
    have settled := handle_settles (c:=conn.who) (v:=⟨s.store,s.nbentry,none,false⟩) held.tree request
    rw [ran] at settled
    exact .direct settled
  | @within _ id t v _ pointed found ran =>
    have old := held.sound key conn is t (lookup_mem found)
    have settled := handle_settles (c:=conn.who) (v:=⟨t.store,s.nbentry,some t.changedDomains,false⟩) old.tree request
    change Settles t.store (inside conn.who t.store t.changedDomains s.nbentry request) at settled
    rw [ran] at settled
    exact .within found ran settled

theorem newDomain_held (held : Held s) (domid mfn : Nat) : Held (newDomain s domid mfn) := by
  let conn : Connection :=
    ⟨⟨domid,true,decide (domid ≠ 0 ∧ domid ≠ s.privDomid),true,none,domainPath domid⟩,mfn,[],0,0,none⟩
  have idle : ∀ t ∈ conn.transactions, Sound s.store s.generation conn.who t := fun t member => by cases member
  have made := held.setConn (.domain domid) idle
  exact ⟨made.tree,made.sound⟩

theorem drop_held (held : Held s) (key : Key) : Held (dropConn s key) := by
  cases key with
  | domain domid => exact held.without _ _
  | socket n => exact held.without _ _

theorem dispatch_held (held : Held s) (is : s.conns key = some conn) (body : Body) (done : dispatch s key conn body = .ok (s',reply)) : Held s' := by
  cases dispatch_cases done with
  | unchanged => exact held
  | @direct request v _ outside ran =>
    have settled := handle_settles (c:=conn.who) (v:=⟨s.store,s.nbentry,none,false⟩) held.tree request
    rw [ran] at settled
    cases changed : v.changed with
    | true => exact held.change _ settled.tree _
    | false =>
      have same : v.store = s.store := settled.unchanged changed
      rw [same]
      exact ⟨held.tree,held.sound⟩
  | @within request id t v _ pointed found ran =>
    have old := held.sound key conn is t (lookup_mem found)
    have settled := handle_settles (c:=conn.who) (v:=⟨t.store,s.nbentry,some t.changedDomains,false⟩) old.tree request
    change Settles t.store (inside conn.who t.store t.changedDomains s.nbentry request) at settled
    have logged := replay_logged old.replays s.nbentry request
    rw [ran] at settled logged
    refine Held.setConn (s:={s with nbentry := v.nbentry}) ⟨held.tree,held.sound⟩ key fun t' member => ?_
    rcases mem_setTransaction member with rfl | other
    · exact ⟨settled.tree,old.word,old.began,old.same,logged⟩
    · exact held.sound key conn is t' other
  | started =>
    refine held.setConn key fun t member => ?_
    rcases List.mem_append.mp member with old | new
    · exact held.sound key conn is t old
    · rw [List.mem_singleton.mp new]
      exact ⟨held.tree,rfl,Nat.le_refl _,fun _ => rfl,rfl⟩
  | closed => exact held.setConn key fun t member => held.sound key conn is t (List.mem_of_mem_eraseP member)
  | @committed id t pointed found word =>
    have closed : Held (setConn s key (closing conn id)) :=
      held.setConn key fun t member => held.sound key conn is t (List.mem_of_mem_eraseP member)
    exact closed.change _ (held.sound key conn is t (lookup_mem found)).tree _
  | reset => exact held.setConn key fun t member => by cases member
  | reintroduced => exact held.setConn _ fun t member => by cases member
  | introduced => exact newDomain_held held _ _
  | @targeted _ domid d tdomid privileged there =>
    refine held.setConn _ fun t member => ?_
    have old := held.sound _ d there t member
    exact ⟨old.tree,old.word,old.began,old.same,(replay_target ..).trans old.replays⟩
  | released => exact drop_held held _

theorem settle_ok {result : Except Crash (State × Reply)} (done : settle key result = .ok (s',reply)) :
    ∃ middle conn, result = .ok (middle,reply) ∧ middle.conns key = some conn ∧
      s' = setConn middle key {conn with transaction := none} := by
  unfold settle at done
  split at done
  · cases done
  · split at done
    · cases done
    · rename_i middle _ _ conn is
      cases done
      exact ⟨middle,conn,rfl,is,rfl⟩

-- A message is refused for its transaction, or handled with the connection
-- pointing at it.
theorem processMessage_ok {txId : BitVec 32} {body : Body} (done : processMessage s key conn txId body = .ok (s',reply)) :
    (s' = s ∧ reply = sendError .ENOENT) ∨
      ∃ found middle conn', transactionLookup conn txId = .ok found ∧
        dispatch (setConn s key {conn with transaction := found}) key {conn with transaction := found} body = .ok (middle,reply) ∧
        middle.conns key = some conn' ∧ s' = setConn middle key {conn' with transaction := none} := by
  unfold processMessage at done
  split at done
  · rename_i errno missing
    cases done
    unfold transactionLookup at missing
    split at missing
    · cases missing
    · split at missing
      · cases missing
      · cases missing
        exact .inl ⟨rfl,rfl⟩
  · rename_i found is
    split at done
    · cases done
    · obtain ⟨middle,conn',handled,here,eq⟩ := settle_ok done
      exact .inr ⟨found,middle,conn',is,handled,here,eq⟩

theorem processMessage_held {txId : BitVec 32} {body : Body} (held : Held s) (is : s.conns key = some conn)
    (done : processMessage s key conn txId body = .ok (s',reply)) : Held s' := by
  obtain ⟨rfl,_⟩ | ⟨found,middle,conn',_,handled,here,rfl⟩ := processMessage_ok done
  · exact held
  · have pointed : Held (setConn s key {conn with transaction := found}) := held.setConn key (held.sound key conn is)
    have after := dispatch_held pointed (setConn_self ..) body handled
    exact after.setConn key (after.sound key conn' here)

theorem step_request {txId : BitVec 32} {body : Body} {answer : Option Reply} (is : s.conns key = some conn)
    (taken : step s (.request key txId body) = .ok (s',answer)) :
    ∃ reply, answer = some reply ∧ processMessage s key conn txId body = .ok (s',reply) := by
  rw [step,is] at taken
  dsimp only at taken
  cases done : processMessage s key conn txId body with
  | error crash =>
    rw [done] at taken
    cases taken
  | ok result =>
    rw [done] at taken
    obtain ⟨last,reply⟩ := result
    cases taken
    exact ⟨reply,rfl,rfl⟩

-- What an event can do: nothing, serve a request, open a connection or end one.
inductive Stepped (s : State) : Event → State → Option Reply → Prop where
  | unknown {key : Key} (txId : BitVec 32) (body : Body) : s.conns key = none → Stepped s (.request key txId body) s none
  | served {key : Key} {conn : Connection} {txId : BitVec 32} {body : Body} {s' : State} {reply : Reply} :
      s.conns key = some conn → processMessage s key conn txId body = .ok (s',reply) → Stepped s (.request key txId body) s' (some reply)
  | already {n : Nat} {conn : Connection} (canWrite : Bool) : s.conns (.socket n) = some conn → Stepped s (.accept n canWrite) s none
  | accepted {n : Nat} (canWrite : Bool) : s.conns (.socket n) = none →
      Stepped s (.accept n canWrite) (setConn s (.socket n) ⟨⟨0,false,false,canWrite,none,domainPath 0⟩,0,[],0,0,none⟩) none
  | dropped (key : Key) : Stepped s (.drop key) (dropConn s key) none

theorem step_stepped {event : Event} {answer : Option Reply} (taken : step s event = .ok (s',answer)) : Stepped s event s' answer := by
  cases event with
  | request key txId body =>
    cases is : s.conns key with
    | none =>
      rw [step,is] at taken
      cases taken
      exact .unknown txId body is
    | some conn =>
      obtain ⟨reply,rfl,done⟩ := step_request is taken
      exact .served is done
  | accept n canWrite =>
    cases is : s.conns (.socket n) with
    | none =>
      rw [step,is] at taken
      cases taken
      exact .accepted canWrite is
    | some conn =>
      rw [step,is] at taken
      cases taken
      exact .already canWrite is
  | drop key =>
    cases taken
    exact .dropped key

theorem step_held {event : Event} {answer : Option Reply} (held : Held s) (taken : step s event = .ok (s',answer)) : Held s' := by
  cases step_stepped taken with
  | unknown | already => exact held
  | served is done => exact processMessage_held held is done
  | accepted => exact held.setConn _ fun t member => by cases member
  | dropped key => exact drop_held held key

theorem next_some {event : Event} (taken : next s event = some s') : ∃ answer, step s event = .ok (s',answer) := by
  unfold next at taken
  split at taken
  · rename_i answer is
    cases taken
    exact ⟨answer,is⟩
  · cases taken

-- The server before its first request: a well-formed database and no transaction.
structure Fresh (s : State) : Prop where
  tree : Tree s.store
  idle : ∀ key conn, s.conns key = some conn → conn.transactions = [] ∧ conn.transaction = none

theorem Fresh.held (fresh : Fresh s) : Held s := by
  refine ⟨fresh.tree,fun key conn is t member => ?_⟩
  rw [(fresh.idle key conn is).1] at member
  cases member

theorem held_run {events : List Event} (held : Held s) (ran : Run.run next s events = some s') : Held s' := by
  refine Run.run_history (P:=fun _ s => Held s) (fun _ s event last held taken => ?_) held ran
  obtain ⟨answer,stepped⟩ := next_some taken
  exact step_held held stepped

theorem run_held {events : List Event} (fresh : Fresh s) (ran : Run.run next s events = some s') : Held s' := held_run fresh.held ran

-- The database and the connection the server makes when there are none.
def manualNode (children : List Name) : Node := ⟨⟨0,false,false⟩,[],[],children⟩

def toolName : Name := "/tool".toList

def xenstoredName : Name := "/tool/xenstored".toList

def setupStructure : Store := fun name =>
  if name = root then some (manualNode ["tool".toList])
  else if name = toolName then some (manualNode ["xenstored".toList])
  else if name = xenstoredName then some (manualNode [])
  else none

def boot : State :=
  {store := setupStructure,generation := 0,nbentry := fun d => if d = 0 then some 0 else none,privDomid := 0,
   conns := fun key => if key = .domain 0 then some ⟨⟨0,true,false,true,none,domainPath 0⟩,0,[],0,0,none⟩ else none}

theorem setupStructure_cases {name : Name} {node : Node} (here : setupStructure name = some node) :
    name = root ∧ node = manualNode ["tool".toList] ∨ name = toolName ∧ node = manualNode ["xenstored".toList] ∨
      name = xenstoredName ∧ node = manualNode [] := by
  unfold setupStructure at here
  split at here
  · exact .inl ⟨‹_›,(Option.some.inj here).symm⟩
  · split at here
    · exact .inr (.inl ⟨‹_›,(Option.some.inj here).symm⟩)
    · split at here
      · exact .inr (.inr ⟨‹_›,(Option.some.inj here).symm⟩)
      · cases here

theorem setupStructure_tree : Tree setupStructure := by
  have tool : Paths.Component '/' "tool".toList := ⟨by decide,by decide⟩
  have daemon : Paths.Component '/' "xenstored".toList := ⟨by decide,by decide⟩
  have toolNamed : Paths.Named '/' toolName := .child .root tool
  refine ⟨rfl,fun name node here => ?_,fun name node here notRoot => ?_,fun name node here comp member => ?_⟩
  · obtain ⟨rfl,_⟩ | ⟨rfl,_⟩ | ⟨rfl,_⟩ := setupStructure_cases here
    · exact ⟨.root,by decide⟩
    · exact ⟨toolNamed,by decide⟩
    · exact ⟨.child toolNamed daemon,by decide⟩
  · obtain ⟨rfl,_⟩ | ⟨rfl,_⟩ | ⟨rfl,_⟩ := setupStructure_cases here
    · exact absurd rfl notRoot
    · exact ⟨manualNode ["tool".toList],by decide,by decide⟩
    · exact ⟨manualNode ["xenstored".toList],by decide,by decide⟩
  · obtain ⟨rfl,rfl⟩ | ⟨rfl,rfl⟩ | ⟨rfl,rfl⟩ := setupStructure_cases here
    · rw [List.mem_singleton.mp member]
      exact ⟨tool,by decide⟩
    · rw [List.mem_singleton.mp member]
      exact ⟨daemon,by decide⟩
    · cases member

theorem boot_fresh : Fresh boot := by
  refine ⟨setupStructure_tree,fun key conn is => ?_⟩
  unfold boot at is
  dsimp only at is
  split at is
  · cases is
    exact ⟨rfl,rfl⟩
  · cases is

end XenAet.XenstoreRuns
