import XenAet.XenstoreRuns

namespace XenAet.XenstoreCommit
open XenAet.XenstoreNode XenAet.XenstoreWrite XenAet.XenstoreServer XenAet.XenstoreRuns
open Library

variable {s s' last : State} {key : Key} {conn : Connection} {t : Transaction} {txId : BitVec 32} {reply : Reply} {answer : Option Reply}

-- Fewer than 2^32 changes apart, equal counters are equal counts.
theorem word_exact {began generation : Nat} (before : began ≤ generation) (few : generation < began + 2 ^ 32)
    (same : generationWord began = generationWord generation) : began = generation := by
  have words := congrArg BitVec.toNat same
  rw [generationWord,generationWord,BitVec.toNat_ofNat,BitVec.toNat_ofNat] at words
  omega

theorem lookup_ok {found : Option (BitVec 32)} (looked : transactionLookup conn txId = .ok found) :
    (txId = 0 ∧ found = none) ∨ found = some txId := by
  unfold transactionLookup at looked
  split at looked
  · cases looked
    exact .inl ⟨‹_›,rfl⟩
  · split at looked
    · cases looked
      exact .inr rfl
    · cases looked

-- An acknowledged commit puts the transaction's copy in place of the database
-- it was taken from.
theorem commit_ok (done : processMessage s key conn txId (.end_ (some true)) = .ok (s',.ack)) (open_ : lookup conn.transactions txId = some t) :
    t.generation = generationWord s.generation ∧ s'.store = t.store := by
  obtain ⟨_,wrong⟩ | ⟨found,middle,conn',looked,handled,_,rfl⟩ := processMessage_ok done
  · cases wrong
  · obtain ⟨rfl,rfl⟩ | rfl := lookup_ok looked
    · cases handled
    · rw [dispatch,doTransactionEnd] at handled
      dsimp only at handled
      rw [open_] at handled
      dsimp only at handled
      rw [if_pos rfl] at handled
      split at handled
      · cases handled
      · rename_i same
        cases handled
        exact ⟨not_not.mp same,rfl⟩

theorem drop_store (s : State) (key : Key) : (dropConn s key).store = s.store := by
  cases key <;> rfl

-- The database changes by requests outside transactions and by commits only.
theorem dispatch_store {body : Body} (done : dispatch s key conn body = .ok (s',reply)) :
    s'.store = s.store ∨ (conn.transaction = none ∧ ∃ request, body = .store request) ∨ body = .end_ (some true) ∧ reply = .ack := by
  cases dispatch_cases done with
  | direct outside => exact .inr (.inl ⟨outside,_,rfl⟩)
  | committed => exact .inr (.inr ⟨rfl,rfl⟩)
  | released => exact .inl (drop_store ..)
  | _ => exact .inl rfl

theorem message_store {body : Body} (done : processMessage s key conn txId body = .ok (s',reply)) :
    s'.store = s.store ∨ (txId = 0 ∧ ∃ request, body = .store request) ∨ body = .end_ (some true) ∧ reply = .ack := by
  obtain ⟨rfl,_⟩ | ⟨found,middle,conn',looked,handled,_,rfl⟩ := processMessage_ok done
  · exact .inl rfl
  · obtain same | ⟨outside,request,rfl⟩ | acked := dispatch_store handled
    · exact .inl same
    · obtain ⟨rfl,_⟩ | rfl := lookup_ok looked
      · exact .inr (.inl ⟨rfl,request,rfl⟩)
      · cases outside
    · exact .inr (.inr acked)

theorem step_store {event : Event} (taken : step s event = .ok (s',answer)) :
    s'.store = s.store ∨ (∃ key request, event = .request key 0 (.store request)) ∨
      ∃ key txId, event = .request key txId (.end_ (some true)) ∧ answer = some .ack := by
  cases step_stepped taken with
  | unknown | already | accepted => exact .inl rfl
  | dropped key => exact .inl (drop_store s key)
  | served is done =>
    obtain same | ⟨rfl,request,rfl⟩ | ⟨rfl,rfl⟩ := message_store done
    · exact .inl same
    · exact .inr (.inl ⟨_,request,rfl⟩)
    · exact .inr (.inr ⟨_,_,rfl,rfl⟩)

-- At an acknowledged commit the logged requests, executed then and there on the
-- database as it is, give the logged answers and the new database. Nothing else
-- that transactions do reaches the database, and each of them works on what it
-- started from and its own requests only.
theorem transactions_serializable {events : List Event} {event : Event} (start : Fresh s) (ran : Run.run next s events = some s')
    (taken : step s' event = .ok (last,answer)) :
    (∀ key txId conn t, event = .request key txId (.end_ (some true)) → answer = some .ack → s'.conns key = some conn →
      lookup conn.transactions txId = some t → s'.generation < t.began + 2 ^ 32 →
        replay conn.who s'.store [] t.log = ((last.store,t.changedDomains),t.log.map Entry.reply)) ∧
    (last.store = s'.store ∨ (∃ key request, event = .request key 0 (.store request)) ∨
      ∃ key txId, event = .request key txId (.end_ (some true)) ∧ answer = some .ack) ∧
    ∀ key conn, s'.conns key = some conn → ∀ t ∈ conn.transactions,
      replay conn.who t.base [] t.log = ((t.store,t.changedDomains),t.log.map Entry.reply) := by
  have held := run_held start ran
  refine ⟨?_,step_store taken,fun key conn is t member => (held.sound key conn is t member).replays⟩
  rintro key txId conn t rfl rfl is open_ few
  obtain ⟨reply,answered,done⟩ := step_request is taken
  cases answered
  obtain ⟨word,put⟩ := commit_ok done open_
  have sound := held.sound key conn is t (lookup_mem open_)
  have unchanged := word_exact sound.began few (sound.word.symm.trans word)
  rw [sound.same unchanged,put]
  exact sound.replays

-- A guest reads and writes in a transaction while others leave the database alone.
def readAndWrite : List Event :=
  [.request (.domain 0) 0 (.introduce (some (3,7,1)) none),
   .request (.domain 0) 0 (.store (.write (some "/vm".toList) [5])),
   .request (.domain 0) 0 (.store (.setPerms "/vm".toList (.perms ⟨3,false,false⟩ []))),
   .request (.domain 3) 0 .start,
   .request (.domain 3) 1 (.store (.read (some "/vm".toList))),
   .request (.domain 3) 1 (.store (.write (some "/vm/b".toList) [1]))]

theorem transactions_serializable_readAndWrite : ∃ s last conn t, Run.run next boot readAndWrite = some s ∧
    step s (.request (.domain 3) 1 (.end_ (some true))) = .ok (last,some .ack) ∧ s.conns (.domain 3) = some conn ∧
    lookup conn.transactions 1 = some t ∧ replay conn.who s.store [] t.log = ((last.store,t.changedDomains),t.log.map Entry.reply) := by
  have runs : (Run.run next boot readAndWrite).isSome = true := by decide +kernel
  obtain ⟨s,ran⟩ := Option.isSome_iff_exists.mp runs
  have acked : (Run.run next boot readAndWrite).map (fun s =>
      (step s (.request (.domain 3) 1 (.end_ (some true)))).toOption.map fun answer => decide (answer.2 = some .ack)) =
        some (some true) := by decide +kernel
  have begun : (Run.run next boot readAndWrite).map (fun s => ((s.conns (.domain 3)).bind fun conn =>
      (lookup conn.transactions 1).map fun t => decide (s.generation < t.began + 2 ^ 32))) = some (some true) := by decide +kernel
  rw [ran,Option.map_some,Option.some.injEq] at acked begun
  obtain ⟨conn,is,begun⟩ := Option.bind_eq_some_iff.mp begun
  obtain ⟨t,open_,few⟩ := Option.map_eq_some_iff.mp begun
  obtain ⟨⟨last,answer⟩,taken,isAck⟩ := Option.map_eq_some_iff.mp acked
  have isAck := of_decide_eq_true isAck
  subst isAck
  have taken : step s (.request (.domain 3) 1 (.end_ (some true))) = .ok (last,some .ack) := by
    cases result : step s (.request (.domain 3) 1 (.end_ (some true))) with
    | error crash =>
      rw [result] at taken
      cases taken
    | ok got =>
      rw [result] at taken
      exact congrArg Except.ok (Option.some.inj taken)
  refine ⟨s,last,conn,t,ran,taken,is,open_,?_⟩
  exact (transactions_serializable boot_fresh ran taken).1 _ _ conn t rfl rfl is open_ (of_decide_eq_true few)

-- The same entries with the target and the counts of another moment.
def asAt (conn : Connection) (nbentry : Nat → Option Nat) (entry : Entry) : Entry :=
  {entry with target := conn.who.target,nbentry := nbentry}

-- A guest is refused a read in a transaction and then gets the node's owner as
-- its target. That is no change of the database, so the commit goes through.
def targetedLate : List Event :=
  [.request (.domain 0) 0 (.introduce (some (2,6,1)) none),
   .request (.domain 0) 0 (.introduce (some (3,7,1)) none),
   .request (.domain 0) 0 (.store (.write (some "/vm".toList) [5])),
   .request (.domain 0) 0 (.store (.setPerms "/vm".toList (.perms ⟨2,false,false⟩ []))),
   .request (.domain 3) 0 .start,
   .request (.domain 3) 1 (.store (.read (some "/vm".toList))),
   .request (.domain 0) 0 (.setTarget (some (3,2)))]

theorem target_changes_read : (Run.run next boot targetedLate).map (fun s =>
    ((s.conns (.domain 3)).bind fun conn => (lookup conn.transactions 1).map fun t =>
        (t.log.map Entry.reply,(replay conn.who s.store [] (t.log.map (asAt conn s.nbentry))).2,decide (s.generation = t.began)),
      match step s (.request (.domain 3) 1 (.end_ (some true))) with | .ok (_,answer) => answer | .error _ => none)) =
    some (some ([.error .EACCES],[.data [5]],true),some .ack) := by decide +kernel

end XenAet.XenstoreCommit
