import XenAet.XenstoreRuns

namespace XenAet.XenstoreFailures
open XenAet.XenstoreNode XenAet.XenstoreWrite XenAet.XenstoreRemove XenAet.XenstoreServer XenAet.XenstoreRuns
open Library

variable {s s' : State} {key : Key} {conn : Connection} {t : Transaction}

-- The database a request of this connection and transaction works on.
def seen (s : State) (key : Key) (txId : BitVec 32) : Option Store :=
  if txId = 0 then some s.store else (s.conns key).bind fun conn => (lookup conn.transactions txId).map Transaction.store

theorem lookup_setTransaction {id : BitVec 32} {new : Transaction} {transactions : List Transaction}
    (found : lookup transactions id = some t) (same : new.id = id) (other : BitVec 32) :
    lookup (setTransaction id new transactions) other = if other = id then some new else lookup transactions other := by
  unfold lookup at found ⊢
  induction transactions with
  | nil => cases found
  | cons first rest ih =>
    by_cases here : first.id = id
    · by_cases asked : other = id
      · simp [setTransaction,here,asked,same]
      · simp [setTransaction,here,asked,same,Ne.symm asked]
    · rw [List.find?_cons_of_neg (by simpa using here)] at found
      rw [setTransaction,if_neg here]
      by_cases asked : first.id = other
      · rw [List.find?_cons_of_pos (by simpa using asked),List.find?_cons_of_pos (by simpa using asked),if_neg]
        rintro rfl
        exact here asked
      · rw [List.find?_cons_of_neg (by simpa using asked),List.find?_cons_of_neg (by simpa using asked)]
        exact ih found

-- A failed request may have moved entry counts, but no database.
theorem serve_failed {request : Request} {errno : Errno} (held : Held s) (is : s.conns key = some conn)
    (served : serve s key conn request = .ok (s',.error errno)) (other : Key) (id : BitVec 32) : seen s' other id = seen s other id := by
  cases serve_cases held is served with
  | @direct v settled =>
    have same : v.store = s.store := settled.failed errno rfl
    rw [seen,seen,same]
  | @within v current t found ran settled =>
    have same : v.store = t.store := settled.failed errno rfl
    have named : t.id = current := by simpa using List.find?_some found
    rw [seen,seen]
    by_cases here : other = key
    · subst here
      rw [setConn_self,is,Option.bind_some,Option.bind_some]
      dsimp only
      rw [lookup_setTransaction found]
      · by_cases asked : id = current
        · rw [if_pos asked,asked,found,Option.map_some,Option.map_some,same]
          rfl
        · rw [if_neg asked]
          rfl
      · exact named
    · rw [setConn_other _ _ here]
      rfl

-- Pointing a connection at a transaction changes no database.
theorem seen_pointed (is : s.conns key = some conn) (transaction : Option (BitVec 32)) (other : Key) (id : BitVec 32) :
    seen (setConn s key {conn with transaction := transaction}) other id = seen s other id := by
  rw [seen,seen]
  by_cases here : other = key
  · subst here
    rw [setConn_self,is]
    rfl
  · rw [setConn_other _ _ here]
    rfl

theorem request_failed {txId : BitVec 32} {request : Request} {errno : Errno} (held : Held s)
    (taken : step s (.request key txId (.store request)) = .ok (s',some (.error errno))) (other : Key) (id : BitVec 32) :
    seen s' other id = seen s other id := by
  cases is : s.conns key with
  | none =>
    rw [step,is] at taken
    cases taken
  | some conn =>
    obtain ⟨reply,answered,done⟩ := step_request is taken
    cases answered
    obtain ⟨rfl,_⟩ | ⟨found,middle,conn',_,handled,here,rfl⟩ := processMessage_ok done
    · rfl
    · have pointed : Held (setConn s key {conn with transaction := found}) := held.setConn key (held.sound key conn is)
      have failed := serve_failed pointed (setConn_self ..) handled other id
      rw [seen_pointed here,failed,seen_pointed is]

theorem store_stays_tree {events : List Event} (start : Fresh s) (ran : Run.run next s events = some s') :
    (Tree s'.store ∧ ∀ key conn, s'.conns key = some conn → ∀ t ∈ conn.transactions, Tree t.store) ∧
      ∀ key txId request errno last, step s' (.request key txId (.store request)) = .ok (last,some (.error errno)) →
        ∀ other id, seen last other id = seen s' other id := by
  have held := run_held start ran
  refine ⟨⟨held.tree,fun key conn is t member => (held.sound key conn is t member).tree⟩,?_⟩
  intro key txId request errno last taken other id
  exact request_failed held taken other id

def dom0 : Key := .domain 0

-- A guest gets a directory of its own and makes a path in it in a transaction.
def guestPath : List Event :=
  [.request dom0 0 (.introduce (some (3,7,1)) none),
   .request dom0 0 (.store (.mkdir (some "/vm/a".toList))),
   .request dom0 0 (.store (.setPerms "/vm".toList (.perms ⟨3,false,false⟩ []))),
   .request (.domain 3) 0 .start,
   .request (.domain 3) 1 (.store (.write (some "/vm/b/c".toList) [1])),
   .request (.domain 3) 1 (.end_ (some true)),
   .request (.domain 3) 0 (.store (.rm (some "/vm/b".toList)))]

theorem store_stays_tree_guestPath : ∃ s, Run.run next boot guestPath = some s ∧ Tree s.store := by
  have runs : (Run.run next boot guestPath).isSome = true := by decide +kernel
  obtain ⟨s,ran⟩ := Option.isSome_iff_exists.mp runs
  exact ⟨s,ran,(store_stays_tree boot_fresh ran).1.1⟩

end XenAet.XenstoreFailures
