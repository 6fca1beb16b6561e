import Mathlib.Algebra.Group.Nat.Defs
import XenAet.Library.Run
import XenAet.XenstoreWrite

namespace XenAet.XenstoreServer
open XenAet.XenstoreNode XenAet.XenstoreWrite
open Library

-- A domain has one connection, tools connect through sockets.
inductive Key where
  | domain (domid : Nat)
  | socket (n : Nat)
deriving DecidableEq

-- A request of a transaction with its answer, and what it depended on besides
-- the database: the target its connection had and the entry counts there were.
structure Entry where
  target : Option Nat
  nbentry : Nat → Option Nat
  request : Request
  reply : Reply

-- `base`, `began` and `log` record the run and are read by no function of the
-- server: the database copied, the changes made by then, the requests since.
structure Transaction where
  id : BitVec 32
  generation : BitVec 32
  store : Store
  changedDomains : List (Nat × Int)
  base : Store
  began : Nat
  log : List Entry

-- `transaction` is the pointer to the transaction of the request in hand.
structure Connection where
  who : Requester
  mfn : Nat
  transactions : List Transaction
  nextTransactionId : BitVec 32
  transactionStarted : Int
  transaction : Option (BitVec 32)

-- `generation` counts all changes of the database; the server's own counter is
-- its lowest 32 bits.
structure State where
  store : Store
  generation : Nat
  nbentry : Nat → Option Nat
  conns : Key → Option Connection
  privDomid : Nat

def generationWord (generation : Nat) : BitVec 32 := BitVec.ofNat 32 generation

def quotaMaxTransaction : Int := 10

-- The ways not to come back from a request.
inductive Crash where
  | assertion
  | freedTransaction
  | freedConnection
  | endless
deriving DecidableEq

inductive Body where
  | store (request : Request)
  | start
  | end_ (commit : Option Bool)
  | introduce (args : Option (Nat × Nat × Nat)) (fault : Option Errno)
  | setTarget (args : Option (Nat × Nat))
  | release (domid : Option Nat) (held : Bool)
  | resetWatches
  | other (reply : Reply)

def lookup (transactions : List Transaction) (id : BitVec 32) : Option Transaction := transactions.find? fun t => t.id = id

def transactionLookup (conn : Connection) (id : BitVec 32) : Except Errno (Option (BitVec 32)) :=
  if id = 0 then .ok none
  else match lookup conn.transactions id with
    | some _ => .ok (some id)
    | none => .error .ENOENT

def setTransaction (id : BitVec 32) (new : Transaction) : List Transaction → List Transaction
  | [] => []
  | t :: rest => if t.id = id then new :: rest else t :: setTransaction id new rest

def setConn (s : State) (key : Key) (conn : Connection) : State := {s with conns := Function.update s.conns key (some conn)}

@[simp] theorem setConn_self (s : State) (key : Key) (conn : Connection) : (setConn s key conn).conns key = some conn :=
  Function.update_self ..

theorem setConn_other {key other : Key} (s : State) (conn : Connection) (differ : other ≠ key) :
    (setConn s key conn).conns other = s.conns other := Function.update_of_ne differ ..

-- One request of a transaction on the transaction's own database and counts.
def inside (who : Requester) (store : Store) (changedDomains : List (Nat × Int)) (nbentry : Nat → Option Nat) (request : Request) :
    View × Reply := handle who ⟨store,nbentry,some changedDomains,false⟩ request

def serve (s : State) (key : Key) (conn : Connection) (request : Request) : Except Crash (State × Reply) :=
  match conn.transaction with
  | none =>
    let (v,reply) := handle conn.who ⟨s.store,s.nbentry,none,false⟩ request
    .ok ({s with store := v.store,nbentry := v.nbentry,generation := if v.changed then s.generation + 1 else s.generation},reply)
  | some id =>
    match lookup conn.transactions id with
    | none => .error .freedTransaction
    | some t =>
      let (v,reply) := inside conn.who t.store t.changedDomains s.nbentry request
      let t' := {t with store := v.store,changedDomains := v.changedDomains.getD [],
                        log := t.log ++ [⟨conn.who.target,s.nbentry,request,reply⟩]}
      .ok (setConn {s with nbentry := v.nbentry} key {conn with transactions := setTransaction id t' conn.transactions},reply)

-- The first number from `next` on that is not zero and not in use.
def pickId (transactions : List Transaction) : Nat → BitVec 32 → Option (BitVec 32)
  | 0,_ => none
  | turns + 1,next =>
    if next = 0 ∨ (lookup transactions next).isSome = true then pickId transactions turns (next + 1) else some next

def doTransactionStart (s : State) (key : Key) (conn : Connection) : Except Crash (State × Reply) :=
  if conn.transaction.isSome then .ok (s,sendError .EBUSY)
  else if conn.who.id ≠ 0 ∧ quotaMaxTransaction < conn.transactionStarted then .ok (s,sendError .ENOSPC)
  else match pickId conn.transactions (2 ^ 32) conn.nextTransactionId with
    | none => .error .endless
    | some id =>
      let t : Transaction := ⟨id,generationWord s.generation,s.store,[],s.store,s.generation,[]⟩
      .ok (setConn s key {conn with transactions := conn.transactions ++ [t],nextTransactionId := id + 1,
                                    transactionStarted := conn.transactionStarted + 1},
        sendReply (stringsOf [(toString id.toNat).toList]))

def domainEntryFix (nbentry : Nat → Option Nat) (d : Nat × Int) : Nat → Option Nat :=
  Function.update nbentry d.1 ((nbentry d.1).map fun n => (n + d.2).toNat)

def doTransactionEnd (s : State) (key : Key) (conn : Connection) (commit : Option Bool) : Except Crash (State × Reply) :=
  match commit with
  | none => .ok (s,sendError .EINVAL)
  | some commit =>
    match conn.transaction with
    | none => .ok (s,sendError .ENOENT)
    | some id =>
      match lookup conn.transactions id with
      | none => .error .freedTransaction
      | some t =>
        let s := setConn s key {conn with transaction := none,transactions := conn.transactions.eraseP fun t => t.id = id,
                                          transactionStarted := conn.transactionStarted - 1}
        if commit = true then
          if t.generation ≠ generationWord s.generation then .ok (s,sendError .EAGAIN)
          else .ok ({s with store := t.store,nbentry := t.changedDomains.foldl domainEntryFix s.nbentry,
                            generation := s.generation + 1},.ack)
        else .ok (s,.ack)

def connDeleteAllTransactions (conn : Connection) : Except Crash Connection :=
  if conn.transaction.isSome then .error .assertion else .ok {conn with transactions := [],transactionStarted := 0}

def resetConn (s : State) (key : Key) (conn : Connection) : Except Crash (State × Reply) :=
  match connDeleteAllTransactions conn with
  | .error crash => .error crash
  | .ok conn => .ok (setConn s key conn,.ack)

def domainPath (domid : Nat) : Name := "/local/domain/".toList ++ (toString domid).toList

def newDomain (s : State) (domid mfn : Nat) : State :=
  let who : Requester := ⟨domid,true,decide (domid ≠ 0 ∧ domid ≠ s.privDomid),true,none,domainPath domid⟩
  {setConn s (.domain domid) ⟨who,mfn,[],0,0,none⟩ with nbentry := Function.update s.nbentry domid (some 0)}

-- `fault` is what mapping the domain's page or binding its port says.
def doIntroduce (s : State) (key : Key) (conn : Connection) (args : Option (Nat × Nat × Nat)) (fault : Option Errno) :
    Except Crash (State × Reply) :=
  match args with
  | none => .ok (s,sendError .EINVAL)
  | some (domid,mfn,port) =>
    if conn.who.unprivileged = true ∨ conn.who.canWrite = false then .ok (s,sendError .EACCES)
    else if port = 0 then .ok (s,sendError .EINVAL)
    else match s.conns (.domain domid),fault with
      | none,some errno => .ok (s,sendError errno)
      | none,none => .ok (newDomain s domid mfn,.ack)
      | some old,_ => if old.mfn = mfn ∧ Key.domain domid ≠ key then resetConn s (.domain domid) old else .ok (s,sendError .EINVAL)

def doSetTarget (s : State) (conn : Connection) (args : Option (Nat × Nat)) : Except Crash (State × Reply) :=
  match args with
  | none => .ok (s,sendError .EINVAL)
  | some (domid,tdomid) =>
    if conn.who.unprivileged = true ∨ conn.who.canWrite = false then .ok (s,sendError .EACCES)
    else match s.conns (.domain domid),s.conns (.domain tdomid) with
      | some d,some _ => .ok (setConn s (.domain domid) {d with who := {d.who with target := some tdomid}},.ack)
      | _,_ => .ok (s,sendError .ENOENT)

def dropConn (s : State) (key : Key) : State :=
  match key with
  | .domain domid => {s with conns := Function.update s.conns key none,nbentry := Function.update s.nbentry domid none}
  | .socket _ => {s with conns := Function.update s.conns key none}

-- `held` is whether the connection is some other's target, whose reference the
-- free takes away instead.
def doRelease (s : State) (conn : Connection) (arg : Option Nat) (held : Bool) : Except Crash (State × Reply) :=
  match arg with
  | none => .ok (s,sendError .EINVAL)
  | some domid =>
    if domid = 0 then .ok (s,sendError .EINVAL)
    else if conn.who.unprivileged then .ok (s,sendError .EACCES)
    else match s.conns (.domain domid) with
      | none => .ok (s,sendError .ENOENT)
      | some _ => .ok (if held then s else dropConn s (.domain domid),.ack)

-- The other requests (watches, domain queries, debugging) change none of this,
-- but read the current database.
def doOther (s : State) (conn : Connection) (reply : Reply) : Except Crash (State × Reply) :=
  match conn.transaction with
  | none => .ok (s,reply)
  | some id => if (lookup conn.transactions id).isSome then .ok (s,reply) else .error .freedTransaction

def dispatch (s : State) (key : Key) (conn : Connection) : Body → Except Crash (State × Reply)
  | .store request => serve s key conn request
  | .start => doTransactionStart s key conn
  | .end_ commit => doTransactionEnd s key conn commit
  | .introduce args fault => doIntroduce s key conn args fault
  | .setTarget args => doSetTarget s conn args
  | .release domid held => doRelease s conn domid held
  | .resetWatches => resetConn s key conn
  | .other reply => doOther s conn reply

def settle (key : Key) : Except Crash (State × Reply) → Except Crash (State × Reply)
  | .error crash => .error crash
  | .ok (s,reply) =>
    match s.conns key with
    | none => .error .freedConnection
    | some conn => .ok (setConn s key {conn with transaction := none},reply)

def processMessage (s : State) (key : Key) (conn : Connection) (txId : BitVec 32) (body : Body) : Except Crash (State × Reply) :=
  match transactionLookup conn txId with
  | .error errno => .ok (s,sendError errno)
  | .ok found =>
    if conn.transaction.isSome then .error .assertion
    else
      let conn := {conn with transaction := found}
      settle key (dispatch (setConn s key conn) key conn body)

inductive Event where
  | request (key : Key) (txId : BitVec 32) (body : Body)
  | accept (n : Nat) (canWrite : Bool)
  | drop (key : Key)

-- A message of a connection that is not there is no event, nor is a second
-- connection through an open socket.
def step (s : State) : Event → Except Crash (State × Option Reply)
  | .request key txId body =>
    match s.conns key with
    | none => .ok (s,none)
    | some conn => (processMessage s key conn txId body).map fun (s,reply) => (s,some reply)
  | .accept n canWrite =>
    match s.conns (.socket n) with
    | some _ => .ok (s,none)
    | none => .ok (setConn s (.socket n) ⟨⟨0,false,false,canWrite,none,domainPath 0⟩,0,[],0,0,none⟩,none)
  | .drop key => .ok (dropConn s key,none)

def next (s : State) (event : Event) : Option State :=
  match step s event with
  | .ok (s,_) => some s
  | .error _ => none

end XenAet.XenstoreServer
