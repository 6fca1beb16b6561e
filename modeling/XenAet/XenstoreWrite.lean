import Mathlib.Algebra.Ring.Nat
import Mathlib.Data.List.Basic
import XenAet.XenstoreNode

namespace XenAet.XenstoreWrite
open XenAet.XenstoreNode
open Library

-- What a request works on: the database of its transaction or the global one,
-- the entry counts of the domains there are, the counts the transaction has put
-- aside if there is one, and whether the request has noted a change.
structure View where
  store : Store
  nbentry : Nat → Option Nat
  changedDomains : Option (List (Nat × Int))
  changed : Bool

def transactionEntryAdd (domid : Nat) (amount : Int) : List (Nat × Int) → List (Nat × Int)
  | [] => [(domid,amount)]
  | (d,nbentry) :: rest => if d = domid then (d,nbentry + amount) :: rest else (d,nbentry) :: transactionEntryAdd domid amount rest

def transactionEntryInc (domid : Nat) : List (Nat × Int) → List (Nat × Int) := transactionEntryAdd domid 1

def transactionEntryDec (domid : Nat) : List (Nat × Int) → List (Nat × Int) := transactionEntryAdd domid (-1)

def domainEntryInc (c : Requester) (v : View) (node : Node) : View :=
  if node.owner.id ≠ c.id ∨ c.domain = true then
    match v.changedDomains with
    | some changed => {v with changedDomains := some (transactionEntryInc node.owner.id changed)}
    | none => {v with nbentry := Function.update v.nbentry node.owner.id ((v.nbentry node.owner.id).map (· + 1))}
  else v

-- Outside a transaction a count stops at zero. Inside, only the requester's own
-- count is looked at.
def domainEntryDec (c : Requester) (v : View) (node : Node) : View :=
  if node.owner.id ≠ c.id ∨ (c.domain = true ∧ v.nbentry c.id ≠ some 0) then
    match v.changedDomains with
    | some changed => {v with changedDomains := some (transactionEntryDec node.owner.id changed)}
    | none => {v with nbentry := Function.update v.nbentry node.owner.id ((v.nbentry node.owner.id).map (· - 1))}
  else v

def domainEntry (c : Requester) (v : View) : Int := if c.unprivileged then (v.nbentry c.id).getD 0 else 0

def addChangeNode (v : View) : View := {v with changed := true}

def recordSize (node : Node) : Nat :=
  3 * 4 + (node.others.length + 1) * 8 + node.data.length + (node.children.map fun comp => comp.length + 1).sum

def put (v : View) (name : Name) (node : Option Node) : View := {v with store := Function.update v.store name node}

def writeNode (c : Requester) (v : View) (name : Name) (node : Node) : Option View :=
  if c.unprivileged = true ∧ quotaMaxEntrySize ≤ recordSize node then none else some (put v name (some node))

-- The new node under its parent, which lists it. Neither is written yet, but the
-- new one is counted, also where a later quota stops the construction.
def constructUnder (c : Requester) (v : View) (name : Name) (parent : Node) (rest : List (Name × Node)) :
    View × Option (Node × List (Name × Node)) :=
  if quotaNbEntryPerDomain ≤ domainEntry c v then (v,none)
  else
    let owner := if c.unprivileged then {parent.owner with id := c.id} else parent.owner
    let node : Node := ⟨owner,parent.others,[],[]⟩
    (domainEntryInc c v node,some (node,(getParent name,{parent with children := parent.children ++ [basename name]}) :: rest))

-- The nodes above the new one, up to the first stored one.
def constructNode (c : Requester) : Nat → View → Name → View × Option (Node × List (Name × Node))
  | 0,v,_ => (v,none)
  | fuel + 1,v,name =>
    match v.store (getParent name) with
    | some parent => constructUnder c v name parent []
    | none =>
      match constructNode c fuel v (getParent name) with
      | (v,none) => (v,none)
      | (v,some (parent,rest)) => constructUnder c v name parent rest

-- The destructors of the nodes already written run when the request is freed.
def destroyNodes (v : View) (written : List Name) : View := written.foldl (fun v name => put v name none) v

def writeNodes (c : Requester) : View → List (Name × Node) → List Name → View × Option Errno
  | v,[],_ => (v,none)
  | v,(name,node) :: rest,written =>
    match writeNode c v name node with
    | some v => writeNodes c v rest (name :: written)
    | none => (destroyNodes (domainEntryDec c v node) written,some .ENOSPC)

-- `construct_node` sets no `errno`: what is sent is the one `get_node` left.
def createNode (c : Requester) (v : View) (name : Name) (data : List UInt8) : View × Option Errno :=
  match constructNode c name.length v name with
  | (v,none) => (v,some .ENOENT)
  | (v,some (node,rest)) => writeNodes c v ((name,{node with data := data}) :: rest) []

def createReply (c : Requester) (v : View) (name : Option Name) (data : List UInt8) : View × Reply :=
  match createNode c v (name.getD []) data with
  | (v,some errno) => (v,sendError errno)
  | (v,none) => (addChangeNode v,.ack)

def doWrite (c : Requester) (v : View) (arg : Option Name) (data : List UInt8) : View × Reply :=
  let name := canonicalize c arg
  match getNode v.store c name toWrite with
  | .error .ENOENT => createReply c v name data
  | .error errno => (v,sendError errno)
  | .ok (name,node) =>
    match writeNode c v name {node with data := data} with
    | none => (v,sendError .ENOSPC)
    | some v => (addChangeNode v,.ack)

def doMkdir (c : Requester) (v : View) (arg : Option Name) : View × Reply :=
  let name := canonicalize c arg
  match getNode v.store c name toWrite with
  | .error .ENOENT => createReply c v name []
  | .error errno => (v,sendError errno)
  | .ok _ => (v,.ack)

def deleteNodeSingle (c : Requester) (v : View) (name : Name) (node : Node) : View := domainEntryDec c (put v name none) node

-- Each level of the recursion has a longer name, so the longest name bounds it.
def deleteNode (c : Requester) : Nat → View → Name → Node → View
  | 0,v,_,_ => v
  | fuel + 1,v,name,node =>
    node.children.foldl (fun v comp =>
      match v.store (name ++ '/' :: comp) with
      | some child => deleteNode c fuel v (name ++ '/' :: comp) child
      | none => v) (deleteNodeSingle c v name node)

def deleteChild (c : Requester) (v : View) (parentname : Name) (parent : Node) (childname : Name) : Option View :=
  if childname ∈ parent.children then writeNode c v parentname {parent with children := parent.children.erase childname} else none

def rm (c : Requester) (v : View) (name : Name) (node : Node) : Option View :=
  match v.store (getParent name) with
  | none => none
  | some parent =>
    match deleteChild c v (getParent name) parent (basename name) with
    | none => none
    | some v => some (deleteNode c xenstoreAbsPathMax v name node)

def doRm (c : Requester) (v : View) (arg : Option Name) : View × Reply :=
  let name := canonicalize c arg
  match getNode v.store c name toWrite with
  | .error .ENOENT => if (v.store (getParent (name.getD []))).isSome then (v,.ack) else (v,sendError .ENOENT)
  | .error errno => (v,sendError errno)
  | .ok (name,node) =>
    if name = root then (v,sendError .EINVAL)
    else match rm c v name node with
      | none => (v,sendError .EINVAL)
      | some v => (addChangeNode v,.ack)

-- The permissions of a request: too few strings, a string that is none, or at
-- least one permission.
inductive PermStrings where
  | few
  | bad
  | perms (owner : Perm) (others : List Perm)
deriving DecidableEq

def doSetPerms (c : Requester) (v : View) (arg : Name) (strings : PermStrings) : View × Reply :=
  match strings with
  | .few => (v,sendError .EINVAL)
  | .bad =>
    match getNode v.store c (canonicalize c (some arg)) toOwn with
    | .error errno => (v,sendError errno)
    | .ok _ => (v,sendError .EINVAL)
  | .perms owner others =>
    match getNode v.store c (canonicalize c (some arg)) toOwn with
    | .error errno => (v,sendError errno)
    | .ok (name,node) =>
      if c.unprivileged = true ∧ owner.id ≠ node.owner.id then (v,sendError .EPERM)
      else
        let new := {node with owner := owner,others := others}
        let v := domainEntryInc c (domainEntryDec c v node) new
        match writeNode c v name new with
        | none => (v,sendError .ENOSPC)
        | some v => (addChangeNode v,.ack)

inductive Request where
  | directory (name : Option Name)
  | read (name : Option Name)
  | getPerms (name : Option Name)
  | write (name : Option Name) (data : List UInt8)
  | mkdir (name : Option Name)
  | rm (name : Option Name)
  | setPerms (name : Name) (strings : PermStrings)
deriving DecidableEq

def handle (c : Requester) (v : View) : Request → View × Reply
  | .directory name => (v,sendDirectory v.store c name)
  | .read name => (v,doRead v.store c name)
  | .getPerms name => (v,doGetPerms v.store c name)
  | .write name data => doWrite c v name data
  | .mkdir name => doMkdir c v name
  | .rm name => doRm c v name
  | .setPerms name strings => doSetPerms c v name strings

end XenAet.XenstoreWrite
