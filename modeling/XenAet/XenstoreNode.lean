import Mathlib.Logic.Function.Basic
import XenAet.Library.Paths

namespace XenAet.XenstoreNode
open Library

-- A node's name as its bytes up to the nul.
abbrev Name := List Char

def root : Name := ['/']

def getParent (name : Name) : Name := Paths.parent '/' name

def basename (name : Name) : Name := Paths.afterLast '/' name

def xenstoreAbsPathMax : Nat := 3072
def xenstorePayloadMax : Nat := 4096
def quotaNbEntryPerDomain : Int := 1000
def quotaMaxEntrySize : Nat := 2048

def validChars (name : Name) : Bool := name.all fun c => c.isAlpha || c.isDigit || c ∈ ['-','/','_','@']

def isValidNodename (name : Name) : Bool :=
  ['/'].isPrefixOf name && !(['/'].isSuffixOf name && decide (name ≠ root)) && decide (¬['/','/'] <:+: name) &&
    decide (name.length ≤ xenstoreAbsPathMax) && validChars name

structure Perm where
  id : Nat
  read : Bool
  write : Bool
deriving DecidableEq

-- `owner` is `perms[0]`: its id owns the node and its rights are those of
-- anyone the other entries do not name.
structure Node where
  owner : Perm
  others : List Perm
  data : List UInt8
  children : List Name
deriving DecidableEq

abbrev Store := Name → Option Node

-- A connection as the permission checks see it. `domain` is whether it has one:
-- socket connections have none and id 0.
structure Requester where
  id : Nat
  domain : Bool
  unprivileged : Bool
  canWrite : Bool
  target : Option Nat
  implicitPath : Name
deriving DecidableEq

inductive Errno where
  | EINVAL
  | EACCES
  | EEXIST
  | ENOENT
  | ENOSPC
  | EBUSY
  | EAGAIN
  | ENOSYS
  | EPERM
  | E2BIG
deriving DecidableEq

-- The bits XS_PERM_READ, XS_PERM_WRITE and XS_PERM_OWNER.
structure Rights where
  read : Bool
  write : Bool
  owner : Bool
deriving DecidableEq

def Rights.covers (rights needed : Rights) : Bool :=
  (!needed.read || rights.read) && (!needed.write || rights.write) && (!needed.owner || rights.owner)

def Rights.meets (rights needed : Rights) : Bool :=
  (needed.read && rights.read) || (needed.write && rights.write) || (needed.owner && rights.owner)

def toRead : Rights := ⟨true,false,false⟩
def toWrite : Rights := ⟨false,true,false⟩
def toOwn : Rights := ⟨false,true,true⟩

def names (c : Requester) (id : Nat) : Bool := decide (id = c.id) || decide (c.target = some id)

def permForConn (c : Requester) (node : Node) : Rights :=
  if c.unprivileged = false ∨ names c node.owner.id = true then ⟨true,c.canWrite,true⟩
  else match node.others.find? fun p => names c p.id with
    | some p => ⟨p.read,p.write && c.canWrite,false⟩
    | none => ⟨node.owner.read,node.owner.write && c.canWrite,false⟩

-- The nearest stored node above `name`. Every turn of the loop shortens the name
-- until it is the root.
def nearest (store : Store) : Nat → Name → Option Node
  | 0,_ => none
  | turns + 1,name =>
    match store (getParent name) with
    | some node => some node
    | none => if getParent name = root then none else nearest store turns (getParent name)

def askParents (store : Store) (c : Requester) (name : Name) : Rights :=
  match nearest store name.length name with
  | some node => permForConn c node
  | none => ⟨false,false,false⟩

def errnoFromParents (store : Store) (c : Requester) (name : Name) (errno : Errno) (needed : Rights) : Errno :=
  if (askParents store c name).meets needed then errno else .EACCES

def getNode (store : Store) (c : Requester) (name : Option Name) (needed : Rights) : Except Errno (Name × Node) :=
  match name with
  | none => .error .EINVAL
  | some name =>
    if isValidNodename name = false then .error .EINVAL
    else match store name with
      | none => .error (errnoFromParents store c name .ENOENT needed)
      | some node =>
        if (permForConn c node).covers needed then .ok (name,node)
        else .error (errnoFromParents store c name .EACCES needed)

def canonicalize (c : Requester) : Option Name → Option Name
  | none => none
  | some name =>
    if name.head? = some '/' ∨ name.head? = some '@' then some name else some (c.implicitPath ++ '/' :: name)

inductive Reply where
  | ack
  | data (bytes : List UInt8)
  | error (errno : Errno)
deriving DecidableEq

-- `EPERM` is not among the errors of the wire protocol.
def sendError (errno : Errno) : Reply := .error (if errno = .EPERM then .EINVAL else errno)

def sendReply (bytes : List UInt8) : Reply := if xenstorePayloadMax < bytes.length then sendError .E2BIG else .data bytes

def bytesOf (text : List Char) : List UInt8 := text.map fun c => UInt8.ofNat c.toNat

def stringsOf (texts : List Name) : List UInt8 := texts.flatMap fun text => bytesOf text ++ [0]

-- The number is cut to the ten characters its buffer has room for.
def xsPermToString (p : Perm) : Name :=
  (match p.read,p.write with | false,true => 'w' | true,false => 'r' | true,true => 'b' | false,false => 'n') ::
    (toString (BitVec.ofNat 32 p.id).toInt).toList.take 10

def sendDirectory (store : Store) (c : Requester) (name : Option Name) : Reply :=
  match getNode store c (canonicalize c name) toRead with
  | .error errno => sendError errno
  | .ok (_,node) => sendReply (stringsOf node.children)

def doRead (store : Store) (c : Requester) (name : Option Name) : Reply :=
  match getNode store c (canonicalize c name) toRead with
  | .error errno => sendError errno
  | .ok (_,node) => sendReply node.data

def doGetPerms (store : Store) (c : Requester) (name : Option Name) : Reply :=
  match getNode store c (canonicalize c name) toRead with
  | .error errno => sendError errno
  | .ok (_,node) => sendReply (stringsOf ((node.owner :: node.others).map xsPermToString))

variable {name p : Name} {store : Store} {node : Node}

theorem valid_named (valid : isValidNodename name = true) : Paths.Named '/' name := by
  simp only [isValidNodename,Bool.and_eq_true,Bool.not_eq_true',decide_eq_true_eq,Bool.and_eq_false_iff,decide_eq_false_iff_not,
    not_not,List.isPrefixOf_iff_prefix] at valid
  obtain ⟨⟨⟨⟨starts,ends⟩,single⟩,_⟩,_⟩ := valid
  obtain ⟨rest,is⟩ := starts
  refine Paths.named_of name ⟨rest,is.symm⟩ (ends.symm.imp_right fun open_ last => ?_) single
  obtain ⟨front,eq⟩ := List.getLast?_eq_some_iff.mp last
  have suffix : ['/'].isSuffixOf name = true := List.isSuffixOf_iff_suffix.mpr ⟨front,eq.symm⟩
  rw [suffix] at open_
  cases open_

theorem valid_length (valid : isValidNodename name = true) : name.length ≤ xenstoreAbsPathMax := by
  simp only [isValidNodename,Bool.and_eq_true,decide_eq_true_eq] at valid
  exact valid.1.2

-- The well-formed stores. A name's parent lists it once, and all that is listed
-- is stored.
structure Tree (store : Store) : Prop where
  rooted : (store root).isSome = true
  named : ∀ name node, store name = some node → Paths.Named '/' name ∧ name.length ≤ xenstoreAbsPathMax
  listed : ∀ name node, store name = some node → name ≠ root →
    ∃ above, store (getParent name) = some above ∧ above.children.count (basename name) = 1
  stored : ∀ name node, store name = some node → ∀ comp ∈ node.children,
    Paths.Component '/' comp ∧ (store (Paths.child '/' name comp)).isSome = true

theorem Tree.missing_below (tree : Tree store) (missing : store name = none) : name ≠ root := by
  rintro rfl
  have rooted := tree.rooted
  rw [missing] at rooted
  cases rooted

theorem Tree.parent_stored (tree : Tree store) (here : (store name).isSome = true) (notRoot : name ≠ root) :
    (store (getParent name)).isSome = true := by
  obtain ⟨node,is⟩ := Option.isSome_iff_exists.mp here
  obtain ⟨above,stored,_⟩ := tree.listed name node is notRoot
  rw [stored]
  rfl

theorem Tree.child_listed (tree : Tree store) (named : Paths.Named '/' p) (component : Paths.Component '/' comp)
    (above : store p = some node) (here : (store (Paths.child '/' p comp)).isSome = true) : node.children.count comp = 1 := by
  obtain ⟨below,is⟩ := Option.isSome_iff_exists.mp here
  obtain ⟨parent,stored,once⟩ := tree.listed _ below is (Paths.child_ne_root component)
  rw [getParent,Paths.parent_child named component,above] at stored
  cases stored
  rwa [basename,Paths.afterLast_child component] at once

-- Everything above a stored node is stored.
theorem Tree.above_stored (tree : Tree store) (named : Paths.Named '/' p) (under : Paths.Under '/' p name)
    (here : (store name).isSome = true) : (store p).isSome = true := by
  induction under with
  | self => exact here
  | child under component ih =>
    refine ih ?_
    have above := tree.parent_stored here (Paths.child_ne_root component)
    rwa [getParent,Paths.parent_child (under.named named) component] at above

end XenAet.XenstoreNode
