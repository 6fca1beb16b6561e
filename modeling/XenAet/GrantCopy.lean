import XenAet.Library.LinkedLists
import XenAet.GrantTable

namespace XenAet.GrantCopy
open Library Library.Ledger GrantTable

def gntstBadCopyArg : Int := -10

-- What `__acquire_grant_for_copy` sees of a shared entry beside what
-- `_set_status` does: the referent if the entry is transitive, whether that
-- domain is found, the frame, and the part of the page.
structure Look where
  view : View
  target : Option (Nat × Nat)
  found : Bool
  pagedFrame : Except Int Nat
  subPage : Option (Nat × Nat)

-- Version 1 tables have no transitive grants.
def Look.referent (look : Look) (k : Config) (rd : Nat) : Option (Nat × Nat) := if k.gtVersion rd = 1 then none else look.target

def pinTake (readonly : Bool) (pin : Nat) : Nat := (pin + pinInc readonly .host) % 2^32

def pinDrop (readonly : Bool) (pin : Nat) : Nat := (pin + 2^32 - pinInc readonly .host) % 2^32

-- `unlock_out_clear`, and `__fixup_status_for_copy_pin`.
def clearStatus (readonly : Bool) (pin : Nat) (status : Status) : Status :=
  ⟨status.reading && pin != 0,status.writing && (readonly || pinField .host false pin != 0)⟩

def fixupStatusForCopyPin (pin : Nat) (status : Status) : Status :=
  ⟨status.reading && pinField .host true pin != 0,status.writing && pinField .host false pin != 0⟩

-- The fields that the first to pin an entry fills in.
structure Found where
  isSubPage : Bool
  start : Nat
  length : Nat
  transDomain : Nat
  transGref : Nat
  frame : Nat

-- `start` has 15 bits and `length` 16.
def fill (act : Active) (ldom : Nat) (found : Found) : Active :=
  if act.pin = 0 then
    ⟨act.pin,ldom,found.frame,found.isSubPage,found.start % 2^15,found.length % 2^16,found.transDomain,found.transGref⟩
  else act

def pinEntry (s : State) (rd ref : Nat) (readonly : Bool) (act : Active) : State :=
  s.setActive rd ref {act with pin := pinTake readonly act.pin}

-- The frame, offset and length of a grant.
abbrev Extent := Nat × Nat × Nat

def extent (act : Active) : Extent := (act.frame,act.start,act.length)

-- One look for each level; transitive grants are followed while there is a
-- further one. The lock is dropped for the referent, but calls are taken one
-- after the other here, so the pin is the same when it is taken again.
def acquireGrantForCopy (k : Config) (readonly : Bool) : List Look → Nat → Nat → Nat → State → State × Except Int Extent
  | [],_,_,_,s => (s,.error gntstGeneralError)
  | look :: rest,rd,ref,ldom,s =>
    let act := s.active rd ref
    if k.gtVersion rd = 0 then (s,.error gntstGeneralError)
    else if k.nrGrantEntries rd ≤ ref then (s,.error gntstBadGntref)
    else if act.pin != 0 && (act.domid != ldom || pinFull act.pin) then (s,.error gntstGeneralError)
    else if act.pin != 0 && (readonly || pinWritten act.pin) then (pinEntry s rd ref readonly act,.ok (extent act))
    else
      let (rc,status) := setStatus (k.gtVersion rd) ldom readonly false look.view act.pin (s.status rd ref)
      let s := s.setStatus rd ref status
      let clear := s.setStatus rd ref (clearStatus readonly act.pin status)
      if rc != 0 then (s,.error rc)
      else
        match look.referent k rd with
        | some (td,gref) =>
          if rest.isEmpty || td == rd || !look.found then (clear,.error gntstGeneralError)
          else
            match acquireGrantForCopy k readonly rest td gref rd s with
            | (s,.error rc) =>
              (s.setStatus rd ref (fixupStatusForCopyPin (s.active rd ref).pin (s.status rd ref)),.error rc)
            | (s,.ok (frame,start,length)) =>
              let act := fill (s.active rd ref) ldom ⟨true,start,length,td,gref,frame⟩
              (pinEntry s rd ref readonly act,.ok (extent act))
        | none =>
          match look.pagedFrame with
          | .error rc => (clear,.error rc)
          | .ok frame =>
            let found : Found := match if k.gtVersion rd = 1 then none else look.subPage with
              | some (start,length) => ⟨true,start,length,rd,ref,frame⟩
              | none => ⟨false,0,2^12,rd,ref,frame⟩
            let act := fill act ldom found
            (pinEntry s rd ref readonly act,.ok (extent act))

-- One level of `__release_grant_for_copy`, with its tail call.
def releaseStep (k : Config) (readonly : Bool) (rd ref : Nat) (s : State) : State × Option (Nat × Nat × Bool) :=
  let act := s.active rd ref
  let (td,gref) := if k.gtVersion rd = 1 then (rd,ref) else (act.transDomain,act.transGref)
  let pin := pinDrop readonly act.pin
  let next := if td = rd then none
    else if !readonly && !pinWritten pin then some (td,gref,false)
    else if pin = 0 then some (td,gref,true)
    else none
  ((s.setActive rd ref {act with pin}).setStatus rd ref (settle readonly pin (s.status rd ref)),next)

-- `none`: the calls did not end within `fuel`.
def releaseGrantForCopy (k : Config) : Nat → Bool → Nat → Nat → State → Option State
  | 0,_,_,_,_ => none
  | fuel + 1,readonly,rd,ref,s =>
    match releaseStep k readonly rd ref s with
    | (s,none) => some s
    | (s,some (td,gref,readonly)) => releaseGrantForCopy k fuel readonly td gref s

-- A side of the copy: the domain (`self` if it is DOMID_SELF), a reference or
-- a frame of it, and what the call finds there.
structure CopyPtr where
  self : Bool
  dom : Nat
  isGref : Bool
  ref : Nat
  offset : Nat
  found : Bool
  looks : Look × Look
  pagedFrame : Int

structure Copy where
  ld : Nat
  source : CopyPtr
  dest : CopyPtr
  len : Nat
  permitted : Bool
  typeFree : Bool

-- Whether the side has the grant afterwards, and the error.
def takeSide (k : Config) (op : Copy) (readonly : Bool) (side : CopyPtr) (s : State) : State × Bool × Option Int :=
  if !side.isGref then (s,false,if side.pagedFrame = 0 then none else some side.pagedFrame)
  else
    match acquireGrantForCopy k readonly [side.looks.1,side.looks.2] side.dom side.ref op.ld s with
    | (s,.error rc) => (s,false,some rc)
    | (s,.ok (_,start,length)) => (s,true,if side.offset < start || length < op.len then some gntstGeneralError else none)

def dropSide (k : Config) (fuel : Nat) (readonly have_ : Bool) (side : CopyPtr) (s : State) : Option State :=
  if have_ then releaseGrantForCopy k fuel readonly side.dom side.ref s else some s

-- What is left of the grants, the return code, and, where the call comes to its
-- `memcpy`, the states with the source taken and with both sides.
def gnttabCopy (k : Config) (fuel : Nat) (op : Copy) (s : State) : Option State × Int × Option (State × State) :=
  let finish (s : State) (source dest : Bool) (rc : Int) (copied : Option (State × State)) : Option State × Int × Option (State × State) :=
    ((dropSide k fuel true source op.source s).bind (dropSide k fuel false dest op.dest),rc,copied)
  if 2^12 < op.source.offset + op.len || 2^12 < op.dest.offset + op.len then (some s,gntstBadCopyArg,none)
  else if !op.source.self && !op.source.isGref || !op.dest.self && !op.dest.isGref then (some s,gntstPermissionDenied,none)
  else if !op.source.self && !op.source.found || !op.dest.self && !op.dest.found then (some s,gntstBadDomain,none)
  else if !op.permitted then (some s,gntstPermissionDenied,none)
  else
    match takeSide k op true op.source s with
    | (s1,source,some rc) => finish s1 source false rc none
    | (s1,source,none) =>
      match takeSide k op false op.dest s1 with
      | (s2,dest,some rc) => finish s2 source dest rc none
      | (s2,dest,none) =>
        if op.typeFree then finish s2 source dest 0 (some (s1,s2)) else finish s2 source dest gntstGeneralError none

end XenAet.GrantCopy
