import XenAet.Library.Run
import XenAet.Library.Counting

namespace XenAet.GrantTable
open Library Library.Ledger

def gntstGeneralError : Int := -1
def gntstBadDomain : Int := -2
def gntstBadGntref : Int := -3
def gntstPermissionDenied : Int := -8

inductive Side where
  | device
  | host
  deriving DecidableEq

-- `act->pin` holds four byte-wide counters: GNTPIN_hstw, hstr, devw and devr,
-- from the lowest byte up.
def pinInc (readonly : Bool) : Side → Nat
  | .host => if readonly then 2^8 else 1
  | .device => if readonly then 2^24 else 2^16

def pinField (side : Side) (readonly : Bool) (pin : Nat) : Nat := pin / pinInc readonly side % 2^8

-- `act->pin & (GNTPIN_hstw_mask|GNTPIN_devw_mask)`.
def pinWritten (pin : Nat) : Bool := pinField .host false pin != 0 || pinField .device false pin != 0

-- `act->pin & 0x80808080U`.
def pinFull (pin : Nat) : Bool :=
  [(Side.host,false),(.host,true),(.device,false),(.device,true)].any fun f => decide (2^7 ≤ pinField f.1 f.2 pin)

-- An active entry of the granting domain.
structure Active where
  pin : Nat
  domid : Nat
  frame : Nat
  isSubPage : Bool
  start : Nat
  length : Nat
  transDomain : Nat
  transGref : Nat

-- GTF_reading and GTF_writing, which are in the shared entry of a version 1
-- table and in the status frames of a version 2 table.
structure Status where
  reading : Bool
  writing : Bool
  deriving DecidableEq

-- The type, flags and domid of a shared entry, which the guest may change.
inductive Kind where
  | invalid
  | permitAccess
  | acceptTransfer
  | transitive
  deriving DecidableEq

structure Header where
  kind : Kind
  subPage : Bool
  readonly : Bool
  domid : Nat

-- What an operation sees of a shared entry. `again` is the second look of a
-- version 2 table, `unstable` a version 1 entry that the guest changed during
-- every one of the compare and exchange attempts.
structure View where
  header : Header
  again : Header
  unstable : Bool

-- The tables of all domains.
structure Config where
  gtVersion : Nat → Nat
  nrGrantEntries : Nat → Nat

structure State where
  active : Nat → Nat → Active
  status : Nat → Nat → Status

def State.setActive (s : State) (rd ref : Nat) (act : Active) : State := {s with active := write s.active rd ref act}

def State.setStatus (s : State) (rd ref : Nat) (status : Status) : State := {s with status := write s.status rd ref status}

-- The tests `_set_status` makes of an entry that is not pinned yet.
def grantsV1 (mapflag : Bool) (domid : Nat) (h : Header) : Bool :=
  h.kind = .permitAccess && !(mapflag && h.subPage) && h.domid == domid

def grantsV2 (mapflag : Bool) (domid : Nat) (h : Header) : Bool :=
  (h.kind = .permitAccess || h.kind = .transitive) && !(mapflag && h.subPage) && h.domid == domid

def setStatusV1 (domid : Nat) (readonly mapflag : Bool) (view : View) (pin : Nat) (status : Status) : Int × Status :=
  if pin == 0 && !grantsV1 mapflag domid view.header then (gntstGeneralError,status)
  else if !readonly && view.header.readonly then (gntstGeneralError,status)
  else if view.unstable then (gntstGeneralError,status)
  else (0,⟨true,status.writing || !readonly⟩)

def setStatusV2 (domid : Nat) (readonly mapflag : Bool) (view : View) (pin : Nat) (status : Status) : Int × Status :=
  if pin == 0 && !grantsV2 mapflag domid view.header then (gntstGeneralError,status)
  else if !readonly && view.header.readonly then (gntstGeneralError,status)
  else if pin == 0 then
    if !grantsV2 mapflag domid view.again || (!readonly && view.again.readonly) then (gntstGeneralError,⟨false,false⟩)
    else (0,⟨true,status.writing || !readonly⟩)
  else if view.again.readonly then (gntstGeneralError,⟨true,false⟩)
  else (0,⟨true,status.writing || !readonly⟩)

def setStatus (version domid : Nat) (readonly mapflag : Bool) (view : View) (pin : Nat) (status : Status) : Int × Status :=
  if version = 1 then setStatusV1 domid readonly mapflag view pin status
  else setStatusV2 domid readonly mapflag view pin status

-- How the flags of an entry are cleared after its pin went down.
def settle (readonly : Bool) (pin : Nat) (status : Status) : Status :=
  ⟨status.reading && pin != 0,status.writing && (readonly || pinWritten pin)⟩

def initial : State where
  active _ _ := ⟨0,0,0,false,0,0,0,0⟩
  status _ _ := ⟨false,false⟩

end XenAet.GrantTable
