import Mathlib.Data.BitVec
import Mathlib.Algebra.BigOperators.Group.Finset.Basic

namespace XenAet.AetControl

abbrev U64 := BitVec 64

def consecutiveSetPage : Nat := 2
def maxDomNr : Nat := 2
def maxPageNum : Nat := 50000
def maxArraySize : Nat := 40000
def maxPendingPage : Nat := 1000
def hashSize : Nat := 49997
def hashConflictNum : Nat := 2

inductive Track where
  | l1Track | l4Track | pageFaultCount
  deriving DecidableEq,Repr

inductive AetTrackOpen where
  | closed | open_
  deriving DecidableEq,Repr

inductive VaType where
  | set | reversed | userMode
  deriving DecidableEq,Repr

structure TrackedVa where
  va : U64
  l1p : U64
  l1 : U64
  type : VaType
  ec : U64
  mc : U64
  deriving DecidableEq,Repr

structure HashNode where
  mfn : U64
  memCounter : U64
  pf : U64
  deriving DecidableEq,Repr

structure PendingNode where
  sl1mfn : U64
  va : U64
  deriving DecidableEq,Repr

-- `struct AET_ctrl`. Arrays are functions of the index the code computes, so
-- the domain dimension is indexed by the signed `domain_id - 1` and an index
-- outside the declared bounds stays visible as such.
structure AetCtrl where
  open_ : AetTrackOpen
  userModeFault : U64
  reservedBitFault : U64
  bothFault : U64
  setAetMagicCount : U64
  reversedAetMagicCount : U64
  trackedAetMagicCount1 : U64
  pageFaultCount : U64
  totalCount : U64
  tvs : Nat → TrackedVa
  track : Track
  aetHist : Int → Nat → U64
  totRef : Int → U64
  nodeCount : Int → U64
  hns : Int → Nat → Nat → HashNode
  hashConflictNum : U64
  setNum : U64
  pds : Nat → PendingNode

-- `alloc_shared_memory` clears the whole structure.
def zeroed : AetCtrl where
  open_ := .closed
  userModeFault := 0
  reservedBitFault := 0
  bothFault := 0
  setAetMagicCount := 0
  reversedAetMagicCount := 0
  trackedAetMagicCount1 := 0
  pageFaultCount := 0
  totalCount := 0
  tvs := fun _ => ⟨0,0,0,.set,0,0⟩
  track := .l1Track
  aetHist := fun _ _ => 0
  totRef := fun _ => 0
  nodeCount := fun _ => 0
  hns := fun _ _ _ => ⟨0,0,0⟩
  hashConflictNum := 0
  setNum := 0
  pds := fun _ => ⟨0,0⟩

def isAetTrackOpen (c : AetCtrl) : Bool := c.open_ == .open_

def isL1Track (c : AetCtrl) : Bool := isAetTrackOpen c && c.track == .l1Track

def logVa (c : AetCtrl) (row : TrackedVa) : AetCtrl :=
  if c.totalCount + 10 < BitVec.ofNat 64 maxArraySize then
    {c with tvs:=Function.update c.tvs c.totalCount.toNat row,totalCount:=c.totalCount+1}
  else c

def addSetAetMagicCount (c : AetCtrl) (va l1 l1p ec mc : U64) : AetCtrl :=
  let logged := logVa c ⟨va,l1p,l1,.set,ec,mc⟩
  {logged with setAetMagicCount:=logged.setAetMagicCount+1}

def addReversedAetMagicCount (c : AetCtrl) : AetCtrl :=
  {c with reversedAetMagicCount:=c.reversedAetMagicCount+1}

def addTrackedAetMagicCount1 (c : AetCtrl) : AetCtrl :=
  {c with trackedAetMagicCount1:=c.trackedAetMagicCount1+1}

def addPageFaultCount (c : AetCtrl) : AetCtrl := {c with pageFaultCount:=c.pageFaultCount+1}

def addUserModeFaultCount (c : AetCtrl) (va l1 l1p ec mc : U64) : AetCtrl :=
  logVa {c with userModeFault:=c.userModeFault+1} ⟨va,l1p,l1,.userMode,ec,mc⟩

def addReservedBitFaultCount (c : AetCtrl) : AetCtrl := {c with reservedBitFault:=c.reservedBitFault+1}

def addBothFaultCount (c : AetCtrl) : AetCtrl := {c with bothFault:=c.bothFault+1}

end XenAet.AetControl
