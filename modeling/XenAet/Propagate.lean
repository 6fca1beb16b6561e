import XenAet.PageEntry

namespace XenAet.Propagate
open AetControl PageEntry Library

-- Entries with reserved bits that the fault handler reads back without a walk:
-- guest not present, and emulated MMIO with 28 bits of the guest frame number.
def shL1eMagic : U64 := 0xffffffff00000001
def shL1eMmioMagicMask : U64 := 0xffffffff00000009
def shL1eIsMagic (sl1e : U64) : Bool := Masks.allOf sl1e shL1eMagic
def shL1eGnp : U64 := 0xffffffffffffffff
def shL1eIsGnp (sl1e : U64) : Bool := sl1e == shL1eGnp
def shL1eMmio (gfn : U64) (gflags : Flags) : U64 :=
  shL1eMagic ||| (gfn <<< 4) ||| (gflags &&& (pageUser ||| pageRw)).setWidth 64
def shL1eIsMmio (sl1e : U64) : Bool := (sl1e &&& shL1eMmioMagicMask) == shL1eMagic

def shadowL1eEmpty : U64 := 0

theorem mmio_is_magic (gfn : U64) (gflags : Flags) : shL1eIsMagic (shL1eMmio gfn gflags) = true := by
  rw [shL1eIsMagic,Masks.allOf_iff]
  intro i here
  simp [shL1eMmio,here]

inductive P2mType where
  | ramRw | invalid | ramLogdirty | ramRo | mmioDm | mmioDirect | populateOnDemand | grantMapRw | grantMapRo
  | ramPagingOut | ramPaged | ramPagingIn | ramShared | ramBroken | mapForeign
  deriving DecidableEq,Repr

def p2mIsRam : P2mType → Bool
  | .ramRw | .ramLogdirty | .ramRo | .ramPagingOut | .ramPaged | .ramPagingIn | .ramShared => true
  | _ => false

def p2mIsMmio : P2mType → Bool
  | .mmioDm | .mmioDirect => true
  | _ => false

def p2mIsGrant : P2mType → Bool
  | .grantMapRw | .grantMapRo => true
  | _ => false

def p2mIsReadonly : P2mType → Bool
  | .ramLogdirty | .ramRo | .grantMapRo | .ramShared => true
  | _ => false

def p2mIsValid (t : P2mType) : Bool := p2mIsRam t || p2mIsMmio t

inductive FetchType where
  | prefetch | demandRead | demandWrite
  deriving DecidableEq,Repr

def FetchType.isWrite : FetchType → Bool
  | .demandWrite => true
  | _ => false

inductive GuestType where
  | pv | pvh | hvm
  deriving DecidableEq,Repr

inductive GuestLevels where
  | two | three | four
  deriving DecidableEq,Repr

def GuestLevels.shadowPagingLevels : GuestLevels → Nat
  | .four => 4
  | _ => 3

structure Frame where
  mfnValid : Bool
  xenHeap : Bool
  ownerRefcounts : Bool
  pgcPageTable : Bool
  typeInfo : U64
  shfOosMayWrite : Bool
  isDirty : Bool
  mmioRo : Bool
  iomemPermitted : Bool
  deriving DecidableEq,Repr

def pgtTypeMask : U64 := 0xf000000000000000
def pgtL4PageTable : U64 := 0x4000000000000000

def shMfnIsAPageTable (f : Frame) : Bool :=
  let type := f.typeInfo &&& pgtTypeMask
  f.mfnValid && ((f.ownerRefcounts && f.pgcPageTable) || (type != 0 && decide (type ≤ pgtL4PageTable)))

def mfnOosMayWrite (f : Frame) : Bool := f.pgcPageTable && f.shfOosMayWrite

structure DirtyVram where
  lastDirty : Int
  beginPfn : U64
  endPfn : U64
  deriving DecidableEq,Repr

abbrev PatType := Fin 8

structure Domain where
  guestType : GuestType
  pv32on64 : Bool
  refcounts : Bool
  logDirty : Bool
  isInUcMode : Bool
  dirtyVram : Option DirtyVram
  pinnedCacheattr : U64 → Option PatType

structure Vcpu where
  hvmPagingEnabled : Bool
  cr4Pse : Bool
  hvmNxEnabled : Bool

-- `pat_entry_tbl` holds the host PAT entry of a type; the host PAT always has
-- one for the uncachable type, the fallback for types it lacks.
structure Host where
  cpuHasNx : Bool
  allowSuperpage : Bool
  iommuSnoop : Bool
  patEntryTbl : PatType → Option (Fin 8)
  uncachableEntry : Fin 8
  guestPatType : Flags → U64 → U64 → Bool → PatType
  frame : U64 → Frame

structure Context where
  host : Host
  d : Domain
  v : Vcpu
  levels : GuestLevels

def patTypeUncachable : PatType := 0
def patTypeWrback : PatType := 6

def patEntry2PteFlags (entry : Fin 8) : Flags :=
  let pwt := if entry.val % 2 = 1 then pagePwt else 0
  let pcd := if entry.val / 2 % 2 = 1 then pagePcd else 0
  let pat := if entry.val / 4 % 2 = 1 then pagePat else 0
  pat ||| pcd ||| pwt

def patType2PteFlags (h : Host) (type : PatType) : Flags :=
  patEntry2PteFlags ((h.patEntryTbl type).getD h.uncachableEntry)

-- `get_pat_flags`: the type it settles on is the host's business, the flags are not.
def getPatFlags (h : Host) (gflags : Flags) (gfn mfn : U64) (uncachable : Bool) : Flags :=
  patType2PteFlags h (h.guestPatType gflags gfn mfn uncachable)

def guestSupportsNx (cx : Context) : Bool :=
  if cx.levels = .two || !cx.host.cpuHasNx then false
  else if cx.d.guestType = .pv then cx.host.cpuHasNx
  else cx.v.hvmNxEnabled

def guestSupportsSuperpages (cx : Context) : Bool :=
  if cx.d.guestType = .pv then cx.host.allowSuperpage
  else cx.levels ≠ .two || !cx.v.hvmPagingEnabled || cx.v.cr4Pse

def guestL1eGetFlags (levels : GuestLevels) (intpte : U64) : Flags :=
  match levels with
  | .two => intpte.setWidth 32 &&& lowFlags
  | _ => getPteFlags intpte

def guestL1eGetGfn (levels : GuestLevels) (intpte : U64) : U64 :=
  match levels with
  | .two => (intpte.setWidth 32).setWidth 64 >>> 12
  | _ => l1eGetPfn intpte

def passThruFlags (cx : Context) (f : Frame) : Flags :=
  let flags := pageAccessed ||| pageUser ||| pageRw ||| pagePresent
  let flags := Masks.setIf (guestSupportsNx cx) pageNxBit flags
  Masks.setIf (!cx.d.refcounts && !f.mfnValid) (pagePat ||| pagePcd ||| pagePwt) flags

def cacheFlags (cx : Context) (gflags : Flags) (gfn mfn : U64) (f : Frame) (p2mt : P2mType) : Flags :=
  match cx.d.pinnedCacheattr gfn with
  | some type => patType2PteFlags cx.host type
  | none =>
    if cx.d.isInUcMode then patType2PteFlags cx.host patTypeUncachable
    else if f.iomemPermitted then
      if p2mt = .mmioDirect then getPatFlags cx.host gflags gfn mfn true
      else if cx.host.iommuSnoop then patType2PteFlags cx.host patTypeWrback
      else getPatFlags cx.host gflags gfn mfn false
    else 0

def inDirtyVram (vram : Option DirtyVram) (gfn : U64) : Bool :=
  match vram with
  | none => false
  | some vram => vram.lastDirty == -1 && vram.beginPfn ≤ gfn && gfn < vram.endPfn

def hasDirtyBit (cx : Context) (level : Nat) (gflags : Flags) : Bool :=
  level == 1 || (level == 2 && Masks.anyOf gflags pagePse && guestSupportsSuperpages cx)

def shadowFlags (cx : Context) (gflags : Flags) (gfn mfn : U64) (level : Nat) (ft : FetchType)
    (p2mt : P2mType) : Flags :=
  let f := cx.host.frame mfn
  let caches := level == 1 && cx.d.guestType = .hvm && !(f.mfnValid && f.xenHeap)
  let upper := decide (1 < level) && !(cx.levels.shadowPagingLevels == 3 && level == 3)
  let undirtied := level == 1 && cx.d.logDirty && f.mfnValid && !ft.isWrite && !f.isDirty
  let unwritten := level == 1 && inDirtyVram cx.d.dirtyVram gfn && !ft.isWrite
  let readonly := p2mIsReadonly p2mt || (p2mt = .mmioDirect && f.mmioRo)
  let table := level == 1 && shMfnIsAPageTable f && !(mfnOosMayWrite f && ft = .demandWrite)
  let sflags := gflags &&& passThruFlags cx f
  let sflags := Masks.setIf caches (cacheFlags cx gflags gfn mfn f p2mt) sflags
  let sflags := Masks.setIf upper (pageAccessed ||| pageDirty) sflags
  let sflags := Masks.clearIf (!Masks.anyOf gflags pageAccessed) pagePresent sflags
  let sflags := Masks.clearIf (hasDirtyBit cx level gflags && !Masks.anyOf gflags pageDirty) pageRw sflags
  let sflags := Masks.clearIf undirtied pageRw sflags
  let sflags := Masks.clearIf unwritten pageRw sflags
  let sflags := Masks.clearIf readonly pageRw sflags
  let sflags := Masks.clearIf table pageRw sflags
  Masks.setIf (cx.levels = .four && !cx.d.pv32on64 && cx.d.guestType = .pv) pageUser sflags

-- Besides the entry: whether the domain now has fast MMIO entries, whether
-- `paging_mark_dirty` was called and whether `last_dirty` was stamped.
structure Propagated where
  sp : U64
  fastMmio : Bool
  markDirty : Bool
  stampVram : Bool
  deriving DecidableEq,Repr

def plain (sp : U64) : Propagated := ⟨sp,false,false,false⟩

def shPropagate (cx : Context) (intpte mfn : U64) (level : Nat) (ft : FetchType) (p2mt : P2mType) : Propagated :=
  let gflags := guestL1eGetFlags cx.levels intpte
  let gfn := guestL1eGetGfn cx.levels intpte
  let f := cx.host.frame mfn
  if !p2mIsValid p2mt && !p2mIsGrant p2mt then plain shadowL1eEmpty
  else if !Masks.anyOf gflags pagePresent then plain shadowL1eEmpty
  else if level == 1 && p2mt = .mmioDm then {plain (shL1eMmio gfn gflags) with fastMmio := true}
  else if !f.mfnValid && !(level == 1 && (!cx.d.refcounts || p2mt = .mmioDirect)) then plain shadowL1eEmpty
  else
    { sp := l1eFromPfn mfn (shadowFlags cx gflags gfn mfn level ft p2mt)
      fastMmio := false
      markDirty := level == 1 && cx.d.logDirty && f.mfnValid && ft.isWrite
      stampVram := level == 1 && inDirtyVram cx.d.dirtyVram gfn && ft.isWrite }

theorem pat_entry_bits (entry : Fin 8) (i : Nat) (set : (patEntry2PteFlags entry).getLsbD i = true) :
    i = 3 ∨ i = 4 ∨ i = 7 := by
  have all : ∀ entry : Fin 8, ∀ i : Fin 32, (patEntry2PteFlags entry).getLsbD i = true →
      i.val = 3 ∨ i.val = 4 ∨ i.val = 7 := by decide
  by_cases small : i < 32
  · exact all entry ⟨i,small⟩ set
  · rw [BitVec.getLsbD_of_ge _ _ (by omega)] at set; cases set

theorem cache_bits (cx : Context) (gflags : Flags) (gfn mfn : U64) (f : Frame) (p2mt : P2mType) (i : Nat)
    (set : (cacheFlags cx gflags gfn mfn f p2mt).getLsbD i = true) : i = 3 ∨ i = 4 ∨ i = 7 := by
  unfold cacheFlags getPatFlags patType2PteFlags at set
  split at set
  · exact pat_entry_bits _ i set
  · split at set
    · exact pat_entry_bits _ i set
    · split at set
      · split at set
        · exact pat_entry_bits _ i set
        · split at set <;> exact pat_entry_bits _ i set
      · simp at set

section
variable {cx : Context} {gflags : Flags} {gfn mfn : U64} {level : Nat} {ft : FetchType} {p2mt : P2mType}

theorem cache_clear (other : i ≠ 3 ∧ i ≠ 4 ∧ i ≠ 7) :
    (cacheFlags cx gflags gfn mfn f p2mt).getLsbD i = false := by
  by_contra set
  have place := cache_bits cx gflags gfn mfn f p2mt i (by simpa using set)
  omega

-- The chain of masks, read off at the bits that grant something. A bit that
-- one of them clears is never set again outside PV domains.
theorem flags_present : (shadowFlags cx gflags gfn mfn level ft p2mt).getLsbD 0 =
    (gflags.getLsbD 0 && gflags.getLsbD 5) := by
  simp [shadowFlags,passThruFlags,cache_clear,pageAccessed,pageDirty,pagePresent,pageUser,pageRw,pageNxBit,
    pagePat,pagePwt,pagePcd,Masks.anyOf_bit,-BitVec.getLsbD_eq_getElem]

theorem flags_user (notPv : cx.d.guestType ≠ .pv) :
    (shadowFlags cx gflags gfn mfn level ft p2mt).getLsbD 2 = gflags.getLsbD 2 := by
  simp [shadowFlags,passThruFlags,cache_clear,pageAccessed,pageDirty,pagePresent,pageUser,pageRw,pageNxBit,
    pagePat,pagePwt,pagePcd,notPv,-BitVec.getLsbD_eq_getElem]

theorem flags_nx (supported : guestSupportsNx cx = true) :
    (shadowFlags cx gflags gfn mfn level ft p2mt).getLsbD 23 = gflags.getLsbD 23 := by
  simp [shadowFlags,passThruFlags,cache_clear,pageAccessed,pageDirty,pagePresent,pageUser,pageRw,pageNxBit,
    pagePat,pagePwt,pagePcd,supported,-BitVec.getLsbD_eq_getElem]

structure MayWrite (cx : Context) (gflags : Flags) (gfn : U64) (f : Frame) (level : Nat) (ft : FetchType)
    (p2mt : P2mType) : Prop where
  guest : gflags.getLsbD 1 = true
  dirty : hasDirtyBit cx level gflags = true → gflags.getLsbD 6 = true
  logged : level = 1 → cx.d.logDirty = true → f.mfnValid = true → ft.isWrite = true ∨ f.isDirty = true
  vram : level = 1 → inDirtyVram cx.d.dirtyVram gfn = true → ft.isWrite = true
  mapped : p2mIsReadonly p2mt = false ∧ (p2mt = .mmioDirect → f.mmioRo = false)
  table : level = 1 → shMfnIsAPageTable f = true → mfnOosMayWrite f = true ∧ ft = .demandWrite

theorem flags_rw (set : (shadowFlags cx gflags gfn mfn level ft p2mt).getLsbD 1 = true) :
    MayWrite cx gflags gfn (cx.host.frame mfn) level ft p2mt := by
  simp [shadowFlags,passThruFlags,cache_clear,pageAccessed,pageDirty,pagePresent,pageUser,pageRw,pageNxBit,
    pagePat,pagePwt,pagePcd,Masks.anyOf_bit,-BitVec.getLsbD_eq_getElem] at set
  obtain ⟨⟨⟨⟨⟨guest,dirty⟩,logged⟩,vram⟩,mapped⟩,table⟩ := set
  refine ⟨guest,?_,?_,?_,?_,?_⟩
  · intro has; simpa [has] using dirty
  · intro one on valid; simpa [one,on,valid] using logged
  · intro one inside; simpa [one,inside] using vram
  · exact ⟨mapped.1,fun direct => by simpa [direct] using mapped.2⟩
  · intro one isTable; simpa [one,isTable] using table

end

theorem propagate_cases (cx : Context) (intpte mfn : U64) (level : Nat) (ft : FetchType) (p2mt : P2mType) :
    (shPropagate cx intpte mfn level ft p2mt).sp = shadowL1eEmpty ∨
    (level = 1 ∧ p2mt = .mmioDm ∧ (guestL1eGetFlags cx.levels intpte).getLsbD 0 = true ∧
      (shPropagate cx intpte mfn level ft p2mt).sp =
        shL1eMmio (guestL1eGetGfn cx.levels intpte) (guestL1eGetFlags cx.levels intpte)) ∨
    (shPropagate cx intpte mfn level ft p2mt).sp = l1eFromPfn mfn
      (shadowFlags cx (guestL1eGetFlags cx.levels intpte) (guestL1eGetGfn cx.levels intpte) mfn level ft p2mt) := by
  by_cases invalid : (!p2mIsValid p2mt && !p2mIsGrant p2mt) = true
  · left; simp only [shPropagate,invalid,if_true,plain]
  by_cases absent : (!Masks.anyOf (guestL1eGetFlags cx.levels intpte) pagePresent) = true
  · left; simp only [shPropagate,if_neg invalid,absent,if_true,plain]
  by_cases mmio : (level == 1 && decide (p2mt = .mmioDm)) = true
  · right; left
    have present : (guestL1eGetFlags cx.levels intpte).getLsbD 0 = true := by
      rw [← Masks.anyOf_bit]; simpa [pagePresent] using absent
    rw [Bool.and_eq_true,beq_iff_eq,decide_eq_true_iff] at mmio
    refine ⟨mmio.1,mmio.2,present,?_⟩
    simp only [shPropagate,if_neg absent,mmio.1,mmio.2,plain]
    rfl
  by_cases hole : (!(cx.host.frame mfn).mfnValid &&
      !(level == 1 && (!cx.d.refcounts || decide (p2mt = .mmioDirect)))) = true
  · left; simp only [shPropagate,if_neg invalid,if_neg absent,if_neg mmio,hole,if_true,plain]
  · right; right; simp only [shPropagate,if_neg invalid,if_neg absent,if_neg mmio,if_neg hole]

def granted (sp : U64) (mask : Flags) : Bool := Masks.anyOf (getPteFlags sp) mask

theorem granted_low (small : i < 12) : granted (l1eFromPfn mfn flags) (.twoPow 32 i) = flags.getLsbD i := by
  rw [granted,Masks.anyOf_bit,get_low _ small,from_pfn_low _ _ small]

theorem granted_nx (allowed : granted (l1eFromPfn mfn flags) pageNxBit = false) : flags.getLsbD 23 = false := by
  by_contra set
  rw [granted,pageNxBit,Masks.anyOf_bit,get_high _ (by decide) (by decide),
    from_pfn_high _ _ (by decide) (by decide) (by simpa using set)] at allowed
  cases allowed

-- A shadow entry never grants more than the guest entry. Log-dirty protects
-- frames that have a page structure; a frame without one cannot be logged.
theorem propagate_grants_less (cx : Context) (intpte mfn : U64) (level : Nat) (ft : FetchType) (p2mt : P2mType)
    (notPv : cx.d.guestType ≠ .pv)
    (filled : (shPropagate cx intpte mfn level ft p2mt).sp ≠ shadowL1eEmpty)
    (ordinary : shL1eIsMagic (shPropagate cx intpte mfn level ft p2mt).sp = false) :
    let sp := (shPropagate cx intpte mfn level ft p2mt).sp
    let guest := Masks.anyOf (guestL1eGetFlags cx.levels intpte)
    let f := cx.host.frame mfn
    (granted sp pagePresent = true → guest pagePresent = true ∧ guest pageAccessed = true) ∧
    (granted sp pageRw = true → guest pageRw = true ∧
      (level = 1 ∨ (level = 2 ∧ guest pagePse = true ∧ guestSupportsSuperpages cx = true) →
        guest pageDirty = true)) ∧
    (granted sp pageUser = true → guest pageUser = true) ∧
    (guestSupportsNx cx = true → granted sp pageNxBit = false → guest pageNxBit = false) ∧
    (level = 1 → granted sp pageRw = true →
      (shMfnIsAPageTable f = true → mfnOosMayWrite f = true ∧ ft = .demandWrite) ∧
      p2mIsReadonly p2mt = false ∧
      (cx.d.logDirty = true → f.mfnValid = true → f.isDirty = false → ft = .demandWrite)) := by
  intro sp guest f
  rcases propagate_cases cx intpte mfn level ft p2mt with empty | ⟨_,_,_,magic⟩ | entry
  · exact absurd empty filled
  · rw [magic,mmio_is_magic] at ordinary; cases ordinary
  have may : granted sp pageRw = true → MayWrite cx (guestL1eGetFlags cx.levels intpte)
      (guestL1eGetGfn cx.levels intpte) f level ft p2mt := by
    intro set
    rw [show sp = _ from entry,pageRw,granted_low (by decide)] at set
    exact flags_rw set
  refine ⟨?_,?_,?_,?_,?_⟩
  · intro set
    rw [show sp = _ from entry,pagePresent,granted_low (by decide),flags_present,Bool.and_eq_true] at set
    simpa only [guest,pagePresent,pageAccessed,Masks.anyOf_bit] using set
  · intro set
    have write := may set
    refine ⟨by simpa only [guest,pageRw,Masks.anyOf_bit] using write.guest,fun leaf => ?_⟩
    have has : hasDirtyBit cx level (guestL1eGetFlags cx.levels intpte) = true := by
      simpa [hasDirtyBit,and_assoc] using leaf
    simpa only [guest,pageDirty,Masks.anyOf_bit] using write.dirty has
  · intro set
    rw [show sp = _ from entry,pageUser,granted_low (by decide),flags_user notPv] at set
    simpa only [guest,pageUser,Masks.anyOf_bit] using set
  · intro supported allowed
    rw [show sp = _ from entry] at allowed
    have clear := granted_nx allowed
    rw [flags_nx supported] at clear
    simpa only [guest,pageNxBit,Masks.anyOf_bit] using clear
  · intro one set
    have write := may set
    refine ⟨write.table one,write.mapped.1,fun on valid clean => ?_⟩
    have fetched : ft.isWrite = true := by simpa [show f.isDirty = false from clean] using write.logged one on valid
    cases ft with
    | demandWrite => rfl
    | prefetch => cases fetched
    | demandRead => cases fetched

def ramFrame : Frame := ⟨true,false,false,false,0,false,false,false,false⟩
def deviceFrame : Frame := ⟨false,false,false,false,0,false,false,false,true⟩

def hvmContext (levels : GuestLevels) (logDirty cr4Pse : Bool) : Context where
  host :=
    { cpuHasNx := true, allowSuperpage := true, iommuSnoop := true, patEntryTbl := fun type => some type,
      uncachableEntry := 0, guestPatType := fun _ _ _ _ => patTypeUncachable,
      frame := fun mfn => if mfn < 0x80000 then ramFrame else deviceFrame }
  d := ⟨.hvm,false,true,logDirty,false,none,fun _ => none⟩
  v := ⟨true,cr4Pse,true⟩
  levels := levels

theorem propagate_grants_less_ram :
    granted (shPropagate (hvmContext .four true true) 0x5067 0x80 1 .demandWrite .ramRw).sp pageRw = true ∧
    Masks.anyOf (guestL1eGetFlags .four 0x5067) pageDirty = true := by
  have write : granted (shPropagate (hvmContext .four true true) 0x5067 0x80 1 .demandWrite .ramRw).sp
    pageRw = true := by decide
  have less := propagate_grants_less (hvmContext .four true true) 0x5067 0x80 1 .demandWrite .ramRw
    (by decide) (by decide) (by decide)
  exact ⟨write,(less.2.1 write).2 (.inl rfl)⟩

-- A device frame stays writable on a read under log-dirty, and so does a
-- level-2 entry that has the PSE bit while the guest has it switched off.
theorem propagate_grants_exempt :
    (let cx := hvmContext .four true true
     let sp := (shPropagate cx 0xfee00067 0xfee00 1 .demandRead .mmioDirect).sp
     cx.d.logDirty = true ∧ (cx.host.frame 0xfee00).isDirty = false ∧ sp ≠ shadowL1eEmpty ∧
       shL1eIsMagic sp = false ∧ granted sp pageRw = true) ∧
    (let cx := hvmContext .two false false
     let sp := (shPropagate cx 0x50a7 0x80 2 .demandRead .ramRw).sp
     Masks.anyOf (guestL1eGetFlags .two 0x50a7) pagePse = true ∧
       Masks.anyOf (guestL1eGetFlags .two 0x50a7) pageDirty = false ∧ sp ≠ shadowL1eEmpty ∧
       shL1eIsMagic sp = false ∧ granted sp pageRw = true) := by
  decide

end XenAet.Propagate
