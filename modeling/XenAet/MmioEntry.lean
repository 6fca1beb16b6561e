import XenAet.PageFault

namespace XenAet.MmioEntry
open AetControl PageEntry Propagate PageFault ShadowEntry Library

def shL1eMmioGetFlags (sl1e : U64) : Flags := (sl1e &&& (pageUser ||| pageRw).setWidth 64).setWidth 32

variable {gfn : U64} {gflags : Flags}

theorem gfnMask_bit (i : Nat) : shL1eMmioGfnMask.getLsbD i = decide (4 ≤ i ∧ i < 32) :=
  Masks.getLsbD_constant (p:=fun i => 4 ≤ i ∧ i < 32) (by decide) (fun _ _ => by omega) i

theorem access_bit (i : Nat) : (pageUser ||| pageRw).getLsbD i = decide (i = 1 ∨ i = 2) :=
  Masks.getLsbD_constant (p:=fun i => i = 1 ∨ i = 2) (by decide) (fun _ _ => by omega) i

theorem mmio_bit (i : Nat) : (shL1eMmio gfn gflags).getLsbD i =
    (decide (i = 0 ∨ 32 ≤ i ∧ i < 64) || (decide (4 ≤ i ∧ i < 64) && gfn.getLsbD (i-4)) || (decide (i = 1 ∨ i = 2) && gflags.getLsbD i)) := by
  rw [shL1eMmio,BitVec.getLsbD_or,BitVec.getLsbD_or,magic_bit,BitVec.getLsbD_shiftLeft,BitVec.getLsbD_setWidth,
    BitVec.getLsbD_and,access_bit]
  by_cases low : i = 1 ∨ i = 2
  · rcases low with rfl | rfl <;> simp
  · by_cases wide : i < 64 <;> by_cases shifted : i < 4 <;> simp [low,wide,shifted,Nat.not_le.mpr,Nat.not_lt.mp]

theorem mmio_is_mmio : shL1eIsMmio (shL1eMmio gfn gflags) = true := by
  rw [shL1eIsMmio,beq_iff_eq]
  apply BitVec.eq_of_getLsbD_eq
  intro i small
  have mask : shL1eMmioMagicMask.getLsbD i = decide (i = 0 ∨ i = 3 ∨ 32 ≤ i ∧ i < 64) :=
    Masks.getLsbD_constant (p:=fun i => i = 0 ∨ i = 3 ∨ 32 ≤ i ∧ i < 64) (by decide) (fun _ _ => by omega) i
  rw [BitVec.getLsbD_and,mmio_bit,mask,magic_bit]
  by_cases set_ : i = 0 ∨ 32 ≤ i ∧ i < 64
  · have checked : i = 0 ∨ i = 3 ∨ 32 ≤ i ∧ i < 64 := by omega
    simp [set_,checked]
  · by_cases apart : i = 3
    · simp [apart]
    · have unchecked : ¬(i = 0 ∨ i = 3 ∨ 32 ≤ i ∧ i < 64) := by omega
      simp [set_,unchecked]

-- Bit 3 is clear.
theorem mmio_not_gnp : shL1eIsGnp (shL1eMmio gfn gflags) = false := by
  rw [shL1eIsGnp,beq_eq_false_iff_ne]
  intro same
  have bit := congrArg (BitVec.getLsbD · 3) same
  simp only [mmio_bit] at bit
  revert bit
  simp [shL1eGnp]

theorem mmio_get_flags : shL1eMmioGetFlags (shL1eMmio gfn gflags) = gflags &&& (pageUser ||| pageRw) := by
  apply BitVec.eq_of_getLsbD_eq
  intro i small
  rw [shL1eMmioGetFlags,BitVec.getLsbD_setWidth,BitVec.getLsbD_and,mmio_bit,BitVec.getLsbD_setWidth,BitVec.getLsbD_and,access_bit]
  by_cases access : i = 1 ∨ i = 2
  · rcases access with rfl | rfl <;> simp
  · simp [access]

-- 28 bits of the frame number come back.
theorem mmio_get_gfn (gfn : U64) (gflags : Flags) (i : Nat) : (shL1eMmioGetGfn (shL1eMmio gfn gflags)).getLsbD i = (decide (i < 28) && gfn.getLsbD i) := by
  rw [shL1eMmioGetGfn,BitVec.getLsbD_ushiftRight,BitVec.getLsbD_and,mmio_bit,gfnMask_bit,Nat.add_sub_cancel_left]
  by_cases kept : i < 28
  · simp [kept,show 4+i < 64 by omega,show ¬ 32 ≤ 4+i by omega,show 4+i < 32 by omega,show 4+i ≠ 1 by omega,
      show 4+i ≠ 2 by omega]
  · simp [kept,show ¬ 4+i < 32 by omega]

theorem mmio_gfn_iff : shL1eMmioGetGfn (shL1eMmio gfn gflags) = gfn ↔ gfn.toNat < 2^28 := by
  constructor
  · intro same
    apply Nat.lt_pow_two_of_testBit
    intro i high
    have bit := mmio_get_gfn gfn gflags i
    rw [same,decide_eq_false (Nat.not_lt.mpr high),Bool.false_and] at bit
    exact bit
  · intro narrow
    apply BitVec.eq_of_getLsbD_eq
    intro i _
    rw [mmio_get_gfn]
    by_cases kept : i < 28
    · simp [kept]
    · have high : gfn.getLsbD i = false :=
        Nat.testBit_lt_two_pow (Nat.lt_of_lt_of_le narrow (Nat.pow_le_pow_right (by decide) (Nat.not_lt.mp kept)))
      simp [high]

-- The fault handler finds the frame and the access of the guest's entry in
-- `sl1e`, and emulates at that frame when the tables are in sync.
structure ReadBack (gfn : U64) (gflags : Flags) (sl1e : U64) : Prop where
  magic : shL1eIsMagic sl1e = true
  present : shL1eIsGnp sl1e = false
  mmio : shL1eIsMmio sl1e = true
  frame : shL1eMmioGetGfn sl1e = gfn
  flags : shL1eMmioGetFlags sl1e = gflags &&& (pageUser ||| pageRw)
  emulates : ∀ aet f (arrival : Arrival) turns s, arrival.outOfSync = false → arrival.linear.isSome = true →
    linearL1e f arrival s.shadows = sl1e →
    reservedPath aet f arrival turns s = .ended (if arrival.mmioHandled gfn then faultFixed else 0) s

theorem mmio_read_back (narrow : gfn.toNat < 2^28) : ReadBack gfn gflags (shL1eMmio gfn gflags) := by
  refine ⟨mmio_is_magic gfn gflags,mmio_not_gnp,mmio_is_mmio,mmio_gfn_iff.mpr narrow,mmio_get_flags,?_⟩
  intro aet f arrival turns s synced mapped entry
  simp [reservedPath,synced,mapped,entry,mmio_is_magic,mmio_not_gnp,mmio_gfn_iff.mpr narrow]

-- For an entry that maps emulated MMIO space.
theorem mmio_roundtrip_iff (cx : Context) (intpte mfn : U64) (ft : FetchType)
    (present : Masks.anyOf (guestL1eGetFlags cx.levels intpte) pagePresent = true) :
    ReadBack (guestL1eGetGfn cx.levels intpte) (guestL1eGetFlags cx.levels intpte) (shPropagate cx intpte mfn 1 ft .mmioDm).sp ↔
      (guestL1eGetGfn cx.levels intpte).toNat < 2^28 := by
  have written : (shPropagate cx intpte mfn 1 ft .mmioDm).sp =
      shL1eMmio (guestL1eGetGfn cx.levels intpte) (guestL1eGetFlags cx.levels intpte) := by
    simp [shPropagate,present,p2mIsValid,p2mIsMmio,plain]
  rw [written]
  constructor
  · intro read
    exact mmio_gfn_iff.mp read.frame
  · exact mmio_read_back

theorem mmio_roundtrip_iff_vga : ReadBack 0xa0 0x7 (shPropagate (hvmContext .four false true) 0xa0007 0 1 .demandRead .mmioDm).sp :=
  (mmio_roundtrip_iff (hvmContext .four false true) 0xa0007 0 .demandRead (by decide +kernel)).mpr (by decide +kernel)

-- A frame above one terabyte comes back as frame 0.
theorem high_mmio_aliases : guestL1eGetGfn .four 0x10000000007 = 0x10000000 ∧
    shL1eMmioGetGfn (shPropagate (hvmContext .four false true) 0x10000000007 0 1 .demandRead .mmioDm).sp = 0 := by
  exact ⟨by decide +kernel,by decide +kernel⟩

end XenAet.MmioEntry
