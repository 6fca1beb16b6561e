import Mathlib.Data.BitVec
import XenAet.Library.Bits

namespace XenAet.Pdx
open Library Library.BitHole
def maxOrder : Nat := 18

def pageSize : BitVec 64 := 1#64 <<< 12

-- `bsf`, and `max` for a word of zeros.
def scanbit (val : BitVec 64) (max : Nat) : Nat := ((List.range 64).find? val.getLsbD).getD max

def findNextBit (word : BitVec 64) (off : Nat) : Nat := off + scanbit (word >>> off) 64

def findNextZeroBit (word : BitVec 64) (off : Nat) : Nat := off + scanbit (~~~word >>> off) 64

structure Params where
  pfnPdxBottomMask : BitVec 64
  maVaBottomMask : BitVec 64
  pfnTopMask : BitVec 64
  maTopMask : BitVec 64
  pfnHoleMask : BitVec 64
  pfnPdxHoleShift : Nat

variable {p : Params} {mask word pfn pfn' pdx ma va : BitVec 64} {b h i j k off : Nat}

def initial : Params := ⟨BitVec.allOnes 64,BitVec.allOnes 64,0#64,0#64,0#64,0⟩

-- The longest run of zeros that ends below a one, with its first bit. The
-- search position goes up with every turn.
def findHole (mask : BitVec 64) : Nat → Nat → Nat → Nat → Nat × Nat
  | 0,_,bottomShift,holeShift => (bottomShift,holeShift)
  | fuel + 1,j,bottomShift,holeShift =>
    let i := findNextZeroBit mask j
    let j := findNextBit mask i
    if 64 ≤ j then (bottomShift,holeShift)
    else if holeShift < j - i then findHole mask fuel j i (j - i)
    else findHole mask fuel j bottomShift holeShift

def pfnPdxHoleSetup (p : Params) (mask : BitVec 64) : Params :=
  let (bottomShift,holeShift) := findHole mask 64 (maxOrder - 1) 0 0
  if holeShift = 0 then p
  else
    let pfnPdxBottomMask := (1#64 <<< bottomShift) - 1#64
    let pfnHoleMask := ((1#64 <<< holeShift) - 1#64) <<< bottomShift
    let pfnTopMask := ~~~(pfnPdxBottomMask ||| pfnHoleMask)
    { pfnPdxHoleShift := holeShift
      pfnPdxBottomMask
      maVaBottomMask := (pageSize <<< bottomShift) - 1#64
      pfnHoleMask
      pfnTopMask
      maTopMask := pfnTopMask <<< 12 }

def pfnToPdx (p : Params) (pfn : BitVec 64) : BitVec 64 :=
  (pfn &&& p.pfnPdxBottomMask) ||| ((pfn &&& p.pfnTopMask) >>> p.pfnPdxHoleShift)

def pdxToPfn (p : Params) (pdx : BitVec 64) : BitVec 64 :=
  (pdx &&& p.pfnPdxBottomMask) ||| ((pdx <<< p.pfnPdxHoleShift) &&& p.pfnTopMask)

def xenVirtStart : BitVec 64 := 0xffff82d080000000

def directmapVirtStart : BitVec 64 := 0xffff830000000000

-- The offset in the direct map; the image of the hypervisor is at
-- `xen_phys_start`.
def directmapOffset (xenPhysStart va : BitVec 64) : BitVec 64 :=
  if directmapVirtStart ≤ va then va - directmapVirtStart else va + (xenPhysStart - xenVirtStart)

def virtToMaddr (p : Params) (xenPhysStart va : BitVec 64) : BitVec 64 :=
  let va := directmapOffset xenPhysStart va
  (va &&& p.maVaBottomMask) ||| ((va <<< p.pfnPdxHoleShift) &&& p.maTopMask)

def maddrToVirt (p : Params) (ma : BitVec 64) : BitVec 64 :=
  directmapVirtStart + ((ma &&& p.maVaBottomMask) ||| ((ma &&& p.maTopMask) >>> p.pfnPdxHoleShift))

-- The masks, bit by bit, for a hole of `h` bits above the lowest `b`.
structure Shaped (p : Params) (b h : Nat) : Prop where
  inside : b + h ≤ 64
  shift : p.pfnPdxHoleShift = h
  bottom : ∀ i, p.pfnPdxBottomMask.getLsbD i = (decide (i < 64) && decide (i < b))
  hole : ∀ i, p.pfnHoleMask.getLsbD i = (decide (b ≤ i) && decide (i < b + h))
  top : ∀ i, p.pfnTopMask.getLsbD i = (decide (i < 64) && decide (b + h ≤ i))
  maBottom : ∀ i, p.maVaBottomMask.getLsbD i = (decide (i < 64) && decide (i < b + 12))
  maTop : ∀ i, p.maTopMask.getLsbD i = (decide (i < 64) && decide (b + h + 12 ≤ i))

theorem initial_shaped : Shaped initial 64 0 where
  inside := by decide
  shift := rfl
  bottom i := by rw [initial,BitVec.getLsbD_allOnes,Bool.and_self]
  hole i := by
    rw [initial,BitVec.getLsbD_zero]
    by_cases low : 64 ≤ i <;> simp [low]
  top i := by
    rw [initial,BitVec.getLsbD_zero]
    by_cases low : i < 64 <;> simp [low]
  maBottom i := by
    rw [initial,BitVec.getLsbD_allOnes]
    by_cases low : i < 64
    · have : i < 64 + 12 := by omega
      simp [low,this]
    · simp [low]
  maTop i := by
    rw [initial,BitVec.getLsbD_zero]
    by_cases low : i < 64
    · have : ¬64 + 0 + 12 ≤ i := by omega
      simp [this]
    · simp [low]

theorem scanbit_spec (val : BitVec 64) (bound : Nat) : scanbit val bound = bound ∧ val = 0 ∨
    ∃ k < 64, scanbit val bound = k ∧ val.getLsbD k = true ∧ ∀ i < k, val.getLsbD i = false := by
  rw [scanbit]
  cases found : (List.range 64).find? val.getLsbD with
  | none =>
    refine .inl ⟨rfl,BitVec.eq_of_getLsbD_eq fun i small => ?_⟩
    have := List.find?_eq_none.mp found i (List.mem_range.mpr small)
    simpa using this
  | some k =>
    obtain ⟨set_,small,before⟩ := List.find?_range_eq_some.mp found
    exact .inr ⟨k,List.mem_range.mp small,rfl,set_,fun i less => by simpa using before i less⟩

theorem findNextBit_spec (word : BitVec 64) (off : Nat) : off ≤ findNextBit word off ∧ (findNextBit word off < 64 →
    word.getLsbD (findNextBit word off) = true ∧ ∀ i, off ≤ i → i < findNextBit word off → word.getLsbD i = false) := by
  refine ⟨Nat.le_add_right _ _,fun small => ?_⟩
  rw [findNextBit] at small ⊢
  rcases scanbit_spec (word >>> off) 64 with ⟨none,_⟩ | ⟨k,_,is,set_,before⟩
  · omega
  · rw [is]
    simp only [BitVec.getLsbD_ushiftRight] at set_ before
    refine ⟨set_,fun i low high => ?_⟩
    have := before (i - off) (by omega)
    rwa [show off + (i - off) = i by omega] at this

theorem findNextZeroBit_spec (word : BitVec 64) (off : Nat) : off ≤ findNextZeroBit word off ∧
    (findNextZeroBit word off < 64 → word.getLsbD (findNextZeroBit word off) = false) := by
  have is : findNextZeroBit word off = findNextBit (~~~word) off := rfl
  obtain ⟨above,found⟩ := findNextBit_spec (~~~word) off
  rw [is]
  refine ⟨above,fun small => ?_⟩
  have := (found small).1
  rw [BitVec.getLsbD_not] at this
  simpa [small] using this

-- The search position goes up.
theorem turn_advances (mask : BitVec 64) (j : Nat) : j ≤ findNextZeroBit mask j ∧
    (findNextBit mask (findNextZeroBit mask j) < 64 → findNextZeroBit mask j < findNextBit mask (findNextZeroBit mask j)) := by
  obtain ⟨above,zero⟩ := findNextZeroBit_spec mask j
  obtain ⟨above',one⟩ := findNextBit_spec mask (findNextZeroBit mask j)
  refine ⟨above,fun small => Nat.lt_of_le_of_ne above' fun same => ?_⟩
  have set_ := (one small).1
  rw [← same,zero (by omega)] at set_
  cases set_

theorem findHole_turn (mask : BitVec 64) (fuel j b h : Nat) : findHole mask (fuel + 1) j b h =
    if 64 ≤ findNextBit mask (findNextZeroBit mask j) then (b,h)
    else if h < findNextBit mask (findNextZeroBit mask j) - findNextZeroBit mask j then
      findHole mask fuel (findNextBit mask (findNextZeroBit mask j)) (findNextZeroBit mask j)
        (findNextBit mask (findNextZeroBit mask j) - findNextZeroBit mask j)
    else findHole mask fuel (findNextBit mask (findNextZeroBit mask j)) b h := rfl

-- A run of zeros of the mask.
def Hole (mask : BitVec 64) (b h : Nat) : Prop :=
  h = 0 ∨ maxOrder - 1 ≤ b ∧ b + h < 64 ∧ ∀ i, b ≤ i → i < b + h → mask.getLsbD i = false

theorem findHole_hole (fuel : Nat) (above : maxOrder - 1 ≤ j) (hole : Hole mask b h) :
    Hole mask (findHole mask fuel j b h).1 (findHole mask fuel j b h).2 := by
  induction fuel generalizing j b h with
  | zero => exact hole
  | succ fuel ih =>
    obtain ⟨up,down⟩ := turn_advances mask j
    have run := (findNextBit_spec mask (findNextZeroBit mask j)).2
    rw [findHole_turn]
    by_cases over_ : 64 ≤ findNextBit mask (findNextZeroBit mask j)
    · rw [if_pos over_]
      exact hole
    · have more := down (by omega)
      rw [if_neg over_]
      by_cases longer : h < findNextBit mask (findNextZeroBit mask j) - findNextZeroBit mask j
      · rw [if_pos longer]
        refine ih (by omega) (.inr ⟨by omega,by omega,fun i low high => (run (by omega)).2 i low (by omega)⟩)
      · rw [if_neg longer]
        exact ih (by omega) hole

-- `(1 << c) - 1`; a shift by the word length or more leaves all ones.
theorem lowMask_bit (c i : Nat) : ((1#64 <<< c) - 1#64).getLsbD i = (decide (i < 64) && decide (i < c)) := by
  rcases Nat.lt_or_ge c 64 with small | large
  · have power : 2^c < 2^64 := Nat.pow_lt_pow_right (by decide) small
    have positive := Nat.two_pow_pos c
    have value : ((1#64 <<< c) - 1#64).toNat = 2^c - 1 := by
      rw [BitVec.toNat_sub,BitVec.toNat_shiftLeft]
      simp only [BitVec.toNat_ofNat,Nat.shiftLeft_eq,Nat.one_mod,Nat.one_mul]
      rw [Nat.mod_eq_of_lt power]
      omega
    rw [← BitVec.testBit_toNat,value,Nat.testBit_two_pow_sub_one]
    by_cases low : i < c
    · have : i < 64 := by omega
      simp [low,this]
    · simp [low]
  · have zero : 1#64 <<< c = 0#64 := BitVec.shiftLeft_eq_zero large
    have ones : 0#64 - 1#64 = BitVec.allOnes 64 := by decide
    rw [zero,ones,BitVec.getLsbD_allOnes]
    by_cases low : i < 64
    · have : i < c := by omega
      simp [low,this]
    · simp [low]

theorem setup_shaped (mask : BitVec 64) : ∃ b h, Shaped (pfnPdxHoleSetup initial mask) b h ∧ maxOrder - 1 ≤ b ∧ (maxOrder ≤ b ∨ 0 < h) ∧
    ∀ i, b ≤ i → i < b + h → mask.getLsbD i = false := by
  obtain ⟨b,h,found⟩ : ∃ b h, findHole mask 64 (maxOrder - 1) 0 0 = (b,h) := ⟨_,_,rfl⟩
  have hole := findHole_hole 64 (Nat.le_refl _) (.inl rfl : Hole mask 0 0)
  rw [found] at hole
  simp only [pfnPdxHoleSetup,found]
  by_cases none : h = 0
  · rw [if_pos none]
    exact ⟨64,0,initial_shaped,by decide,.inl (by decide),fun i low high => by omega⟩
  rw [if_neg none]
  obtain ⟨above,inside,clear⟩ := hole.resolve_left none
  have bottom := lowMask_bit b
  have gap (i : Nat) : ((1#64 <<< h - 1#64) <<< b).getLsbD i = (decide (b ≤ i) && decide (i < b + h)) := by
    rw [BitVec.getLsbD_shiftLeft,lowMask_bit]
    by_cases low : i < b
    · simp [low]
    · by_cases high : i < b + h
      · have : i < 64 := by omega
        have : i - b < 64 := by omega
        have : i - b < h := by omega
        have : b ≤ i := by omega
        simp [*]
      · have : ¬i - b < h := by omega
        simp [high,this]
  have top (i : Nat) : (~~~((1#64 <<< b - 1#64) ||| (1#64 <<< h - 1#64) <<< b)).getLsbD i = (decide (i < 64) && decide (b + h ≤ i)) := by
    rw [BitVec.getLsbD_not,BitVec.getLsbD_or,bottom,gap]
    by_cases small : i < 64
    · by_cases low : i < b
      · have : ¬b + h ≤ i := by omega
        simp [small,low,this]
      · have : b ≤ i := by omega
        by_cases high : b + h ≤ i
        · simp [small,low,this,high]
        · simp [small,low,this,high,Nat.lt_of_not_le high]
    · simp [small]
  refine ⟨b,h,⟨by omega,rfl,bottom,gap,top,fun i => ?_,fun i => ?_⟩,above,.inr (Nat.pos_of_ne_zero none),clear⟩
  · have page : pageSize <<< b = 1#64 <<< (12 + b) := (BitVec.shiftLeft_add ..).symm
    rw [page,lowMask_bit,Nat.add_comm]
  · rw [BitVec.getLsbD_shiftLeft,top]
    by_cases small : i < 64
    · by_cases low : i < 12
      · have : ¬b + h + 12 ≤ i := by omega
        simp [low,this]
      · have inside : i - 12 < 64 := by omega
        have same : b + h ≤ i - 12 ↔ b + h + 12 ≤ i := by omega
        simp [small,low,inside,same]
    · simp [small]

theorem getLsbD_pfnToPdx (shaped : Shaped p b h) (pfn : BitVec 64) (i : Nat) :
    (pfnToPdx p pfn).getLsbD i = if i < b then pfn.getLsbD i else pfn.getLsbD (i + h) := by
  rw [pfnToPdx,BitVec.getLsbD_or,BitVec.getLsbD_and,BitVec.getLsbD_ushiftRight,BitVec.getLsbD_and,shaped.bottom,shaped.top,shaped.shift,
    Nat.add_comm h i]
  by_cases small : i + h < 64
  · have : i < 64 := by omega
    by_cases low : i < b
    · have : ¬b ≤ i := by omega
      simp [*]
    · have : b ≤ i := by omega
      simp [*]
  · rw [BitVec.getLsbD_of_ge pfn (i + h) (by omega)]
    by_cases low : i < b
    · have := shaped.inside
      omega
    · simp [low]

theorem getLsbD_pdxToPfn (shaped : Shaped p b h) (pdx : BitVec 64) (i : Nat) :
    (pdxToPfn p pdx).getLsbD i = (decide (i < 64) && if i < b then pdx.getLsbD i else decide (b + h ≤ i) && pdx.getLsbD (i - h)) := by
  rw [pdxToPfn,BitVec.getLsbD_or,BitVec.getLsbD_and,BitVec.getLsbD_and,BitVec.getLsbD_shiftLeft,shaped.bottom,shaped.top,shaped.shift]
  by_cases small : i < 64
  · by_cases low : i < b
    · have : ¬b + h ≤ i := by omega
      simp [*]
    · by_cases high : b + h ≤ i
      · have : h ≤ i := by omega
        simp [*]
      · simp [*]
  · simp [small]

theorem pfnToPdx_toNat (shaped : Shaped p b h) (pfn : BitVec 64) : (pfnToPdx p pfn).toNat = squeeze b h pfn.toNat := by
  refine Nat.eq_of_testBit_eq fun i => ?_
  rw [BitVec.testBit_toNat,getLsbD_pfnToPdx shaped,testBit_squeeze,BitVec.testBit_toNat,BitVec.testBit_toNat]

theorem pdxToPfn_toNat (shaped : Shaped p b h) (fits : pdx.toNat < 2^(64 - h)) : (pdxToPfn p pdx).toNat = stretch b h pdx.toNat := by
  refine Nat.eq_of_testBit_eq fun i => ?_
  rw [BitVec.testBit_toNat,getLsbD_pdxToPfn shaped,testBit_stretch,BitVec.testBit_toNat,BitVec.testBit_toNat]
  by_cases small : i < 64
  · simp [small]
  · have := shaped.inside
    have beyond : pdx.toNat.testBit (i - h) = false :=
      Nat.testBit_lt_two_pow (Nat.lt_of_lt_of_le fits (Nat.pow_le_pow_right (by decide) (by omega)))
    rw [BitVec.testBit_toNat] at beyond
    by_cases low : i < b
    · omega
    · simp [small,low,beyond]

def HoleFree (p : Params) (pfn : BitVec 64) : Prop := pfn &&& p.pfnHoleMask = 0#64

theorem holeFree_iff (shaped : Shaped p b h) : HoleFree p pfn ↔ BitHole.HoleFree b h pfn.toNat := by
  rw [HoleFree,← BitVec.toNat_inj]
  constructor
  · intro clear i low high
    have bit : (pfn &&& p.pfnHoleMask).getLsbD i = false := by rw [BitVec.eq_of_toNat_eq clear,BitVec.getLsbD_zero]
    rw [BitVec.getLsbD_and,shaped.hole] at bit
    rw [BitVec.testBit_toNat]
    simpa [low,high] using bit
  · intro free
    refine congrArg BitVec.toNat (BitVec.eq_of_getLsbD_eq fun i _ => ?_)
    rw [BitVec.getLsbD_and,shaped.hole,BitVec.getLsbD_zero]
    by_cases hole : b ≤ i ∧ i < b + h
    · have := free i hole.1 hole.2
      rw [BitVec.testBit_toNat] at this
      simp [this]
    · by_cases low : b ≤ i
      · have : ¬i < b + h := fun high => hole ⟨low,high⟩
        simp [this]
      · simp [low]

theorem squeeze_fits (shaped : Shaped p b h) (pfn : BitVec 64) : (pfnToPdx p pfn).toNat < 2^(64 - h) := by
  refine Nat.lt_pow_two_of_testBit _ fun i high => ?_
  have := shaped.inside
  rw [BitVec.testBit_toNat,getLsbD_pfnToPdx shaped,if_neg (by omega),BitVec.getLsbD_of_ge _ _ (by omega)]

theorem roundtrip (shaped : Shaped p b h) (free : HoleFree p pfn) : pdxToPfn p (pfnToPdx p pfn) = pfn := by
  refine BitVec.eq_of_toNat_eq ?_
  rw [pdxToPfn_toNat shaped (squeeze_fits shaped pfn),pfnToPdx_toNat shaped,stretch_squeeze ((holeFree_iff shaped).mp free)]

theorem roundtrip_back (shaped : Shaped p b h) (fits : pdx.toNat < 2^(64 - h)) :
    HoleFree p (pdxToPfn p pdx) ∧ pfnToPdx p (pdxToPfn p pdx) = pdx := by
  refine ⟨(holeFree_iff shaped).mpr ?_,BitVec.eq_of_toNat_eq ?_⟩
  · rw [pdxToPfn_toNat shaped fits]
    exact stretch_free b h _
  · rw [pfnToPdx_toNat shaped,pdxToPfn_toNat shaped fits,squeeze_stretch]

theorem ordered (shaped : Shaped p b h) (free : HoleFree p pfn) (free' : HoleFree p pfn') :
    pfn < pfn' ↔ pfnToPdx p pfn < pfnToPdx p pfn' := by
  rw [BitVec.lt_def,BitVec.lt_def,pfnToPdx_toNat shaped,pfnToPdx_toNat shaped,
    squeeze_lt_iff ((holeFree_iff shaped).mp free) ((holeFree_iff shaped).mp free')]

-- The hole may start at bit `maxOrder - 1`; the frames of the upper half of a
-- block are in the hole then.
theorem adjacent {base off : BitVec 64} (shaped : Shaped p b h) (above : maxOrder - 1 ≤ b) (large : maxOrder ≤ b ∨ 0 < h)
    (aligned : 2^maxOrder ∣ base.toNat) (small : off.toNat < 2^maxOrder)
    (free : HoleFree p (base + off) ∨ p.pfnHoleMask.getLsbD (maxOrder - 1) = false) :
    pfnToPdx p (base + off) = pfnToPdx p base + off := by
  obtain ⟨q,block⟩ := aligned
  have bound := base.isLt
  have sum : (base + off).toNat = base.toNat + off.toNat := by
    rw [BitVec.toNat_add,Nat.mod_eq_of_lt]
    simp only [maxOrder] at block small
    omega
  have fits : base.toNat % 2^b + off.toNat < 2^b := by
    rcases Nat.lt_or_ge b maxOrder with below | enough
    · have at_ : b = 17 := by simp only [maxOrder] at above below; omega
      have some_ : 0 < h := large.resolve_left (by omega)
      have clear : off.toNat.testBit 17 = false := by
        rw [shaped.hole] at free
        have bit := (holeFree_iff shaped).mp (free.resolve_right (by simp [maxOrder,at_,some_])) 17 (by omega) (by omega)
        have low : (base.toNat + off.toNat) % 2^18 = off.toNat := by
          simp only [maxOrder] at block small
          omega
        rw [sum] at bit
        have digit := Nat.testBit_mod_two_pow (base.toNat + off.toNat) 18 17
        rw [low,bit] at digit
        exact digit
      have half : off.toNat < 2^17 := by
        refine Nat.lt_pow_two_of_testBit _ fun i high => ?_
        rcases Nat.eq_or_lt_of_le high with rfl | higher
        · exact clear
        · exact Nat.testBit_lt_two_pow (Nat.lt_of_lt_of_le small (Nat.pow_le_pow_right (by decide) higher))
      simp only [maxOrder] at block
      rw [at_]
      omega
    · obtain ⟨more,rfl⟩ := Nat.exists_eq_add_of_le enough
      have rest : base.toNat % 2^(maxOrder + more) = 2^maxOrder * (q % 2^more) := by rw [block,Nat.pow_add,Nat.mul_mod_mul_left]
      have inside : q % 2^more + 1 ≤ 2^more := Nat.mod_lt _ (Nat.two_pow_pos more)
      have whole := Nat.mul_le_mul_left (2^maxOrder) inside
      rw [rest,Nat.pow_add]
      rw [Nat.mul_add] at whole
      omega
  have squeezed := squeeze_add (h:=h) fits
  rw [← sum,← pfnToPdx_toNat shaped,← pfnToPdx_toNat shaped] at squeezed
  refine BitVec.eq_of_toNat_eq ?_
  rw [squeezed,BitVec.toNat_add,Nat.mod_eq_of_lt]
  rw [← squeezed]
  exact (pfnToPdx p (base + off)).isLt

-- With that bit in the hole the upper half of a block is not adjacent.
theorem not_adjacent (shaped : Shaped p b h) (inHole : p.pfnHoleMask.getLsbD (maxOrder - 1) = true) :
    pfnToPdx p (0#64 + 0x20000#64) ≠ pfnToPdx p 0#64 + 0x20000#64 := by
  rw [shaped.hole,Bool.and_eq_true,decide_eq_true_iff,decide_eq_true_iff] at inHole
  obtain ⟨low,high⟩ := inHole
  intro same
  have bit := congrArg (BitVec.getLsbD · (maxOrder - 1)) same
  have none_ : pfnToPdx p 0#64 = 0#64 := by simp [pfnToPdx]
  have above : (0x20000#64).getLsbD (maxOrder - 1 + h) = false :=
    Nat.testBit_lt_two_pow (show 2 ^ (maxOrder - 1) < 2 ^ (maxOrder - 1 + h) from Nat.pow_lt_pow_right (by decide) (by omega))
  simp only [none_,BitVec.zero_add] at bit
  rw [getLsbD_pfnToPdx shaped,if_neg (Nat.not_lt.mpr low),above] at bit
  cases bit

def pageOffset (x : BitVec 64) : BitVec 64 := x &&& (pageSize - 1#64)

theorem getLsbD_pageOffset (x : BitVec 64) (i : Nat) : (pageOffset x).getLsbD i = (decide (i < 12) && x.getLsbD i) := by
  rw [pageOffset,BitVec.getLsbD_and,pageSize,lowMask_bit]
  by_cases low : i < 12
  · have : i < 64 := by omega
    simp [low,this]
  · simp [low]

theorem maddrToVirt_frame (shaped : Shaped p b h) (ma : BitVec 64) :
    maddrToVirt p ma = directmapVirtStart + ((pfnToPdx p (ma >>> 12) <<< 12) ||| pageOffset ma) := by
  rw [maddrToVirt]
  congr 1
  refine BitVec.eq_of_getLsbD_eq fun i small => ?_
  rw [BitVec.getLsbD_or,BitVec.getLsbD_and,BitVec.getLsbD_ushiftRight,BitVec.getLsbD_and,shaped.maBottom,shaped.maTop,shaped.shift,
    BitVec.getLsbD_or,BitVec.getLsbD_shiftLeft,getLsbD_pfnToPdx shaped,getLsbD_pageOffset,BitVec.getLsbD_ushiftRight,BitVec.getLsbD_ushiftRight]
  by_cases page : i < 12
  · have : i < b + 12 := by omega
    have : ¬b + h + 12 ≤ h + i := by omega
    simp [*]
  · by_cases low : i < b + 12
    · have : i - 12 < b := by omega
      have : ¬b + h + 12 ≤ h + i := by omega
      have : 12 + (i - 12) = i := by omega
      simp [*]
    · have : ¬i - 12 < b := by omega
      have : b + h + 12 ≤ h + i := by omega
      have shifted : 12 + (i - 12 + h) = h + i := by omega
      by_cases inside : h + i < 64
      · simp [*]
      · rw [shifted,BitVec.getLsbD_of_ge ma (h + i) (by omega)]
        simp [*]

theorem virtToMaddr_frame (shaped : Shaped p b h) (xenPhysStart va : BitVec 64) :
    virtToMaddr p xenPhysStart va = (pdxToPfn p (directmapOffset xenPhysStart va >>> 12) <<< 12) ||| pageOffset (directmapOffset xenPhysStart va) := by
  rw [virtToMaddr]
  generalize directmapOffset xenPhysStart va = off
  refine BitVec.eq_of_getLsbD_eq fun i small => ?_
  rw [BitVec.getLsbD_or,BitVec.getLsbD_and,BitVec.getLsbD_and,BitVec.getLsbD_shiftLeft,shaped.maBottom,shaped.maTop,shaped.shift,
    BitVec.getLsbD_or,BitVec.getLsbD_shiftLeft,getLsbD_pdxToPfn shaped,getLsbD_pageOffset,BitVec.getLsbD_ushiftRight,BitVec.getLsbD_ushiftRight]
  by_cases page : i < 12
  · have : i < b + 12 := by omega
    have : ¬b + h + 12 ≤ i := by omega
    simp [*]
  · have : i - 12 < 64 := by omega
    by_cases low : i < b + 12
    · have : i - 12 < b := by omega
      have : ¬b + h + 12 ≤ i := by omega
      have : 12 + (i - 12) = i := by omega
      simp [*]
    · have : ¬i - 12 < b := by omega
      by_cases high : b + h + 12 ≤ i
      · have : b + h ≤ i - 12 := by omega
        have : 12 + (i - 12 - h) = i - h := by omega
        have : h ≤ i := by omega
        simp [*]
      · have : ¬b + h ≤ i - 12 := by omega
        simp [*]

-- A frame whose address bits are all in the mask is not in the hole.
theorem covered_holeFree (covered : pfn &&& ~~~mask = 0#64) : HoleFree (pfnPdxHoleSetup initial mask) pfn := by
  obtain ⟨b,h,shaped,_,_,clear⟩ := setup_shaped mask
  refine BitVec.eq_of_getLsbD_eq fun i small => ?_
  rw [BitVec.getLsbD_and,shaped.hole,BitVec.getLsbD_zero]
  by_cases hole : b ≤ i ∧ i < b + h
  · have bit : (pfn &&& ~~~mask).getLsbD i = false := by rw [covered,BitVec.getLsbD_zero]
    rw [BitVec.getLsbD_and,BitVec.getLsbD_not,clear i hole.1 hole.2] at bit
    simp only [small,decide_true,Bool.not_false,Bool.and_true] at bit
    rw [bit]
    rfl
  · by_cases low : b ≤ i
    · have : ¬i < b + h := fun high => hole ⟨low,high⟩
      simp [this]
    · simp [low]

def params (mask : BitVec 64) : Params := pfnPdxHoleSetup initial mask

theorem pdx_compression (mask xenPhysStart : BitVec 64) :
    (∀ pfn, HoleFree (params mask) pfn → pdxToPfn (params mask) (pfnToPdx (params mask) pfn) = pfn) ∧
    (∀ pdx : BitVec 64, pdx.toNat < 2^(64 - (params mask).pfnPdxHoleShift) →
      HoleFree (params mask) (pdxToPfn (params mask) pdx) ∧ pfnToPdx (params mask) (pdxToPfn (params mask) pdx) = pdx) ∧
    (∀ pfn pfn', HoleFree (params mask) pfn → HoleFree (params mask) pfn' →
      (pfn < pfn' ↔ pfnToPdx (params mask) pfn < pfnToPdx (params mask) pfn')) ∧
    (∀ b i : BitVec 64, 2^maxOrder ∣ b.toNat → i.toNat < 2^maxOrder → HoleFree (params mask) (b + i) →
      pfnToPdx (params mask) (b + i) = pfnToPdx (params mask) b + i) ∧
    ((∀ b i : BitVec 64, 2^maxOrder ∣ b.toNat → i.toNat < 2^maxOrder → pfnToPdx (params mask) (b + i) = pfnToPdx (params mask) b + i) ↔
      (params mask).pfnHoleMask.getLsbD (maxOrder - 1) = false) ∧
    (∀ ma, maddrToVirt (params mask) ma = directmapVirtStart + ((pfnToPdx (params mask) (ma >>> 12) <<< 12) ||| pageOffset ma)) ∧
    ∀ va, virtToMaddr (params mask) xenPhysStart va =
      (pdxToPfn (params mask) (directmapOffset xenPhysStart va >>> 12) <<< 12) ||| pageOffset (directmapOffset xenPhysStart va) := by
  obtain ⟨b,h,shaped,above,large,_⟩ := setup_shaped mask
  refine ⟨fun _ => roundtrip shaped,fun pdx fits => ?_,fun _ _ => ordered shaped,
    fun _ _ aligned small free => adjacent shaped above large aligned small (.inl free),
    ⟨fun all => ?_,fun outside _ _ aligned small => adjacent shaped above large aligned small (.inr outside)⟩,
    maddrToVirt_frame shaped,virtToMaddr_frame shaped xenPhysStart⟩
  · rw [params,shaped.shift] at fits
    exact roundtrip_back shaped fits
  · rw [← Bool.not_eq_true]
    exact fun inHole => not_adjacent shaped inHole (all 0#64 0x20000#64 (by simp) (by decide))

-- Memory below 2^20 frames and from frame 2^28 on: bits 20 to 27 go.
theorem compression_of_hole : pfnToPdx (params 0x100fffff) 0x10012345 = 0x112345 ∧
    pdxToPfn (params 0x100fffff) (pfnToPdx (params 0x100fffff) 0x10012345) = 0x10012345 := by
  have free : HoleFree (params 0x100fffff) 0x10012345 := covered_holeFree (by decide)
  exact ⟨by decide +kernel,(pdx_compression 0x100fffff 0).1 0x10012345 free⟩

end XenAet.Pdx
