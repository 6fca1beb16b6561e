import XenAet.VmapSearch
import XenAet.Library.Run

namespace XenAet.VmapRuns
open Library Library.Bitmaps Vmap VmapSearch
variable {a : Area} {v : Vm} {nr align start i k : Nat}

structure Block where
  start : Nat
  nr : Nat
  align : Nat
  deriving DecidableEq

-- The bitmap, and the ranges that were given out and not freed.
structure State where
  vm : Vm
  blocks : List Block

def initial (a : Area) : State := ⟨vmInit a,[]⟩

-- The lock is dropped while a page is found for the bitmap, so the page may be
-- added between the calls of others.
inductive Event where
  | alloc (nr align : Nat) (growths : List Growth)
  | free (b : Block)
  | grow

def step (a : Area) (s : State) : Event → Option State
  | .alloc nr align growths =>
    (vmAlloc a nr align growths s.vm).map fun (vm,va) =>
      match va with
      | none => ⟨vm,s.blocks⟩
      | some start => ⟨vm,⟨start,nr,effectiveAlign align⟩ :: s.blocks⟩
  | .free b => some ⟨vmFree a s.vm (b.start * 2^12),s.blocks.erase b⟩
  | .grow => some ⟨grow a s.vm,s.blocks⟩

def Legal (a : Area) (s : State) : Event → Prop
  | .alloc nr align _ => 1 ≤ nr ∧ nr < 2^32 ∧ align < 2^32
  | .free b => b ∈ s.blocks
  | .grow => s.vm.vmTop < a.vmEnd

-- The pages asked for and those of the area can be counted in 32 bits.
def Fits (a : Area) : Event → Prop
  | .alloc nr _ _ => nr + a.vmEnd ≤ 2^32
  | _ => True

instance : ∀ s e, Decidable (Legal a s e)
  | _,.alloc _ _ _ => inferInstanceAs (Decidable (_ ∧ _))
  | s,.free b => inferInstanceAs (Decidable (b ∈ s.blocks))
  | s,.grow => inferInstanceAs (Decidable (s.vm.vmTop < a.vmEnd))

instance : ∀ e, Decidable (Fits a e)
  | .alloc nr _ _ => inferInstanceAs (Decidable (nr + a.vmEnd ≤ 2^32))
  | .free _ => .isTrue trivial
  | .grow => .isTrue trivial

def Block.Covers (b : Block) (i : Nat) : Prop := b.start ≤ i ∧ i < b.start + b.nr

def Block.Apart (b c : Block) : Prop := b.start + b.nr ≤ c.start ∨ c.start + c.nr ≤ b.start

instance : Std.Symm Block.Apart := ⟨fun _ _ apart => apart.symm⟩

structure Placed (a : Area) (v : Vm) (b : Block) : Prop where
  some_ : 1 ≤ b.nr
  above : bitmapPages a.vmEnd < b.start
  below : b.start + b.nr ≤ v.vmTop
  aligned : b.align ∣ b.start
  guarded : v.bitmap (b.start - 1) = false
  ended : v.bitmap (b.start + b.nr) = false

structure Inv (a : Area) (s : State) : Prop where
  room : bitmapPages a.vmEnd ≤ s.vm.vmTop
  top : s.vm.vmTop ≤ a.vmEnd
  bits : ∀ i, s.vm.bitmap i = true ↔ i < bitmapPages a.vmEnd ∨ ∃ b ∈ s.blocks, b.Covers i
  placed : ∀ b ∈ s.blocks, Placed a s.vm b
  apart : s.blocks.Pairwise Block.Apart
  lowest : bitmapPages a.vmEnd ≤ s.vm.vmLow
  low : s.vm.vmLow ≤ s.vm.vmTop
  lowClear : s.vm.bitmap s.vm.vmLow = false

variable {s : State} {b c : Block} {blocks : List Block}

section Kept
variable (inv : Inv a s)
include inv

theorem Inv.unused (high : s.vm.vmTop ≤ i) : s.vm.bitmap i = false := by
  rw [← Bool.not_eq_true,inv.bits i]
  rintro (low | ⟨b,is,covers⟩)
  · exact absurd inv.room (by omega)
  · exact absurd (inv.placed b is).below (by have := covers.2; omega)

theorem Inv.set_ (is : b ∈ s.blocks) (covers : b.Covers i) : s.vm.bitmap i = true := (inv.bits i).mpr (.inr ⟨b,is,covers⟩)

theorem Inv.lowClear_eq : Vmap.lowClear s.vm = true := by rw [Vmap.lowClear,inv.lowClear]; simp

-- The page that is added is clear already as far as the model goes.
theorem grow_inv (less : s.vm.vmTop < a.vmEnd) : Inv a ⟨grow a s.vm,s.blocks⟩ := by
  have same : (grow a s.vm).bitmap = s.vm.bitmap := by
    funext i
    rw [Bool.eq_iff_iff]
    refine clear_iff.trans ⟨And.left,fun is => ⟨is,fun both => ?_⟩⟩
    rw [inv.unused both.1] at is
    cases is
  have more : s.vm.vmTop ≤ (grow a s.vm).vmTop := Nat.le_min.mpr ⟨Nat.le_add_right _ _,Nat.le_of_lt less⟩
  refine ⟨Nat.le_trans inv.room more,Nat.min_le_right _ _,by rw [same]; exact inv.bits,fun b is => ?_,inv.apart,inv.lowest,
    Nat.le_trans inv.low more,by rw [same]; exact inv.lowClear⟩
  have placed := inv.placed b is
  exact ⟨placed.some_,placed.above,Nat.le_trans placed.below more,placed.aligned,by rw [same]; exact placed.guarded,
    by rw [same]; exact placed.ended⟩

end Kept

theorem findRange_turn (a : Area) (nr align : Nat) (growths : List Growth) (v : Vm) : findRange a nr align growths v =
    if !lowClear v then none
    else if search v nr align v.vmTop v.vmLow < v.vmTop then some (v,some (search v nr align v.vmTop v.vmLow))
    else if a.vmEnd ≤ v.vmTop then some (v,none)
    else
      match growths with
      | .grown :: rest => findRange a nr align rest (grow a v)
      | _ => some (v,none) := by
  cases growths with
  | nil => rfl
  | cons growth rest => cases growth <;> rfl

-- What a call may give: nothing, or a gap.
def Given (a : Area) (nr align : Nat) (blocks : List Block) (given : Option (Vm × Option Nat)) : Prop :=
  ∃ v va, given = some (v,va) ∧ Inv a ⟨v,blocks⟩ ∧ ∀ start, va = some start → Gap a v nr align start

theorem findRange_given (inv : Inv a ⟨v,blocks⟩) (fits : nr + a.vmEnd ≤ 2^32) (small : k < 32) (growths : List Growth) :
    Given a nr (2^k) blocks (findRange a nr (2^k) growths v) := by
  have nothing {v : Vm} (inv : Inv a ⟨v,blocks⟩) : Given a nr (2^k) blocks (some (v,none)) := ⟨v,none,rfl,inv,(fun _ is => by cases is)⟩
  have gap {v : Vm} (inv : Inv a ⟨v,blocks⟩) (found : search v nr (2^k) v.vmTop v.vmLow < v.vmTop) :
      Given a nr (2^k) blocks (some (v,some (search v nr (2^k) v.vmTop v.vmLow))) := by
    refine ⟨v,_,rfl,inv,fun start is => ?_⟩
    cases is
    exact search_gap inv.top (fun _ => inv.unused) fits small inv.lowest (fun _ => inv.lowClear) found (Nat.le_add_right _ _)
  induction growths generalizing v with
  | nil =>
    rw [findRange_turn,inv.lowClear_eq,if_neg (by simp)]
    by_cases found : search v nr (2^k) v.vmTop v.vmLow < v.vmTop
    · rw [if_pos found]
      exact gap inv found
    · rw [if_neg found,ite_self]
      exact nothing inv
  | cons growth rest ih =>
    rw [findRange_turn,inv.lowClear_eq,if_neg (by simp)]
    by_cases found : search v nr (2^k) v.vmTop v.vmLow < v.vmTop
    · rw [if_pos found]
      exact gap inv found
    rw [if_neg found]
    by_cases full : a.vmEnd ≤ v.vmTop
    · rw [if_pos full]
      exact nothing inv
    rw [if_neg full]
    cases growth with
    | grown => exact ih (grow_inv inv (Nat.lt_of_not_le full))
    | noPage => exact nothing inv
    | notMapped => exact nothing inv

theorem taken_bits (inv : Inv a ⟨v,blocks⟩) (i : Nat) : fill v.bitmap start (start + nr) i = true ↔
    i < bitmapPages a.vmEnd ∨ ∃ b ∈ ⟨start,nr,align⟩ :: blocks, Block.Covers b i := by
  rw [fill_iff,inv.bits i]
  simp only [List.mem_cons,exists_eq_or_imp,Block.Covers]
  rw [or_assoc]
  exact or_congr_right or_comm

section Taken
variable (inv : Inv a ⟨v,blocks⟩) (some_ : 1 ≤ nr) (gap : Gap a v nr align start)
include inv some_ gap

-- A range in use has no page in the gap nor beside it.
theorem gap_apart (is : b ∈ blocks) : b.start + b.nr < start ∨ start + nr < b.start := by
  have placed := inv.placed b is
  have some_ := placed.some_
  by_contra near
  -- The first page of the range behind `start - 1` is clear, being in the gap.
  have inside : b.Covers (max b.start (start - 1)) := ⟨Nat.le_max_left _ _,by omega⟩
  have used := inv.set_ is inside
  rw [gap.clear _ (Nat.le_max_right _ _) (by omega)] at used
  cases used

theorem taken_placed (is : b ∈ blocks) (low : Nat) : Placed a ⟨fill v.bitmap start (start + nr),v.vmTop,low⟩ b := by
  have placed := inv.placed b is
  have apart := gap_apart inv some_ gap is
  have some_ := placed.some_
  have below := placed.below
  refine ⟨placed.some_,placed.above,below,placed.aligned,?_,?_⟩
  · exact (fill_out (by omega)).trans placed.guarded
  · exact (fill_out (by omega)).trans placed.ended

theorem taken_inv (low : Nat) (lowest : bitmapPages a.vmEnd ≤ low) (upto : low ≤ v.vmTop)
    (clear : fill v.bitmap start (start + nr) low = false) :
    Inv a ⟨⟨fill v.bitmap start (start + nr),v.vmTop,low⟩,⟨start,nr,align⟩ :: blocks⟩ := by
  refine ⟨inv.room,inv.top,taken_bits inv,fun b is => ?_,?_,lowest,upto,clear⟩
  · rcases List.mem_cons.mp is with rfl | is
    · have above := gap.above
      refine ⟨some_,above,gap.below,gap.aligned,?_,?_⟩
      · exact (fill_out (by dsimp only; omega)).trans (gap.clear _ (Nat.le_refl _) (by dsimp only; omega))
      · exact (fill_out (by dsimp only; omega)).trans (gap.clear _ (by dsimp only; omega) (by dsimp only; omega))
    · exact taken_placed inv some_ gap is low
  · refine List.pairwise_cons.mpr ⟨fun b is => ?_,inv.apart⟩
    rcases gap_apart inv some_ gap is with before | behind
    · exact .inr (Nat.le_of_lt before)
    · exact .inl (Nat.le_of_lt behind)

end Taken

theorem vmAlloc_inv (inv : Inv a ⟨v,blocks⟩) (some_ : 1 ≤ nr) (fits : nr + a.vmEnd ≤ 2^32) (small : align < 2^32)
    (growths : List Growth) : ∃ v' va, vmAlloc a nr align growths v = some (v',va) ∧ (va = none → Inv a ⟨v',blocks⟩) ∧
      ∀ start, va = some start → Inv a ⟨v',⟨start,nr,effectiveAlign align⟩ :: blocks⟩ := by
  obtain ⟨k,power,is⟩ := effectiveAlign_power align small
  obtain ⟨v',va,given,kept,found⟩ := findRange_given inv fits power growths
  rw [vmAlloc,is,given]
  cases va with
  | none => exact ⟨v',none,rfl,fun _ => kept,(fun _ no => by cases no)⟩
  | some start =>
    have gap := found start rfl
    have below := gap.below
    have top := kept.top
    have bit : max start ((start + nr) % 2^32) = start + nr := by
      dsimp only at top
      rw [Nat.mod_eq_of_lt (by omega)]
      omega
    have behind : fill v'.bitmap start (start + nr) (start + nr) = false :=
      (fill_out (by omega)).trans (gap.clear _ (by omega) (by omega))
    have held : (if start + nr < v'.vmTop then fill v'.bitmap start (start + nr) (start + nr) else start + nr != v'.vmTop) = false := by
      by_cases less : start + nr < v'.vmTop
      · rw [if_pos less,behind]
      · rw [if_neg less,show start + nr = v'.vmTop by omega]
        simp
    refine ⟨⟨fill v'.bitmap start (start + nr),v'.vmTop,if start ≤ v'.vmLow + 2 then start + nr else v'.vmLow⟩,some start,?_,
      (fun no => by cases no),fun other same => ?_⟩
    · simp only [bit,held]
      simp
    · cases same
      have above := gap.above
      have lowest := kept.lowest
      dsimp only at lowest
      by_cases near : start ≤ v'.vmLow + 2
      · rw [if_pos near]
        exact taken_inv kept some_ gap (start + nr) (by omega) below behind
      · rw [if_neg near]
        exact taken_inv kept some_ gap v'.vmLow lowest kept.low ((fill_out (by omega)).trans kept.lowClear)

theorem vmFree_top (a : Area) (v : Vm) (va : Nat) : (vmFree a v va).vmTop = v.vmTop := by
  rw [vmFree]
  split <;> rfl

section Live
variable (inv : Inv a s) (is : b ∈ s.blocks)
include inv is

theorem vmIndex_live : vmIndex a s.vm (b.start * 2^12) = b.start := by
  have placed := inv.placed b is
  have some_ := placed.some_
  have below := placed.below
  have page : b.start * 2^12 / 2^12 = b.start := Nat.mul_div_cancel _ (by decide)
  have bitmap : a.vmEnd / 8 ≤ b.start * 2^12 := by
    have above := placed.above
    rw [bitmapPages,pfnUp] at above
    omega
  have used := inv.set_ is ⟨Nat.le_refl _,by omega⟩
  simp only [vmIndex,page,placed.guarded,used]
  rw [if_neg (by simp only [Bool.or_eq_true,decide_eq_true_eq]; omega)]
  rfl

theorem vmSize_live : vmSize a s.vm (b.start * 2^12) = b.nr := by
  have placed := inv.placed b is
  have some_ := placed.some_
  have below := placed.below
  have above := placed.above
  have ends : findNextZeroBit s.vm (b.start + 1) = b.start + b.nr := by
    refine next_eq (by omega) (by omega) (fun i low high => ?_) fun _ => ?_
    · rw [inv.set_ is ⟨by omega,high⟩]
      rfl
    · rw [placed.ended]
      rfl
  simp only [vmSize,vmIndex_live inv is,ends]
  rw [if_neg (by omega)]
  omega

theorem vmFree_bitmap : (vmFree a s.vm (b.start * 2^12)).bitmap = clear s.vm.bitmap b.start (b.start + b.nr) := by
  have placed := inv.placed b is
  have above := placed.above
  have below := placed.below
  simp only [vmFree,vmIndex_live inv is]
  rw [if_neg (by omega)]
  exact clearRun_eq (by omega) (by omega) (fun i low high => inv.set_ is ⟨low,high⟩) fun _ => placed.ended

-- The search for a lower clear bit ends at the pages of the bitmap at the
-- latest.
theorem vmFree_low : bitmapPages a.vmEnd ≤ (vmFree a s.vm (b.start * 2^12)).vmLow ∧
    (vmFree a s.vm (b.start * 2^12)).vmLow ≤ s.vm.vmTop ∧ s.vm.bitmap (vmFree a s.vm (b.start * 2^12)).vmLow = false := by
  have placed := inv.placed b is
  have above := placed.above
  have below := placed.below
  simp only [vmFree,vmIndex_live inv is]
  rw [if_neg (by omega)]
  dsimp only
  by_cases lower : b.start < s.vm.vmLow
  · rw [if_pos lower]
    obtain ⟨upto,clear,_⟩ := lowest_spec s.vm.bitmap (b.start - 1)
    refine ⟨?_,by omega,?_⟩
    · by_contra under
      have used := (inv.bits (lowest s.vm.bitmap (b.start - 1))).mpr (.inl (by omega))
      rw [clear _ (Nat.le_refl _) (by omega)] at used
      cases used
    · rcases Nat.eq_or_lt_of_le upto with same | less
      · rw [same]
        exact placed.guarded
      · exact clear _ (Nat.le_refl _) less
  · rw [if_neg lower]
    exact ⟨inv.lowest,inv.low,inv.lowClear⟩

-- A page of one range is in no other.
theorem erased_apart (mem : c ∈ s.blocks.erase b) : c ∈ s.blocks ∧ ¬∃ i, b.Covers i ∧ c.Covers i := by
  have different : s.blocks.Nodup := by
    refine inv.apart.imp_of_mem fun first second apart same => ?_
    subst same
    have some_ := (inv.placed _ first).some_
    rcases apart with apart | apart <;> omega
  obtain ⟨other,mem⟩ := different.mem_erase_iff.mp mem
  refine ⟨mem,fun ⟨i,⟨low,high⟩,low',high'⟩ => ?_⟩
  have apart : c.Apart b := inv.apart.forall mem is other
  rcases apart with apart | apart <;> omega

theorem free_inv : Inv a ⟨vmFree a s.vm (b.start * 2^12),s.blocks.erase b⟩ := by
  obtain ⟨lowest,low,clear⟩ := vmFree_low inv is
  have bitmap := vmFree_bitmap inv is
  have top := vmFree_top a s.vm (b.start * 2^12)
  have placed := inv.placed b is
  have kept {i} (clear : s.vm.bitmap i = false) : (vmFree a s.vm (b.start * 2^12)).bitmap i = false := by
    rw [bitmap,Bitmaps.clear,clear]
    rfl
  refine ⟨by rw [top]; exact inv.room,by rw [top]; exact inv.top,fun i => ?_,fun c mem => ?_,inv.apart.sublist List.erase_sublist,lowest,
    by rw [top]; exact low,kept clear⟩
  · rw [bitmap,clear_iff,inv.bits i]
    constructor
    · rintro ⟨below | ⟨c,mem,covers⟩,out⟩
      · exact .inl below
      · refine .inr ⟨c,?_,covers⟩
        have : c ≠ b := fun same => out (same ▸ covers)
        exact (List.mem_erase_of_ne this).mpr mem
    · rintro (below | ⟨c,mem,covers⟩)
      · exact ⟨.inl below,fun both => by have := placed.above; omega⟩
      · obtain ⟨mem,out⟩ := erased_apart inv is mem
        exact ⟨.inr ⟨c,mem,covers⟩,fun both => out ⟨i,both,covers⟩⟩
  · have other := inv.placed c (erased_apart inv is mem).1
    exact ⟨other.some_,other.above,by rw [top]; exact other.below,other.aligned,kept other.guarded,kept other.ended⟩

end Live

theorem step_inv (inv : Inv a s) (e : Event) (legal : Legal a s e ∧ Fits a e) : ∃ next, step a s e = some next ∧ Inv a next := by
  cases e with
  | alloc nr align growths =>
    obtain ⟨⟨some_,_,small⟩,fits⟩ := legal
    obtain ⟨vm,va,given,nothing,taken⟩ := vmAlloc_inv inv some_ fits small growths
    rw [step,given]
    cases va with
    | none => exact ⟨_,rfl,nothing rfl⟩
    | some start => exact ⟨_,rfl,taken start rfl⟩
  | free b => exact ⟨_,rfl,free_inv inv legal.1⟩
  | grow => exact ⟨_,rfl,grow_inv inv legal.1⟩

theorem initial_inv (a : Area) : Inv a (initial a) := by
  have some_ := a.nonempty
  have room : bitmapPages a.vmEnd ≤ firstPages a.vmEnd * 2^12 * 8 := by
    rw [firstPages,pfnUp]
    omega
  have clear : (initial a).vm.bitmap (bitmapPages a.vmEnd) = false := by simp [initial,vmInit]
  exact ⟨room,a.room,fun i => by simp [initial,vmInit],(fun b is => by cases is),.nil,Nat.le_refl _,room,clear⟩

-- What holds of a range in use.
structure Kept (a : Area) (s : State) (b : Block) : Prop where
  above : bitmapPages a.vmEnd < b.start
  below : b.start + b.nr ≤ a.vmEnd
  aligned : b.align ∣ b.start
  guarded : bitmapPages a.vmEnd ≤ b.start - 1 ∧ s.vm.bitmap (b.start - 1) = false ∧ ∀ c ∈ s.blocks, ¬c.Covers (b.start - 1)
  size : vmSize a s.vm (b.start * 2^12) = b.nr
  freed : ∀ i, (vmFree a s.vm (b.start * 2^12)).bitmap i = true ↔ s.vm.bitmap i = true ∧ ¬b.Covers i

theorem Inv.kept (inv : Inv a s) (is : b ∈ s.blocks) : Kept a s b := by
  have placed := inv.placed b is
  have above := placed.above
  refine ⟨above,Nat.le_trans placed.below inv.top,placed.aligned,⟨by omega,placed.guarded,fun c mem covers => ?_⟩,vmSize_live inv is,
    fun i => ?_⟩
  · have used := inv.set_ mem covers
    rw [placed.guarded] at used
    cases used
  · rw [vmFree_bitmap inv is]
    exact clear_iff

theorem areas_guarded (a : Area) (events : List Event)
    (legal : Run.Guarded (fun s e => Legal a s e ∧ Fits a e) (step a) (initial a) events) :
    ∃ s, Run.run (step a) (initial a) events = some s ∧ (∀ b ∈ s.blocks, Kept a s b) ∧ s.blocks.Pairwise Block.Apart ∧
      (∀ i, s.vm.bitmap i = true ↔ i < bitmapPages a.vmEnd ∨ ∃ b ∈ s.blocks, b.Covers i) ∧ lowClear s.vm = true := by
  obtain ⟨s,ran,inv⟩ := Run.guarded_total (fun _ e inv => step_inv inv e) (initial_inv a) legal
  exact ⟨s,ran,fun _ => inv.kept,inv.apart,inv.bits,inv.lowClear_eq⟩

-- The first range of an area that is asked for without an alignment.
theorem vmAlloc_fresh (growths : List Growth) (inside : bitmapPages a.vmEnd + 1 < (vmInit a).vmTop)
    (room : (bitmapPages a.vmEnd + 1 + nr) % 2^32 ≤ (vmInit a).vmTop) :
    vmAlloc a nr 1 growths (vmInit a) = some
      (let bit := max (bitmapPages a.vmEnd + 1) ((bitmapPages a.vmEnd + 1 + nr) % 2^32)
       ⟨fill (vmInit a).bitmap (bitmapPages a.vmEnd + 1) bit,(vmInit a).vmTop,bit⟩,some (bitmapPages a.vmEnd + 1)) := by
  have none : findNextBit (vmInit a) (bitmapPages a.vmEnd + 1) = (vmInit a).vmTop := by
    refine next_eq (by omega) (by omega) (fun i low _ => ?_) (fun less => by omega)
    simp [vmInit]
    omega
  have align : effectiveAlign 1 = 2^0 := by decide
  have behind : alignAbove (bitmapPages a.vmEnd) (2^0) = bitmapPages a.vmEnd + 1 := by
    have pages : bitmapPages a.vmEnd + 1 < 2^32 := Nat.lt_trans inside (Nat.lt_trans (Nat.lt_of_le_of_lt a.room a.small) (by decide))
    rw [alignAbove,Nat.pow_zero,Nat.mod_eq_of_lt pages]
    exact Nat.and_two_pow_sub_one_of_lt_two_pow pages
  have found : search (vmInit a) nr (2^0) (vmInit a).vmTop (bitmapPages a.vmEnd) = bitmapPages a.vmEnd + 1 := by
    obtain ⟨fuel,more⟩ : ∃ fuel, (vmInit a).vmTop = fuel + 1 := ⟨(vmInit a).vmTop - 1,by omega⟩
    rw [more,search_tail (by omega) none (by rw [behind]; exact room),behind]
  have start : findRange a nr (2^0) growths (vmInit a) = some (vmInit a,some (bitmapPages a.vmEnd + 1)) := by
    have clear : lowClear (vmInit a) = true := (initial_inv a).lowClear_eq
    have low : (vmInit a).vmLow = bitmapPages a.vmEnd := rfl
    rw [findRange_turn,clear,if_neg (by simp),low,found,if_pos inside]
  rw [vmAlloc,align,start]
  have clear (bit : Nat) (low : bitmapPages a.vmEnd + 1 ≤ bit) : fill (vmInit a).bitmap (bitmapPages a.vmEnd + 1) bit bit = false := by
    rw [fill_out (by omega)]
    simp [vmInit]
    omega
  simp only [clear _ (Nat.le_max_left _ _)]
  have held (bit : Nat) (upto : bit ≤ (vmInit a).vmTop) : (if bit < (vmInit a).vmTop then false else bit != (vmInit a).vmTop) = false := by
    by_cases less : bit < (vmInit a).vmTop
    · rw [if_pos less]
    · rw [if_neg less,Nat.le_antisymm upto (Nat.le_of_not_lt less)]
      simp
  rw [held _ (Nat.max_le.mpr ⟨Nat.le_of_lt inside,room⟩)]
  have low : bitmapPages a.vmEnd + 1 ≤ (vmInit a).vmLow + 2 := Nat.le_succ _
  simp only [if_pos low]
  rfl

-- An area of 64 GB.
def wide : Area := ⟨2^24,by decide,by decide,by decide⟩

def reuse : List Event := [.alloc 4 1 [],.free ⟨513,4,1⟩,.alloc 8 16 [.grown]]

theorem areas_guarded_after_reuse : ∃ s, Run.run (step wide) (initial wide) reuse = some s ∧ (∀ b ∈ s.blocks, Kept wide s b) ∧
    s.blocks.Pairwise Block.Apart ∧
      (∀ i, s.vm.bitmap i = true ↔ i < bitmapPages wide.vmEnd ∨ ∃ b ∈ s.blocks, b.Covers i) ∧ lowClear s.vm = true := by
  refine areas_guarded wide reuse ⟨⟨by decide,by decide⟩,fun s taken => ⟨⟨?_,trivial⟩,fun _ _ => ⟨⟨⟨by decide,by decide,by decide⟩,by decide⟩,fun _ _ => trivial⟩⟩⟩
  rw [step,show (initial wide).vm = vmInit wide from rfl,vmAlloc_fresh [] (by decide) (by decide)] at taken
  cases taken
  exact List.mem_cons_self

-- All the pages but one that 32 bits can count: the end of the range wraps to
-- the page before its start, and nothing is marked.
theorem nothing_allocated : ∃ v, vmAlloc wide (2^32 - 1) 1 [] (vmInit wide) = some (v,some 513) ∧ v.bitmap 513 = false ∧
    vmSize wide v (513 * 2^12) = 0 :=
  ⟨_,vmAlloc_fresh [] (by decide) (by decide),by decide,by decide⟩

end XenAet.VmapRuns
