import Mathlib.Logic.Function.Basic
import XenAet.PageEntry

namespace XenAet.SharedMemory
open AetControl PageEntry Library

structure Leaf where
  frame : U64
  flags : Flags
  deriving DecidableEq

-- Xen's own page tables. An entry of a level is named by the bits of the
-- address that lead to it; `mapped` are the pages this call has mapped.
structure Space where
  leaf : Nat → Option Leaf
  l4Flags : Nat → Flags
  l3Flags : Nat → Flags
  mapped : Nat → Bool

-- The four table offsets of an address taken together, 36 bits.
def slotOf (virt : U64) : Nat := virt.toNat / 2^12 % 2^36
def l4TableOffset (virt : U64) : Nat := virt.toNat / 2^39 % 2^9

def sharedFlags : Flags := pagePresent ||| pageRw ||| pageUser ||| pageDirty ||| pageAccessed

def setLeaf (s : Space) (slot : Nat) (leaf : Leaf) : Space :=
  {s with leaf := Function.update s.leaf slot (some leaf),mapped := Function.update s.mapped slot true}

@[simp] theorem setLeaf_leaf (s : Space) (slot : Nat) (leaf : Leaf) (x : Nat) :
    (setLeaf s slot leaf).leaf x = if x = slot then some leaf else s.leaf x := Function.update_apply ..

@[simp] theorem setLeaf_mapped (s : Space) (slot : Nat) (leaf : Leaf) (x : Nat) :
    (setLeaf s slot leaf).mapped x = if x = slot then true else s.mapped x := Function.update_apply ..

-- A superpage entry stands for the leaves of its pages.
def mapPagesToXen (flags : Flags) : Nat → U64 → U64 → Space → Space
  | 0,_,_,s => s
  | nr+1,virt,mfn,s => mapPagesToXen flags nr (virt + 0x1000) (mfn + 1) (setLeaf s (slotOf virt) ⟨mfn,flags⟩)

def pfnUp (size : U64) : U64 := (size + 0xfff) >>> 12
def pageStep : Nat := 512

structure Shared where
  space : Space
  chunks : List (U64 × Nat)

-- `alloc k` is what the call number `k` of `alloc_boot_pages` returns. The
-- index stays below 2^53, so that it is a number here.
def allocLoop (alloc : Nat → U64) (va : U64) (pageNr i : Nat) (s : Shared) : Option Shared :=
  if i < pageNr then
    let mfn := alloc s.chunks.length
    if mfn = 0 then none
    else allocLoop alloc va pageNr (i + pageStep)
      ⟨mapPagesToXen sharedFlags pageStep (va + BitVec.ofNat 64 (i * 2^12)) mfn s.space,
        s.chunks ++ [(mfn,min (pageNr - i) pageStep)]⟩
  else some s
termination_by pageNr - i
decreasing_by
  have moves : 0 < pageStep := by decide
  omega

-- The user flag goes to the L4 entry and to the first entry of its L3 table.
def allowUser (va : U64) (s : Space) : Space :=
  let l4 := l4TableOffset va
  {s with l4Flags := Function.update s.l4Flags l4 (s.l4Flags l4 ||| pageUser),
          l3Flags := Function.update s.l3Flags (l4 * 2^9) (s.l3Flags (l4 * 2^9) ||| pageUser)}

def allocSharedMemory (alloc : Nat → U64) (size va : U64) (s : Space) : Option Shared :=
  (allocLoop alloc va (pfnUp size).toNat 0 ⟨{s with mapped := fun _ => false},[]⟩).map
    fun done => {done with space := allowUser va done.space}

def request (pageNr k : Nat) : Nat := min (pageNr - k*pageStep) pageStep

-- Every call returns that many frames, which no other call returns.
structure FreshFrames (alloc : Nat → U64) (pageNr : Nat) : Prop where
  given : ∀ k, k*pageStep < pageNr → alloc k ≠ 0
  real : ∀ k, k*pageStep < pageNr → (alloc k).toNat + request pageNr k ≤ 2^40
  apart : ∀ j k, j < k → k*pageStep < pageNr → (alloc j).toNat + request pageNr j ≤ (alloc k).toNat ∨
    (alloc k).toNat + request pageNr k ≤ (alloc j).toNat

def Allocated (s : Shared) (frame : Nat) : Prop := ∃ chunk ∈ s.chunks, chunk.1.toNat ≤ frame ∧ frame < chunk.1.toNat + chunk.2

def UserMapped (s : Shared) (slot frame : Nat) : Prop :=
  s.space.mapped slot = true ∧ ∃ leaf, s.space.leaf slot = some leaf ∧ leaf.frame.toNat = frame ∧ Masks.anyOf leaf.flags pageUser = true

def slotAt (va : U64) (t : Nat) : Nat := (va.toNat / 2^12 + t) % 2^36

section
variable {alloc : Nat → U64} {va : U64} {s : Space} {t n pageNr : Nat}

theorem slot_offset (va : U64) (t : Nat) : slotOf (va + BitVec.ofNat 64 (t * 2^12)) = slotAt va t := by
  rw [slotOf,slotAt,BitVec.toNat_add,BitVec.toNat_ofNat]
  omega

theorem slot_apart (different : t ≠ n) (small : t < 2^36) (small' : n < 2^36) : slotAt va t ≠ slotAt va n := by
  rw [slotAt,slotAt]
  omega

-- The leaf of page `t`, counted from `va`.
def leafAt (alloc : Nat → U64) (t : Nat) : Leaf := ⟨alloc (t / pageStep) + BitVec.ofNat 64 (t % pageStep),sharedFlags⟩

-- The first `n` pages are mapped, and nothing else.
structure Laid (alloc : Nat → U64) (va : U64) (n : Nat) (s : Space) : Prop where
  mapped : ∀ slot, s.mapped slot = true ↔ ∃ t < n, slot = slotAt va t
  leaf : ∀ t < n, s.leaf (slotAt va t) = some (leafAt alloc t)

theorem setLeaf_laid (laid : Laid alloc va n s) (small : n < 2^36) : Laid alloc va (n+1) (setLeaf s (slotAt va n) (leafAt alloc n)) := by
  refine ⟨fun slot => ?_,fun t early => ?_⟩
  · by_cases here : slot = slotAt va n
    · subst here
      exact ⟨fun _ => ⟨n,by omega,rfl⟩,fun _ => by simp⟩
    · rw [setLeaf_mapped,if_neg here,laid.mapped]
      constructor
      · rintro ⟨t,early,same⟩
        exact ⟨t,by omega,same⟩
      · rintro ⟨t,early,rfl⟩
        have other : t ≠ n := fun same => here (by rw [same])
        exact ⟨t,by omega,rfl⟩
  · by_cases last : t = n
    · subst last
      simp
    · rw [setLeaf_leaf,if_neg (slot_apart last (by omega) small)]
      exact laid.leaf t (by omega)

theorem mapPages_laid (k off nr : Nat) (laid : Laid alloc va (k*pageStep + off) s) (fits : off + nr ≤ pageStep)
    (small : k*pageStep + off + nr ≤ 2^36) :
    Laid alloc va (k*pageStep + off + nr)
      (mapPagesToXen sharedFlags nr (va + BitVec.ofNat 64 ((k*pageStep + off) * 2^12)) (alloc k + BitVec.ofNat 64 off) s) := by
  induction nr generalizing off s with
  | zero =>
    rw [mapPagesToXen,Nat.add_zero]
    exact laid
  | succ nr ih =>
    have inside : off < pageStep := by omega
    have leaf_ : leafAt alloc (k*pageStep + off) = ⟨alloc k + BitVec.ofNat 64 off,sharedFlags⟩ := by
      rw [leafAt,Nat.mul_comm,Nat.mul_add_div (by decide),Nat.div_eq_of_lt inside,Nat.mul_add_mod,Nat.mod_eq_of_lt inside,
        Nat.add_zero]
    have one := setLeaf_laid laid (by omega)
    rw [leaf_,Nat.add_assoc] at one
    have rest := ih (off+1) one (by omega) (by omega)
    rw [mapPagesToXen,slot_offset,BitVec.add_assoc,BitVec.add_assoc]
    rw [show (k*pageStep + (off+1)) * 2^12 = (k*pageStep + off) * 2^12 + 0x1000 by omega,BitVec.ofNat_add,BitVec.ofNat_add] at rest
    rw [show k*pageStep + off + (nr+1) = k*pageStep + (off+1) + nr by omega]
    exact rest

-- Only the 2^36 slots there are, however many pages there are.
def Slotted (s : Space) : Prop := ∀ slot, s.mapped slot = true → slot < 2^36

theorem mapPages_slotted (nr : Nat) (virt mfn : U64) (slotted : Slotted s) : Slotted (mapPagesToXen sharedFlags nr virt mfn s) := by
  induction nr generalizing virt mfn s with
  | zero => exact slotted
  | succ nr ih =>
    refine ih _ _ fun slot mapped => ?_
    rw [setLeaf_mapped] at mapped
    split at mapped
    · next here =>
      rw [here]
      exact Nat.mod_lt _ (by decide)
    · exact slotted slot mapped

-- The turns of the loop, and what the first `k` of them leave.
def turns (pageNr : Nat) : Nat := (pageNr + 511) / pageStep

def spaceTo (alloc : Nat → U64) (va : U64) (s : Space) : Nat → Space
  | 0 => {s with mapped := fun _ => false}
  | k+1 => mapPagesToXen sharedFlags pageStep (va + BitVec.ofNat 64 (k*pageStep * 2^12)) (alloc k) (spaceTo alloc va s k)

def chunksTo (alloc : Nat → U64) (pageNr k : Nat) : List (U64 × Nat) := (List.range k).map fun j => (alloc j,request pageNr j)

theorem turn_early (k pageNr : Nat) : k < turns pageNr ↔ k*pageStep < pageNr := by
  rw [turns,pageStep]
  omega

theorem loop_runs (va : U64) (fresh : FreshFrames alloc pageNr) (s : Space) (k : Nat) (early : k ≤ turns pageNr) :
    allocLoop alloc va pageNr (k*pageStep) ⟨spaceTo alloc va s k,chunksTo alloc pageNr k⟩ =
      some ⟨spaceTo alloc va s (turns pageNr),chunksTo alloc pageNr (turns pageNr)⟩ := by
  -- What is left to do shrinks by one chunk a turn.
  obtain ⟨rest,left⟩ := Nat.exists_eq_add_of_le early
  induction rest generalizing k with
  | zero =>
    rw [left,Nat.add_zero,allocLoop,if_neg ((turn_early k pageNr).not.mp (by omega))]
  | succ rest ih =>
    have before := (turn_early k pageNr).mp (by omega)
    have called : (chunksTo alloc pageNr k).length = k := by simp [chunksTo]
    have more : chunksTo alloc pageNr k ++ [(alloc k,request pageNr k)] = chunksTo alloc pageNr (k+1) := by simp [chunksTo,List.range_succ]
    rw [allocLoop,if_pos before,called]
    dsimp only
    rw [if_neg (fresh.given k before),← request,more,← Nat.succ_mul]
    exact ih (k+1) (by omega) (by omega)

theorem space_laid (alloc : Nat → U64) (va : U64) (s : Space) (narrow : k*pageStep ≤ 2^36) : Laid alloc va (k*pageStep) (spaceTo alloc va s k) := by
  induction k with
  | zero =>
    refine ⟨fun slot => ⟨fun set_ => (by cases set_),?_⟩,fun t early => ?_⟩
    · rintro ⟨t,early,_⟩
      omega
    · omega
  | succ k ih =>
    rw [Nat.succ_mul] at narrow ⊢
    have next := mapPages_laid k 0 pageStep (by rw [Nat.add_zero]; exact ih (by omega)) (by omega) (by omega)
    rw [Nat.add_zero,BitVec.add_zero] at next
    exact next

theorem space_slotted (s : Space) (k : Nat) : Slotted (spaceTo alloc va s k) := by
  induction k with
  | zero => exact fun slot mapped => (by cases mapped)
  | succ k ih => exact mapPages_slotted _ _ _ ih

def frameAt (alloc : Nat → U64) (t : Nat) : Nat := (alloc (t / pageStep)).toNat + t % pageStep

theorem leafAt_frame (fresh : FreshFrames alloc pageNr) (early : t / pageStep < turns pageNr) :
    (leafAt alloc t).frame.toNat = frameAt alloc t := by
  have real := fresh.real (t / pageStep) ((turn_early ..).mp early)
  have off : t % pageStep < pageStep := Nat.mod_lt _ (by decide)
  have step : pageStep = 512 := rfl
  rw [leafAt,frameAt,BitVec.toNat_add,BitVec.toNat_ofNat]
  omega

theorem user_iff {done : Shared} (fresh : FreshFrames alloc pageNr) (laid : Laid alloc va (turns pageNr*pageStep) done.space) :
    UserMapped done slot frame ↔ ∃ t < turns pageNr*pageStep, slot = slotAt va t ∧ frame = frameAt alloc t := by
  have chunk {t : Nat} (early : t < turns pageNr*pageStep) : t / pageStep < turns pageNr := (Nat.div_lt_iff_lt_mul (by decide)).mpr early
  constructor
  · rintro ⟨mapped,leaf,found,rfl,_⟩
    obtain ⟨t,early,rfl⟩ := (laid.mapped slot).mp mapped
    rw [laid.leaf t early] at found
    cases found
    exact ⟨t,early,rfl,leafAt_frame fresh (chunk early)⟩
  · rintro ⟨t,early,rfl,rfl⟩
    exact ⟨(laid.mapped _).mpr ⟨t,early,rfl⟩,leafAt alloc t,laid.leaf t early,leafAt_frame fresh (chunk early),
      show Masks.anyOf sharedFlags pageUser = true by decide⟩

theorem request_covers (t pageNr : Nat) (early : t < pageNr) : t / pageStep * pageStep < pageNr ∧ t % pageStep < request pageNr (t / pageStep) := by
  have parts := Nat.div_add_mod t pageStep
  have off : t % pageStep < pageStep := Nat.mod_lt _ (by decide)
  rw [Nat.mul_comm] at parts
  rw [request]
  omega

theorem frameAt_inj (fresh : FreshFrames alloc pageNr) (early : t < pageNr) (early' : u < pageNr)
    (same : frameAt alloc t = frameAt alloc u) : t = u := by
  obtain ⟨chunk,off⟩ := request_covers t pageNr early
  obtain ⟨chunk',off'⟩ := request_covers u pageNr early'
  have parts := Nat.div_add_mod t pageStep
  have parts' := Nat.div_add_mod u pageStep
  rw [frameAt,frameAt] at same
  rcases Nat.lt_trichotomy (t / pageStep) (u / pageStep) with less | equal | more
  · have apart := fresh.apart _ _ less chunk'
    omega
  · rw [equal] at same parts
    omega
  · have apart := fresh.apart _ _ more chunk
    omega

theorem allocated_iff {done : Shared} (chunks : done.chunks = chunksTo alloc pageNr (turns pageNr)) :
    Allocated done frame ↔ ∃ t < pageNr, frame = frameAt alloc t := by
  constructor
  · rintro ⟨chunk,member,low,high⟩
    rw [chunks,chunksTo] at member
    obtain ⟨k,early,rfl⟩ := List.mem_map.mp member
    dsimp only at low high
    rw [request] at high
    have inside : frame - (alloc k).toNat < pageStep := by omega
    refine ⟨k*pageStep + (frame - (alloc k).toNat),by omega,?_⟩
    rw [frameAt,Nat.mul_comm k,Nat.mul_add_div (by decide),Nat.div_eq_of_lt inside,Nat.mul_add_mod,Nat.mod_eq_of_lt inside,
      Nat.add_zero]
    omega
  · rintro ⟨t,early,rfl⟩
    obtain ⟨chunk,off⟩ := request_covers t pageNr early
    refine ⟨(alloc (t / pageStep),request pageNr (t / pageStep)),?_,Nat.le_add_right _ _,Nat.add_lt_add_left off _⟩
    rw [chunks,chunksTo]
    exact List.mem_map_of_mem (List.mem_range.mpr ((turn_early ..).mpr chunk))

end

-- The frames mapped with user access are those allocated, each at one page, and
-- the pages asked for are mapped.
structure Exact (va : U64) (pageNr : Nat) (done : Shared) : Prop where
  frames : ∀ frame, (∃ slot, UserMapped done slot frame) ↔ Allocated done frame
  once : ∀ frame slot slot', UserMapped done slot frame → UserMapped done slot' frame → slot = slot'
  pages : ∀ i < pageNr, ∃ frame, UserMapped done (slotOf (va + BitVec.ofNat 64 (i * 2^12))) frame

section
variable {alloc : Nat → U64} {va : U64} {pageNr : Nat} {done : Shared} (fresh : FreshFrames alloc pageNr)
  (chunks : done.chunks = chunksTo alloc pageNr (turns pageNr))
include fresh chunks

-- A frame a slot: more frames than slots cannot all be mapped.
theorem Exact.narrow (exact_ : Exact va pageNr done) (slotted : Slotted done.space) : pageNr ≤ 2^36 := by
  have mapped (t : Fin pageNr) : ∃ slot : Fin (2^36), UserMapped done slot (frameAt alloc t) := by
    obtain ⟨slot,user⟩ := (exact_.frames _).mpr ((allocated_iff chunks).mpr ⟨t,t.isLt,rfl⟩)
    exact ⟨⟨slot,slotted slot user.1⟩,user⟩
  choose slot user using mapped
  have injective : Function.Injective slot := by
    intro t u same
    obtain ⟨_,leaf,found,frame,_⟩ := user t
    obtain ⟨_,leaf',found',frame',_⟩ := user u
    rw [same,found'] at found
    cases found
    exact Fin.ext (frameAt_inj fresh t.isLt u.isLt (frame.symm.trans frame'))
  simpa using Fintype.card_le_of_injective slot injective

theorem exact_narrow (laid : Laid alloc va (turns pageNr*pageStep) done.space) (narrow : pageNr ≤ 2^36) :
    Exact va pageNr done ↔ pageNr % pageStep = 0 := by
  have covers : pageNr ≤ turns pageNr*pageStep ∧ turns pageNr*pageStep ≤ 2^36 ∧ (turns pageNr*pageStep ≤ pageNr → pageNr % pageStep = 0) ∧
      (pageNr % pageStep = 0 → turns pageNr*pageStep = pageNr) := by
    rw [turns,pageStep]
    omega
  constructor
  · intro exact_
    -- the page after the last one is mapped, and its frame would be at another
    by_contra part
    have more : pageNr < turns pageNr*pageStep := by omega
    have last : UserMapped done (slotAt va pageNr) (frameAt alloc pageNr) := (user_iff fresh laid).mpr ⟨pageNr,more,rfl,rfl⟩
    obtain ⟨u,early,same⟩ := (allocated_iff chunks).mp ((exact_.frames _).mp ⟨_,last⟩)
    have other : UserMapped done (slotAt va u) (frameAt alloc pageNr) := (user_iff fresh laid).mpr ⟨u,by omega,rfl,same⟩
    exact slot_apart (Nat.ne_of_lt early) (by omega) (by omega) (exact_.once _ _ _ other last)
  · intro whole
    have user {slot frame : Nat} : UserMapped done slot frame ↔ ∃ t < pageNr, slot = slotAt va t ∧ frame = frameAt alloc t := by
      rw [user_iff fresh laid,covers.2.2.2 whole]
    refine ⟨fun frame => ?_,?_,fun i early => ?_⟩
    · rw [allocated_iff chunks]
      constructor
      · rintro ⟨slot,mapped⟩
        obtain ⟨t,early,_,same⟩ := user.mp mapped
        exact ⟨t,early,same⟩
      · rintro ⟨t,early,same⟩
        exact ⟨slotAt va t,user.mpr ⟨t,early,rfl,same⟩⟩
    · intro frame slot slot' mapped mapped'
      obtain ⟨t,early,rfl,same⟩ := user.mp mapped
      obtain ⟨u,early',rfl,same'⟩ := user.mp mapped'
      rw [frameAt_inj fresh early early' (same.symm.trans same')]
    · exact ⟨frameAt alloc i,user.mpr ⟨i,early,slot_offset va i,rfl⟩⟩

end

def bare : Space := ⟨fun _ => none,fun _ => 0,fun _ => 0,fun _ => false⟩

def oneChunk : Nat → U64 := fun _ => 0x1000

theorem one_chunk_fresh (few : pageNr ≤ pageStep) : FreshFrames oneChunk pageNr := by
  refine ⟨fun k early => (show (0x1000 : U64) ≠ 0 by decide),fun k early => ?_,fun j k less early => ?_⟩
  · have count : request pageNr k ≤ pageStep := Nat.min_le_right ..
    exact Nat.le_trans (Nat.add_le_add_left count _) (show (0x1000 : U64).toNat + pageStep ≤ 2^40 by decide)
  · have later : 1*pageStep ≤ k*pageStep := Nat.mul_le_mul_right _ (by omega)
    omega

end XenAet.SharedMemory
