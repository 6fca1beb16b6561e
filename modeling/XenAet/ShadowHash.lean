import Mathlib.Logic.Function.Basic
import XenAet.PageEntry
import XenAet.Library.Run

namespace XenAet.ShadowHash
open AetControl PageEntry Library

def shTypeFl132Shadow : Nat := 2
def shTypeFl1PaeShadow : Nat := 5
def shTypeFl164Shadow : Nat := 9

def isFl1 (t : Nat) : Bool := t == shTypeFl132Shadow || t == shTypeFl1PaeShadow || t == shTypeFl164Shadow

def shadowHashBuckets : Nat := 251

def byteAt (n : U64) (i : Nat) : BitVec 32 := ((n >>> (8*i)).setWidth 8).setWidth 32

def shHash (n : U64) (t : Nat) : Nat :=
  ((List.range 8).foldl (fun (k : BitVec 32) i => byteAt n i + (k <<< 6) + (k <<< 16) - k) (BitVec.ofNat 32 t)).toNat % shadowHashBuckets

-- `back` is the 32-bit field `v.sh.back`; `made` is the number the shadow was
-- made for. A freed page keeps what its fields hold.
structure Page where
  used : Bool
  type : Nat
  back : BitVec 32
  made : U64

structure Domain where
  page : U64 → Page
  hashTable : Nat → List U64

inductive Event where
  | superpage (t : Nat) (gl2e smfn : U64) (walking : Bool)
  | shadow (t : Nat) (gmfn smfn : U64) (walking : Bool)
  | destroy (smfn : U64)
  | lookup (n : U64) (t : Nat) (walking : Bool)

def guestL2eGetGfn (gl2e : U64) : U64 := l1eGetPfn gl2e

section
variable (pfnToPdx pdxToPfn : U64 → U64)

def backpointer (sp : Page) : U64 := if isFl1 sp.type then sp.back.setWidth 64 else pdxToPfn (sp.back.setWidth 64)

def shadowHashFind (s : Domain) (n : U64) (t : Nat) : Option U64 :=
  (s.hashTable (shHash n t)).find? fun m => backpointer pdxToPfn (s.page m) == n && (s.page m).type == t

def setChain (s : Domain) (key : Nat) (chain : List U64) : Domain := {s with hashTable := Function.update s.hashTable key chain}

-- The one that is found comes to the front, unless someone walks the chains.
def shadowHashLookup (s : Domain) (n : U64) (t : Nat) (walking : Bool) : Option U64 × Domain :=
  match shadowHashFind pdxToPfn s n t with
  | none => (none,s)
  | some m =>
    let chain := s.hashTable (shHash n t)
    (some m,if walking then s else setChain s (shHash n t) (m :: chain.erase m))

def shadowHashInsert (s : Domain) (n : U64) (t : Nat) (smfn : U64) : Domain :=
  setChain s (shHash n t) (smfn :: s.hashTable (shHash n t))

-- `none` is a search that runs off the end of the chain.
def shadowHashDelete (s : Domain) (n : U64) (t : Nat) (smfn : U64) : Option Domain :=
  let chain := s.hashTable (shHash n t)
  if chain.contains smfn then some (setChain s (shHash n t) (chain.erase smfn)) else none

def shadowAlloc (s : Domain) (t : Nat) (n smfn : U64) : Domain :=
  let back := if isFl1 t then n else pfnToPdx n
  {s with page := Function.update s.page smfn ⟨true,t,back.setWidth 32,n⟩}

def makeShadow (s : Domain) (t : Nat) (n smfn : U64) : Domain := shadowHashInsert (shadowAlloc pfnToPdx s t n smfn) n t smfn

def getOrMake (s : Domain) (t : Nat) (n smfn : U64) (walking : Bool) : Domain :=
  match shadowHashLookup pdxToPfn s n t walking with
  | (some _,s) => s
  | (none,s) => makeShadow pfnToPdx s t n smfn

def shadowFree (s : Domain) (smfn : U64) : Domain :=
  {s with page := Function.update s.page smfn {s.page smfn with used := false}}

def destroyShadow (s : Domain) (smfn : U64) : Option Domain :=
  let sp := s.page smfn
  (shadowHashDelete s (backpointer pdxToPfn sp) sp.type smfn).map (shadowFree · smfn)

def step (s : Domain) : Event → Option Domain
  | .superpage t gl2e smfn walking => some (getOrMake pfnToPdx pdxToPfn s t (guestL2eGetGfn gl2e) smfn walking)
  | .shadow t gmfn smfn walking => some (getOrMake pfnToPdx pdxToPfn s t gmfn smfn walking)
  | .destroy smfn => destroyShadow pdxToPfn s smfn
  | .lookup n t walking => some (shadowHashLookup pdxToPfn s n t walking).2

-- Shadows are made on free pages, those in use are destroyed, and the frame of
-- a guest page table is one that the packed field can hold.
def Legal (s : Domain) : Event → Prop
  | .superpage t _ smfn _ => isFl1 t = true ∧ (s.page smfn).used = false
  | .shadow t gmfn smfn _ => isFl1 t = false ∧ (s.page smfn).used = false ∧
      pdxToPfn (((pfnToPdx gmfn).setWidth 32).setWidth 64) = gmfn
  | .destroy smfn => (s.page smfn).used = true
  | .lookup _ _ _ => True

-- The superpage lies below 16TB of guest-physical memory.
def Narrow (_ : Domain) : Event → Prop
  | .superpage _ gl2e _ _ => (guestL2eGetGfn gl2e).toNat < 2^32
  | _ => True

instance (s : Domain) : ∀ event, Decidable (Legal pfnToPdx pdxToPfn s event)
  | .superpage _ _ _ _ => inferInstanceAs (Decidable (_ ∧ _))
  | .shadow _ _ _ _ => inferInstanceAs (Decidable (_ ∧ _))
  | .destroy _ => inferInstanceAs (Decidable (_ = _))
  | .lookup _ _ _ => .isTrue trivial

instance (s : Domain) : ∀ event, Decidable (Narrow s event)
  | .superpage _ _ _ _ => inferInstanceAs (Decidable (_ < _))
  | .shadow _ _ _ _ | .destroy _ | .lookup _ _ _ => .isTrue trivial

-- Where each shadow is and what it is known by.
structure Inv (s : Domain) : Prop where
  chained : ∀ key, ∀ m ∈ s.hashTable key, (s.page m).used = true ∧ shHash (s.page m).made (s.page m).type = key
  listed : ∀ m, (s.page m).used = true → m ∈ s.hashTable (shHash (s.page m).made (s.page m).type)
  once : ∀ key, (s.hashTable key).Nodup
  exact_ : ∀ m, (s.page m).used = true → backpointer pdxToPfn (s.page m) = (s.page m).made
  single : ∀ m m', (s.page m).used = true → (s.page m').used = true → (s.page m).made = (s.page m').made →
    (s.page m).type = (s.page m').type → m = m'

end

section
variable {pfnToPdx pdxToPfn : U64 → U64} {s next : Domain} {n m smfn : U64} {t key : Nat}

@[simp] theorem setChain_page (s : Domain) (key : Nat) (chain : List U64) : (setChain s key chain).page = s.page := rfl

@[simp] theorem setChain_table (s : Domain) (key : Nat) (chain : List U64) (k : Nat) :
    (setChain s key chain).hashTable k = if k = key then chain else s.hashTable k := Function.update_apply ..

@[simp] theorem alloc_page (s : Domain) (t : Nat) (n smfn m : U64) : (shadowAlloc pfnToPdx s t n smfn).page m =
    if m = smfn then ⟨true,t,(if isFl1 t then n else pfnToPdx n).setWidth 32,n⟩ else s.page m := Function.update_apply ..

@[simp] theorem free_page (s : Domain) (smfn m : U64) :
    (shadowFree s smfn).page m = if m = smfn then {s.page smfn with used := false} else s.page m := Function.update_apply ..

theorem find_iff (inv : Inv pdxToPfn s) :
    shadowHashFind pdxToPfn s n t = some m ↔ (s.page m).used = true ∧ (s.page m).made = n ∧ (s.page m).type = t := by
  have sound (m) (found : shadowHashFind pdxToPfn s n t = some m) :
      (s.page m).used = true ∧ (s.page m).made = n ∧ (s.page m).type = t := by
    have key := List.find?_some found
    rw [Bool.and_eq_true,beq_iff_eq,beq_iff_eq] at key
    have used := (inv.chained _ m (List.mem_of_find?_eq_some found)).1
    exact ⟨used,(inv.exact_ m used).symm.trans key.1,key.2⟩
  refine ⟨sound m,?_⟩
  rintro ⟨used,rfl,rfl⟩
  have here := inv.listed m used
  cases found : shadowHashFind pdxToPfn s (s.page m).made (s.page m).type with
  | none =>
    have miss := List.find?_eq_none.mp found m here
    simp [inv.exact_ m used] at miss
  | some m' =>
    obtain ⟨used',made,type⟩ := sound m' found
    rw [inv.single m' m used' used made type]

theorem chain_perm (inv : Inv pdxToPfn s) (order : chain.Perm (s.hashTable key)) : Inv pdxToPfn (setChain s key chain) := by
  refine ⟨fun k m member => ?_,fun m used => ?_,fun k => ?_,inv.exact_,inv.single⟩
  · rw [setChain_table] at member
    split at member
    · rename_i same
      rw [same]
      exact inv.chained key m (order.mem_iff.mp member)
    · exact inv.chained k m member
  · rw [setChain_table]
    split
    · rename_i same
      rw [order.mem_iff,← same]
      exact inv.listed m used
    · exact inv.listed m used
  · rw [setChain_table]
    split
    · exact order.nodup_iff.mpr (inv.once key)
    · exact inv.once k

theorem lookup_inv (inv : Inv pdxToPfn s) (n : U64) (t : Nat) (walking : Bool) :
    Inv pdxToPfn (shadowHashLookup pdxToPfn s n t walking).2 := by
  unfold shadowHashLookup
  split
  · exact inv
  · rename_i m found
    cases walking with
    | true => exact inv
    | false => exact chain_perm inv (List.perm_cons_erase (List.mem_of_find?_eq_some found)).symm

theorem lookup_miss (miss : shadowHashFind pdxToPfn s n t = none) (walking : Bool) :
    shadowHashLookup pdxToPfn s n t walking = (none,s) := by
  rw [shadowHashLookup,miss]

theorem make_inv (inv : Inv pdxToPfn s) (miss : shadowHashFind pdxToPfn s n t = none) (free : (s.page smfn).used = false)
    (fits : backpointer pdxToPfn ⟨true,t,(if isFl1 t then n else pfnToPdx n).setWidth 32,n⟩ = n) :
    Inv pdxToPfn (makeShadow pfnToPdx s t n smfn) := by
  have fresh (key) : smfn ∉ s.hashTable key := fun member => by
    have used := (inv.chained key smfn member).1
    rw [free] at used
    cases used
  have new (m) (used : (s.page m).used = true) : ¬ ((s.page m).made = n ∧ (s.page m).type = t) := fun same => by
    rw [(find_iff inv).mpr ⟨used,same⟩] at miss
    cases miss
  have table (k) : (makeShadow pfnToPdx s t n smfn).hashTable k = if k = shHash n t then smfn :: s.hashTable k else s.hashTable k := by
    rw [makeShadow,shadowHashInsert,setChain_table]
    split
    · rename_i same
      rw [same]
      rfl
    · rfl
  have page (m) : (makeShadow pfnToPdx s t n smfn).page m =
      if m = smfn then ⟨true,t,(if isFl1 t then n else pfnToPdx n).setWidth 32,n⟩ else s.page m := alloc_page s t n smfn m
  refine ⟨fun k m member => ?_,fun m used => ?_,fun k => ?_,fun m used => ?_,fun m m' used used' made type => ?_⟩
  · rw [table] at member
    rw [page]
    split
    · rename_i same
      subst same
      split at member
      · rename_i here
        exact ⟨rfl,here.symm⟩
      · exact absurd member (fresh k)
    · rename_i other
      split at member
      · exact inv.chained k m (List.mem_of_ne_of_mem other member)
      · exact inv.chained k m member
  · rw [page] at used ⊢
    rw [table]
    split at used
    · rename_i same
      rw [if_pos same,if_pos rfl,same]
      exact List.mem_cons_self
    · rename_i other
      rw [if_neg other]
      have old := inv.listed m used
      split
      · exact List.mem_cons_of_mem _ old
      · exact old
  · rw [table]
    split
    · exact List.nodup_cons.mpr ⟨fresh k,inv.once k⟩
    · exact inv.once k
  · rw [page] at used ⊢
    split at used
    · rename_i same
      rw [if_pos same]
      exact fits
    · rename_i other
      rw [if_neg other]
      exact inv.exact_ m used
  · rw [page] at used made type
    rw [page m'] at used' made type
    split at used <;> split at used'
    · rename_i same same'
      exact same.trans same'.symm
    · rename_i same other
      rw [if_pos same,if_neg other] at made type
      exact absurd ⟨made.symm,type.symm⟩ (new m' used')
    · rename_i other same
      rw [if_neg other,if_pos same] at made type
      exact absurd ⟨made,type⟩ (new m used)
    · rename_i other other'
      rw [if_neg other,if_neg other'] at made type
      exact inv.single m m' used used' made type

theorem getOrMake_inv (inv : Inv pdxToPfn s) (free : (s.page smfn).used = false) (walking : Bool)
    (fits : backpointer pdxToPfn ⟨true,t,(if isFl1 t then n else pfnToPdx n).setWidth 32,n⟩ = n) :
    Inv pdxToPfn (getOrMake pfnToPdx pdxToPfn s t n smfn walking) := by
  cases found : shadowHashFind pdxToPfn s n t with
  | none =>
    rw [getOrMake,lookup_miss found]
    exact make_inv inv found free fits
  | some m =>
    have kept := lookup_inv inv n t walking
    have hit : (shadowHashLookup pdxToPfn s n t walking).1 = some m := by rw [shadowHashLookup,found]
    unfold getOrMake
    split
    · rename_i same
      rw [same] at kept
      exact kept
    · rename_i same
      rw [same] at hit
      cases hit

-- One shadow leaves its chain and its page is free.
theorem gone_inv (inv : Inv pdxToPfn s) (pages : ∀ m, m ≠ smfn → next.page m = s.page m) (free : (next.page smfn).used = false)
    (table : ∀ k m, m ∈ next.hashTable k ↔ m ∈ s.hashTable k ∧ m ≠ smfn) (once : ∀ k, (next.hashTable k).Nodup) :
    Inv pdxToPfn next ∧ ∀ m, (next.page m).used = true ↔ (s.page m).used = true ∧ m ≠ smfn := by
  have kept (m) : (next.page m).used = true ↔ (s.page m).used = true ∧ m ≠ smfn := by
    by_cases same : m = smfn
    · rw [same,free]
      simp
    · rw [pages m same]
      simp [same]
  refine ⟨⟨fun k m member => ?_,fun m live => ?_,once,fun m live => ?_,fun m m' live live' made type => ?_⟩,kept⟩
  · obtain ⟨old,other⟩ := (table k m).mp member
    rw [pages m other]
    exact inv.chained k m old
  · obtain ⟨old,other⟩ := (kept m).mp live
    rw [table,pages m other]
    exact ⟨inv.listed m old,other⟩
  · obtain ⟨old,other⟩ := (kept m).mp live
    rw [pages m other]
    exact inv.exact_ m old
  · obtain ⟨old,other⟩ := (kept m).mp live
    obtain ⟨old',other'⟩ := (kept m').mp live'
    rw [pages m other,pages m' other'] at made type
    exact inv.single m m' old old' made type

theorem destroy_inv (inv : Inv pdxToPfn s) (used : (s.page smfn).used = true) :
    ∃ next, destroyShadow pdxToPfn s smfn = some next ∧ Inv pdxToPfn next ∧
      ∀ m, (next.page m).used = true ↔ (s.page m).used = true ∧ m ≠ smfn := by
  have here := inv.listed smfn used
  rw [destroyShadow,inv.exact_ smfn used,shadowHashDelete,if_pos (List.contains_iff_mem.mpr here)]
  generalize home : shHash (s.page smfn).made (s.page smfn).type = key at here ⊢
  refine ⟨_,rfl,gone_inv inv (fun m other => ?_) (by simp) (fun k m => ?_) fun k => ?_⟩
  · rw [free_page,if_neg other,setChain_page]
  · change m ∈ (setChain s key _).hashTable k ↔ _
    rw [setChain_table]
    split
    · rename_i same
      rw [(inv.once key).mem_erase_iff,same,and_comm]
    · rename_i other
      refine ⟨fun member => ⟨member,?_⟩,And.left⟩
      rintro rfl
      exact other ((inv.chained k m member).2.symm.trans home)
  · change ((setChain s key _).hashTable k).Nodup
    rw [setChain_table]
    split
    · exact (inv.once key).erase _
    · exact inv.once k

theorem step_inv (inv : Inv pdxToPfn s) (event : Event) (legal : Legal pfnToPdx pdxToPfn s event) (narrow : Narrow s event) :
    ∃ next, step pfnToPdx pdxToPfn s event = some next ∧ Inv pdxToPfn next := by
  cases event with
  | superpage t gl2e smfn walking =>
    refine ⟨_,rfl,getOrMake_inv inv legal.2 walking ?_⟩
    -- A number of 32 bits comes back from the field as it was.
    rw [if_pos legal.1,backpointer,if_pos legal.1]
    refine BitVec.eq_of_toNat_eq ?_
    rw [BitVec.toNat_setWidth,BitVec.toNat_setWidth,Nat.mod_eq_of_lt narrow,Nat.mod_eq_of_lt (BitVec.isLt _)]
  | shadow t gmfn smfn walking =>
    refine ⟨_,rfl,getOrMake_inv inv legal.2.1 walking ?_⟩
    simp only [backpointer,legal.1,Bool.false_eq_true,if_false]
    exact legal.2.2
  | destroy smfn =>
    obtain ⟨next,ran,kept,_⟩ := destroy_inv inv legal
    exact ⟨next,ran,kept⟩
  | lookup n t walking => exact ⟨_,rfl,lookup_inv inv n t walking⟩

theorem superpage_keys_agree (none_ : ∀ m, (pages m).used = false)
    (fits : Run.Guarded (fun s event => Legal pfnToPdx pdxToPfn s event ∧ Narrow s event) (step pfnToPdx pdxToPfn)
      ⟨pages,fun _ => []⟩ events) :
    ∃ s, Run.run (step pfnToPdx pdxToPfn) ⟨pages,fun _ => []⟩ events = some s ∧
      (∀ key, ∀ m ∈ s.hashTable key, (s.page m).used = true) ∧
      (∀ m, (s.page m).used = true → ∀ n t, shadowHashFind pdxToPfn s n t = some m ↔ (s.page m).made = n ∧ (s.page m).type = t) ∧
      ∀ m, (s.page m).used = true → ∃ next, destroyShadow pdxToPfn s m = some next ∧ ∀ key, m ∉ next.hashTable key := by
  have start : Inv pdxToPfn ⟨pages,fun _ => []⟩ := by
    have idle (m) (used : (pages m).used = true) : False := by
      rw [none_ m] at used
      cases used
    exact ⟨(fun _ _ member => by cases member),fun m used => (idle m used).elim,fun _ => List.nodup_nil,
      fun m used => (idle m used).elim,fun m _ used => (idle m used).elim⟩
  obtain ⟨s,ran,inv⟩ := Run.guarded_total (P:=Inv pdxToPfn) (fun s event inv fits => step_inv inv event fits.1 fits.2) start fits
  refine ⟨s,ran,fun key m member => (inv.chained key m member).1,fun m used n t => ?_,fun m used => ?_⟩
  · rw [find_iff inv]
    exact ⟨And.right,fun same => ⟨used,same⟩⟩
  · obtain ⟨next,gone,kept,live⟩ := destroy_inv inv used
    refine ⟨next,gone,fun key member => ?_⟩
    exact ((live m).mp (kept.chained key m member).1).2 rfl

end

def freePages : U64 → Page := fun _ => ⟨false,0,0,0⟩

-- Two superpages are shadowed, the second at the address given.
def twoSuperpages (address : U64) : List Event := [.superpage 9 0x4000e7 0x900 false,.superpage 9 (address ||| 0xe7) 0x901 false]

theorem superpage_keys_agree_two : ∃ s, Run.run (step id id) ⟨freePages,fun _ => []⟩ (twoSuperpages 0x600000) = some s ∧
    (s.page 0x901).used = true ∧ ∃ next, destroyShadow id s 0x901 = some next ∧ ∀ key, 0x901 ∉ next.hashTable key := by
  have fits : Run.Guarded (fun s event => Legal id id s event ∧ Narrow s event) (step id id) ⟨freePages,fun _ => []⟩
      (twoSuperpages 0x600000) := by decide +kernel
  obtain ⟨s,ran,_,_,ends⟩ := superpage_keys_agree (fun _ => rfl) fits
  have used := Run.run_holds (P:=fun s => (s.page 0x901).used = true) ran (by decide +kernel)
  exact ⟨s,ran,used,ends 0x901 used⟩

-- At 16TB the shadow is in the hash table but not found, and its removal runs
-- off the chain of frame 0.
theorem high_superpage_lost : ∃ s, Run.run (step id id) ⟨freePages,fun _ => []⟩ (twoSuperpages (1 <<< 44)) = some s ∧
    (s.page 0x901).used = true ∧ shadowHashFind id s (guestL2eGetGfn (1 <<< 44 ||| 0xe7)) 9 = none ∧
      step id id s (.destroy 0x901) = none := by
  obtain ⟨s,ran,used,miss,lost⟩ := Run.run_reaches (P:=fun s => (s.page 0x901).used = true ∧
      shadowHashFind id s (guestL2eGetGfn (1 <<< 44 ||| 0xe7)) 9 = none ∧ (step id id s (.destroy 0x901)).isNone = true)
    (show (Run.run (step id id) ⟨freePages,fun _ => []⟩ (twoSuperpages (1 <<< 44))).any _ = true by decide +kernel)
  exact ⟨s,ran,used,miss,Option.isNone_iff_eq_none.mp lost⟩

end XenAet.ShadowHash
