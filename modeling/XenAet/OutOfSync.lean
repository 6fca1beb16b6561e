import Mathlib.Logic.Function.Basic
import XenAet.AetControl
import XenAet.Library.Run

namespace XenAet.OutOfSync
open AetControl Library

def shadowOosPages : Nat := 3
def shadowOosFixups : Nat := 2

-- `owner` is the page that the record was opened for.
structure Fixup where
  next : Nat
  entry : Nat → Option (U64 × U64)
  owner : U64

-- `types` are the type bits of `shadow_flags`, and `pageTable` is the bit of
-- `count_info` that says whether the flags mean anything.
structure GuestPage where
  pageTable : Bool
  types : List Nat
  outOfSync : Bool
  oosMayWrite : Bool

-- `C` is the content of a page, `guest` of the guest's pages and `frame` of the
-- snapshots. `kept` is what the page was when it went out of sync, as
-- `_sh_resync_l1` of that page has changed it since.
structure System (C : Type) where
  page : U64 → GuestPage
  guest : U64 → C
  frame : U64 → C
  oos : Nat → Nat → Option U64
  snapshot : Nat → Nat → U64
  fixup : Nat → Nat → Fixup
  kept : U64 → C

def isL1 (t : Nat) : Bool := t == 1 || t == 4 || t == 8

def pageIsOutOfSync (p : GuestPage) : Bool := p.pageTable && p.outOfSync

def home (g : U64) : Nat := g.toNat % shadowOosPages
def after (i : Nat) : Nat := (i + 1) % shadowOosPages

section
variable {C : Type}

def setPage (s : System C) (g : U64) (p : GuestPage) : System C := {s with page := Function.update s.page g p}

def setOos (s : System C) (v i : Nat) (x : Option U64) : System C :=
  {s with oos := fun w k => if w = v ∧ k = i then x else s.oos w k}

def setFixup (s : System C) (v i : Nat) (f : Fixup) : System C :=
  {s with fixup := fun w k => if w = v ∧ k = i then f else s.fixup w k}

def swapSnapshots (s : System C) (v i j : Nat) : System C :=
  {s with snapshot := fun w k => if w = v ∧ k = i then s.snapshot v j else if w = v ∧ k = j then s.snapshot v i else s.snapshot w k}

def probe (s : System C) (v : Nat) (g : U64) : Nat := if s.oos v (home g) = some g then home g else after (home g)

def newFixup (g : U64) : Fixup := ⟨0,fun _ => none,g⟩

def flushFixup (f : Fixup) : Fixup := {f with entry := fun _ => none}

def addFixup (f : Fixup) (smfn off : U64) : Fixup :=
  if (List.range shadowOosFixups).any fun k => f.entry k == some (smfn,off) then f
  else {f with entry := Function.update f.entry f.next (some (smfn,off)),next := (f.next + 1) % shadowOosFixups}

-- The copy of the page in slot `i` into the snapshot of that slot.
def fill (s : System C) (v i : Nat) : System C :=
  match s.oos v i with
  | some g => {s with frame := Function.update s.frame (s.snapshot v i) (s.guest g),kept := Function.update s.kept g (s.guest g)}
  | none => s

-- `n` is the number of vcpus and `sync` what `sh_resync_l1` makes of a
-- snapshot; `none` is a BUG, that of a page which is in no slot.
variable (n : Nat) (sync : C → C → C)

def findSlot (s : System C) (g : U64) : Option (Nat × Nat) :=
  (List.range n).findSome? fun v => if s.oos v (probe s v g) = some g then some (v,probe s v g) else none

def oosHashRemove (s : System C) (g : U64) : Option (System C) := (findSlot n s g).map fun slot => setOos s slot.1 slot.2 none

def oosSnapshotLookup (s : System C) (g : U64) : Option U64 := (findSlot n s g).map fun slot => s.snapshot slot.1 slot.2

def oosFixupAdd (s : System C) (g smfn off : U64) : Option (System C) :=
  (findSlot n s g).map fun slot => setFixup s slot.1 slot.2 (addFixup (s.fixup slot.1 slot.2) smfn off)

def shadowDemote (s : System C) (g : U64) (t : Nat) : Option (System C) :=
  let pg := {s.page g with types := (s.page g).types.erase t}
  let s := setPage s g pg
  if pg.types = [] then
    (if pageIsOutOfSync pg then oosHashRemove n s g else some s).map (setPage · g {pg with pageTable := false})
  else some s

-- `sh_remove_shadows` of a page, as far as it concerns the page itself.
def removeShadows (s : System C) (g : U64) : Option (System C) := Run.run (fun s t => shadowDemote n s g t) s (s.page g).types

def resyncL1 (s : System C) (g snp : U64) : System C :=
  if (s.page g).types.any isL1 then
    {s with frame := Function.update s.frame snp (sync (s.guest g) (s.frame snp)),
            kept := Function.update s.kept g (sync (s.guest g) (s.kept g))}
  else s

-- `_sh_resync` with the fixup and the snapshot of a slot. `unshadow` are the
-- pages whose write access cannot be removed.
def resyncSlot (unshadow : U64 → Bool) (s : System C) (v i : Nat) (g : U64) : Option (System C) :=
  let s := setFixup s v i (flushFixup (s.fixup v i))
  if unshadow g then removeShadows n s g
  else
    let s := setPage s g {s.page g with oosMayWrite := false}
    let s := resyncL1 sync s g (s.snapshot v i)
    some (setPage s g {s.page g with outOfSync := false})

def crush (unshadow : U64 → Bool) (s : System C) (v i : Nat) : Option (System C) :=
  match s.oos v i with
  | some x => resyncSlot n sync unshadow s v i x
  | none => some s

def setSlot (s : System C) (v i : Nat) (g : U64) (f : Fixup) : System C := setFixup (setOos s v i (some g)) v i f

-- An occupant at home is punted into the next slot with its records; who stands
-- where a page is to go is resynced first.
def oosHashAdd (unshadow : U64 → Bool) (s : System C) (v : Nat) (g : U64) : Option (System C) :=
  let idx := home g
  match (s.oos v idx).filter (home · == idx) with
  | some d =>
    (crush n sync unshadow (setSlot s v idx g (newFixup g)) v (after idx)).map fun t =>
      fill (swapSnapshots (setSlot t v (after idx) d (s.fixup v idx)) v (after idx) idx) v idx
  | none => (crush n sync unshadow s v idx).map fun t => fill (setSlot t v idx g (newFixup g)) v idx

def shResync (unshadow : U64 → Bool) (s : System C) (g : U64) : Option (System C) :=
  (findSlot n s g).bind fun slot => (resyncSlot n sync unshadow s slot.1 slot.2 g).map (setOos · slot.1 slot.2 none)

def evict (unshadow : U64 → Bool) (v : Nat) (s : System C) (i : Nat) : Option (System C) :=
  if (s.oos v i).isSome then (crush n sync unshadow s v i).map (setOos · v i none) else some s

-- Pages of the other vcpus: `skip` leaves them out of sync and only brings
-- their shadows up to date, unless `safe` says that not even that is needed.
def resyncOther (unshadow safe : U64 → Bool) (skip : Bool) (v : Nat) (s : System C) (i : Nat) : Option (System C) :=
  match s.oos v i with
  | none => some s
  | some g =>
    if skip then
      if (s.page g).types.any isL1 then
        if safe g then some s else some (resyncL1 sync s g (s.snapshot v i))
      else none
    else evict n sync unshadow v s i

def resyncOthers (unshadow safe : U64 → Bool) (skip : Bool) (v : Nat) (s : System C) (w : Nat) : Option (System C) :=
  if w = v then some s else Run.run (resyncOther n sync unshadow safe skip w) s (List.range shadowOosPages)

def shResyncAll (unshadow safe : U64 → Bool) (skip this others : Bool) (s : System C) (v : Nat) : Option (System C) :=
  (if this then Run.run (evict n sync unshadow v) s (List.range shadowOosPages) else some s).bind fun s =>
    if others then Run.run (resyncOthers n sync unshadow safe skip v) s (List.range n) else some s

def hasMultipleShadows (p : GuestPage) : Bool := p.pageTable && decide (1 < p.types.length)

-- `allowed` is a domain that is not PV and has out-of-sync pages switched on.
def shUnsync (unshadow : U64 → Bool) (allowed : Bool) (s : System C) (v : Nat) (g : U64) : Option (System C) :=
  let pg := s.page g
  if pg.types.any (!isL1 ·) || pg.outOfSync || hasMultipleShadows pg || !allowed then some s
  else oosHashAdd n sync unshadow (setPage s g {pg with outOfSync := true,oosMayWrite := true}) v g

def shadowPromote (unshadow : U64 → Bool) (s : System C) (g : U64) (t : Nat) : Option (System C) :=
  (if pageIsOutOfSync (s.page g) then shResync n sync unshadow s g else some s).map fun s =>
    let pg := if (s.page g).pageTable then s.page g else ⟨true,[],false,false⟩
    setPage s g {pg with types := if t ∈ pg.types then pg.types else t :: pg.types}

end

section
variable {C : Type} {n v i : Nat} {sync : C → C → C} {s s' : System C} {g : U64}

@[simp] theorem setPage_page (s : System C) (g : U64) (p : GuestPage) (x : U64) :
    (setPage s g p).page x = if x = g then p else s.page x := Function.update_apply ..

-- The one slot that holds a page, in the place where it is looked for.
structure Only (n : Nat) (s : System C) (v i : Nat) (g : U64) : Prop where
  vcpu : v < n
  slot : i < shadowOosPages
  here : s.oos v i = some g
  near : i = home g ∨ i = after (home g)
  once : ∀ w < n, ∀ k < shadowOosPages, s.oos w k = some g → w = v ∧ k = i

theorem home_small (g : U64) : home g < shadowOosPages := Nat.mod_lt _ (by decide)

theorem after_small (i : Nat) : after i < shadowOosPages := Nat.mod_lt _ (by decide)

theorem after_ne (i : Nat) : after i ≠ i := by
  rw [after,shadowOosPages]
  omega

theorem probe_small (s : System C) (v : Nat) (g : U64) : probe s v g < shadowOosPages := by
  unfold probe
  split
  · exact home_small g
  · exact after_small _

theorem probe_of (only : Only n s v i g) : probe s v g = i := by
  rcases only.near with rfl | rfl
  · rw [probe,if_pos only.here]
  · rw [probe,if_neg]
    intro first
    exact after_ne _ (only.once v only.vcpu _ (home_small g) first).2.symm

theorem findSlot_of (only : Only n s v i g) : findSlot n s g = some (v,i) := by
  cases found : findSlot n s g with
  | none =>
    have miss := List.findSome?_eq_none_iff.mp found v (List.mem_range.mpr only.vcpu)
    rw [probe_of only,if_pos only.here] at miss
    cases miss
  | some slot =>
    obtain ⟨w,inside,hit⟩ := List.exists_of_findSome?_eq_some found
    obtain ⟨there,same⟩ := Option.ite_none_right_eq_some.mp hit
    obtain ⟨rfl,place⟩ := only.once w (List.mem_range.mp inside) _ (probe_small s w g) there
    rw [← Option.some.inj same,place]

-- A slot was cleared: its page is back in sync, and apart from that page, the
-- slot and its snapshot nothing has changed.
structure Crushed (s : System C) (v i : Nat) (s' : System C) : Prop where
  oos : ∀ w k, ¬ (w = v ∧ k = i) → s'.oos w k = s.oos w k
  pages : ∀ p, s.oos v i ≠ some p → s'.page p = s.page p
  synced : ∀ p, s.oos v i = some p → pageIsOutOfSync (s'.page p) = false
  guest : s'.guest = s.guest
  snapshot : s'.snapshot = s.snapshot
  fixup : ∀ w k, ¬ (w = v ∧ k = i) → s'.fixup w k = s.fixup w k
  frame : ∀ f, f ≠ s.snapshot v i → s'.frame f = s.frame f
  kept : ∀ p, s.oos v i ≠ some p → s'.kept p = s.kept p

theorem Crushed.refl (free : s.oos v i = none) : Crushed s v i s := by
  refine ⟨fun _ _ _ => rfl,fun _ _ => rfl,fun p here => ?_,rfl,rfl,fun _ _ _ => rfl,fun _ _ => rfl,fun _ _ => rfl⟩
  rw [free] at here
  cases here

theorem Crushed.set_oos (crushed : Crushed s v i s') (x : Option U64) : Crushed s v i (setOos s' v i x) := by
  refine ⟨fun w k other => ?_,crushed.pages,crushed.synced,crushed.guest,crushed.snapshot,crushed.fixup,crushed.frame,crushed.kept⟩
  exact (if_neg other).trans (crushed.oos w k other)

-- A page is out of sync as an L1 table and nothing else.
def LoneL1 (p : GuestPage) : Prop := pageIsOutOfSync p = true ∧ ∃ t, p.types = [t] ∧ isL1 t = true

theorem demote_lone (only : Only n s v i g) (lone : LoneL1 (s.page g)) (type : (s.page g).types = [t]) :
    ∃ s', shadowDemote n s g t = some s' ∧ s'.oos v i = none ∧ Crushed s v i s' ∧ s'.fixup = s.fixup := by
  have last : (s.page g).types.erase t = [] := by rw [type,List.erase_cons_head]
  have same : Only n (setPage s g {s.page g with types := []}) v i g := ⟨only.vcpu,only.slot,only.here,only.near,only.once⟩
  have out : pageIsOutOfSync {s.page g with types := []} = true := lone.1
  simp only [shadowDemote,last,if_true,out,oosHashRemove,findSlot_of same]
  refine ⟨_,rfl,if_pos ⟨rfl,rfl⟩,⟨fun w k other => if_neg other,fun p other => ?_,fun p here => ?_,rfl,rfl,fun _ _ _ => rfl,
    fun _ _ => rfl,fun _ _ => rfl⟩,rfl⟩
  · have distinct : p ≠ g := fun same => other (by rw [same]; exact only.here)
    rw [setPage_page,if_neg distinct]
    exact (setPage_page ..).trans (if_neg distinct)
  · rw [only.here] at here
    cases here
    rw [setPage_page,if_pos rfl]
    rfl

theorem flush_only (only : Only n s v i g) (f : Fixup) : Only n (setFixup s v i f) v i g :=
  ⟨only.vcpu,only.slot,only.here,only.near,only.once⟩

theorem Crushed.of_flush (crushed : Crushed (setFixup s v i f) v i s') : Crushed s v i s' := by
  refine ⟨crushed.oos,crushed.pages,crushed.synced,crushed.guest,crushed.snapshot,fun w k other => ?_,crushed.frame,crushed.kept⟩
  exact (crushed.fixup w k other).trans (if_neg other)

theorem resync_l1_crushed (here : s.oos v i = some g) (l1 : (s.page g).types.any isL1 = true) (p q : GuestPage)
    (types : p.types = (s.page g).types) (synced : pageIsOutOfSync q = false) :
    Crushed s v i (setPage (resyncL1 sync (setPage s g p) g (s.snapshot v i)) g q) := by
  have any : ((setPage s g p).page g).types.any isL1 = true := by rw [setPage_page,if_pos rfl,types,l1]
  rw [resyncL1,if_pos any]
  refine ⟨fun _ _ _ => rfl,fun x other => ?_,fun x at_ => ?_,rfl,rfl,fun _ _ _ => rfl,fun f other => ?_,fun x other => ?_⟩
  · have distinct : x ≠ g := fun same => other (by rw [same]; exact here)
    rw [setPage_page,if_neg distinct]
    exact (setPage_page ..).trans (if_neg distinct)
  · rw [here] at at_
    cases at_
    rw [setPage_page,if_pos rfl]
    exact synced
  · exact Function.update_of_ne other ..
  · exact Function.update_of_ne (fun same => other (by rw [same]; exact here)) ..

theorem resync_crushed (sync : C → C → C) (unshadow : U64 → Bool) (only : Only n s v i g) (lone : LoneL1 (s.page g)) :
    ∃ s', resyncSlot n sync unshadow s v i g = some s' ∧ Crushed s v i s' := by
  obtain ⟨t,type,l1⟩ := lone.2
  have flushed := flush_only only (flushFixup (s.fixup v i))
  cases unshadowed : unshadow g with
  | true =>
    obtain ⟨s',ran,_,crushed,_⟩ := demote_lone flushed lone type
    refine ⟨s',?_,crushed.of_flush⟩
    simp only [resyncSlot,unshadowed,if_true,removeShadows]
    rw [show (setFixup s v i (flushFixup (s.fixup v i))).page = s.page from rfl,type,Run.run_cons,ran]
    rfl
  | false =>
    simp only [resyncSlot,unshadowed,Bool.false_eq_true,if_false]
    refine ⟨_,rfl,Crushed.of_flush (resync_l1_crushed flushed.here ?_ _ _ ?_ ?_)⟩
    · rw [show (setFixup s v i (flushFixup (s.fixup v i))).page = s.page from rfl,type,List.any_cons,l1]
      rfl
    · rfl
    · exact Bool.and_false _

theorem crush_crushed (sync : C → C → C) (unshadow : U64 → Bool)
    (held : ∀ g, s.oos v i = some g → Only n s v i g ∧ LoneL1 (s.page g)) :
    ∃ s', crush n sync unshadow s v i = some s' ∧ Crushed s v i s' := by
  unfold crush
  cases here : s.oos v i with
  | none => exact ⟨s,rfl,.refl here⟩
  | some g =>
    obtain ⟨only,lone⟩ := held g here
    exact resync_crushed sync unshadow only lone

end

end XenAet.OutOfSync
