import XenAet.GrantCopy
import XenAet.Library.Run

namespace XenAet.CopyBounds
open Library Library.Ledger GrantTable GrantCopy

def window (act : Active) : Nat × Nat := (act.start,act.length)

-- What the shared entry shows, in the width of the active entry's fields.
def shownWindow (k : Config) (rd : Nat) (look : Look) : Nat × Nat :=
  match if k.gtVersion rd = 1 then none else look.subPage with
  | some (start,length) => (start % 2^15,length % 2^16)
  | none => (0,2^12)

-- `start` and `length` are bit fields.
def Narrow (s : State) : Prop := ∀ rd ref, (s.active rd ref).start < 2^15 ∧ (s.active rd ref).length < 2^16

-- The window of the entry that a side has been given: that of a pin before it,
-- the one the entry shows, or the one of the referent.
inductive Given (k : Config) (side : CopyPtr) (s s' : State) : Prop where
  | kept (used : (s.active side.dom side.ref).pin ≠ 0)
      (same : window (s'.active side.dom side.ref) = window (s.active side.dom side.ref))
  | shown (fresh : (s.active side.dom side.ref).pin = 0) (own : side.looks.1.referent k side.dom = none)
      (same : window (s'.active side.dom side.ref) = shownWindow k side.dom side.looks.1)
  | inner (fresh : (s.active side.dom side.ref).pin = 0) (referent : side.looks.1.referent k side.dom = some (td,gref))
      (same : window (s'.active side.dom side.ref) = window (s'.active td gref))

-- Not granted read-only: pinned for writing before, or seen without GTF_readonly.
def Writable (look : Look) (act : Active) : Prop := pinWritten act.pin = true ∨ look.view.header.readonly = false

def WritableThrough (k : Config) (side : CopyPtr) (s : State) : Prop :=
  Writable side.looks.1 (s.active side.dom side.ref) ∧
    (pinWritten (s.active side.dom side.ref).pin = true ∨
      ∀ td gref, side.looks.1.referent k side.dom = some (td,gref) → Writable side.looks.2 (s.active td gref))

def Inside (act : Active) (offset len : Nat) : Prop :=
  ∀ byte, offset ≤ byte → byte < offset + len → act.start ≤ byte ∧ byte < act.start + act.length

-- `__gnttab_copy` comes to its `memcpy`, with the source taken in `s1` and both
-- sides in `s2`.
structure Copies (k : Config) (op : Copy) (s s1 s2 : State) : Prop where
  page : op.source.offset + op.len ≤ 2^12 ∧ op.dest.offset + op.len ≤ 2^12
  byFrame : (!op.source.self && !op.source.isGref || !op.dest.self && !op.dest.isGref) = false
  domains : (!op.source.self && !op.source.found || !op.dest.self && !op.dest.found) = false
  permitted : op.permitted = true
  source : takeSide k op true op.source s = (s1,op.source.isGref,none)
  dest : takeSide k op false op.dest s1 = (s2,op.dest.isGref,none)
  typed : op.typeFree = true

variable {k : Config} {s s' t s1 s2 last : State} {ro : Bool} {rd ref ldom : Nat} {op : Copy} {side : CopyPtr} {look : Look}
  {rc : Int} {x : Extent}

theorem status_writable (ok : (setStatus version ldom false mapflag look.view pin status).1 = 0) : look.view.header.readonly = false := by
  unfold setStatus setStatusV1 setStatusV2 at ok
  cases flag : look.view.header.readonly with
  | false => rfl
  | true =>
    simp only [flag] at ok
    split at ok <;> split at ok <;> simp [gntstGeneralError] at ok

-- One level of a grant that is taken.
theorem acquire_ok (ran : acquireGrantForCopy k ro (look :: rest) rd ref ldom s = (s',.ok x)) :
    (ro = false → Writable look (s.active rd ref)) ∧
      ((∃ act, s'.active = write s.active rd ref act ∧ x = extent act ∧
          (ro = false → pinWritten (s.active rd ref).pin = true ∨ look.referent k rd = none) ∧
          (window act = window (s.active rd ref) ∧ (s.active rd ref).pin ≠ 0 ∨
            window act = shownWindow k rd look ∧ (s.active rd ref).pin = 0 ∧ look.referent k rd = none)) ∨
        ∃ td gref t y st, td ≠ rd ∧ look.referent k rd = some (td,gref) ∧
          acquireGrantForCopy k ro rest td gref rd (s.setStatus rd ref st) = (t,.ok y) ∧
          ∃ act, s'.active = write t.active rd ref act ∧ x = extent act ∧
            act.start = (fill (t.active rd ref) ldom ⟨true,y.2.1,y.2.2,td,gref,y.1⟩).start ∧
            act.length = (fill (t.active rd ref) ldom ⟨true,y.2.1,y.2.2,td,gref,y.1⟩).length) := by
  rw [acquireGrantForCopy] at ran
  split at ran
  · cases ran
  split at ran
  · cases ran
  split at ran
  · cases ran
  split at ran
  · rename_i pinned
    obtain ⟨used,enough⟩ := Bool.and_eq_true_iff.mp pinned
    cases ran
    have written (write_ : ro = false) : pinWritten (s.active rd ref).pin = true := by simpa [write_] using enough
    exact ⟨fun write_ => .inl (written write_),
      .inl ⟨_,rfl,rfl,fun write_ => .inl (written write_),.inl ⟨rfl,by simpa using used⟩⟩⟩
  · dsimp only at ran
    split at ran
    · cases ran
    · rename_i done
      have okay : (setStatus (k.gtVersion rd) ldom ro false look.view (s.active rd ref).pin (s.status rd ref)).1 = 0 := by
        simpa using done
      refine ⟨fun write_ => .inr (status_writable (by rwa [write_] at okay)),?_⟩
      split at ran
      · rename_i td gref referent
        split at ran
        · cases ran
        · rename_i goes
          simp only [Bool.or_eq_true,not_or] at goes
          split at ran
          · cases ran
          · rename_i t frame start length inner
            cases ran
            exact .inr ⟨td,gref,t,(frame,start,length),_,by simpa using goes.1.2,referent,inner,_,rfl,rfl,rfl,rfl⟩
      · rename_i own
        split at ran
        · cases ran
        · rename_i frame paged
          cases ran
          refine .inl ⟨_,rfl,rfl,fun _ => .inr own,?_⟩
          by_cases fresh : (s.active rd ref).pin = 0
          · refine .inr ⟨?_,fresh,own⟩
            simp only [window,fill,fresh,if_true,shownWindow]
            cases (if k.gtVersion rd = 1 then none else look.subPage) with
            | none => rfl
            | some part => rfl
          · refine .inl ⟨?_,fresh⟩
            simp only [window,fill,fresh,if_false]

theorem shown_narrow (k : Config) (rd : Nat) (look : Look) : (shownWindow k rd look).1 < 2^15 ∧ (shownWindow k rd look).2 < 2^16 := by
  unfold shownWindow
  split
  · exact ⟨Nat.mod_lt _ (by decide),Nat.mod_lt _ (by decide)⟩
  · decide

theorem narrow_write {act : Active} (narrow : Narrow s) (is : s'.active = write s.active rd ref act) (low : act.start < 2^15)
    (high : act.length < 2^16) : Narrow s' := by
  intro r g
  rw [is]
  by_cases here : r = rd ∧ g = ref
  · rw [here.1,here.2,write_self]
    exact ⟨low,high⟩
  · rw [write_other here]
    exact narrow r g

-- The referent of a transitive grant is none itself.
theorem acquire_last (narrow : Narrow s) (ran : acquireGrantForCopy k ro [look] rd ref ldom s = (s',.ok x)) :
    (ro = false → Writable look (s.active rd ref)) ∧
      ∃ act, s'.active = write s.active rd ref act ∧ x = extent act ∧ act.start < 2^15 ∧ act.length < 2^16 := by
  obtain ⟨writable,⟨act,is,found,_,place⟩ | ⟨td,gref,t,y,st,_,_,inner,_⟩⟩ := acquire_ok ran
  · refine ⟨writable,act,is,found,?_⟩
    have within : (window act).1 < 2^15 ∧ (window act).2 < 2^16 := by
      rcases place with ⟨kept,_⟩ | ⟨shown,_⟩
      · rw [kept]
        exact narrow rd ref
      · rw [shown]
        exact shown_narrow k rd look
    exact within
  · cases inner

theorem acquire_given (narrow : Narrow s)
    (ran : acquireGrantForCopy k ro [side.looks.1,side.looks.2] side.dom side.ref ldom s = (s',.ok x)) :
    Given k side s s' ∧ x = extent (s'.active side.dom side.ref) ∧ (ro = false → WritableThrough k side s) ∧ Narrow s' := by
  obtain ⟨writable,⟨act,is,rfl,alone,place⟩ | ⟨td,gref,t,y,st,apart,referent,inner,act,is,rfl,start,length⟩⟩ := acquire_ok ran
  · have here : s'.active side.dom side.ref = act := by rw [is,write_self]
    have through (write_ : ro = false) : WritableThrough k side s :=
      ⟨writable write_,(alone write_).imp_right fun none_ => by simp [none_]⟩
    rcases place with ⟨kept,used⟩ | ⟨shown,fresh,own⟩
    · obtain ⟨low,high⟩ := Prod.mk.inj kept
      refine ⟨.kept used (by rw [here,kept]),by rw [here],through,narrow_write narrow is ?_ ?_⟩
      · rw [low]
        exact (narrow _ _).1
      · rw [high]
        exact (narrow _ _).2
    · obtain ⟨low,high⟩ := shown_narrow k side.dom side.looks.1
      rw [← shown] at low high
      exact ⟨.shown fresh own (by rw [here,shown]),by rw [here],through,narrow_write narrow is low high⟩
  · obtain ⟨through,act',is',rfl,low,high⟩ := acquire_last (s:=s.setStatus side.dom side.ref st) narrow inner
    have here : s'.active side.dom side.ref = act := by rw [is,write_self]
    have there : s'.active td gref = act' := by rw [is,write_apart apart,is',write_self]
    have before : t.active side.dom side.ref = s.active side.dom side.ref := by
      rw [is']
      exact write_apart (Ne.symm apart)
    rw [before] at start length
    have writes (write_ : ro = false) : WritableThrough k side s := by
      refine ⟨writable write_,.inr fun td' gref' same => ?_⟩
      rw [referent] at same
      cases same
      exact through write_
    have middle : Narrow t := narrow_write narrow is' low high
    by_cases fresh : (s.active side.dom side.ref).pin = 0
    · rw [fill,if_pos fresh] at start length
      simp only [extent,Nat.mod_eq_of_lt low,Nat.mod_eq_of_lt high] at start length
      refine ⟨.inner fresh referent ?_,by rw [here],writes,narrow_write middle is ?_ ?_⟩
      · rw [here,there,window,start,length,window]
      · rwa [start]
      · rwa [length]
    · rw [fill,if_neg fresh] at start length
      refine ⟨.kept fresh (by rw [here,window,start,length,window]),by rw [here],writes,narrow_write middle is ?_ ?_⟩
      · rw [start]
        exact (narrow _ _).1
      · rw [length]
        exact (narrow _ _).2

theorem take_given (narrow : Narrow s) (gref : side.isGref = true) (taken : takeSide k op ro side s = (s',side.isGref,none)) :
    Given k side s s' ∧ (ro = false → WritableThrough k side s) ∧ Narrow s' ∧
      (s'.active side.dom side.ref).start ≤ side.offset ∧ op.len ≤ (s'.active side.dom side.ref).length := by
  rw [takeSide,if_neg (by simp [gref])] at taken
  split at taken
  · simp [gref] at taken
  · rename_i t frame start length ran
    obtain ⟨given_,found,writable,kept⟩ := acquire_given narrow ran
    simp only [Prod.mk.injEq] at taken
    obtain ⟨rfl,_,bound⟩ := taken
    refine ⟨given_,writable,kept,?_⟩
    obtain ⟨_,rfl,rfl⟩ : frame = _ ∧ start = _ ∧ length = _ := by simpa [extent] using found
    split at bound
    · cases bound
    · rename_i inside
      simp only [Bool.or_eq_true,decide_eq_true_eq,not_or,Nat.not_lt] at inside
      exact inside

theorem inside_iff (act : Active) (low : act.start ≤ offset) :
    Inside act offset len ↔ len = 0 ∨ offset + len ≤ act.start + act.length := by
  constructor
  · intro inside
    by_cases none_ : len = 0
    · exact .inl none_
    · have last := (inside (offset + len - 1) (by omega) (by omega)).2
      exact .inr (by omega)
  · rintro (rfl | ends) byte first below
    · omega
    · exact ⟨by omega,by omega⟩

theorem take_narrow (narrow : Narrow s) (taken : takeSide k op ro side s = (s',side.isGref,none)) : Narrow s' := by
  cases gref : side.isGref with
  | true => exact (take_given narrow gref taken).2.2.1
  | false =>
    rw [takeSide,if_pos (by simp [gref])] at taken
    rwa [← (Prod.mk.inj taken).1]

theorem take_flag {has : Bool} (taken : takeSide k op ro side s = (s',has,none)) : has = side.isGref := by
  unfold takeSide at taken
  split at taken
  · next frame =>
    rw [← (Prod.mk.inj (Prod.mk.inj taken).2).1]
    simpa using frame.symm
  · next gref =>
    split at taken
    · cases taken
    · rw [← (Prod.mk.inj (Prod.mk.inj taken).2).1]
      exact (by simpa using gref : side.isGref = true).symm

-- When the call comes to its `memcpy`.
theorem copies_iff (fuel : Nat) : (gnttabCopy k fuel op s).2.2 = some (s1,s2) ↔ Copies k op s s1 s2 := by
  constructor
  · intro copied
    simp only [gnttabCopy] at copied
    split at copied
    · cases copied
    split at copied
    · cases copied
    split at copied
    · cases copied
    split at copied
    · cases copied
    next page byFrame domains permitted =>
      split at copied
      · cases copied
      · next source first =>
        split at copied
        · cases copied
        · next dest second =>
          split at copied
          · next typed =>
            cases copied
            refine ⟨by simpa using page,by simpa using byFrame,by simpa using domains,by simpa using permitted,?_,?_,typed⟩
            · rw [first,take_flag first]
            · rw [second,take_flag second]
          · cases copied
  · intro copies
    have page : (decide (2^12 < op.source.offset + op.len) || decide (2^12 < op.dest.offset + op.len)) = false := by
      simpa using copies.page
    simp only [gnttabCopy,page,copies.byFrame,copies.domains,copies.permitted,copies.source,copies.dest,copies.typed]
    rfl

-- Guests with version 2 tables, and an entry that grants a whole page to `domid`.
def newGuests : Config := ⟨fun _ => 2,fun _ => 64⟩

def plainLook (domid frame : Nat) : Look :=
  let header := ⟨.permitAccess,false,false,domid⟩
  ⟨⟨header,header,false⟩,none,true,.ok frame,none⟩

def plainSide : CopyPtr := ⟨false,2,true,2,0,true,(plainLook 1 8,plainLook 1 8),0⟩

-- Reference 4 of domain 2 is the first 100 bytes of a page.
def partLook : Look :=
  let header := ⟨.permitAccess,true,false,1⟩
  ⟨⟨header,header,false⟩,none,true,.ok 8,some (0,100)⟩

def partSide (offset : Nat) : CopyPtr := ⟨false,2,true,4,offset,true,(partLook,partLook),0⟩

def fromPart (offset len : Nat) : Copy := ⟨1,partSide offset,plainSide,len,true,true⟩

def sourceTaken (op : Copy) : State := (takeSide newGuests op true op.source initial).1

def bothTaken (op : Copy) : State := (takeSide newGuests op false op.dest (sourceTaken op)).1

theorem initial_narrow : Narrow initial := fun _ _ => ⟨Nat.two_pow_pos 15,Nat.two_pow_pos 16⟩

theorem copied_part : (gnttabCopy newGuests 1 (fromPart 50 50) initial).2.2 = some (sourceTaken (fromPart 50 50),bothTaken (fromPart 50 50)) :=
  (copies_iff 1).mpr ⟨by decide,rfl,rfl,rfl,Prod.ext rfl (by decide +kernel),Prod.ext rfl (by decide +kernel),rfl⟩

end XenAet.CopyBounds
