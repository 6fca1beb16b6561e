import Mathlib.Algebra.Group.Nat.Defs
import XenAet.Library.Intervals

namespace XenAet.RangeSet
open Library.Positions Library.Intervals

def ulongLimit : Nat := 2^64

abbrev Range := Library.Intervals.Interval

-- `nr_ranges` is how many more ranges may be made; negative for no limit.
structure Rangeset where
  rangeList : List Range
  nrRanges : Int
deriving DecidableEq, Repr

-- A pointer to a range is its position in the list, and `NULL` is `none`.
def findRangeFrom (s : Nat) : List Range → Nat → Option Nat → Option Nat
  | [],_,x => x
  | y :: rest,i,x => if s < y.s then x else findRangeFrom s rest (i+1) (some i)

def findRange (r : Rangeset) (s : Nat) : Option Nat := findRangeFrom s r.rangeList 0 none

def nextRange (r : Rangeset) (x : Nat) : Option Nat :=
  if x+1 < r.rangeList.length then some (x+1) else none

def rangeAt (r : Rangeset) (x : Nat) : Range := r.rangeList.getD x default

def setStart (r : Rangeset) (x v : Nat) : Rangeset := {r with rangeList:=r.rangeList.modify x ({· with s:=v})}

def setEnd (r : Rangeset) (x v : Nat) : Rangeset := {r with rangeList:=r.rangeList.modify x ({· with e:=v})}

-- The position at which a range inserted after `x` stands.
def after : Option Nat → Nat
  | none => 0
  | some x => x+1

def insertRange (r : Rangeset) (x : Option Nat) (y : Range) : Rangeset :=
  {r with rangeList:=r.rangeList.insertIdx (after x) y}

def destroyRange (r : Rangeset) (x : Nat) : Rangeset := ⟨r.rangeList.eraseIdx x,r.nrRanges+1⟩

-- `memory` is the answer of `xmalloc`.
def allocRange (memory : Bool) (r : Rangeset) : Option Rangeset :=
  if r.nrRanges = 0 then none
  else if memory then some {r with nrRanges:=r.nrRanges-1} else none

inductive Status where
  | done
  | noMemory
deriving DecidableEq, Repr

-- The endless loop of `rangeset_add_range`; every turn destroys a range, so
-- the length of the list bounds the turns.
def destroyCovered (x : Nat) : Nat → Rangeset → Rangeset
  | 0,r => r
  | fuel+1,r =>
    match nextRange r x with
    | none => r
    | some y => if (rangeAt r x).e < (rangeAt r y).e then r else destroyCovered x fuel (destroyRange r y)

def joinNext (r : Rangeset) (x : Nat) : Rangeset :=
  match nextRange r x with
  | none => r
  | some y =>
    if ((rangeAt r x).e+1) % ulongLimit = (rangeAt r y).s then destroyRange (setEnd r x (rangeAt r y).e) y else r

def detached (r : Rangeset) (x s : Nat) : Bool :=
  (rangeAt r x).e < s && ((rangeAt r x).e+1) % ulongLimit != s

def addFresh (memory : Bool) (r : Rangeset) (y : Option Nat) (s e : Nat) : Status × Rangeset :=
  match allocRange memory r with
  | none => (.noMemory,r)
  | some r => (.done,joinNext (insertRange r y ⟨s,e⟩) (after y))

-- The first range the new one runs into, its start moved down where the new
-- one begins before it.
def startAt (r : Rangeset) (s : Nat) : Option Nat → Option (Rangeset × Nat)
  | none => some (setStart r 0 s,0)
  | some x => if detached r x s then (nextRange r x).map fun x => (setStart r x s,x) else some (r,x)

def addSpanning (r : Rangeset) (x y e : Nat) : Rangeset :=
  let r := setEnd r x (if e < (rangeAt r y).e then (rangeAt r y).e else e)
  joinNext (destroyCovered x r.rangeList.length r) x

-- `none` is a dereference of `NULL`.
def addRange (memory : Bool) (r : Rangeset) (s e : Nat) : Option (Status × Rangeset) :=
  let x := findRange r s
  let y := findRange r e
  if x = y then
    match x with
    | none => some (addFresh memory r none s e)
    | some x =>
      if detached r x s then some (addFresh memory r (some x) s e)
      else some (.done,joinNext (if (rangeAt r x).e < e then setEnd r x e else r) x)
  else
    y.bind fun y => (startAt r s x).map fun (r,x) => (.done,addSpanning r x y e)

def removeWithin (memory : Bool) (r : Rangeset) (x s e : Nat) : Status × Rangeset :=
  let found := rangeAt r x
  if found.e < s then (.done,r)
  else if found.s < s ∧ e < found.e then
    match allocRange memory r with
    | none => (.noMemory,r)
    | some r => (.done,insertRange (setEnd r x (s-1)) (some x) ⟨(e+1) % ulongLimit,found.e⟩)
  else if found.s = s ∧ found.e ≤ e then (.done,destroyRange r x)
  else if found.s = s then (.done,setStart r x ((e+1) % ulongLimit))
  else if found.e ≤ e then (.done,setEnd r x (s-1))
  else (.done,r)

-- With the range at `x` gone its successor stands at `x` and the range at `y`
-- one lower.
def destroyUntil (x : Nat) : Nat → Rangeset → Rangeset
  | 0,r => r
  | y+1,r => if x = y+1 then r else destroyUntil x y (destroyRange r x)

def cutStart (r : Rangeset) (x e : Nat) : Rangeset :=
  let r := setStart r x ((e+1) % ulongLimit)
  if (rangeAt r x).e < (rangeAt r x).s then destroyRange r x else r

def removeSpanning (r : Rangeset) (x y s e : Nat) : Option Rangeset :=
  if (rangeAt r x).s < s then
    let r := setEnd r x (s-1)
    (nextRange r x).map fun x => cutStart (destroyUntil x y r) x e
  else some (cutStart (destroyUntil x y r) x e)

def removeRange (memory : Bool) (r : Rangeset) (s e : Nat) : Option (Status × Rangeset) :=
  let x := findRange r s
  let y := findRange r e
  if x = y then
    match x with
    | none => some (.done,r)
    | some x => some (removeWithin memory r x s e)
  else
    y.bind fun y => (removeSpanning r (x.getD 0) y s e).map (Status.done,·)

section Lists
variable {A B M : List Range} {x y : Range} {n : Int} {v : Nat}

@[simp] theorem rangeAt_middle : rangeAt ⟨A ++ x :: B,n⟩ A.length = x := by simp [rangeAt]

@[simp] theorem setStart_middle : setStart ⟨A ++ x :: B,n⟩ A.length v = ⟨A ++ ⟨v,x.e⟩ :: B,n⟩ := by
  simp [setStart,modify_middle]

@[simp] theorem setEnd_middle : setEnd ⟨A ++ x :: B,n⟩ A.length v = ⟨A ++ ⟨x.s,v⟩ :: B,n⟩ := by
  simp [setEnd,modify_middle]

@[simp] theorem destroyRange_middle : destroyRange ⟨A ++ x :: B,n⟩ A.length = ⟨A ++ B,n+1⟩ := by
  simp [destroyRange,erase_middle]

@[simp] theorem nextRange_last : nextRange ⟨A ++ [x],n⟩ A.length = none := by simp [nextRange]

@[simp] theorem nextRange_middle : nextRange ⟨A ++ x :: y :: B,n⟩ A.length = some (A.length+1) := by
  simp [nextRange]

theorem rangeAt_next : rangeAt ⟨A ++ x :: y :: B,n⟩ (A.length+1) = y := by simp [rangeAt]

theorem destroyRange_next : destroyRange ⟨A ++ x :: y :: B,n⟩ (A.length+1) = ⟨A ++ x :: B,n+1⟩ := by
  simpa using destroyRange_middle (A:=A ++ [x]) (x:=y)

theorem insertRange_after : insertRange ⟨A ++ B,n⟩ (lastOf A) y = ⟨A ++ y :: B,n⟩ := by
  rcases A.eq_nil_or_concat' with rfl | ⟨A,a,rfl⟩
  · simp [insertRange,after]
  · simpa [insertRange,after] using insert_middle (A:=A ++ [a]) (B:=B) (y:=y)

theorem insertRange_middle : insertRange ⟨A ++ x :: B,n⟩ (some A.length) y = ⟨A ++ x :: y :: B,n⟩ := by
  simpa using insertRange_after (A:=A ++ [x]) (B:=B)

theorem allocRange_some (got : allocRange memory r = some left) : left = {r with nrRanges:=r.nrRanges-1} := by
  unfold allocRange at got
  split at got
  · cases got
  · split at got
    · exact (Option.some.inj got).symm
    · cases got

theorem destroyUntil_spans :
    destroyUntil A.length (A.length+M.length) ⟨A ++ (M ++ y :: B),n⟩ = ⟨A ++ y :: B,n+M.length⟩ := by
  induction M generalizing n with
  | nil => cases size : A.length <;> simp [destroyUntil]
  | cons m M ih =>
    have step : A.length+(m :: M).length = (A.length+M.length)+1 := by simp; omega
    rw [step,destroyUntil,if_neg (by omega),List.cons_append,destroyRange_middle,ih]
    simp only [List.length_cons,Rangeset.mk.injEq,true_and]
    omega

theorem destroyCovered_stops (covered : ∀ m ∈ M, m.e ≤ x.e) (past : ∀ b ∈ B.head?, x.e < b.e)
    (enough : M.length ≤ fuel) :
    destroyCovered A.length fuel ⟨A ++ x :: (M ++ B),n⟩ = ⟨A ++ x :: B,n+M.length⟩ := by
  induction M generalizing fuel n with
  | nil =>
    cases fuel with
    | zero => simp [destroyCovered]
    | succ fuel =>
      cases B with
      | nil => simp [destroyCovered]
      | cons b B => simp [destroyCovered,rangeAt_next,past b rfl]
  | cons m M ih =>
    obtain ⟨fuel,rfl⟩ := Nat.exists_eq_add_of_le' enough
    have low : ¬ x.e < m.e := Nat.not_lt.mpr (covered m (by simp))
    simp only [List.length_cons,← Nat.add_assoc,List.cons_append,destroyCovered,nextRange_middle,rangeAt_middle,
      rangeAt_next,if_neg low,destroyRange_next]
    rw [ih (fun m at_m => covered m (by simp [at_m])) (by simp at enough ⊢)]
    simp only [Rangeset.mk.injEq,true_and]
    omega

theorem findRangeFrom_split (low : ∀ a ∈ A, a.s ≤ s) (high : ∀ b ∈ B.head?, s < b.s) (found : Option Nat) :
    findRangeFrom s (A ++ B) i found = if A = [] then found else some (i+A.length-1) := by
  induction A generalizing i found with
  | nil => cases B <;> simp_all [findRangeFrom]
  | cons a A ih =>
    have first : ¬ s < a.s := Nat.not_lt.mpr (low a (by simp))
    simp only [List.cons_append,findRangeFrom,if_neg first]
    rw [ih (fun a at_a => low a (by simp [at_a]))]
    cases A <;> simp
    omega

theorem findRange_split (low : ∀ a ∈ A, a.s ≤ s) (high : ∀ b ∈ B, s < b.s) :
    findRange ⟨A ++ B,n⟩ s = lastOf A := by
  have start : ∀ b ∈ B.head?, s < b.s := fun b at_b => high b (List.mem_of_mem_head? at_b)
  simp [findRange,findRangeFrom_split low start,lastOf]

end Lists

-- The ranges that start at or below `s`, those that start in `(s,e]`, and the rest.
structure Located (s e : Nat) (A M B : List Range) : Prop where
  low : ∀ a ∈ A, a.s ≤ s
  middle : ∀ m ∈ M, s < m.s ∧ m.s ≤ e
  high : ∀ b ∈ B, e < b.s

theorem exists_located (sorted : l.Pairwise fun i j : Range => i.e+1 < j.s) (proper : ∀ i ∈ l, i.s ≤ i.e) :
    ∃ A M B, l = A ++ (M ++ B) ∧ Located s e A M B := by
  induction l with
  | nil => exact ⟨[],[],[],rfl,by simp,by simp,by simp⟩
  | cons a l ih =>
    obtain ⟨first,rest⟩ := List.pairwise_cons.mp sorted
    obtain ⟨A,M,B,rfl,low,middle,high⟩ := ih rest fun i at_i => proper i (by simp [at_i])
    have later : ∀ i ∈ A ++ (M ++ B), a.s < i.s := by
      intro i at_i
      have := first i at_i
      have := proper a (by simp)
      omega
    by_cases below : a.s ≤ s
    · refine ⟨a :: A,M,B,rfl,?_,middle,high⟩
      simpa [below] using low
    · have none_low : A = [] := by
        refine List.eq_nil_iff_forall_not_mem.mpr fun i at_i => ?_
        have := low i at_i
        have := later i (by simp [at_i])
        omega
      subst none_low
      by_cases inside : a.s ≤ e
      · refine ⟨[],a :: M,B,rfl,by simp,?_,high⟩
        simpa [inside,Nat.lt_of_not_le below] using middle
      · have none_middle : M = [] := by
          refine List.eq_nil_iff_forall_not_mem.mpr fun i at_i => ?_
          have := middle i at_i
          have := later i (by simp [at_i])
          omega
        subst none_middle
        refine ⟨[],[],a :: B,rfl,by simp,by simp,?_⟩
        simpa [Nat.lt_of_not_le inside] using high

theorem Located.findRange_start (located : Located s e A M B) (le : s ≤ e) :
    findRange ⟨A ++ (M ++ B),n⟩ s = lastOf A := by
  refine findRange_split located.low fun b at_b => ?_
  rcases List.mem_append.mp at_b with inside | beyond
  · exact (located.middle b inside).1
  · exact Nat.lt_of_le_of_lt le (located.high b beyond)

theorem Located.findRange_end (located : Located s e A M B) (le : s ≤ e) :
    findRange ⟨A ++ (M ++ B),n⟩ e = lastOf (A ++ M) := by
  rw [← List.append_assoc]
  refine findRange_split (fun a at_a => ?_) located.high
  rcases List.mem_append.mp at_a with below | inside
  · exact Nat.le_trans (located.low a below) le
  · exact (located.middle a inside).2

end XenAet.RangeSet
