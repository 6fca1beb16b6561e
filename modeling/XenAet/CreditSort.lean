import XenAet.Library.LinkedLists
import XenAet.Library.Loops

namespace XenAet.CreditSort
open Library Rings

def cschedPriTsUnder : Int := -1

-- A pointer to a `list_head`: that of the queue itself, or of a vcpu on it.
inductive Ptr where
  | runq
  | elem (v : Nat)
  | poison1
  | poison2
deriving DecidableEq

structure Links where
  next : Ptr → Ptr
  prev : Ptr → Ptr

inductive Fault where
  | assert
  | stuck
deriving DecidableEq

-- `__list_add`
def listAddBetween (l : Links) (new prev next : Ptr) : Links where
  next := Function.update (Function.update l.next new next) prev new
  prev := Function.update (Function.update l.prev next new) new prev

def listAdd (l : Links) (new head : Ptr) : Links := listAddBetween l new head (l.next head)

def listDel (l : Links) (entry : Ptr) : Except Fault Links :=
  let prev := l.prev entry
  let next := l.next entry
  if l.prev next = entry ∧ l.next prev = entry then
    .ok ⟨Function.update (Function.update l.next prev next) entry .poison1,Function.update (Function.update l.prev next prev) entry .poison2⟩
  else .error .assert

structure Walk where
  links : Links
  elem : Ptr
  lastUnder : Ptr

-- `pri` is the priority of the vcpu that an element is part of.
def sortTurn (pri : Ptr → Int) (s : Walk) : Except Fault Walk :=
  let next := s.links.next s.elem
  if cschedPriTsUnder ≤ pri s.elem then
    if s.links.prev s.elem ≠ s.lastUnder then
      (listDel s.links s.elem).map fun links => ⟨listAdd links s.elem s.lastUnder,next,s.elem⟩
    else .ok ⟨s.links,next,s.elem⟩
  else .ok {s with elem := next}

def Walk.going (s : Walk) : Bool := s.elem != .runq

structure Pcpu where
  links : Links
  runqSortLast : BitVec 32

def cschedRunqSort (fuel : Nat) (pri : Ptr → Int) (runqSort : BitVec 32) (spc : Pcpu) : Except Fault Pcpu :=
  if runqSort = spc.runqSortLast then .ok spc
  else
    (While.tryLoop .stuck Walk.going (sortTurn pri) fuel ⟨spc.links,spc.links.next .runq,.runq⟩).map fun s =>
      ⟨s.links,runqSort⟩

variable {l : Links} {x : Ptr} {a b done rest : List Ptr} {pri : Ptr → Int} {s : Walk}

def Queue (l : Links) (queue : List Ptr) : Prop := Ring l.next l.prev .runq queue

theorem listDel_queue (queue : Queue l (a ++ x :: b)) : ∃ l', listDel l x = .ok l' ∧ Queue l' (a ++ b) := by
  obtain ⟨onward,back⟩ := queue.around
  have before : l.next (a.getLastD .runq) = x := queue.seam.1
  have fresh : x ∉ Ptr.runq :: (a ++ b) := by grind [queue.once]
  have left := List.getLastD_mem_cons (a:=Ptr.runq) (l:=a)
  have right := headD_mem Ptr.runq b
  rw [List.append_cons] at queue
  have after : l.prev (b.headD .runq) = x := by simpa using queue.seam.2
  refine ⟨_,if_pos ⟨onward ▸ after,back ▸ before⟩,?_⟩
  rw [onward,back]
  refine queue.cut ?_ ?_ (fun y listed other => ?_) fun y listed other => ?_
  · exact (Function.update_of_ne (by grind) ..).trans (Function.update_self ..)
  · exact (Function.update_of_ne (by grind) ..).trans (Function.update_self ..)
  · exact (Function.update_of_ne (by grind) ..).trans (Function.update_of_ne other ..)
  · exact (Function.update_of_ne (by grind) ..).trans (Function.update_of_ne other ..)

theorem listAdd_queue (queue : Queue l (a ++ b)) (fresh : x ∉ Ptr.runq :: (a ++ b)) :
    Queue (listAdd l x (a.getLastD .runq)) (a ++ x :: b) := by
  have left := List.getLastD_mem_cons (a:=Ptr.runq) (l:=a)
  have right := headD_mem Ptr.runq b
  rw [listAdd,queue.seam.1,List.append_cons]
  refine queue.insert (by grind [queue.once]) ?_ (fun y listed other => ?_) fun y listed other => ?_
  · refine List.isChain_cons_cons.mpr ⟨⟨Function.update_self ..,Function.update_self ..⟩,List.isChain_pair.mpr ⟨?_,?_⟩⟩
    · exact (Function.update_of_ne (by grind) ..).trans (Function.update_self ..)
    · exact (Function.update_of_ne (by grind) ..).trans (Function.update_self ..)
  · exact (Function.update_of_ne other ..).trans (Function.update_of_ne (by grind) ..)
  · exact (Function.update_of_ne (by grind) ..).trans (Function.update_of_ne other ..)

def under (pri : Ptr → Int) (x : Ptr) : Bool := decide (cschedPriTsUnder ≤ pri x)

-- What the loop has gone over stands in two groups before what is left.
structure Sorting (pri : Ptr → Int) (done rest : List Ptr) (s : Walk) : Prop where
  queue : Queue s.links (done.filter (under pri) ++ done.filter (!under pri ·) ++ rest)
  elem : s.elem = rest.headD .runq
  lastUnder : s.lastUnder = (done.filter (under pri)).getLastD .runq

theorem sortTurn_sorting (sorting : Sorting pri done (x :: rest) s) :
    ∃ s', sortTurn pri s = .ok s' ∧ Sorting pri (done ++ [x]) rest s' := by
  have here : s.elem = x := sorting.elem
  obtain ⟨onward,back⟩ := sorting.queue.around
  unfold sortTurn
  rw [here,onward]
  split
  next first =>
    have taken : under pri x = true := decide_eq_true first
    split
    next apart =>
      -- the element stands behind some of the second group and moves before it
      obtain ⟨links,deleted,queue⟩ := listDel_queue sorting.queue
      rw [deleted]
      have fresh : x ∉ Ptr.runq :: (done.filter (under pri) ++ (done.filter (!under pri ·) ++ rest)) := by grind [sorting.queue.once]
      rw [List.append_assoc] at queue
      refine ⟨_,rfl,?_,rfl,?_⟩
      · simp only [List.filter_append,sorting.lastUnder]
        simpa [taken] using listAdd_queue queue fresh
      · simp [taken]
    next still =>
      rw [not_not,back,sorting.lastUnder] at still
      have empty : done.filter (!under pri ·) = [] := by
        rcases List.eq_nil_or_concat' (done.filter (!under pri ·)) with none_ | ⟨others,z,list⟩
        · exact none_
        · have once := sorting.queue.once
          rw [list] at still once
          have last : z = (done.filter (under pri)).getLastD .runq := by simpa using still
          have listed := List.getLastD_mem_cons (a:=Ptr.runq) (l:=done.filter (under pri))
          grind
      refine ⟨_,rfl,?_,rfl,?_⟩
      · simpa [taken,empty] using sorting.queue
      · simp [taken]
  next second =>
    have left : under pri x = false := decide_eq_false second
    refine ⟨_,rfl,?_,rfl,?_⟩
    · simpa [left] using sorting.queue
    · simpa [left] using sorting.lastUnder

theorem loop_sorts (sorting : Sorting pri done rest s) (enough : rest.length ≤ fuel) :
    ∃ last, While.tryLoop .stuck Walk.going (sortTurn pri) fuel s = .ok last ∧ Sorting pri (done ++ rest) [] last := by
  induction rest generalizing done s fuel with
  | nil =>
    rw [List.append_nil]
    exact ⟨s,While.tryLoop_stop (by simp [Walk.going,sorting.elem]),sorting⟩
  | cons x rest ih =>
    obtain ⟨fuel,rfl⟩ := Nat.exists_eq_add_of_le' enough
    have other : x ≠ .runq := by grind [sorting.queue.once]
    have going : s.going = true := by
      rw [Walk.going,sorting.elem]
      exact bne_iff_ne.mpr other
    obtain ⟨next,turned,sorted⟩ := sortTurn_sorting sorting
    have left : rest.length ≤ fuel + rest.length := by omega
    obtain ⟨last,ended,all⟩ := ih sorted left
    rw [List.append_assoc] at all
    refine ⟨last,?_,all⟩
    rw [List.length_cons,← Nat.add_assoc,While.tryLoop_turn going turned]
    exact ended

-- The groups that a sort leaves: the same elements, those of the first group in
-- front, and each group in its old order.
structure StablePartition (first : Ptr → Bool) (old new : List Ptr) : Prop where
  perm : new.Perm old
  ordered : new.Pairwise fun x y => first y = true → first x = true
  firsts : new.filter first = old.filter first
  others : new.filter (!first ·) = old.filter (!first ·)

theorem partition_stable (first : Ptr → Bool) (old : List Ptr) :
    StablePartition first old (old.filter first ++ old.filter (!first ·)) := by
  refine ⟨List.filter_append_perm first old,List.pairwise_append.mpr ⟨?_,?_,?_⟩,by simp,by simp⟩
  · exact List.pairwise_of_forall_mem_list fun x listed _ _ _ => (List.mem_filter.mp listed).2
  · exact List.pairwise_of_forall_mem_list fun _ _ y listed taken => by simp [taken] at listed
  · exact fun x listed _ _ _ => (List.mem_filter.mp listed).2

theorem runq_sort_stable (pri : Ptr → Int) (runqSort : BitVec 32) (spc : Pcpu) (queue : List Ptr) (fuel : Nat)
    (linked : Queue spc.links queue) (due : runqSort ≠ spc.runqSortLast) (enough : queue.length ≤ fuel) :
    ∃ spc' sorted, cschedRunqSort fuel pri runqSort spc = .ok spc' ∧ Queue spc'.links sorted ∧ StablePartition (under pri) queue sorted ∧
      spc'.runqSortLast = runqSort := by
  have sorting : Sorting pri [] queue ⟨spc.links,spc.links.next .runq,.runq⟩ := ⟨linked,linked.ends.1,rfl⟩
  obtain ⟨last,ended,sorted⟩ := loop_sorts sorting enough
  refine ⟨⟨last.links,runqSort⟩,_,?_,?_,partition_stable (under pri) queue,rfl⟩
  · rw [cschedRunqSort,if_neg due,ended]
    rfl
  · simpa using sorted.queue

-- A vcpu without credits stands in front of one with credits.
def mixed : Pcpu where
  links.next
    | .runq => .elem 0
    | .elem 0 => .elem 1
    | _ => .runq
  links.prev
    | .runq => .elem 1
    | .elem 1 => .elem 0
    | _ => .runq
  runqSortLast := 0

def mixedPri : Ptr → Int
  | .elem 1 => -1
  | _ => -2

theorem runq_sort_stable_mixed : ∃ spc' sorted, cschedRunqSort 2 mixedPri 1 mixed = .ok spc' ∧ Queue spc'.links sorted ∧
    StablePartition (under mixedPri) [.elem 0,.elem 1] sorted ∧ spc'.runqSortLast = 1 := by
  have linked : Queue mixed.links [.elem 0,.elem 1] := by
    refine ⟨?_,by decide⟩
    unfold Linked
    decide
  exact runq_sort_stable mixedPri 1 mixed [.elem 0,.elem 1] 2 linked (by decide) (by decide)

end XenAet.CreditSort
