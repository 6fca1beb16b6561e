import Mathlib.Data.List.Basic
import Mathlib.Data.List.Chain
import Mathlib.Data.List.Nodup
import Mathlib.Logic.Function.Basic

namespace Library.Chains
variable {next next' : Nat → Nat} {cur p : Nat} {l : List Nat}

-- A singly linked list of nonzero nodes that ends where the link is 0.
def Follows (next : Nat → Nat) : Nat → List Nat → Prop
  | cur,[] => cur = 0
  | cur,p :: rest => cur = p ∧ p ≠ 0 ∧ Follows next (next p) rest

theorem follows_frame (follows : Follows next cur l) (same : ∀ p ∈ l, next' p = next p) : Follows next' cur l := by
  induction l generalizing cur with
  | nil => exact follows
  | cons p rest ih =>
    obtain ⟨here,nonzero,tail⟩ := follows
    refine ⟨here,nonzero,?_⟩
    rw [same p (by simp)]
    exact ih tail fun q later => same q (by simp [later])

theorem follows_nonzero (follows : Follows next cur l) (listed : p ∈ l) : p ≠ 0 := by
  induction l generalizing cur with
  | nil => cases listed
  | cons q rest ih =>
    obtain ⟨_,nonzero,tail⟩ := follows
    rcases List.mem_cons.mp listed with rfl | later
    · exact nonzero
    · exact ih tail later

theorem follows_head (follows : Follows next cur l) (nonzero : cur ≠ 0) : ∃ rest, l = cur :: rest := by
  cases l with
  | nil => exact absurd follows nonzero
  | cons p rest => exact ⟨rest,by rw [follows.1]⟩

-- Linking a node behind the last one.
theorem follows_append (follows : Follows next cur (l ++ [t])) (nonzero : p ≠ 0)
    (same : ∀ q ∈ l, next' q = next q) (linked : next' t = p) (final : next' p = 0) :
    Follows next' cur (l ++ [t] ++ [p]) := by
  induction l generalizing cur with
  | nil =>
    obtain ⟨here,exists_,_⟩ := follows
    exact ⟨here,exists_,linked,nonzero,final⟩
  | cons q rest ih =>
    obtain ⟨here,exists_,tail⟩ := follows
    refine ⟨here,exists_,?_⟩
    rw [same q (by simp)]
    exact ih tail fun r later => same r (by simp [later])

end Library.Chains

namespace Library.Rings
variable {P : Type} {next prev next' prev' : P → P} {s x : P} {l u v r : List P}

-- Nodes one after the other that are linked both ways.
def Linked (next prev : P → P) (l : List P) : Prop := l.IsChain fun x y => next x = y ∧ prev y = x

-- A circular list with its sentinel. A list with two ends is one, too: the
-- pointers to its ends are the links of a sentinel that no node is.
structure Ring (next prev : P → P) (s : P) (l : List P) : Prop where
  linked : Linked next prev (s :: (l ++ [s]))
  once : (s :: l).Nodup

theorem linked_congr (linked : Linked next prev (x :: l)) (nexts : ∀ y ∈ (x :: l).dropLast, next' y = next y)
    (prevs : ∀ y ∈ l, prev' y = prev y) : Linked next' prev' (x :: l) := by
  induction l generalizing x with
  | nil => exact .singleton _
  | cons y l ih =>
    obtain ⟨⟨onward,back⟩,rest⟩ := List.isChain_cons_cons.mp linked
    refine List.isChain_cons_cons.mpr ⟨⟨?_,?_⟩,?_⟩
    · rw [nexts x (by simp)]
      exact onward
    · rw [prevs y (by simp)]
      exact back
    · refine ih rest (fun z later => nexts z ?_) fun z later => prevs z (by simp [later])
      rw [List.dropLast_cons_cons]
      exact List.mem_cons_of_mem _ later

theorem linked_split : Linked next prev (l ++ x :: r) ↔ Linked next prev (l ++ [x]) ∧ Linked next prev (x :: r) :=
  List.isChain_split

theorem ends_last (s : P) (l : List P) : ∃ before, s :: l = before ++ [l.getLastD s] := by
  induction l generalizing s with
  | nil => exact ⟨[],rfl⟩
  | cons x l ih =>
    obtain ⟨before,list⟩ := ih x
    rw [List.getLastD_cons,list]
    exact ⟨s :: before,rfl⟩

theorem starts_first (s : P) (r : List P) : ∃ after, r ++ [s] = r.headD s :: after := by
  cases r with
  | nil => exact ⟨[],rfl⟩
  | cons x r => exact ⟨r ++ [s],rfl⟩

-- Whatever stands between `l` and `r` is replaced, once its ends are linked to
-- theirs and no other link of theirs is touched.
theorem Ring.relink (ring : Ring next prev s (l ++ u ++ r)) (once : (s :: (l ++ v ++ r)).Nodup)
    (middle : Linked next' prev' (l.getLastD s :: (v ++ [r.headD s])))
    (nexts : ∀ x ∈ s :: (l ++ r), x ≠ l.getLastD s → next' x = next x)
    (prevs : ∀ x ∈ s :: (l ++ r), x ≠ r.headD s → prev' x = prev x) : Ring next' prev' s (l ++ v ++ r) := by
  obtain ⟨before,lefts⟩ := ends_last s l
  obtain ⟨after,rights⟩ := starts_first s r
  have path (w : List P) : s :: (l ++ w ++ r ++ [s]) = before ++ l.getLastD s :: (w ++ r.headD s :: after) :=
    calc s :: (l ++ w ++ r ++ [s]) = (s :: l) ++ (w ++ (r ++ [s])) := by simp
      _ = before ++ l.getLastD s :: (w ++ r.headD s :: after) := by rw [lefts,rights]; simp
  have old := ring.linked
  rw [path] at old
  have apart : (s :: (l ++ r)).Nodup := ring.once.sublist (by simp)
  have disjoint := (List.nodup_append.mp apart.of_cons).2.2
  have left : l.getLastD s ∈ s :: l := by rw [lefts]; simp
  have right : r.headD s ∈ r ++ [s] := by rw [rights]; simp
  refine ⟨?_,once⟩
  rw [path]
  refine linked_split.mpr ⟨?_,(linked_split (l:=_ :: v)).mpr ⟨middle,?_⟩⟩
  · have first : Linked next prev (s :: l) := by
      rw [lefts]
      exact (linked_split.mp old).1
    have unique : (s :: l).Nodup := apart.sublist (by simp)
    rw [← lefts]
    refine linked_congr first (fun y early => nexts y ?_ fun same => ?_) fun y listed => prevs y (by simp [listed]) fun same => ?_
    · exact List.mem_append_left r (List.dropLast_subset _ early)
    · rw [lefts,List.dropLast_concat] at early
      rw [lefts] at unique
      exact (List.nodup_append.mp unique).2.2 y early _ (List.mem_singleton_self _) same
    · rw [same] at listed
      rcases List.mem_append.mp right with there | there
      · exact disjoint _ listed _ there rfl
      · rw [List.mem_singleton.mp there] at listed
        exact (List.nodup_cons.mp apart).1 (List.mem_append_left r listed)
  · have last : Linked next prev (r.headD s :: after) := ((linked_split (l:=_ :: u)).mp (linked_split.mp old).2).2
    have unique : (r ++ [s]).Nodup := List.nodup_append_comm.mp (apart.sublist (by simp))
    refine linked_congr last (fun y early => ?_) fun y late => ?_
    · rw [← rights,List.dropLast_concat] at early
      refine nexts y (by simp [early]) fun same => ?_
      rw [same] at early
      rcases List.mem_cons.mp left with there | there
      · rw [there] at early
        exact (List.nodup_cons.mp apart).1 (List.mem_append_right l early)
      · exact disjoint _ there _ early rfl
    · have listed : y ∈ r ++ [s] := by rw [rights]; exact List.mem_cons_of_mem _ late
      rw [rights] at unique
      refine prevs y ?_ fun same => (List.nodup_cons.mp unique).1 (same ▸ late)
      rcases List.mem_append.mp listed with there | there
      · exact List.mem_cons_of_mem s (List.mem_append_right l there)
      · rw [List.mem_singleton.mp there]
        exact List.mem_cons_self

theorem Ring.cut (ring : Ring next prev s (l ++ u ++ r)) (onward : next' (l.getLastD s) = r.headD s) (back : prev' (r.headD s) = l.getLastD s)
    (nexts : ∀ x ∈ s :: (l ++ r), x ≠ l.getLastD s → next' x = next x)
    (prevs : ∀ x ∈ s :: (l ++ r), x ≠ r.headD s → prev' x = prev x) : Ring next' prev' s (l ++ r) := by
  have once : (s :: (l ++ [] ++ r)).Nodup := ring.once.sublist (by simp)
  have ring := ring.relink once (List.isChain_pair.mpr ⟨onward,back⟩) nexts prevs
  rwa [List.append_nil] at ring

theorem Ring.insert (ring : Ring next prev s (l ++ r)) (once : (s :: (l ++ v ++ r)).Nodup)
    (middle : Linked next' prev' (l.getLastD s :: (v ++ [r.headD s])))
    (nexts : ∀ x ∈ s :: (l ++ r), x ≠ l.getLastD s → next' x = next x)
    (prevs : ∀ x ∈ s :: (l ++ r), x ≠ r.headD s → prev' x = prev x) : Ring next' prev' s (l ++ v ++ r) := by
  rw [← List.append_nil l] at ring
  exact ring.relink once middle nexts prevs

theorem headD_mem (s : P) (r : List P) : r.headD s ∈ s :: r := by
  cases r with
  | nil => exact List.mem_cons_self
  | cons x r => exact List.mem_cons_of_mem _ List.mem_cons_self

-- What is next to each other in a ring is linked, its ends to the sentinel.
theorem Ring.seam (ring : Ring next prev s (l ++ r)) : next (l.getLastD s) = r.headD s ∧ prev (r.headD s) = l.getLastD s := by
  obtain ⟨before,lefts⟩ := ends_last s l
  obtain ⟨after,rights⟩ := starts_first s r
  have path : s :: (l ++ r ++ [s]) = before ++ l.getLastD s :: r.headD s :: after :=
    calc s :: (l ++ r ++ [s]) = (s :: l) ++ (r ++ [s]) := by simp
      _ = before ++ l.getLastD s :: r.headD s :: after := by rw [lefts,rights]; simp
  have linked := ring.linked
  rw [path] at linked
  exact (List.isChain_cons_cons.mp (linked_split.mp linked).2).1

theorem Ring.around (ring : Ring next prev s (l ++ x :: r)) : next x = r.headD s ∧ prev x = l.getLastD s := by
  refine ⟨?_,ring.seam.2⟩
  have split : l ++ x :: r = (l ++ [x]) ++ r := by simp
  rw [split] at ring
  simpa using ring.seam.1

theorem Ring.ends (ring : Ring next prev s l) : next s = l.headD s ∧ prev s = l.getLastD s := by
  refine ⟨Ring.seam (l:=[]) ring |>.1,?_⟩
  rw [← List.append_nil l] at ring
  exact ring.seam.2

end Library.Rings

namespace Library.TailQueues
open Chains
variable {Q : Type} [DecidableEq Q] {chain : Q → List Nat} {p : Nat} {q : Q}

-- Queues threaded through one array of links. `home` is the queue a node was
-- last put on; the consumer takes nodes off at `start` and does not tell, so a
-- tail may name a node that has left.
@[ext] structure Shape (Q : Type) where
  linked : Nat → Bool
  link : Nat → Nat
  home : Nat → Q
  tail : Q → Nat
  start : Q → Nat

structure Ordered (s : Shape Q) (chain : Q → List Nat) : Prop where
  follows : ∀ q, Follows s.link (s.start q) (chain q)
  nodup : ∀ q, (chain q).Nodup
  member : ∀ q p, p ∈ chain q ↔ s.linked p = true ∧ s.home p = q
  last : ∀ q l t, chain q = l ++ [t] → s.tail q = t
  tails : ∀ q, s.tail q ≠ 0 → s.home (s.tail q) = q
  clean : ∀ p, s.linked p = false → s.link p = 0

def pop (s : Shape Q) (q : Q) : Shape Q :=
  {s with linked := Function.update s.linked (s.start q) false,link := Function.update s.link (s.start q) 0,
          start := Function.update s.start q (s.link (s.start q))}

-- A node that was a tail is taken out of that place before it goes to the end
-- of another queue.
def vacated (s : Shape Q) (p : Nat) : Q → Nat :=
  if s.tail (s.home p) = p then Function.update s.tail (s.home p) 0 else s.tail

def behind (s : Shape Q) (p : Nat) (q : Q) : Bool :=
  vacated s p q != 0 && Function.update s.linked p true (vacated s p q)

def push (s : Shape Q) (p : Nat) (q : Q) : Shape Q where
  linked := Function.update s.linked p true
  link := if behind s p q then Function.update s.link (vacated s p q) p else s.link
  home := Function.update s.home p q
  tail := Function.update (vacated s p) q p
  start := if behind s p q then s.start else Function.update s.start q p

theorem pop_ordered (ordered : Ordered s chain) (some : s.start q ≠ 0) :
    ∃ chain', Ordered (pop s q) chain' := by
  obtain ⟨rest,list⟩ := follows_head (ordered.follows q) some
  generalize head : s.start q = p at list some
  have chained := ordered.follows q
  have unique := ordered.nodup q
  rw [list] at chained unique
  obtain ⟨fresh,unique⟩ := List.nodup_cons.mp unique
  have own : s.linked p = true ∧ s.home p = q := (ordered.member q p).mp (by simp [list])
  have elsewhere {r} (other : r ≠ q) : p ∉ chain r := fun listed =>
    other (((ordered.member r p).mp listed).2.symm.trans own.2)
  refine ⟨Function.update chain q rest,?_,?_,?_,?_,ordered.tails,?_⟩
  · intro r
    by_cases here : r = q
    · subst here
      simp only [pop,head,Function.update_self]
      refine follows_frame chained.2.2 fun x listed => ?_
      have apart : x ≠ p := fun same => fresh (same ▸ listed)
      simp [apart]
    · simp only [pop,head,Function.update_of_ne here]
      refine follows_frame (ordered.follows r) fun x listed => ?_
      have apart : x ≠ p := fun same => elsewhere here (same ▸ listed)
      simp [apart]
  · intro r
    by_cases here : r = q
    · simpa [here] using unique
    · simpa [here] using ordered.nodup r
  · intro r x
    by_cases at_p : x = p
    · subst at_p
      by_cases here : r = q
      · simp [pop,head,here,fresh]
      · simp [pop,head,here,elsewhere here]
    · have old := ordered.member r x
      by_cases here : r = q
      · subst here
        simpa [pop,head,at_p,list] using old
      · simpa [pop,head,at_p,here] using old
  · intro r l t split
    by_cases here : r = q
    · subst here
      rw [Function.update_self] at split
      exact ordered.last r (p :: l) t (by rw [list,split]; rfl)
    · rw [Function.update_of_ne here] at split
      exact ordered.last r l t split
  · intro x unlinked
    by_cases at_p : x = p
    · simp [pop,head,at_p]
    · simp only [pop,head,Function.update_of_ne at_p] at unlinked ⊢
      exact ordered.clean x unlinked

theorem vacated_eq (ordered : Ordered s chain) (nonzero : p ≠ 0) (q : Q) :
    vacated s p q = if s.tail q = p then 0 else s.tail q := by
  unfold vacated
  by_cases tail : s.tail q = p
  · have home : s.home p = q := tail ▸ ordered.tails q (tail ▸ nonzero)
    rw [home,if_pos tail,if_pos tail,Function.update_self]
  · rw [if_neg tail]
    split
    next other =>
      by_cases here : q = s.home p
      · exact absurd (here ▸ other) tail
      · rw [Function.update_of_ne here]
    · rfl

-- A queue is pushed behind exactly when it holds something.
theorem behind_iff (ordered : Ordered s chain) (fresh : s.linked p = false) (nonzero : p ≠ 0) (q : Q) :
    behind s p q = true ↔ ∃ l, chain q = l ++ [s.tail q] ∧ vacated s p q = s.tail q := by
  have vacant := vacated_eq ordered nonzero q
  constructor
  · intro after
    simp only [behind,Bool.and_eq_true,bne_iff_ne,ne_eq] at after
    obtain ⟨some,linked⟩ := after
    have other : s.tail q ≠ p := fun same => some (by rw [vacant,if_pos same])
    rw [if_neg other] at vacant
    rw [vacant] at some linked
    rw [Function.update_of_ne other] at linked
    have listed := (ordered.member q (s.tail q)).mpr ⟨linked,ordered.tails q some⟩
    obtain empty | ⟨l,t,list⟩ := List.eq_nil_or_concat' (chain q)
    · simp [empty] at listed
    · exact ⟨l,by rw [list,ordered.last q l t list],vacant⟩
  · rintro ⟨l,list,vacant⟩
    have listed : s.tail q ∈ chain q := by simp [list]
    have linked := ((ordered.member q _).mp listed).1
    have other : s.tail q ≠ p := fun same => by simp [same,fresh] at linked
    simp [behind,vacant,other,linked,follows_nonzero (ordered.follows q) listed]

theorem not_behind (ordered : Ordered s chain) (fresh : s.linked p = false) (nonzero : p ≠ 0)
    (none : ¬behind s p q = true) : chain q = [] := by
  obtain empty | ⟨l,t,list⟩ := List.eq_nil_or_concat' (chain q)
  · exact empty
  · have tail := ordered.last q l t list
    have linked := ((ordered.member q t).mp (by simp [list])).1
    have other : s.tail q ≠ p := fun same => by simp [← tail,same,fresh] at linked
    exact absurd ((behind_iff ordered fresh nonzero q).mpr
      ⟨l,by rw [list,tail],by rw [vacated_eq ordered nonzero,if_neg other]⟩) none

theorem push_follows (ordered : Ordered s chain) (fresh : s.linked p = false) (nonzero : p ≠ 0) (q r : Q) :
    Follows (push s p q).link ((push s p q).start r) (Function.update chain q (chain q ++ [p]) r) := by
  by_cases queued : behind s p q
  · obtain ⟨l,list,vacant⟩ := (behind_iff ordered fresh nonzero q).mp queued
    have tail : s.linked (s.tail q) = true ∧ s.home (s.tail q) = q := (ordered.member q _).mp (by simp [list])
    have other : p ≠ s.tail q := fun same => by simp [← same,fresh] at tail
    simp only [push,queued,if_true,vacant]
    by_cases here : r = q
    · subst here
      rw [Function.update_self,list]
      refine follows_append (list ▸ ordered.follows r) nonzero (fun x listed => ?_) (by simp) ?_
      · have apart : x ≠ s.tail r := by
          rintro rfl
          have unique := ordered.nodup r
          rw [list] at unique
          exact (List.disjoint_of_nodup_append unique) listed (by simp)
        simp [apart]
      · simp [other,ordered.clean p fresh]
    · rw [Function.update_of_ne here]
      refine follows_frame (ordered.follows r) fun x listed => ?_
      have apart : x ≠ s.tail q := by
        rintro rfl
        exact here (((ordered.member r _).mp listed).2.symm.trans tail.2)
      simp [apart]
  · simp only [push,if_neg queued]
    by_cases here : r = q
    · subst here
      rw [Function.update_self,Function.update_self,not_behind ordered fresh nonzero queued]
      exact ⟨rfl,nonzero,ordered.clean p fresh⟩
    · rw [Function.update_of_ne here,Function.update_of_ne here]
      exact ordered.follows r

theorem push_tails (ordered : Ordered s chain) (nonzero : p ≠ 0) (q r : Q) (some : (push s p q).tail r ≠ 0) :
    (push s p q).home ((push s p q).tail r) = r := by
  simp only [push] at some ⊢
  by_cases here : r = q
  · simp [here]
  · rw [Function.update_of_ne here] at some ⊢
    have vacant := vacated_eq ordered nonzero r
    have other : s.tail r ≠ p := fun same => some (by rw [vacant,if_pos same])
    rw [if_neg other] at vacant
    rw [vacant] at some ⊢
    rw [Function.update_of_ne other]
    exact ordered.tails r some

theorem push_clean (ordered : Ordered s chain) (fresh : s.linked p = false) (nonzero : p ≠ 0) (q : Q) (x : Nat)
    (unlinked : (push s p q).linked x = false) : (push s p q).link x = 0 := by
  simp only [push] at unlinked ⊢
  have apart : x ≠ p := by
    rintro rfl
    simp at unlinked
  rw [Function.update_of_ne apart] at unlinked
  split
  next queued =>
    obtain ⟨l,list,vacant⟩ := (behind_iff ordered fresh nonzero q).mp queued
    have tail := ((ordered.member q (s.tail q)).mp (by simp [list])).1
    have other : x ≠ s.tail q := fun same => by simp [same,tail] at unlinked
    rw [vacant,Function.update_of_ne other]
    exact ordered.clean x unlinked
  · exact ordered.clean x unlinked

theorem push_ordered (ordered : Ordered s chain) (fresh : s.linked p = false) (nonzero : p ≠ 0) (q : Q) :
    ∃ chain', Ordered (push s p q) chain' := by
  have absent (r : Q) : p ∉ chain r := fun listed => by simp [((ordered.member r p).mp listed).1] at fresh
  refine ⟨Function.update chain q (chain q ++ [p]),push_follows ordered fresh nonzero q,fun r => ?_,fun r x => ?_,
    fun r l t split => ?_,push_tails ordered nonzero q,push_clean ordered fresh nonzero q⟩
  · by_cases here : r = q
    · subst here
      rw [Function.update_self]
      exact List.nodup_append_comm.mp (List.nodup_cons.mpr ⟨absent r,ordered.nodup r⟩)
    · rw [Function.update_of_ne here]
      exact ordered.nodup r
  · have old := ordered.member r x
    simp only [push]
    by_cases at_p : x = p
    · subst at_p
      by_cases here : r = q
      · simp [here]
      · simp [here,absent r,Ne.symm here]
    · by_cases here : r = q
      · subst here
        simpa [at_p] using old
      · simpa [at_p,here] using old
  · simp only [push]
    by_cases here : r = q
    · subst here
      rw [Function.update_self] at split ⊢
      exact List.singleton_inj.mp (List.append_inj' split rfl).2
    · rw [Function.update_of_ne here] at split ⊢
      have tail := ordered.last r l t split
      have other : s.tail r ≠ p := fun same => absent r (by simp [split,← same,tail])
      rw [vacated_eq ordered nonzero,if_neg other,tail]

end Library.TailQueues
