import Mathlib.Logic.Equiv.Basic
import XenAet.OutOfSync

namespace XenAet.OosRuns
open AetControl OutOfSync Library

-- What the slot of a page holds beside the page.
structure Holds {C : Type} (s : System C) (v i : Nat) (g : U64) : Prop where
  near : i = home g ∨ i = after (home g)
  lone : LoneL1 (s.page g)
  own : (s.fixup v i).owner = g
  filled : s.frame (s.snapshot v i) = s.kept g

-- `frames` are the snapshot frames that each vcpu got first.
structure Inv {C : Type} (n : Nat) (frames : Nat → List U64) (s : System C) : Prop where
  holds : ∀ v < n, ∀ i < shadowOosPages, ∀ g, s.oos v i = some g → Holds s v i g
  listed : ∀ g, pageIsOutOfSync (s.page g) = true → ∃ v < n, ∃ i < shadowOosPages, s.oos v i = some g
  once : ∀ v < n, ∀ i < shadowOosPages, ∀ w < n, ∀ k < shadowOosPages, ∀ g, s.oos v i = some g → s.oos w k = some g → w = v ∧ k = i
  apart : ∀ v < n, ∀ i < shadowOosPages, ∀ w < n, ∀ k < shadowOosPages, s.snapshot v i = s.snapshot w k → w = v ∧ k = i
  order : ∀ v < n, ((List.range shadowOosPages).map (s.snapshot v)).Perm (frames v)

section
variable {C : Type} {n v i idx j : Nat} {frames : Nat → List U64} {sync : C → C → C} {s s' : System C} {g : U64}

theorem Inv.only (inv : Inv n frames s) (vcpu : v < n) (slot : i < shadowOosPages) (here : s.oos v i = some g) :
    Only n s v i g ∧ LoneL1 (s.page g) :=
  have holds := inv.holds v vcpu i slot g here
  ⟨⟨vcpu,slot,here,holds.near,fun w inside k small there => inv.once v vcpu i slot w inside k small g here there⟩,holds.lone⟩

theorem Inv.found (inv : Inv n frames s) (out : pageIsOutOfSync (s.page g) = true) : ∃ v i, Only n s v i g ∧ LoneL1 (s.page g) := by
  obtain ⟨v,vcpu,i,slot,here⟩ := inv.listed g out
  exact ⟨v,i,inv.only vcpu slot here⟩

theorem Inv.not_new (inv : Inv n frames s) (vcpu : v < n) (slot : i < shadowOosPages) (fresh : pageIsOutOfSync (s.page g) = false) :
    s.oos v i ≠ some g := fun here => by
  have out := (inv.holds v vcpu i slot g here).lone.1
  rw [fresh] at out
  cases out

theorem removed_inv (inv : Inv n frames s) (vcpu : v < n) (slot : i < shadowOosPages) (crushed : Crushed s v i s')
    (cleared : s'.oos v i = none) : Inv n frames s' := by
  have old (w k g) (there : s'.oos w k = some g) : ¬ (w = v ∧ k = i) ∧ s.oos w k = some g := by
    have other : ¬ (w = v ∧ k = i) := by
      rintro ⟨rfl,rfl⟩
      rw [cleared] at there
      cases there
    exact ⟨other,(crushed.oos w k other).symm.trans there⟩
  refine ⟨fun w inside k small g there => ?_,fun g out => ?_,fun w inside k small w' inside' k' small' g there there' => ?_,?_,?_⟩
  · obtain ⟨other,before⟩ := old w k g there
    have holds := inv.holds w inside k small g before
    have away : s.oos v i ≠ some g := fun here => other (inv.once v vcpu i slot w inside k small g here before)
    have frame : s.snapshot w k ≠ s.snapshot v i := fun same => other (inv.apart v vcpu i slot w inside k small same.symm)
    refine ⟨holds.near,?_,?_,?_⟩
    · rw [crushed.pages g away]
      exact holds.lone
    · rw [crushed.fixup w k other]
      exact holds.own
    · rw [crushed.snapshot,crushed.frame _ frame,crushed.kept g away]
      exact holds.filled
  · have away : s.oos v i ≠ some g := fun here => by
      rw [crushed.synced g here] at out
      cases out
    rw [crushed.pages g away] at out
    obtain ⟨w,inside,k,small,before⟩ := inv.listed g out
    have other : ¬ (w = v ∧ k = i) := fun same => away (by rw [← same.1,← same.2]; exact before)
    exact ⟨w,inside,k,small,(crushed.oos w k other).trans before⟩
  · exact inv.once w inside k small w' inside' k' small' g (old w k g there).2 (old w' k' g there').2
  · rw [crushed.snapshot]
    exact inv.apart
  · rw [crushed.snapshot]
    exact inv.order

-- Where the records in a slot come from when a page is added.
def source (v idx j w k : Nat) : Nat := if w = v then Equiv.swap idx j k else k

theorem source_inj (same : source v idx j w k = source v idx j w k') : k = k' := by
  unfold source at same
  split at same
  · exact (Equiv.swap idx j).injective same
  · exact same

theorem source_small (first : idx < shadowOosPages) (second : j < shadowOosPages) (small : k < shadowOosPages) :
    source v idx j w k < shadowOosPages := by
  unfold source
  split
  · rw [Equiv.swap_apply_def]
    split_ifs <;> assumption
  · exact small

theorem source_first : source v idx j v idx = j := by rw [source,if_pos rfl,Equiv.swap_apply_left]

theorem source_self (v idx w k : Nat) : source v idx idx w k = k := by
  unfold source
  split
  · rw [Equiv.swap_self]
    rfl
  · rfl

theorem source_second (v idx j : Nat) : source v idx j v j = idx := by rw [source,if_pos rfl,Equiv.swap_apply_right]

theorem source_other (first : ¬ (w = v ∧ k = idx)) (second : ¬ (w = v ∧ k = j)) : source v idx j w k = k := by
  unfold source
  split
  · rename_i same
    exact Equiv.swap_apply_of_ne_of_ne (fun h => first ⟨same,h⟩) (fun h => second ⟨same,h⟩)
  · rfl

-- The page goes to slot `idx`, whose records move to slot `j`, and those of
-- slot `j` are given up, except for its snapshot frame.
structure Placed (s : System C) (v idx j : Nat) (g : U64) (s' : System C) : Prop where
  put : s'.oos v idx = some g
  own : (s'.fixup v idx).owner = g
  oos : ∀ w k, ¬ (w = v ∧ k = idx) → s'.oos w k = s.oos w (source v idx j w k)
  fixup : ∀ w k, ¬ (w = v ∧ k = idx) → s'.fixup w k = s.fixup w (source v idx j w k)
  snapshot : ∀ w k, s'.snapshot w k = s.snapshot w (source v idx j w k)
  lone : LoneL1 (s'.page g)
  frame : ∀ f, f ≠ s.snapshot v j → s'.frame f = s.frame f
  pages : ∀ p, p ≠ g → s.oos v j ≠ some p → s'.page p = s.page p
  synced : ∀ p, p ≠ g → s.oos v j = some p → pageIsOutOfSync (s'.page p) = false
  kept : ∀ p, p ≠ g → s.oos v j ≠ some p → s'.kept p = s.kept p

structure Added (s : System C) (v idx j : Nat) (g : U64) (s' : System C) : Prop extends Placed s v idx j g s' where
  filled : s'.frame (s.snapshot v j) = s'.kept g

theorem order_swap (f : Nat → U64) (first : idx < shadowOosPages) (second : j < shadowOosPages) :
    ((List.range shadowOosPages).map fun k => f (Equiv.swap idx j k)).Perm ((List.range shadowOosPages).map f) := by
  have bound (k) : k ∈ List.range shadowOosPages ↔ Equiv.swap idx j k ∈ List.range shadowOosPages := by
    rw [List.mem_range,List.mem_range,Equiv.swap_apply_def]
    split_ifs with left right
    · rw [left]
      exact ⟨fun _ => second,fun _ => first⟩
    · rw [right]
      exact ⟨fun _ => first,fun _ => second⟩
    · exact Iff.rfl
  have moved : ((List.range shadowOosPages).map (Equiv.swap idx j)).Perm (List.range shadowOosPages) := by
    rw [List.perm_ext_iff_of_nodup (List.nodup_range.map (Equiv.injective _)) List.nodup_range]
    intro k
    rw [List.mem_map]
    constructor
    · rintro ⟨a,member,rfl⟩
      exact (bound a).mp member
    · intro member
      exact ⟨Equiv.swap idx j k,(bound k).mp member,Equiv.swap_apply_self ..⟩
  have mapped := moved.map f
  rw [List.map_map] at mapped
  exact mapped

theorem added_inv (inv : Inv n frames s) (vcpu : v < n) (fresh : pageIsOutOfSync (s.page g) = false)
    (added : Added s v (home g) j g s') (next : j = home g ∨ j = after (home g) ∧ ∀ d, s.oos v (home g) = some d → home d = home g) :
    Inv n frames s' := by
  have first := home_small g
  have second : j < shadowOosPages := by
    rcases next with rfl | ⟨rfl,_⟩
    · exact first
    · exact after_small _
  have small (w k) (inside : k < shadowOosPages) : source v (home g) j w k < shadowOosPages := source_small first second inside
  -- No slot of `s` holds the new page.
  have new (w k) (inside : w < n) (low : k < shadowOosPages) : s.oos w k ≠ some g := inv.not_new inside low fresh
  -- Other slots of `s'` come from slots of `s` other than slot `j`.
  have kept (w k) (other : ¬ (w = v ∧ k = home g)) : ¬ (w = v ∧ source v (home g) j w k = j) := by
    rintro ⟨rfl,same⟩
    exact other ⟨rfl,source_inj (same.trans source_first.symm)⟩
  refine ⟨fun w inside k low p there => ?_,fun p out => ?_,fun w inside k low w' inside' k' low' p there there' => ?_,
    fun w inside k low w' inside' k' low' same => ?_,fun w inside => ?_⟩
  · by_cases here : w = v ∧ k = home g
    · obtain ⟨rfl,rfl⟩ := here
      rw [added.put] at there
      cases there
      refine ⟨.inl rfl,added.lone,added.own,?_⟩
      rw [added.snapshot,source_first]
      exact added.filled
    · rw [added.oos w k here] at there
      have holds := inv.holds w inside _ (small w k low) p there
      have distinct : p ≠ g := fun same =>
        new w _ inside (small w k low) (there.trans (congrArg some same))
      have away : s.oos v j ≠ some p := fun at_ => kept w k here (inv.once v vcpu j second w inside _ (small w k low) p at_ there)
      have frame : s.snapshot w (source v (home g) j w k) ≠ s.snapshot v j := fun same =>
        kept w k here (inv.apart v vcpu j second w inside _ (small w k low) same.symm)
      refine ⟨?_,?_,?_,?_⟩
      · by_cases moved : w = v ∧ k = j
        · obtain ⟨rfl,rfl⟩ := moved
          rw [source_second] at there
          rcases next with same | ⟨same,homes⟩
          · exact absurd ⟨rfl,same⟩ here
          · rw [homes p there]
            exact .inr same
        · rw [source_other here moved] at holds
          exact holds.near
      · rw [added.pages p distinct away]
        exact holds.lone
      · rw [added.fixup w k here]
        exact holds.own
      · rw [added.snapshot,added.frame _ frame,added.kept p distinct away]
        exact holds.filled
  · by_cases same : p = g
    · exact ⟨v,vcpu,home g,first,by rw [same]; exact added.put⟩
    · have away : s.oos v j ≠ some p := fun at_ => by
        rw [added.synced p same at_] at out
        cases out
      rw [added.pages p same away] at out
      obtain ⟨w,inside,k,low,there⟩ := inv.listed p out
      have back : source v (home g) j w (source v (home g) j w k) = k := by
        unfold source
        split
        · exact Equiv.swap_apply_self ..
        · rfl
      refine ⟨w,inside,_,small w k low,?_⟩
      rw [added.oos,back]
      · exact there
      · rintro ⟨rfl,at_⟩
        rw [at_,source_first] at back
        exact away (by rw [back]; exact there)
  · by_cases here : w = v ∧ k = home g <;> by_cases here' : w' = v ∧ k' = home g
    · exact ⟨here'.1.trans here.1.symm,here'.2.trans here.2.symm⟩
    · rw [here.1,here.2,added.put] at there
      cases there
      rw [added.oos w' k' here'] at there'
      exact absurd there' (new w' _ inside' (small w' k' low'))
    · rw [here'.1,here'.2,added.put] at there'
      cases there'
      rw [added.oos w k here] at there
      exact absurd there (new w _ inside (small w k low))
    · rw [added.oos w k here] at there
      rw [added.oos w' k' here'] at there'
      obtain ⟨rfl,place⟩ := inv.once w inside _ (small w k low) w' inside' _ (small w' k' low') p there there'
      exact ⟨rfl,source_inj place⟩
  · rw [added.snapshot,added.snapshot] at same
    obtain ⟨rfl,place⟩ := inv.apart w inside _ (small w k low) w' inside' _ (small w' k' low') same
    exact ⟨rfl,source_inj place⟩
  · refine List.Perm.trans ?_ (inv.order w inside)
    rw [show s'.snapshot w = fun k => s.snapshot w (source v (home g) j w k) from funext (added.snapshot w)]
    by_cases same : w = v
    · simp only [source,if_pos same]
      exact order_swap _ first second
    · simp only [source,if_neg same]
      exact List.Perm.refl _

theorem fill_frame (here : s.oos v i = some g) (f : U64) :
    (fill s v i).frame f = if f = s.snapshot v i then s.guest g else s.frame f := by
  rw [fill,here]
  exact Function.update_apply ..

theorem fill_kept (here : s.oos v i = some g) (p : U64) : (fill s v i).kept p = if p = g then s.guest g else s.kept p := by
  rw [fill,here]
  exact Function.update_apply ..

theorem fill_rest (s : System C) (v i : Nat) : (fill s v i).oos = s.oos ∧ (fill s v i).fixup = s.fixup ∧
    (fill s v i).snapshot = s.snapshot ∧ (fill s v i).page = s.page := by
  unfold fill
  split <;> exact ⟨rfl,rfl,rfl,rfl⟩

theorem fill_added (placed : Placed s v idx j g s') : Added s v idx j g (fill s' v idx) := by
  obtain ⟨oos,fixup,snapshot,page⟩ := fill_rest s' v idx
  have frames := placed.snapshot v idx
  rw [source_first] at frames
  refine ⟨⟨?_,?_,?_,?_,?_,?_,fun f other => ?_,?_,?_,fun p distinct away => ?_⟩,?_⟩
  · rw [oos]
    exact placed.put
  · rw [fixup]
    exact placed.own
  · rw [oos]
    exact placed.oos
  · rw [fixup]
    exact placed.fixup
  · rw [snapshot]
    exact placed.snapshot
  · rw [page]
    exact placed.lone
  · rw [fill_frame placed.put,frames,if_neg other]
    exact placed.frame f other
  · rw [page]
    exact placed.pages
  · rw [page]
    exact placed.synced
  · rw [fill_kept placed.put,if_neg distinct]
    exact placed.kept p distinct away
  · rw [fill_frame placed.put,fill_kept placed.put,if_pos frames.symm,if_pos rfl]

-- The slot where the page goes is free, or its page is only a guest there.
theorem add_crushed (crushed : Crushed (setPage s g pg) v idx s') (lone : LoneL1 pg) (new : s.oos v idx ≠ some g) :
    Placed s v idx idx g (setSlot s' v idx g (newFixup g)) := by
  refine ⟨if_pos ⟨rfl,rfl⟩,congrArg Fixup.owner (if_pos ⟨rfl,rfl⟩),fun w k other => ?_,fun w k other => ?_,fun w k => ?_,?_,
    crushed.frame,fun p distinct away => ?_,fun p _ here => crushed.synced p here,fun p _ away => crushed.kept p away⟩
  · rw [source_self]
    exact (if_neg other).trans (crushed.oos w k other)
  · rw [source_self]
    exact (if_neg other).trans (crushed.fixup w k other)
  · rw [source_self]
    exact congrFun (congrFun crushed.snapshot w) k
  · exact (crushed.pages g new).trans ((setPage_page ..).trans (if_pos rfl)) ▸ lone
  · exact (crushed.pages p away).trans ((setPage_page ..).trans (if_neg distinct))

-- The occupant is at home and goes on to the next slot.
theorem add_punted (crushed : Crushed (setSlot (setPage s g pg) v idx g (newFixup g)) v j s') (lone : LoneL1 pg) (distinct : j ≠ idx)
    (new : s.oos v j ≠ some g) (occupant : s.oos v idx = some d) :
    Placed s v idx j g (swapSnapshots (setSlot s' v j d (s.fixup v idx)) v j idx) := by
  have apart : ¬ (v = v ∧ idx = j) := fun same => distinct same.2.symm
  have before (w k) (other : ¬ (w = v ∧ k = idx)) : (setSlot (setPage s g pg) v idx g (newFixup g)).oos w k = s.oos w k := if_neg other
  have slot : (setSlot (setPage s g pg) v idx g (newFixup g)).oos v j = s.oos v j := before v j fun same => distinct same.2
  have opened : (swapSnapshots (setSlot s' v j d (s.fixup v idx)) v j idx).fixup v idx = newFixup g :=
    (if_neg apart).trans ((crushed.fixup v idx apart).trans (if_pos ⟨rfl,rfl⟩))
  refine ⟨?_,?_,fun w k other => ?_,fun w k other => ?_,fun w k => ?_,?_,crushed.frame,fun p strange away => ?_,
    fun p strange here => ?_,fun p strange away => ?_⟩
  · refine (if_neg apart).trans ((crushed.oos v idx apart).trans ?_)
    exact if_pos ⟨rfl,rfl⟩
  · rw [opened]
    rfl
  · by_cases second : w = v ∧ k = j
    · rw [second.1,second.2,source_second,occupant]
      exact if_pos ⟨rfl,rfl⟩
    · rw [source_other other second]
      exact (if_neg second).trans ((crushed.oos w k second).trans (before w k other))
  · by_cases second : w = v ∧ k = j
    · rw [second.1,second.2,source_second]
      exact if_pos ⟨rfl,rfl⟩
    · rw [source_other other second]
      exact (if_neg second).trans ((crushed.fixup w k second).trans (if_neg other))
  · have same : s'.snapshot = s.snapshot := crushed.snapshot
    change (if w = v ∧ k = j then s'.snapshot v idx else if w = v ∧ k = idx then s'.snapshot v j else s'.snapshot w k) = _
    rw [same]
    split_ifs with second first
    · rw [second.1,second.2,source_second]
    · rw [first.1,first.2,source_first]
    · rw [source_other first second]
  · exact (crushed.pages g (by rw [slot]; exact new)).trans ((setPage_page ..).trans (if_pos rfl)) ▸ lone
  · exact (crushed.pages p (by rw [slot]; exact away)).trans ((setPage_page ..).trans (if_neg strange))
  · exact crushed.synced p (by rw [slot]; exact here)
  · exact crushed.kept p (by rw [slot]; exact away)

-- Flagging another page changes neither where a page is nor what it is.
theorem flag_only (inv : Inv n frames s) (vcpu : v < n) (slot : i < shadowOosPages) (fresh : pageIsOutOfSync (s.page g) = false)
    (here : s.oos v i = some x) : Only n (setPage s g pg) v i x ∧ LoneL1 ((setPage s g pg).page x) := by
  obtain ⟨only,lone⟩ := inv.only vcpu slot here
  refine ⟨⟨vcpu,slot,here,only.near,only.once⟩,?_⟩
  have distinct : x ≠ g := fun same => inv.not_new vcpu slot fresh (here.trans (congrArg some same))
  rw [setPage_page,if_neg distinct]
  exact lone

theorem hashAdd_inv (unshadow : U64 → Bool) (inv : Inv n frames s) (vcpu : v < n) (fresh : pageIsOutOfSync (s.page g) = false)
    (lone : LoneL1 pg) : ∃ s', oosHashAdd n sync unshadow (setPage s g pg) v g = some s' ∧ Inv n frames s' := by
  have first := home_small g
  have new := inv.not_new vcpu first fresh
  cases occupant : ((setPage s g pg).oos v (home g)).filter (home · == home g) with
  | none =>
    have held (x) (here : (setPage s g pg).oos v (home g) = some x) :
        Only n (setPage s g pg) v (home g) x ∧ LoneL1 ((setPage s g pg).page x) := flag_only inv vcpu first fresh here
    obtain ⟨s',ran,crushed⟩ := crush_crushed sync unshadow held
    simp only [oosHashAdd,occupant,ran]
    exact ⟨_,rfl,added_inv inv vcpu fresh (fill_added (add_crushed crushed lone new)) (.inl rfl)⟩
  | some d =>
    obtain ⟨here,at_home⟩ := Option.filter_eq_some_iff.mp occupant
    have homes : home d = home g := by simpa using at_home
    have second := after_small (home g)
    have distinct := after_ne (home g)
    have absent := inv.not_new vcpu second fresh
    have held (x) (there : (setSlot (setPage s g pg) v (home g) g (newFixup g)).oos v (after (home g)) = some x) :
        Only n (setSlot (setPage s g pg) v (home g) g (newFixup g)) v (after (home g)) x ∧
          LoneL1 ((setSlot (setPage s g pg) v (home g) g (newFixup g)).page x) := by
      have before : s.oos v (after (home g)) = some x := (if_neg fun same => distinct same.2).symm.trans there
      obtain ⟨only,single⟩ := flag_only inv vcpu second fresh before
      refine ⟨⟨vcpu,second,there,only.near,fun w inside k small at_ => ?_⟩,single⟩
      by_cases same : w = v ∧ k = home g
      · have equal : some g = some x := (if_pos same).symm.trans at_
        exact absurd (before.trans equal.symm) absent
      · exact only.once w inside k small ((if_neg same).symm.trans at_)
    obtain ⟨s',ran,crushed⟩ := crush_crushed sync unshadow held
    simp only [oosHashAdd,occupant,ran]
    have placed := add_punted crushed lone distinct absent here
    refine ⟨_,rfl,added_inv inv vcpu fresh (fill_added placed) (.inr ⟨rfl,fun x there => ?_⟩)⟩
    rw [show s.oos v (home g) = some d from here] at there
    cases there
    exact homes

theorem unsync_inv (unshadow : U64 → Bool) (allowed : Bool) (inv : Inv n frames s) (vcpu : v < n)
    (shadowed : (s.page g).pageTable = true) (some_ : (s.page g).types ≠ []) :
    ∃ s', shUnsync n sync unshadow allowed s v g = some s' ∧ Inv n frames s' := by
  simp only [shUnsync]
  split
  · exact ⟨s,rfl,inv⟩
  · rename_i go
    simp only [Bool.or_eq_true,not_or,Bool.not_eq_true,hasMultipleShadows,shadowed,Bool.true_and,decide_eq_false_iff_not] at go
    obtain ⟨⟨⟨l1,synced⟩,single⟩,_⟩ := go
    obtain ⟨t,rest,types⟩ := List.exists_cons_of_ne_nil some_
    rw [types] at single l1
    have alone : rest = [] := by simpa using single
    rw [alone] at types l1
    refine hashAdd_inv unshadow inv vcpu ?_ ⟨?_,t,types,?_⟩
    · rw [pageIsOutOfSync,synced,Bool.and_false]
    · rw [pageIsOutOfSync,shadowed]
      rfl
    · simpa using l1

theorem evict_inv (unshadow : U64 → Bool) (inv : Inv n frames s) (vcpu : v < n) (slot : i < shadowOosPages) :
    ∃ s', evict n sync unshadow v s i = some s' ∧ Inv n frames s' := by
  unfold evict
  split
  · obtain ⟨s',ran,crushed⟩ := crush_crushed sync unshadow fun x here => inv.only vcpu slot here
    rw [ran]
    exact ⟨_,rfl,removed_inv inv vcpu slot (crushed.set_oos none) (if_pos ⟨rfl,rfl⟩)⟩
  · exact ⟨s,rfl,inv⟩

theorem resync_inv (sync : C → C → C) (unshadow : U64 → Bool) (inv : Inv n frames s) (out : pageIsOutOfSync (s.page g) = true) :
    ∃ s', shResync n sync unshadow s g = some s' ∧ Inv n frames s' ∧ pageIsOutOfSync (s'.page g) = false := by
  obtain ⟨v,i,only,lone⟩ := inv.found out
  obtain ⟨s',ran,crushed⟩ := resync_crushed sync unshadow only lone
  rw [shResync,findSlot_of only,Option.bind_some,ran]
  exact ⟨_,rfl,removed_inv inv only.vcpu only.slot (crushed.set_oos none) (if_pos ⟨rfl,rfl⟩),crushed.synced g only.here⟩

theorem refill_inv (sync : C → C → C) (inv : Inv n frames s) (vcpu : v < n) (slot : i < shadowOosPages) (here : s.oos v i = some g) :
    Inv n frames (resyncL1 sync s g (s.snapshot v i)) := by
  unfold resyncL1
  split
  · refine ⟨fun w inside k small p there => ?_,inv.listed,inv.once,inv.apart,inv.order⟩
    have holds := inv.holds w inside k small p there
    refine ⟨holds.near,holds.lone,holds.own,?_⟩
    change Function.update s.frame _ _ (s.snapshot w k) = Function.update s.kept _ _ p
    by_cases same : w = v ∧ k = i
    · obtain ⟨rfl,rfl⟩ := same
      rw [here] at there
      cases there
      rw [Function.update_self,Function.update_self,holds.filled]
    · have frame : s.snapshot w k ≠ s.snapshot v i := fun equal => same (inv.apart v vcpu i slot w inside k small equal.symm)
      have other : p ≠ g := fun equal => same (inv.once v vcpu i slot w inside k small p (by rw [equal]; exact here) there)
      rw [Function.update_of_ne frame,Function.update_of_ne other]
      exact holds.filled
  · exact inv

theorem page_inv (inv : Inv n frames s) (before : pageIsOutOfSync (s.page g) = false) (synced : pageIsOutOfSync pg = false) :
    Inv n frames (setPage s g pg) := by
  refine ⟨fun w inside k small p there => ?_,fun p out => ?_,inv.once,inv.apart,inv.order⟩
  · have holds := inv.holds w inside k small p there
    exact ⟨holds.near,(flag_only inv inside small before there).2,holds.own,holds.filled⟩
  · rw [setPage_page] at out
    split at out
    · rw [synced] at out
      cases out
    · exact inv.listed p out

theorem fixup_inv (inv : Inv n frames s) (f : Fixup) (owner : f.owner = (s.fixup v i).owner) : Inv n frames (setFixup s v i f) := by
  refine ⟨fun w inside k small p there => ?_,inv.listed,inv.once,inv.apart,inv.order⟩
  have holds := inv.holds w inside k small p there
  refine ⟨holds.near,holds.lone,?_,holds.filled⟩
  change (if w = v ∧ k = i then f else s.fixup w k).owner = p
  split
  · rename_i same
    rw [owner,← same.1,← same.2]
    exact holds.own
  · exact holds.own

theorem addFixup_owner (f : Fixup) (smfn off : U64) : (addFixup f smfn off).owner = f.owner := by
  unfold addFixup
  split <;> rfl

theorem loop_inv {f : System C → Nat → Option (System C)} (list : List Nat)
    (turn : ∀ s, ∀ k ∈ list, Inv n frames s → ∃ s', f s k = some s' ∧ Inv n frames s') (inv : Inv n frames s) :
    ∃ s', Run.run f s list = some s' ∧ Inv n frames s' := by
  have turns : Run.Guarded (fun _ k => k ∈ list) f s list := Run.guarded_of_mem fun _ k member => member
  exact Run.guarded_total (fun s k inv member => turn s k member inv) inv turns

theorem other_inv (unshadow safe : U64 → Bool) (skip : Bool) (inv : Inv n frames s) (vcpu : v < n) (slot : i < shadowOosPages) :
    ∃ s', resyncOther n sync unshadow safe skip v s i = some s' ∧ Inv n frames s' := by
  unfold resyncOther
  cases here : s.oos v i with
  | none => exact ⟨s,rfl,inv⟩
  | some g =>
    obtain ⟨_,t,types,l1⟩ := (inv.holds v vcpu i slot g here).lone
    have any : (s.page g).types.any isL1 = true := by rw [types,List.any_cons,l1,Bool.true_or]
    cases skip with
    | false => exact evict_inv unshadow inv vcpu slot
    | true =>
      dsimp only
      rw [if_pos rfl,if_pos any]
      split
      · exact ⟨s,rfl,inv⟩
      · exact ⟨_,rfl,refill_inv sync inv vcpu slot here⟩

theorem resyncAll_inv (unshadow safe : U64 → Bool) (skip this others : Bool) (inv : Inv n frames s) (vcpu : v < n) :
    ∃ s', shResyncAll n sync unshadow safe skip this others s v = some s' ∧ Inv n frames s' := by
  have mine : ∃ s', (if this then Run.run (evict n sync unshadow v) s (List.range shadowOosPages) else some s) = some s' ∧
      Inv n frames s' := by
    cases this with
    | false => exact ⟨s,rfl,inv⟩
    | true => exact loop_inv _ (fun s k member inv => evict_inv unshadow inv vcpu (List.mem_range.mp member)) inv
  obtain ⟨s₁,ran,inv₁⟩ := mine
  rw [shResyncAll,ran,Option.bind_some]
  cases others with
  | false => exact ⟨s₁,rfl,inv₁⟩
  | true =>
    refine loop_inv _ (fun s w inside inv => ?_) inv₁
    unfold resyncOthers
    split
    · exact ⟨s,rfl,inv⟩
    · exact loop_inv _ (fun s k small inv => other_inv unshadow safe skip inv (List.mem_range.mp inside) (List.mem_range.mp small)) inv

theorem promote_inv (sync : C → C → C) (unshadow : U64 → Bool) (inv : Inv n frames s) (t : Nat) :
    ∃ s', shadowPromote n sync unshadow s g t = some s' ∧ Inv n frames s' := by
  have first : ∃ s', (if pageIsOutOfSync (s.page g) then shResync n sync unshadow s g else some s) = some s' ∧
      Inv n frames s' ∧ pageIsOutOfSync (s'.page g) = false := by
    cases out : pageIsOutOfSync (s.page g) with
    | false => exact ⟨s,rfl,inv,out⟩
    | true => exact resync_inv sync unshadow inv out
  obtain ⟨s₁,ran,inv₁,synced⟩ := first
  rw [shadowPromote,ran]
  refine ⟨_,rfl,page_inv inv₁ synced ?_⟩
  cases table : (s₁.page g).pageTable with
  | false => rfl
  | true => exact synced

theorem demote_inv (inv : Inv n frames s) (member : t ∈ (s.page g).types) :
    ∃ s', shadowDemote n s g t = some s' ∧ Inv n frames s' := by
  cases out : pageIsOutOfSync (s.page g) with
  | true =>
    obtain ⟨v,i,only,lone⟩ := inv.found out
    obtain ⟨t',types,_⟩ := lone.2
    rw [types,List.mem_singleton] at member
    obtain ⟨s',ran,cleared,crushed,_⟩ := demote_lone only lone (member ▸ types)
    exact ⟨s',ran,removed_inv inv only.vcpu only.slot crushed cleared⟩
  | false =>
    have stays : Inv n frames (setPage s g {s.page g with types := (s.page g).types.erase t}) := page_inv inv out out
    have synced : pageIsOutOfSync {s.page g with types := (s.page g).types.erase t} = false := out
    simp only [shadowDemote,synced]
    split
    · refine ⟨_,rfl,page_inv stays ?_ rfl⟩
      rw [setPage_page,if_pos rfl]
      exact synced
    · exact ⟨_,rfl,stays⟩

end

inductive Event (C : Type) where
  | unsync (v : Nat) (g : U64) (allowed : Bool) (unshadow : U64 → Bool)
  | resync (g : U64) (unshadow : U64 → Bool)
  | resyncAll (v : Nat) (skip this others : Bool) (unshadow safe : U64 → Bool)
  | promote (g : U64) (t : Nat) (unshadow : U64 → Bool)
  | demote (g : U64) (t : Nat)
  | fixupAdd (g smfn off : U64)
  | snapshotLookup (g : U64)
  | write (g : U64) (content : C)

def step {C : Type} (n : Nat) (sync : C → C → C) (s : System C) : Event C → Option (System C)
  | .unsync v g allowed unshadow => shUnsync n sync unshadow allowed s v g
  | .resync g unshadow => shResync n sync unshadow s g
  | .resyncAll v skip this others unshadow safe => shResyncAll n sync unshadow safe skip this others s v
  | .promote g t unshadow => shadowPromote n sync unshadow s g t
  | .demote g t => shadowDemote n s g t
  | .fixupAdd g smfn off => oosFixupAdd n s g smfn off
  | .snapshotLookup g => (oosSnapshotLookup n s g).map fun _ => s
  | .write g content => some {s with guest := Function.update s.guest g content}

-- Only shadowed pages are unsynced and only types that a page has are demoted;
-- a page that is looked for in the tables is out of sync.
def Legal {C : Type} (n : Nat) (s : System C) : Event C → Prop
  | .unsync v g _ _ => v < n ∧ (s.page g).pageTable = true ∧ (s.page g).types ≠ []
  | .resync g _ | .fixupAdd g _ _ | .snapshotLookup g => pageIsOutOfSync (s.page g) = true
  | .resyncAll v _ _ _ _ _ => v < n
  | .demote g t => (s.page g).pageTable = true ∧ t ∈ (s.page g).types
  | .promote _ _ _ | .write _ _ => True

instance {C : Type} (n : Nat) (s : System C) : ∀ event, Decidable (Legal n s event)
  | .unsync _ _ _ _ => inferInstanceAs (Decidable (_ ∧ _ ∧ _))
  | .resync _ _ | .fixupAdd _ _ _ | .snapshotLookup _ => inferInstanceAs (Decidable (_ = _))
  | .resyncAll _ _ _ _ _ _ => inferInstanceAs (Decidable (_ < _))
  | .demote _ _ => inferInstanceAs (Decidable (_ ∧ _))
  | .promote _ _ _ | .write _ _ => .isTrue trivial

section
variable {C : Type} {n : Nat} {frames : Nat → List U64} {sync : C → C → C} {s start : System C}

theorem step_inv (inv : Inv n frames s) (event : Event C) (legal : Legal n s event) :
    ∃ s', step n sync s event = some s' ∧ Inv n frames s' := by
  cases event with
  | unsync v g allowed unshadow => exact unsync_inv unshadow allowed inv legal.1 legal.2.1 legal.2.2
  | resync g unshadow =>
    obtain ⟨s',ran,kept,_⟩ := resync_inv sync unshadow inv legal
    exact ⟨s',ran,kept⟩
  | resyncAll v skip this others unshadow safe => exact resyncAll_inv unshadow safe skip this others inv legal
  | promote g t unshadow => exact promote_inv sync unshadow inv t
  | demote g t => exact demote_inv inv legal.2
  | fixupAdd g smfn off =>
    obtain ⟨v,i,only,_⟩ := inv.found legal
    rw [step,oosFixupAdd,findSlot_of only]
    exact ⟨_,rfl,fixup_inv inv _ (addFixup_owner ..)⟩
  | snapshotLookup g =>
    obtain ⟨v,i,only,_⟩ := inv.found legal
    rw [step,oosSnapshotLookup,findSlot_of only]
    exact ⟨s,rfl,inv⟩
  | write g content =>
    refine ⟨_,rfl,⟨fun v vcpu i slot p here => ?_,inv.listed,inv.once,inv.apart,inv.order⟩⟩
    have holds := inv.holds v vcpu i slot p here
    exact ⟨holds.near,holds.lone,holds.own,holds.filled⟩

-- Nothing is out of sync and every snapshot slot has a frame of its own.
structure Fresh (n : Nat) (s : System C) : Prop where
  empty : ∀ v < n, ∀ i < shadowOosPages, s.oos v i = none
  synced : ∀ g, pageIsOutOfSync (s.page g) = false
  apart : ∀ v < n, ∀ i < shadowOosPages, ∀ w < n, ∀ k < shadowOosPages, s.snapshot v i = s.snapshot w k → w = v ∧ k = i

theorem Fresh.inv (fresh : Fresh n s) : Inv n (fun v => (List.range shadowOosPages).map (s.snapshot v)) s := by
  have none_ (v i g) (vcpu : v < n) (slot : i < shadowOosPages) : s.oos v i ≠ some g := fun here => by
    rw [fresh.empty v vcpu i slot] at here
    cases here
  refine ⟨fun v vcpu i slot g here => absurd here (none_ v i g vcpu slot),fun g out => ?_,
    fun v vcpu i slot _ _ _ _ g here => absurd here (none_ v i g vcpu slot),fresh.apart,fun _ _ => List.Perm.refl _⟩
  rw [fresh.synced g] at out
  cases out

theorem oos_bookkeeping (fresh : Fresh n start) (legal : Run.Guarded (Legal n) (step n sync) start events) :
    ∃ s, Run.run (step n sync) start events = some s ∧
      (∀ g, pageIsOutOfSync (s.page g) = true ↔ ∃ v < n, ∃ i < shadowOosPages, s.oos v i = some g) ∧
      (∀ v < n, ∀ i < shadowOosPages, ∀ w < n, ∀ k < shadowOosPages, ∀ g, s.oos v i = some g → s.oos w k = some g → w = v ∧ k = i) ∧
      (∀ v < n, ∀ i < shadowOosPages, ∀ g, s.oos v i = some g → (i = home g ∨ i = after (home g)) ∧ (s.fixup v i).owner = g ∧
        s.frame (s.snapshot v i) = s.kept g) ∧
      ∀ v < n, ((List.range shadowOosPages).map (s.snapshot v)).Perm ((List.range shadowOosPages).map (start.snapshot v)) := by
  obtain ⟨s,ran,inv⟩ := Run.guarded_total (fun s event inv legal => step_inv inv event legal) fresh.inv legal
  refine ⟨s,ran,fun g => ⟨inv.listed g,?_⟩,inv.once,fun v vcpu i slot g here => ?_,inv.order⟩
  · rintro ⟨v,vcpu,i,slot,here⟩
    exact (inv.holds v vcpu i slot g here).lone.1
  · have holds := inv.holds v vcpu i slot g here
    exact ⟨holds.near,holds.own,holds.filled⟩

end

def bare : System Nat where
  page := fun _ => ⟨false,[],false,false⟩
  guest := fun _ => 0
  frame := fun _ => 0
  oos := fun _ _ => none
  snapshot := fun v i => BitVec.ofNat 64 (0x1000 + 3*v + i)
  fixup := fun _ _ => newFixup 0
  kept := fun _ => 0

theorem bare_fresh : Fresh 1 bare := by
  refine ⟨fun _ _ _ _ => rfl,fun _ => rfl,fun v one i slot w one' k slot' same => ?_⟩
  rw [shadowOosPages] at slot slot'
  have numbers := congrArg BitVec.toNat same
  simp only [bare,BitVec.toNat_ofNat] at numbers
  omega

-- Two pages with one home go out of sync: the first has to move.
def punted : List (Event Nat) :=
  [.promote 3 8 fun _ => false,.promote 6 8 fun _ => false,.write 3 1,.unsync 0 3 true fun _ => false,.write 6 2,
    .unsync 0 6 true fun _ => false,.write 3 5]

theorem oos_bookkeeping_punted : ∃ s, Run.run (step 1 fun new _ => new) bare punted = some s ∧ s.oos 0 1 = some 3 ∧
    (s.fixup 0 1).owner = 3 ∧ s.frame (s.snapshot 0 1) = s.kept 3 := by
  have legal : Run.Guarded (Legal 1) (step 1 fun new _ => new) bare punted := by decide +kernel
  obtain ⟨s,ran,_,_,holds,_⟩ := oos_bookkeeping bare_fresh legal
  have here := Run.run_holds (P:=fun s => s.oos 0 1 = some 3) ran (by decide +kernel)
  exact ⟨s,ran,here,(holds 0 (by decide) 1 (by decide) 3 here).2⟩

end XenAet.OosRuns
