import XenAet.RangeSet

namespace XenAet.RangeSet
open Library.Positions Library.Intervals
variable {A B M : List Range} {x y : Range} {n : Int} {s e : Nat} {memory : Bool}

-- The part of the range that holds `s` from below `s`, and of the range that
-- holds `e` from above it, as the code computes them when they are two ranges.
def trimmed (s : Nat) (x : Range) : List Range := if x.s < s then [⟨x.s,s-1⟩] else []

def remains (e : Nat) (y : Range) : List Range :=
  if y.e < (e+1) % ulongLimit then [] else [⟨(e+1) % ulongLimit,y.e⟩]

theorem removeWithin_cut (memory : Bool) (below : x.s ≤ s) (le : s ≤ e) (proper : x.s ≤ x.e ∧ x.e < ulongLimit) :
    (removeWithin memory ⟨A ++ x :: B,n⟩ A.length s e = (.noMemory,⟨A ++ x :: B,n⟩) ∧
        allocRange memory ⟨A ++ x :: B,n⟩ = none) ∨
      ∃ left, removeWithin memory ⟨A ++ x :: B,n⟩ A.length s e = (.done,⟨A ++ (cut s e x ++ B),left⟩) := by
  have wrap : e < x.e → (e+1) % ulongLimit = e+1 := fun inside => Nat.mod_eq_of_lt (by omega)
  simp only [removeWithin,rangeAt_middle]
  by_cases short : x.e < s
  · right
    rw [if_pos short,cut_below ⟨proper.1,short⟩ le]
    exact ⟨n,rfl⟩
  rw [if_neg short]
  rcases Nat.lt_or_eq_of_le below with before | at_start <;> rcases Nat.lt_or_ge e x.e with beyond | within
  · rw [if_pos ⟨before,beyond⟩]
    cases got : allocRange memory ⟨A ++ x :: B,n⟩ with
    | none => exact .inl ⟨rfl,rfl⟩
    | some taken =>
      right
      have ends : min x.e (s-1) = s-1 ∧ max x.s (e+1) = e+1 := by omega
      simp [allocRange_some got,insertRange_middle,cut,before,beyond,ends,wrap beyond]
  · right
    have ends : min x.e (s-1) = s-1 := by omega
    have other : x.s ≠ s := by omega
    simp [before,within,cut,ends,other,Nat.not_lt.mpr within]
  · right
    simp [at_start,Nat.not_le.mpr beyond,beyond,cut,wrap beyond]
    omega
  · right
    simp [at_start,within,cut,Nat.not_lt.mpr within]

theorem cutStart_middle :
    ∃ left, cutStart ⟨A ++ y :: B,n⟩ A.length e = ⟨A ++ (remains e y ++ B),left⟩ := by
  simp only [cutStart,setStart_middle,rangeAt_middle,remains]
  split <;> simp

theorem remove_before (memory : Bool) (located : Located s e [] (M ++ [y]) B) (le : s ≤ e) :
    ∃ left, removeRange memory ⟨M ++ y :: B,n⟩ s e = some (.done,⟨remains e y ++ B,left⟩) := by
  have start : findRange ⟨M ++ y :: B,n⟩ s = none := by simpa using located.findRange_start le (n:=n)
  have stop : findRange ⟨M ++ y :: B,n⟩ e = some M.length := by simpa using located.findRange_end le (n:=n)
  have first : ¬ (rangeAt ⟨M ++ y :: B,n⟩ 0).s < s := by
    cases M with
    | nil => have := located.middle y (by simp); simp [rangeAt]; omega
    | cons m M => have := located.middle m (by simp); simp [rangeAt]; omega
  have emptied := destroyUntil_spans (A:=[]) (B:=B) (M:=M) (y:=y) (n:=n)
  obtain ⟨left,same⟩ := cutStart_middle (A:=[]) (B:=B) (y:=y) (n:=n+M.length) (e:=e)
  refine ⟨left,?_⟩
  simp only [List.length_nil,Nat.zero_add,List.nil_append] at emptied same
  simp [removeRange,start,stop,removeSpanning,first,emptied,same]

theorem remove_across (memory : Bool) (located : Located s e (A ++ [x]) (M ++ [y]) B) (le : s ≤ e) :
    ∃ left, removeRange memory ⟨A ++ x :: (M ++ y :: B),n⟩ s e =
      some (.done,⟨A ++ (trimmed s x ++ (remains e y ++ B)),left⟩) := by
  have start : findRange ⟨A ++ x :: (M ++ y :: B),n⟩ s = some A.length := by
    simpa using located.findRange_start le (n:=n)
  have stop : findRange ⟨A ++ x :: (M ++ y :: B),n⟩ e = some (A.length+1+M.length) := by
    have last : lastOf (A ++ [x] ++ (M ++ [y])) = some (A.length+1+M.length) := by
      rw [← List.append_assoc,lastOf_concat]
      simp [Nat.add_assoc,Nat.add_comm 1]
    simpa using (located.findRange_end le (n:=n)).trans last
  have apart : A.length ≠ A.length+1+M.length := by omega
  by_cases before : x.s < s
  · have next : nextRange ⟨A ++ ⟨x.s,s-1⟩ :: (M ++ y :: B),n⟩ A.length = some (A.length+1) := by
      simp [nextRange]
    have emptied := destroyUntil_spans (A:=A ++ [⟨x.s,s-1⟩]) (B:=B) (M:=M) (y:=y) (n:=n)
    obtain ⟨left,same⟩ := cutStart_middle (A:=A ++ [⟨x.s,s-1⟩]) (B:=B) (y:=y) (n:=n+M.length) (e:=e)
    refine ⟨left,?_⟩
    simp only [List.length_append,List.length_singleton,List.append_assoc,List.singleton_append] at emptied same
    simp [removeRange,start,stop,apart,removeSpanning,before,next,trimmed,emptied,same]
  · have emptied := destroyUntil_spans (A:=A) (B:=B) (M:=x :: M) (y:=y) (n:=n)
    obtain ⟨left,same⟩ := cutStart_middle (A:=A) (B:=B) (y:=y) (n:=n+(x :: M).length) (e:=e)
    refine ⟨left,?_⟩
    have order : A.length+(x :: M).length = A.length+1+M.length := by simp; omega
    rw [order,List.cons_append] at emptied
    simpa [removeRange,start,stop,apart,removeSpanning,before,trimmed,emptied] using same

-- One range may be cut on both sides, and a range is left whole or is cut at one
-- end or goes when two are found; but then the code takes it that the lower one
-- reaches up to `s`, and that `e+1` does not wrap.
def RemoveSafe (r : Rangeset) (s e : Nat) : Prop :=
  (∀ y ∈ r.rangeList, ¬ (s < y.s ∧ y.s ≤ e)) ∨
    (e+1 < ulongLimit ∧ ((∃ x ∈ r.rangeList, x.s ≤ s) → ∃ x ∈ r.rangeList, x.s ≤ s ∧ s ≤ x.e+1))

instance : Decidable (RemoveSafe r s e) := inferInstanceAs (Decidable (_ ∨ _))

def Difference (r : Rangeset) (s e : Nat) : Status × Rangeset → Prop
  | (.done,left) =>
    values left.rangeList = values r.rangeList \ Set.Icc s e ∧ Canonical ulongLimit left.rangeList
  | (.noMemory,left) => left = r

theorem difference_of_cut (canonical : Canonical ulongLimit r.rangeList) (le : s ≤ e)
    (same : left.rangeList = r.rangeList.flatMap (cut s e)) : Difference r s e (.done,left) := by
  simp only [Difference,same]
  exact ⟨values_flatMap_cut,canonical_flatMap_cut le canonical⟩

theorem remains_cut (found : s < y.s ∧ y.s ≤ e) (fits : e+1 < ulongLimit) : remains e y = cut s e y := by
  have whole : max y.s (e+1) = e+1 := by omega
  simp only [remains,cut,Nat.mod_eq_of_lt fits,if_neg (Nat.not_lt.mpr (Nat.le_of_lt found.1)),whole]
  split <;> split <;> first | rfl | omega

theorem trimmed_cut (inside : x.e ≤ e) (reaches : s ≤ x.e+1) :
    trimmed s x = cut s e x := by
  have whole : x.s < s → min x.e (s-1) = s-1 := by omega
  simp only [trimmed,cut,if_neg (Nat.not_lt.mpr inside)]
  split
  case isTrue before => simp [whole before]
  case isFalse => rfl

theorem remains_wrapped (found : s < y.s) (proper : y.s ≤ y.e) (last : e+1 = ulongLimit) :
    s ∈ values (remains e y) := by
  simp [remains,last]
  omega

theorem trimmed_grown (gap : x.e+1 < s) (proper : x.s ≤ x.e) : x.e+1 ∈ values (trimmed s x) := by
  have before : x.s < s := by omega
  simp [trimmed,before]
  omega

theorem flatMap_low (canonical : Canonical ulongLimit (A ++ x :: B)) (below : x.s ≤ s) (le : s ≤ e) :
    A.flatMap (cut s e) = A := by
  obtain ⟨lower,_,across⟩ := canonical_append.mp canonical
  refine flatMap_cut_self fun a at_a => cut_below ⟨(lower.inside a at_a).1,?_⟩ le
  have := across a at_a x (by simp)
  omega

theorem flatMap_high (canonical : Canonical ulongLimit B) (high : ∀ b ∈ B, e < b.s) (le : s ≤ e) :
    B.flatMap (cut s e) = B :=
  flatMap_cut_self fun b at_b => cut_above ⟨high b at_b,(canonical.inside b at_b).1⟩ le

theorem flatMap_middle (canonical : Canonical ulongLimit (M ++ y :: B)) (middle : ∀ m ∈ M ++ [y], s < m.s ∧ m.s ≤ e)
    (high : ∀ b ∈ B, e < b.s) (fits : e+1 < ulongLimit) :
    (M ++ y :: B).flatMap (cut s e) = remains e y ++ B := by
  obtain ⟨_,upper,across⟩ := canonical_append.mp canonical
  have found := middle y (by simp)
  have covered : M.flatMap (cut s e) = [] := by
    refine List.flatMap_eq_nil_iff.mpr fun m at_m => cut_inside ?_
    have := middle m (by simp [at_m])
    have := across m at_m y (by simp)
    omega
  have rest := flatMap_high (canonical_cons.mp upper).2.2 high (Nat.le_of_lt (Nat.lt_of_lt_of_le found.1 found.2))
  simp [covered,rest,remains_cut found fits]

theorem remove_alone (canonical : Canonical ulongLimit (A ++ B)) (located : Located s e A [] B) (le : s ≤ e) :
    ∃ result, removeRange memory ⟨A ++ B,n⟩ s e = some result ∧ Difference ⟨A ++ B,n⟩ s e result := by
  obtain ⟨_,upper,_⟩ := canonical_append.mp canonical
  have high := flatMap_high upper located.high le
  have start := located.findRange_start le (n:=n)
  have stop := located.findRange_end le (n:=n)
  rcases A.eq_nil_or_concat' with rfl | ⟨A,x,rfl⟩
  · simp only [List.append_nil,List.nil_append,lastOf_nil] at start stop
    refine ⟨(.done,⟨B,n⟩),by simp [removeRange,start,stop],?_⟩
    exact difference_of_cut canonical le high.symm
  · simp only [List.append_nil,List.nil_append,lastOf_concat,List.append_assoc,List.singleton_append] at start stop
    simp only [List.append_assoc,List.singleton_append] at canonical
    simp only [List.append_assoc,List.singleton_append,removeRange,start,stop,if_true,Option.some.injEq]
    have below := located.low x (by simp)
    rcases removeWithin_cut memory (A:=A) (B:=B) (n:=n) below le (canonical.inside x (by simp)) with
      ⟨failed,_⟩ | ⟨left,same⟩
    · exact ⟨_,rfl,by rw [failed]; rfl⟩
    · refine ⟨_,rfl,?_⟩
      rw [same]
      refine difference_of_cut canonical le ?_
      simp [flatMap_low canonical below le,high]

theorem remove_before_iff (canonical : Canonical ulongLimit (M ++ y :: B))
    (located : Located s e [] (M ++ [y]) B) (le : s ≤ e) (inside : e < ulongLimit) :
    (∃ result, removeRange memory ⟨M ++ y :: B,n⟩ s e = some result ∧ Difference ⟨M ++ y :: B,n⟩ s e result) ↔
      e+1 < ulongLimit := by
  obtain ⟨left,ran⟩ := remove_before memory (n:=n) located le
  have proper := canonical.inside y (by simp)
  constructor
  · rintro ⟨result,same,held⟩
    rw [ran] at same
    cases same
    obtain ⟨equal,_⟩ := held
    by_contra wraps
    have kept : s ∈ values (remains e y) :=
      remains_wrapped (located.middle y (by simp)).1 proper.1 (by omega)
    have gone : s ∈ values (M ++ y :: B) \ Set.Icc s e := equal ▸ mem_values_append.mpr (.inl kept)
    exact gone.2 ⟨Nat.le_refl s,le⟩
  · intro fits
    refine ⟨_,ran,difference_of_cut canonical le ?_⟩
    exact (flatMap_middle canonical located.middle located.high fits).symm

theorem remove_across_iff (canonical : Canonical ulongLimit (A ++ x :: (M ++ y :: B)))
    (located : Located s e (A ++ [x]) (M ++ [y]) B) (le : s ≤ e) (inside : e < ulongLimit) :
    (∃ result, removeRange memory ⟨A ++ x :: (M ++ y :: B),n⟩ s e = some result ∧
      Difference ⟨A ++ x :: (M ++ y :: B),n⟩ s e result) ↔ e+1 < ulongLimit ∧ s ≤ x.e+1 := by
  obtain ⟨left,ran⟩ := remove_across memory (n:=n) located le
  obtain ⟨_,upper,_⟩ := canonical_append.mp canonical
  obtain ⟨proper,apart,rest⟩ := canonical_cons.mp upper
  have found := located.middle y (by simp)
  constructor
  · rintro ⟨result,same,held⟩
    rw [ran] at same
    cases same
    obtain ⟨equal,_⟩ := held
    constructor
    · by_contra wraps
      have kept : s ∈ values (remains e y) :=
        remains_wrapped found.1 (rest.inside y (by simp)).1 (by omega)
      have gone : s ∈ values (A ++ x :: (M ++ y :: B)) \ Set.Icc s e := by
        rw [← equal]
        simp [kept]
      exact gone.2 ⟨Nat.le_refl s,le⟩
    · by_contra gap
      have grown : x.e+1 ∈ values (trimmed s x) := trimmed_grown (by omega) proper.1
      have old : x.e+1 ∈ values (A ++ x :: (M ++ y :: B)) \ Set.Icc s e := by
        rw [← equal]
        simp [grown]
      exact succ_end_not_mem canonical old.1
  · rintro ⟨fits,reaches⟩
    refine ⟨_,ran,difference_of_cut canonical le ?_⟩
    have low := flatMap_low canonical (located.low x (by simp)) le
    have middle := flatMap_middle rest located.middle located.high fits
    have ends : x.e ≤ e := by
      have := apart y (by simp)
      omega
    rw [List.flatMap_append,low,List.flatMap_cons,middle,trimmed_cut ends reaches]

theorem removeSafe_across (canonical : Canonical ulongLimit (A ++ x :: (M ++ y :: B)))
    (located : Located s e (A ++ [x]) (M ++ [y]) B) :
    RemoveSafe ⟨A ++ x :: (M ++ y :: B),n⟩ s e ↔ e+1 < ulongLimit ∧ s ≤ x.e+1 := by
  have found := located.middle y (by simp)
  have below := located.low x (by simp)
  obtain ⟨_,_,across⟩ := canonical_append.mp canonical
  constructor
  · rintro (none_starts | ⟨fits,reached⟩)
    · exact absurd found (none_starts y (by simp))
    · obtain ⟨w,at_w,starts,reaches⟩ := reached ⟨x,by simp,below⟩
      refine ⟨fits,?_⟩
      rcases List.mem_append.mp at_w with before | later
      · have := across w before x (by simp)
        omega
      · rcases List.mem_cons.mp later with rfl | beyond
        · exact reaches
        · rcases List.mem_append.mp beyond with mid | top
          · have := located.middle w (by simp [mid])
            omega
          · rcases List.mem_cons.mp top with rfl | high
            · omega
            · have := located.high w high
              omega
  · rintro ⟨fits,reaches⟩
    exact .inr ⟨fits,fun _ => ⟨x,by simp,below,reaches⟩⟩

theorem removeSafe_before (located : Located s e [] (M ++ [y]) B) :
    RemoveSafe ⟨M ++ y :: B,n⟩ s e ↔ e+1 < ulongLimit := by
  have found := located.middle y (by simp)
  constructor
  · rintro (none_starts | ⟨fits,_⟩)
    · exact absurd found (none_starts y (by simp))
    · exact fits
  · intro fits
    refine .inr ⟨fits,fun ⟨w,at_w,starts⟩ => ?_⟩
    have listed : w ∈ (M ++ [y]) ++ B := by simpa using at_w
    rcases List.mem_append.mp listed with mid | high
    · have := located.middle w mid
      omega
    · have := located.high w high
      omega

theorem removeRange_difference_iff (memory : Bool) (r : Rangeset) (s e : Nat)
    (canonical : Canonical ulongLimit r.rangeList) (le : s ≤ e) (inside : e < ulongLimit) :
    (∃ result, removeRange memory r s e = some result ∧ Difference r s e result) ↔ RemoveSafe r s e := by
  obtain ⟨l,n⟩ := r
  obtain ⟨A,M,B,rfl,located⟩ := exists_located (s:=s) (e:=e) canonical.apart fun i at_i => (canonical.inside i at_i).1
  rcases M.eq_nil_or_concat' with rfl | ⟨M,y,rfl⟩
  · have safe : RemoveSafe ⟨A ++ ([] ++ B),n⟩ s e := by
      refine .inl fun w at_w starts => ?_
      rcases List.mem_append.mp at_w with below | high
      · have := located.low w below
        omega
      · have := located.high w high
        omega
    exact iff_of_true (remove_alone canonical located le) safe
  · rcases A.eq_nil_or_concat' with rfl | ⟨A,x,rfl⟩
    · simp only [List.nil_append,List.append_assoc,List.singleton_append] at canonical ⊢
      rw [remove_before_iff canonical located le inside,removeSafe_before located]
    · simp only [List.append_assoc,List.singleton_append] at canonical ⊢
      rw [remove_across_iff canonical located le inside,removeSafe_across canonical located]

theorem removeRange_takes_out_middle :
    Canonical ulongLimit [⟨1,4⟩,⟨10,20⟩] ∧
      ∃ result, removeRange true ⟨[⟨1,4⟩,⟨10,20⟩],-1⟩ 3 12 = some result ∧
        Difference ⟨[⟨1,4⟩,⟨10,20⟩],-1⟩ 3 12 result :=
  ⟨by decide,(removeRange_difference_iff true ⟨[⟨1,4⟩,⟨10,20⟩],-1⟩ 3 12 (by decide) (by decide) (by decide)).mpr
    (by decide)⟩

-- `[5,12]` starts in the gap after `[1,2]`, which grows to `[1,4]`; and taking out
-- everything leaves `[0,6]`.
theorem removeRange_adds_values :
    (removeRange true ⟨[⟨1,2⟩,⟨10,20⟩],-1⟩ 5 12 = some (.done,⟨[⟨1,4⟩,⟨13,20⟩],-1⟩) ∧
        Canonical ulongLimit [⟨1,2⟩,⟨10,20⟩] ∧
        ¬ Difference ⟨[⟨1,2⟩,⟨10,20⟩],-1⟩ 5 12 (.done,⟨[⟨1,4⟩,⟨13,20⟩],-1⟩)) ∧
      removeRange true ⟨[⟨1,2⟩,⟨5,6⟩],-1⟩ 0 (ulongLimit-1) = some (.done,⟨[⟨0,6⟩],0⟩) ∧
        Canonical ulongLimit [⟨1,2⟩,⟨5,6⟩] ∧
        ¬ Difference ⟨[⟨1,2⟩,⟨5,6⟩],-1⟩ 0 (ulongLimit-1) (.done,⟨[⟨0,6⟩],0⟩) := by
  refine ⟨⟨by decide,by decide,fun held => ?_⟩,by decide,by decide,fun held => ?_⟩
  · have old : 3 ∈ values [⟨1,2⟩,⟨10,20⟩] \ Set.Icc 5 12 := held.1 ▸ ⟨⟨1,4⟩,by simp,by decide⟩
    exact absurd old.1 (by simp)
  · have old : 6 ∈ values [⟨1,2⟩,⟨5,6⟩] \ Set.Icc 0 (ulongLimit-1) := held.1 ▸ ⟨⟨0,6⟩,by simp,by decide⟩
    exact old.2 ⟨by decide,by decide⟩

end XenAet.RangeSet
