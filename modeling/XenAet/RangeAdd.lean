import XenAet.RangeSet

namespace XenAet.RangeSet
open Library.Positions Library.Intervals
variable {A B M : List Range} {x y : Range} {n : Int} {s e : Nat} {memory : Bool} {r : Rangeset}

def budget (r : Rangeset) : Int := r.nrRanges+r.rangeList.length

def Union (r : Rangeset) (s e : Nat) : Status × Rangeset → Prop
  | (.done,left) =>
    values left.rangeList = values r.rangeList ∪ Set.Icc s e ∧ Canonical ulongLimit left.rangeList ∧
      budget left = budget r
  | (.noMemory,left) => left = r

-- No range below `s` reaches it and none starts inside, so that a range of its
-- own is needed, and there is none to be had.
def Starved (memory : Bool) (r : Rangeset) (s e : Nat) : Prop :=
  (r.nrRanges = 0 ∨ memory = false) ∧ ∀ a ∈ r.rangeList, a.e+1 < s ∨ e < a.s

-- The set is already the union, but the range `x` may still touch the next one.
structure Bridged (r : Rangeset) (s e : Nat) (A : List Range) (x : Range) (B : List Range) (n : Int) : Prop where
  lower : Canonical ulongLimit A
  upper : Canonical ulongLimit B
  proper : x.s ≤ x.e ∧ x.e < ulongLimit
  gap : ∀ a ∈ A, a.e+1 < x.s
  beyond : ∀ b ∈ B, x.e < b.s
  covers : values (A ++ x :: B) = values r.rangeList ∪ Set.Icc s e
  balance : budget ⟨A ++ x :: B,n⟩ = budget r

theorem Bridged.canonical (bridged : Bridged r s e A x B n) (apart : ∀ b ∈ B, x.e+1 < b.s) :
    Canonical ulongLimit (A ++ x :: B) := by
  refine canonical_append.mpr ⟨bridged.lower,canonical_cons.mpr ⟨bridged.proper,apart,bridged.upper⟩,fun a at_a b at_b => ?_⟩
  have left := bridged.gap a at_a
  rcases List.mem_cons.mp at_b with rfl | right
  · exact left
  · have := bridged.beyond b right
    have := bridged.proper
    omega

theorem Bridged.joined (bridged : Bridged r s e A x B n) :
    Union r s e (.done,joinNext ⟨A ++ x :: B,n⟩ A.length) := by
  cases B with
  | nil =>
    simp only [joinNext,nextRange_last]
    exact ⟨bridged.covers,bridged.canonical (by simp),bridged.balance⟩
  | cons y B =>
    obtain ⟨proper,apart,rest⟩ := canonical_cons.mp bridged.upper
    have next := bridged.beyond y (by simp)
    have wrap : (x.e+1) % ulongLimit = x.e+1 := Nat.mod_eq_of_lt (by omega)
    simp only [joinNext,nextRange_middle,rangeAt_middle,rangeAt_next,wrap,setEnd_middle,destroyRange_next]
    split
    case isTrue touch =>
      have whole := bridged.proper
      have merged : Bridged r s e A ⟨x.s,y.e⟩ B (n+1) := {
        lower := bridged.lower
        upper := rest
        proper := ⟨by simp; omega,proper.2⟩
        gap := bridged.gap
        beyond := fun b at_b => by have := apart b at_b; simp; omega
        covers := by
          rw [← bridged.covers]
          ext v
          simp only [mem_values_append,mem_values_cons]
          have ends : (x.s ≤ v ∧ v ≤ y.e) ↔ (x.s ≤ v ∧ v ≤ x.e) ∨ (y.s ≤ v ∧ v ≤ y.e) := by omega
          rw [ends,or_assoc]
        balance := by
          rw [← bridged.balance]
          simp [budget]
          omega }
      exact ⟨merged.covers,merged.canonical apart,merged.balance⟩
    case isFalse clear =>
      refine ⟨bridged.covers,bridged.canonical fun b at_b => ?_,bridged.balance⟩
      rcases List.mem_cons.mp at_b with rfl | later
      · omega
      · have := apart b later
        omega

theorem after_lastOf (A : List Range) : after (lastOf A) = A.length := by
  rcases A.eq_nil_or_concat' with rfl | ⟨A,a,rfl⟩ <;> simp [after]

theorem addFresh_union (memory : Bool) (canonical : Canonical ulongLimit (A ++ B)) (le : s ≤ e) (inside : e < ulongLimit)
    (gap : ∀ a ∈ A, a.e+1 < s) (high : ∀ b ∈ B, e < b.s) :
    Union ⟨A ++ B,n⟩ s e (addFresh memory ⟨A ++ B,n⟩ (lastOf A) s e) := by
  unfold addFresh
  cases got : allocRange memory ⟨A ++ B,n⟩ with
  | none => rfl
  | some taken =>
    obtain ⟨lower,upper,_⟩ := canonical_append.mp canonical
    simp only [allocRange_some got,insertRange_after,after_lastOf]
    refine Bridged.joined ⟨lower,upper,⟨le,inside⟩,gap,high,?_,?_⟩
    · ext v
      simp only [mem_values_append,mem_values_cons,Set.mem_union,Set.mem_Icc]
      rw [or_assoc,or_comm (a:=s ≤ v ∧ v ≤ e) (b:=v ∈ values B)]
    · simp [budget]
      omega

theorem addFresh_starved (memory : Bool) (p : Option Nat) (alone : ∀ a ∈ r.rangeList, a.e+1 < s ∨ e < a.s) :
    (addFresh memory r p s e).1 = .noMemory ↔ Starved memory r s e := by
  rw [Starved,and_iff_left alone,addFresh,allocRange]
  split_ifs with limit given
  · simp [limit]
  · simp [limit,given]
  · simp [given]

theorem not_starved (found : x ∈ r.rangeList) (meets : s ≤ x.e+1 ∧ x.s ≤ e) : ¬Starved memory r s e := by
  rintro ⟨_,alone⟩
  have := alone x found
  omega

theorem detached_middle (proper : x.e < ulongLimit) (inside : s < ulongLimit) :
    detached ⟨A ++ x :: B,n⟩ A.length s = decide (x.e+1 < s) := by
  rw [Bool.eq_iff_iff]
  simp only [detached,rangeAt_middle,Bool.and_eq_true,decide_eq_true_eq,bne_iff_ne]
  constructor
  · rintro ⟨short,apart⟩
    rw [Nat.mod_eq_of_lt (by omega)] at apart
    omega
  · intro gap
    rw [Nat.mod_eq_of_lt (by omega)]
    omega

theorem gap_low (canonical : Canonical ulongLimit (A ++ [x])) (below : x.s ≤ s) (gap : x.e+1 < s) :
    ∀ a ∈ A ++ [x], a.e+1 < s := by
  intro a at_a
  obtain ⟨_,_,across⟩ := canonical_append.mp canonical
  rcases List.mem_append.mp at_a with before | last
  · have := across a before x (by simp)
    omega
  · cases List.mem_singleton.mp last
    exact gap

theorem extend_union (canonical : Canonical ulongLimit (A ++ x :: B)) (inside : e < ulongLimit)
    (below : x.s ≤ s) (reaches : s ≤ x.e+1) (high : ∀ b ∈ B, e < b.s) :
    Union ⟨A ++ x :: B,n⟩ s e (.done,joinNext
      (if (rangeAt ⟨A ++ x :: B,n⟩ A.length).e < e then setEnd ⟨A ++ x :: B,n⟩ A.length e else ⟨A ++ x :: B,n⟩)
      A.length) := by
  obtain ⟨lower,rest,across⟩ := canonical_append.mp canonical
  obtain ⟨proper,apart,upper⟩ := canonical_cons.mp rest
  have extended : (if (rangeAt ⟨A ++ x :: B,n⟩ A.length).e < e then setEnd ⟨A ++ x :: B,n⟩ A.length e
      else ⟨A ++ x :: B,n⟩) = ⟨A ++ ⟨x.s,max x.e e⟩ :: B,n⟩ := by
    rw [rangeAt_middle,setEnd_middle]
    split
    case isTrue shorter => rw [Nat.max_eq_right (Nat.le_of_lt shorter)]
    case isFalse longer => rw [Nat.max_eq_left (Nat.not_lt.mp longer)]
  rw [extended]
  refine Bridged.joined ⟨lower,upper,⟨by simp; omega,by simp; omega⟩,fun a at_a => across a at_a x (by simp),?_,?_,?_⟩
  · intro b at_b
    have := apart b at_b
    have := high b at_b
    simp
    omega
  · ext v
    have ends : (x.s ≤ v ∧ v ≤ max x.e e) ↔ (x.s ≤ v ∧ v ≤ x.e) ∨ (s ≤ v ∧ v ≤ e) := by omega
    simp only [mem_values_append,mem_values_cons,Set.mem_union,Set.mem_Icc,ends]
    rw [or_assoc,or_assoc,or_assoc,or_comm (a:=s ≤ v ∧ v ≤ e) (b:=v ∈ values B)]
  · simp [budget]

theorem addSpanning_middle {z : Range} {N : List Range} {p : Nat}
    (top : (rangeAt ⟨A ++ z :: (N ++ B),n⟩ p).e = y.e)
    (covered : ∀ m ∈ N, m.e ≤ max y.e e) (beyond : ∀ b ∈ B, max y.e e < b.e) :
    addSpanning ⟨A ++ z :: (N ++ B),n⟩ A.length p e =
      joinNext ⟨A ++ ⟨z.s,max y.e e⟩ :: B,n+N.length⟩ A.length := by
  have upper : (if e < y.e then y.e else e) = max y.e e := by
    split <;> omega
  have past : ∀ b ∈ B.head?, max y.e e < b.e := fun b at_b => beyond b (List.mem_of_mem_head? at_b)
  simp only [addSpanning,top,upper,setEnd_middle]
  rw [destroyCovered_stops covered past]
  simp
  omega

-- The ranges that start in `(s,e]` and `[s,e]` itself make one interval.
theorem values_middle (canonical : Canonical ulongLimit (M ++ [y])) (middle : ∀ m ∈ M ++ [y], s < m.s ∧ m.s ≤ e)
    (v : Nat) : (v ∈ values (M ++ [y]) ∨ (s ≤ v ∧ v ≤ e)) ↔ s ≤ v ∧ v ≤ max y.e e := by
  have found := middle y (by simp)
  have proper := canonical.inside y (by simp)
  constructor
  · rintro (⟨m,at_m,within⟩ | inside)
    · have starts := middle m at_m
      rcases List.mem_append.mp at_m with before | last
      · obtain ⟨_,_,across⟩ := canonical_append.mp canonical
        have := across m before y (by simp)
        omega
      · cases List.mem_singleton.mp last
        omega
    · omega
  · intro within
    by_cases low : v ≤ e
    · exact .inr ⟨within.1,low⟩
    · exact .inl ⟨y,by simp,by omega⟩

theorem spanning_union {z : Range} {C N : List Range} {p : Nat} {n' : Int}
    (lower : Canonical ulongLimit C) (middle : Canonical ulongLimit (M ++ [y])) (upper : Canonical ulongLimit B)
    (starts : ∀ m ∈ M ++ [y], s < m.s ∧ m.s ≤ e) (inside : e < ulongLimit) (high : ∀ b ∈ B, max y.e e < b.s)
    (gap : ∀ c ∈ C, c.e+1 < z.s) (low : z.s ≤ s)
    (old : ∀ v, v ∈ values r.rangeList ∪ Set.Icc s e ↔ v ∈ values C ∨ (z.s ≤ v ∧ v ≤ max y.e e) ∨ v ∈ values B)
    (members : ∀ m ∈ N, m ∈ M ++ [y]) (top : (rangeAt ⟨C ++ z :: (N ++ B),n'⟩ p).e = y.e)
    (balance : budget ⟨C ++ z :: (N ++ B),n'⟩ = budget r) :
    Union r s e (.done,addSpanning ⟨C ++ z :: (N ++ B),n'⟩ C.length p e) := by
  have found := starts y (by simp)
  have proper := middle.inside y (by simp)
  obtain ⟨_,_,across⟩ := canonical_append.mp middle
  have covered : ∀ m ∈ N, m.e ≤ max y.e e := by
    intro m at_m
    rcases List.mem_append.mp (members m at_m) with before | last
    · have := across m before y (by simp)
      omega
    · cases List.mem_singleton.mp last
      omega
  have beyond : ∀ b ∈ B, max y.e e < b.e := fun b at_b =>
    Nat.lt_of_lt_of_le (high b at_b) (upper.inside b at_b).1
  rw [addSpanning_middle top covered beyond]
  refine Bridged.joined ⟨lower,upper,⟨by simp; omega,by simp; omega⟩,gap,high,?_,?_⟩
  · ext v
    rw [old v]
    simp only [mem_values_append,mem_values_cons]
  · rw [← balance]
    simp [budget]
    omega

-- The ranges from the first inside on, cut behind the last inside.
theorem canonical_middle {D : List Range} (rest : Canonical ulongLimit (M ++ y :: B)) (located : Located s e D (M ++ [y]) B) :
    Canonical ulongLimit (M ++ [y]) ∧ Canonical ulongLimit B ∧ ∀ b ∈ B, max y.e e < b.s := by
  rw [show M ++ y :: B = (M ++ [y]) ++ B by simp] at rest
  obtain ⟨middle,upper,apart⟩ := canonical_append.mp rest
  refine ⟨middle,upper,fun b at_b => ?_⟩
  have := apart y (by simp) b at_b
  have := located.high b at_b
  omega

-- No range below reaches `s`: the first one inside is moved down to it.
theorem add_from_next (canonical : Canonical ulongLimit (A ++ (M ++ y :: B))) (located : Located s e A (M ++ [y]) B)
    (inside : e < ulongLimit) (gap : ∀ a ∈ A, a.e+1 < s) :
    Union ⟨A ++ (M ++ y :: B),n⟩ s e
      (.done,addSpanning (setStart ⟨A ++ (M ++ y :: B),n⟩ A.length s) A.length (A.length+M.length) e) := by
  obtain ⟨lower,rest,_⟩ := canonical_append.mp canonical
  have listed : M ++ y :: B = (M ++ [y]) ++ B := by simp
  obtain ⟨middle,upper,high⟩ := canonical_middle rest located
  have old : ∀ v, v ∈ values (A ++ (M ++ y :: B)) ∪ Set.Icc s e ↔
      v ∈ values A ∨ (s ≤ v ∧ v ≤ max y.e e) ∨ v ∈ values B := by
    intro v
    rw [← values_middle middle located.middle v,listed]
    simp only [mem_values_append,Set.mem_union,Set.mem_Icc]
    tauto
  cases M with
  | nil =>
    have moved : setStart ⟨A ++ ([] ++ y :: B),n⟩ A.length s = ⟨A ++ ⟨s,y.e⟩ :: ([] ++ B),n⟩ := by simp
    rw [moved]
    exact spanning_union lower middle upper located.middle inside high gap (Nat.le_refl s) old (by simp) (by simp)
      (by simp [budget])
  | cons m M =>
    have moved : setStart ⟨A ++ (m :: M ++ y :: B),n⟩ A.length s = ⟨A ++ ⟨s,m.e⟩ :: ((M ++ [y]) ++ B),n⟩ := by simp
    rw [moved]
    refine spanning_union lower middle upper located.middle inside high gap (Nat.le_refl s) old
      (fun w at_w => List.mem_cons_of_mem m at_w) ?_ (by simp [budget])
    have last := rangeAt_middle (A:=A ++ ⟨s,m.e⟩ :: M) (x:=y) (B:=B) (n:=n)
    simp only [List.append_assoc,List.cons_append,List.length_append,List.length_cons,List.nil_append] at last ⊢
    rw [last]

-- The range `x` reaches `s` and is drawn up.
theorem add_from_found (canonical : Canonical ulongLimit (A ++ x :: (M ++ y :: B)))
    (located : Located s e (A ++ [x]) (M ++ [y]) B) (inside : e < ulongLimit) (reaches : s ≤ x.e+1) :
    Union ⟨A ++ x :: (M ++ y :: B),n⟩ s e
      (.done,addSpanning ⟨A ++ x :: (M ++ y :: B),n⟩ A.length (A.length+1+M.length) e) := by
  obtain ⟨lower,found,across⟩ := canonical_append.mp canonical
  obtain ⟨proper,clear,rest⟩ := canonical_cons.mp found
  have listed : M ++ y :: B = (M ++ [y]) ++ B := by simp
  obtain ⟨middle,upper,high⟩ := canonical_middle rest located
  have below := located.low x (by simp)
  have inner := located.middle y (by simp)
  have short := clear y (by simp)
  have old : ∀ v, v ∈ values (A ++ x :: (M ++ y :: B)) ∪ Set.Icc s e ↔
      v ∈ values A ∨ (x.s ≤ v ∧ v ≤ max y.e e) ∨ v ∈ values B := by
    intro v
    have ends : (x.s ≤ v ∧ v ≤ max y.e e) ↔ (x.s ≤ v ∧ v ≤ x.e) ∨ (s ≤ v ∧ v ≤ max y.e e) := by omega
    rw [ends,← values_middle middle located.middle v,listed]
    simp only [mem_values_append,mem_values_cons,Set.mem_union,Set.mem_Icc,or_assoc]
    rw [or_comm (a:=v ∈ values B)]
  have first : ∀ a ∈ A, a.e+1 < x.s := fun a at_a => across a at_a x (by simp)
  rw [listed] at old ⊢
  refine spanning_union lower middle upper located.middle inside high first below old (fun m at_m => at_m) ?_
    (by simp [budget])
  have last := rangeAt_middle (A:=A ++ x :: M) (x:=y) (B:=B) (n:=n)
  simp only [List.append_assoc,List.cons_append,List.length_append,List.length_cons,List.nil_append] at last ⊢
  rw [show A.length+1+M.length = A.length+(M.length+1) by omega,last]

section Branches
variable {p q i : Nat}

theorem addRange_outside (start : findRange r s = none) (stop : findRange r e = none) :
    addRange memory r s e = some (addFresh memory r none s e) := by
  simp [addRange,start,stop]

theorem addRange_fresh (start : findRange r s = some p) (stop : findRange r e = some p)
    (apart : detached r p s = true) : addRange memory r s e = some (addFresh memory r (some p) s e) := by
  simp [addRange,start,stop,apart]

theorem addRange_extend (start : findRange r s = some p) (stop : findRange r e = some p)
    (near : detached r p s = false) :
    addRange memory r s e = some (.done,joinNext (if (rangeAt r p).e < e then setEnd r p e else r) p) := by
  simp [addRange,start,stop,near]

theorem addRange_first (start : findRange r s = none) (stop : findRange r e = some q) :
    addRange memory r s e = some (.done,addSpanning (setStart r 0 s) 0 q e) := by
  simp [addRange,start,stop,startAt]

theorem addRange_next (start : findRange r s = some p) (stop : findRange r e = some q) (other : p ≠ q)
    (apart : detached r p s = true) (next : nextRange r p = some i) :
    addRange memory r s e = some (.done,addSpanning (setStart r i s) i q e) := by
  simp [addRange,start,stop,startAt,other,apart,next]

theorem addRange_found (start : findRange r s = some p) (stop : findRange r e = some q) (other : p ≠ q)
    (near : detached r p s = false) : addRange memory r s e = some (.done,addSpanning r p q e) := by
  simp [addRange,start,stop,startAt,other,near]

end Branches

theorem add_alone (canonical : Canonical ulongLimit (A ++ B)) (located : Located s e A [] B) (le : s ≤ e)
    (inside : e < ulongLimit) :
    ∃ result, addRange memory ⟨A ++ B,n⟩ s e = some result ∧ Union ⟨A ++ B,n⟩ s e result ∧
      (result.1 = .noMemory ↔ Starved memory ⟨A ++ B,n⟩ s e) := by
  have start : findRange ⟨A ++ B,n⟩ s = lastOf A := located.findRange_start le
  have stop : findRange ⟨A ++ B,n⟩ e = lastOf A := by simpa using located.findRange_end le (n:=n)
  rcases A.eq_nil_or_concat' with rfl | ⟨A,x,rfl⟩
  · exact ⟨_,addRange_outside start stop,addFresh_union memory canonical le inside (by simp) located.high,
      addFresh_starved memory none fun b at_b => .inr (located.high b at_b)⟩
  · have below := located.low x (by simp)
    have proper := canonical.inside x (by simp)
    have apart := detached_middle (A:=A) (B:=B) (n:=n) (s:=s) proper.2 (by omega)
    by_cases gap : x.e+1 < s
    · have low := gap_low (canonical_append.mp canonical).1 below gap
      have alone : ∀ a ∈ (⟨A ++ [x] ++ B,n⟩ : Rangeset).rangeList, a.e+1 < s ∨ e < a.s := fun a at_a =>
        (List.mem_append.mp at_a).imp (low a) (located.high a)
      have fresh := addFresh_union memory (n:=n) canonical le inside low located.high
      have starved := addFresh_starved memory (lastOf (A ++ [x])) alone
      simp only [List.append_assoc,List.singleton_append,lastOf_concat] at start stop fresh starved ⊢
      exact ⟨_,addRange_fresh start stop (by simpa [apart] using gap),fresh,starved⟩
    · simp only [List.append_assoc,List.singleton_append,lastOf_concat] at start stop canonical ⊢
      have met : ¬Starved memory ⟨A ++ x :: B,n⟩ s e := not_starved (x:=x) (by simp) ⟨Nat.not_lt.mp gap,Nat.le_trans below le⟩
      exact ⟨_,addRange_extend start stop (by simpa [apart] using gap),
        extend_union canonical inside below (Nat.not_lt.mp gap) located.high,by simp [met]⟩

theorem add_spanning (memory : Bool) (canonical : Canonical ulongLimit (A ++ (M ++ y :: B))) (located : Located s e A (M ++ [y]) B)
    (le : s ≤ e) (inside : e < ulongLimit) :
    ∃ left, addRange memory ⟨A ++ (M ++ y :: B),n⟩ s e = some (.done,left) ∧ Union ⟨A ++ (M ++ y :: B),n⟩ s e (.done,left) := by
  have start : findRange ⟨A ++ (M ++ y :: B),n⟩ s = lastOf A := by simpa using located.findRange_start le (n:=n)
  have stop : findRange ⟨A ++ (M ++ y :: B),n⟩ e = some (A.length+M.length) := by
    have last : lastOf (A ++ (M ++ [y])) = some (A.length+M.length) := by
      rw [← List.append_assoc,lastOf_concat,List.length_append]
    simpa using (located.findRange_end le (n:=n)).trans last
  rcases A.eq_nil_or_concat' with rfl | ⟨A,x,rfl⟩
  · exact ⟨_,addRange_first start (by simpa using stop),by simpa using add_from_next canonical located inside (by simp)⟩
  · have below := located.low x (by simp)
    have proper := canonical.inside x (by simp)
    have apart := detached_middle (A:=A) (B:=M ++ y :: B) (n:=n) (s:=s) proper.2 (by omega)
    have next : nextRange ⟨A ++ x :: (M ++ y :: B),n⟩ A.length = some (A.length+1) := by simp [nextRange]
    have other : A.length ≠ A.length+1+M.length := by omega
    by_cases gap : x.e+1 < s
    · have moved := add_from_next (n:=n) canonical located inside
        (gap_low (canonical_append.mp canonical).1 below gap)
      simp only [List.append_assoc,List.singleton_append,lastOf_concat,List.length_append,List.length_singleton]
        at start stop moved ⊢
      exact ⟨_,addRange_next start stop other (by simpa [apart] using gap) next,moved⟩
    · simp only [List.append_assoc,List.singleton_append,lastOf_concat,List.length_append,List.length_singleton]
        at start stop canonical ⊢
      exact ⟨_,addRange_found start stop other (by simpa [apart] using gap),
        add_from_found canonical located inside (by omega)⟩

theorem addRange_union (memory : Bool) (r : Rangeset) (s e : Nat)
    (canonical : Canonical ulongLimit r.rangeList) (le : s ≤ e) (inside : e < ulongLimit) :
    ∃ result, addRange memory r s e = some result ∧ Union r s e result ∧ (result.1 = .noMemory ↔ Starved memory r s e) := by
  obtain ⟨l,n⟩ := r
  obtain ⟨A,M,B,rfl,located⟩ := exists_located (s:=s) (e:=e) canonical.apart fun i at_i => (canonical.inside i at_i).1
  rcases M.eq_nil_or_concat' with rfl | ⟨M,y,rfl⟩
  · exact add_alone canonical located le inside
  · simp only [List.append_assoc,List.singleton_append] at canonical ⊢
    have starts := located.middle y (by simp)
    have proper := canonical.inside y (by simp)
    obtain ⟨left,added,union⟩ := add_spanning memory (n:=n) canonical located le inside
    have met : ¬Starved memory ⟨A ++ (M ++ y :: B),n⟩ s e := not_starved (x:=y) (by simp) ⟨by omega,starts.2⟩
    exact ⟨_,added,union,by simp [met]⟩

theorem addRange_bridges_three :
    Canonical ulongLimit [⟨1,4⟩,⟨6,6⟩,⟨9,9⟩] ∧
      addRange true ⟨[⟨1,4⟩,⟨6,6⟩,⟨9,9⟩],5⟩ 5 8 = some (.done,⟨[⟨1,9⟩],7⟩) ∧
      Union ⟨[⟨1,4⟩,⟨6,6⟩,⟨9,9⟩],5⟩ 5 8 (.done,⟨[⟨1,9⟩],7⟩) := by
  have joined : addRange true ⟨[⟨1,4⟩,⟨6,6⟩,⟨9,9⟩],5⟩ 5 8 = some (.done,⟨[⟨1,9⟩],7⟩) := by decide
  obtain ⟨result,added,union,_⟩ := addRange_union true ⟨[⟨1,4⟩,⟨6,6⟩,⟨9,9⟩],5⟩ 5 8 (by decide) (by decide) (by decide)
  cases joined.symm.trans added
  exact ⟨by decide,joined,union⟩

end XenAet.RangeSet
