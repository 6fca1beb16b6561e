import XenAet.RangeSet

namespace XenAet.RangeSet
open Library.Positions Library.Intervals

def containsRange (r : Rangeset) (s e : Nat) : Bool :=
  match findRange r s with
  | none => false
  | some x => decide (e ≤ (rangeAt r x).e)

def overlapsRange (r : Rangeset) (s e : Nat) : Bool :=
  match findRange r e with
  | none => false
  | some x => decide (s ≤ (rangeAt r x).e)

def clip (s e : Nat) (x : Range) : Range := ⟨max x.s s,min x.e e⟩

-- What the callback answers may depend on the calls before. Every turn goes to
-- a later range, so the length of the list bounds the turns.
def reportLoop (cb : List Range → Range → Int) (r : Rangeset) (s e : Nat) : Nat → List Range → Option Nat → List Range × Int
  | fuel+1,calls,some x =>
    let y := rangeAt r x
    if e < y.s then (calls,0)
    else if y.e < s then reportLoop cb r s e fuel calls (nextRange r x)
    else
      let rc := cb calls (clip s e y)
      if rc = 0 then reportLoop cb r s e fuel (calls ++ [clip s e y]) (nextRange r x) else (calls ++ [clip s e y],rc)
  | _,calls,_ => (calls,0)

def reportRanges (cb : List Range → Range → Int) (r : Rangeset) (s e : Nat) : List Range × Int :=
  reportLoop cb r s e r.rangeList.length [] (findRange r s)

-- A largest range of the values of `S` between `s` and `e`.
structure Maximal (S : Set Nat) (s e : Nat) (i : Range) : Prop where
  proper : i.s ≤ i.e
  inside : ∀ v, i.s ≤ v → v ≤ i.e → v ∈ S ∩ Set.Icc s e
  largest : ∀ j : Range, j.s ≤ i.s → i.e ≤ j.e → (∀ v, j.s ≤ v → v ≤ j.e → v ∈ S ∩ Set.Icc s e) → j = i

structure Reports (S : Set Nat) (s e : Nat) (calls : List Range) : Prop where
  ascending : calls.Pairwise fun i j => i.e < j.s
  exact_ : ∀ i, i ∈ calls ↔ Maximal S s e i

variable {r : Rangeset} {s e : Nat} {l A B : List Range} {n : Int} {i : Range}

theorem rangeAt_split (split : r.rangeList = A ++ i :: B) : rangeAt r A.length = i := by simp [rangeAt,split]

theorem nextRange_split (split : r.rangeList = A ++ i :: B) : nextRange r A.length = if B = [] then none else some (A ++ [i]).length := by
  cases B <;> simp [nextRange,split]

theorem findRange_cases (canonical : Canonical ulongLimit r.rangeList) (s : Nat) :
    (findRange r s = none ∧ ∀ i ∈ r.rangeList, s < i.s) ∨
      ∃ A a B, r.rangeList = A ++ a :: B ∧ findRange r s = some A.length ∧ a.s ≤ s ∧ ∀ b ∈ B, s < b.s := by
  obtain ⟨A,M,B,split,located⟩ := exists_located (s:=s) (e:=s) canonical.apart fun i at_i => (canonical.inside i at_i).1
  have above : ∀ b ∈ M ++ B, s < b.s := by
    intro b member
    rcases List.mem_append.mp member with middle | high
    · exact (located.middle b middle).1
    · exact located.high b high
  have found : findRange r s = lastOf A := by
    have whole : r = ⟨A ++ (M ++ B),r.nrRanges⟩ := by rw [← split]
    rw [whole]
    exact findRange_split located.low above
  rcases A.eq_nil_or_concat' with rfl | ⟨A,a,rfl⟩
  · exact .inl ⟨by simpa [lastOf] using found,by simpa [split] using above⟩
  · exact .inr ⟨A,a,M ++ B,by simpa using split,by simpa [lastOf] using found,located.low a (by simp),above⟩

-- The range found is the only one at or below `s` that may reach up to `s`.
theorem ends_below (canonical : Canonical ulongLimit (A ++ i :: B)) (low : i.s ≤ s) (high : ∀ b ∈ B, s < b.s) (member : j ∈ A ++ i :: B)
    (start : j.s ≤ s) (reach : s ≤ j.e) : j = i := by
  rcases List.mem_append.mp member with before | rest
  · have := (canonical_append.mp canonical).2.2 j before i (by simp)
    omega
  · rcases List.mem_cons.mp rest with same | after
    · exact same
    · have := high j after
      omega

theorem contains_iff (canonical : Canonical ulongLimit r.rangeList) (order : s ≤ e) :
    containsRange r s e = true ↔ ∀ v, s ≤ v → v ≤ e → v ∈ values r.rangeList := by
  rcases findRange_cases canonical s with ⟨missing,above⟩ | ⟨A,a,B,split,found,low,high⟩
  · simp only [containsRange,missing,Bool.false_eq_true,false_iff]
    intro all
    obtain ⟨i,member,within⟩ := all s (Nat.le_refl s) order
    have := above i member
    omega
  · simp only [containsRange,found,rangeAt_split split,decide_eq_true_iff]
    constructor
    · intro reach v first last
      exact ⟨a,by simp [split],by omega,by omega⟩
    · intro all
      obtain ⟨i,member,start,reach⟩ := within_one canonical order all
      rw [split] at canonical member
      rw [← ends_below canonical low high member start (by omega)]
      exact reach

theorem overlaps_iff (canonical : Canonical ulongLimit r.rangeList) (order : s ≤ e) :
    overlapsRange r s e = true ↔ ∃ v, s ≤ v ∧ v ≤ e ∧ v ∈ values r.rangeList := by
  rcases findRange_cases canonical e with ⟨missing,above⟩ | ⟨A,a,B,split,found,low,high⟩
  · simp only [overlapsRange,missing,Bool.false_eq_true,false_iff]
    rintro ⟨v,_,last,i,member,within⟩
    have := above i member
    omega
  · have proper := canonical.inside a (by simp [split])
    simp only [overlapsRange,found,rangeAt_split split,decide_eq_true_iff]
    constructor
    · intro reach
      exact ⟨max s a.s,by omega,by omega,a,by simp [split],by omega,by omega⟩
    · rintro ⟨v,first,last,i,member,within⟩
      rw [split] at canonical member
      rcases List.mem_append.mp member with before | rest
      · have := (canonical_append.mp canonical).2.2 i before a (by simp)
        omega
      · rcases List.mem_cons.mp rest with rfl | after
        · omega
        · have := high i after
          omega

-- The ranges that meet `[s,e]`, cut to it.
def met (s e : Nat) (l : List Range) : List Range := (l.filter fun x => decide (x.s ≤ e ∧ s ≤ x.e)).map (clip s e)

theorem met_beyond (beyond : ∀ x ∈ l, e < x.s) : met s e l = [] := by
  have none_ : (l.filter fun x => decide (x.s ≤ e ∧ s ≤ x.e)) = [] := by
    rw [List.filter_eq_nil_iff]
    intro x member
    have := beyond x member
    simp
    omega
  rw [met,none_,List.map_nil]

-- One turn for each range from `A.length` on, up to the first behind `e`.
theorem reportLoop_met {cb : List Range → Range → Int} (silent : ∀ calls call, cb calls call = 0) (split : r.rangeList = A ++ l)
    (canonical : Canonical ulongLimit l) (enough : l.length ≤ k) (calls : List Range) :
    reportLoop cb r s e k calls (if l = [] then none else some A.length) = (calls ++ met s e l,0) := by
  induction l generalizing A k calls with
  | nil => cases k <;> simp [reportLoop,met]
  | cons x l ih =>
    obtain ⟨k,rfl⟩ := Nat.exists_eq_add_of_le' enough
    obtain ⟨_,apart,rest⟩ := canonical_cons.mp canonical
    have later := ih (A:=A ++ [x]) (k:=k + l.length) (by simpa using split) rest (by omega)
    have turn : nextRange r A.length = if l = [] then none else some (A ++ [x]).length := nextRange_split split
    simp only [List.length_cons,← Nat.add_assoc,reportLoop,reduceCtorEq,if_false,rangeAt_split split,turn,silent,if_true,later]
    by_cases past : e < x.s
    · have beyond : ∀ y ∈ x :: l, e < y.s := by
        intro y member
        rcases List.mem_cons.mp member with rfl | after
        · exact past
        · have := apart y after
          have := canonical.inside x (by simp)
          omega
      rw [if_pos past,met_beyond beyond,List.append_nil]
    · by_cases short : x.e < s
      · simp [past,short,met,Nat.not_le.mpr short]
      · simp [past,short,met,Nat.not_lt.mp past,Nat.not_lt.mp short]

theorem maximal_iff (canonical : Canonical ulongLimit l) (order : s ≤ e) : Maximal (values l) s e i ↔ i ∈ met s e l := by
  simp only [met,List.mem_map,List.mem_filter,decide_eq_true_iff]
  constructor
  · intro maximal
    obtain ⟨x,member,start,reach⟩ := within_one canonical maximal.proper fun v first last => (maximal.inside v first last).1
    have low := (maximal.inside i.s (Nat.le_refl _) maximal.proper).2
    have high := (maximal.inside i.e maximal.proper (Nat.le_refl _)).2
    rw [Set.mem_Icc] at low high
    refine ⟨x,⟨member,by omega,by omega⟩,maximal.largest _ (by simp [clip]; omega) (by simp [clip]; omega) ?_⟩
    intro v first last
    simp only [clip] at first last
    exact ⟨⟨x,member,by omega,by omega⟩,by omega,by omega⟩
  · rintro ⟨x,⟨member,start,reach⟩,rfl⟩
    have proper := canonical.inside x member
    refine ⟨by simp [clip]; omega,?_,?_⟩
    · intro v first last
      simp only [clip] at first last
      exact ⟨⟨x,member,by omega,by omega⟩,by omega,by omega⟩
    · intro j before after inside
      simp only [clip] at before after
      obtain ⟨y,other,start',reach'⟩ := within_one canonical (show j.s ≤ j.e by omega) fun v first last => (inside v first last).1
      have low := (inside j.s (Nat.le_refl _) (by omega)).2
      have high := (inside j.e (by omega) (Nat.le_refl _)).2
      rw [Set.mem_Icc] at low high
      have same := eq_of_common (v:=max x.s s) canonical member other (by omega) (by omega)
      subst same
      cases j
      simp only [clip] at *
      congr 1 <;> omega

theorem met_reports (canonical : Canonical ulongLimit l) (order : s ≤ e) : Reports (values l) s e (met s e l) := by
  refine ⟨?_,fun i => (maximal_iff canonical order).symm⟩
  refine (canonical.apart.filter _).map _ fun x y apart => ?_
  simp only [clip]
  omega

theorem reportRanges_found {cb : List Range → Range → Int} (silent : ∀ calls call, cb calls call = 0)
    (canonical : Canonical ulongLimit r.rangeList) (split : r.rangeList = A ++ i :: B) (found : findRange r s = some A.length)
    (low : i.s ≤ s) : (reportRanges cb r s e).1 = met s e r.rangeList := by
  have parts := canonical_append.mp (split ▸ canonical)
  have loop := reportLoop_met (s:=s) (e:=e) (k:=r.rangeList.length) silent split parts.2.1 (by simp [split]) []
  rw [if_neg (by simp)] at loop
  have passed : (A.filter fun x => decide (x.s ≤ e ∧ s ≤ x.e)) = [] := by
    rw [List.filter_eq_nil_iff]
    intro x member
    have := parts.2.2 x member i (by simp)
    simp
    omega
  rw [reportRanges,found,loop,List.nil_append,split,met,met,List.filter_append,passed,List.nil_append]

-- Without a range at or below `s` the loop does not begin, and what the set has
-- in `[s,e]` is not reported.
theorem queries_answer_iff (cb : List Range → Range → Int) (silent : ∀ calls call, cb calls call = 0)
    (canonical : Canonical ulongLimit r.rangeList) (order : s ≤ e) :
    (containsRange r s e = true ↔ ∀ v, s ≤ v → v ≤ e → v ∈ values r.rangeList) ∧
    (overlapsRange r s e = true ↔ ∃ v, s ≤ v ∧ v ≤ e ∧ v ∈ values r.rangeList) ∧
    (Reports (values r.rangeList) s e (reportRanges cb r s e).1 ↔
      (∃ i ∈ r.rangeList, i.s ≤ s) ∨ ∀ v, s ≤ v → v ≤ e → v ∉ values r.rangeList) := by
  refine ⟨contains_iff canonical order,overlaps_iff canonical order,?_⟩
  have reports := met_reports canonical order
  rcases findRange_cases canonical s with ⟨missing,above⟩ | ⟨A,a,B,split,found,low,_⟩
  · have silence : (reportRanges cb r s e).1 = [] := by
      rw [reportRanges,missing]
      cases r.rangeList.length <;> rfl
    rw [silence]
    constructor
    · rintro reported
      refine .inr fun v first last => ?_
      rintro ⟨x,member,within⟩
      have listed : clip s e x ∈ met s e r.rangeList :=
        List.mem_map_of_mem (List.mem_filter.mpr ⟨member,decide_eq_true (by omega)⟩)
      exact absurd ((reported.exact_ _).mpr ((reports.exact_ _).mp listed)) List.not_mem_nil
    · rintro (⟨i,member,start⟩ | empty)
      · have := above i member
        omega
      · refine ⟨.nil,fun i => ⟨fun member => absurd member List.not_mem_nil,fun maximal => ?_⟩⟩
        have inside := maximal.inside i.s (Nat.le_refl _) maximal.proper
        exact absurd inside.1 (empty i.s inside.2.1 inside.2.2)
  · rw [reportRanges_found silent canonical split found low]
    exact ⟨fun _ => .inl ⟨a,by simp [split],low⟩,fun _ => reports⟩

def twoRanges : Rangeset := ⟨[⟨2,4⟩,⟨6,9⟩],-1⟩

theorem queries_answer_iff_twoRanges : containsRange twoRanges 3 7 = false ∧ overlapsRange twoRanges 3 7 = true ∧
    Reports (values twoRanges.rangeList) 3 7 (reportRanges (fun _ _ => 0) twoRanges 3 7).1 := by
  have answers := queries_answer_iff (r:=twoRanges) (s:=3) (e:=7) (fun _ _ => 0) (fun _ _ => rfl) (by decide +kernel) (by decide)
  exact ⟨rfl,rfl,answers.2.2.mpr (.inl ⟨⟨2,4⟩,by simp [twoRanges],by decide⟩)⟩

theorem first_range_unreported : overlapsRange twoRanges 0 7 = true ∧ (reportRanges (fun _ _ => 0) twoRanges 0 7).1 = [] ∧
    ¬Reports (values twoRanges.rangeList) 0 7 (reportRanges (fun _ _ => 0) twoRanges 0 7).1 := by
  have silence : (reportRanges (fun _ _ => 0) twoRanges 0 7).1 = [] := by decide +kernel
  refine ⟨by decide +kernel,silence,fun reported => ?_⟩
  have listed : (⟨2,4⟩ : Range) ∈ met 0 7 twoRanges.rangeList := by decide +kernel
  have reports := met_reports (l:=twoRanges.rangeList) (s:=0) (e:=7) (by decide +kernel) (by decide)
  have called := (reported.exact_ _).mpr ((reports.exact_ _).mp listed)
  rw [silence] at called
  cases called

end XenAet.RangeSet
