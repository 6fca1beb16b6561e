import Mathlib.Algebra.Group.Nat.Defs
import Mathlib.Data.List.TakeWhile
import XenAet.AetControl
import XenAet.Library.Run

namespace XenAet.BootMem
open AetControl Library

structure Region where
  s : Nat
  e : Nat
  deriving DecidableEq,Repr

-- `ready` once a page has been taken for `bootmem_region_list`.
structure Boot where
  ready : Bool
  regions : List Region
  deriving DecidableEq,Repr

-- PAGE_SIZE / sizeof(struct bootmem_region)
def maxRegions : Nat := 256

-- `none` is a BOOT_BUG_ON.
def bootmemRegionAdd (b : Boot) (s e : Nat) : Option Boot :=
  let first := !b.ready && decide (s < e)
  let b := if first then {b with ready := true} else b
  let s := if first then s+1 else s
  if e ≤ s then some b
  else
    let before := b.regions.takeWhile fun r => decide (r.e ≤ s)
    let after := b.regions.dropWhile fun r => decide (r.e ≤ s)
    if after.head?.any fun r => decide (r.s < e) then none
    else if b.regions.length = maxRegions then none
    else some {b with regions := before ++ ⟨s,e⟩ :: after}

def Boot.set_ (b : Boot) (i : Nat) (r : Region) : Boot := {b with regions := b.regions.set i r}

-- One turn of the loop: the list after it and whether the loop goes on.
def zapTurn (b : Boot) (s e i : Nat) (r : Region) : Option (Boot × Bool) :=
  if e ≤ r.s then some (b,false)
  else if r.e ≤ s then some (b,true)
  else if s ≤ r.s then some (b.set_ i ⟨min e r.e,r.e⟩,true)
  else if r.e ≤ e then some (b.set_ i ⟨r.s,s⟩,true)
  else (bootmemRegionAdd (b.set_ i ⟨r.s,s⟩) e r.e).map (·,true)

-- There are never more than `maxRegions` regions to go over.
def zapLoop (s e : Nat) : Nat → Nat → Boot → Option Boot
  | 0,_,b => some b
  | fuel+1,i,b =>
    match b.regions[i]? with
    | none => some b
    | some r => (zapTurn b s e i r).bind fun (b,more) => if more then zapLoop s e fuel (i+1) b else some b

def bootmemRegionZap (b : Boot) (s e : Nat) : Option Boot := zapLoop s e (maxRegions + 1) 0 b

-- Where a request is put in a region: at its end, or at its start for memory
-- below `highmem`, which debug builds keep mapped.
inductive Pick where
  | top (pg : Nat)
  | bottom (pg : Nat)
  deriving DecidableEq,Repr

def Pick.pg : Pick → Nat
  | .top pg | .bottom pg => pg

def pick (highmem : Option Nat) (nrPfns pfnAlign : Nat) (r : Region) : Option Pick :=
  let last := (r.e + 2^64 - nrPfns) % 2^64
  let pg := last - (last &&& (pfnAlign - 1))
  if pg < r.s then none
  else
    match highmem.filter fun h => decide (pfnAlign = 1 ∧ h < r.e) with
    | none => some (.top pg)
    | some h => if h < (r.s + nrPfns) % 2^64 then none else some (.bottom r.s)

-- From the last region down.
def search (put : Region → Option Pick) (l : List Region) : Nat → Option (Nat × Region × Pick)
  | 0 => none
  | i+1 =>
    match l[i]? with
    | none => none
    | some r =>
      match put r with
      | some p => some (i,r,p)
      | none => search put l i

def allocBootPages (highmem : Option Nat) (b : Boot) (nrPfns pfnAlign : Nat) : Option (Nat × Boot) :=
  match search (pick highmem nrPfns pfnAlign) b.regions b.regions.length with
  | none => none
  | some (i,r,.bottom pg) => some (pg,b.set_ i ⟨(pg + nrPfns) % 2^64,r.e⟩)
  | some (i,r,.top pg) => (bootmemRegionAdd (b.set_ i ⟨r.s,pg⟩) ((pg + nrPfns) % 2^64) r.e).map (pg,·)

-- The alignment of a request is `2^k`.
inductive Event where
  | add (s e : U64)
  | zap (s e : U64)
  | alloc (nrPfns : U64) (k : Nat)

def step (highmem : Option Nat) (b : Boot) : Event → Option Boot
  | .add s e => bootmemRegionAdd b s.toNat e.toNat
  | .zap s e => bootmemRegionZap b s.toNat e.toNat
  | .alloc nrPfns k => (allocBootPages highmem b nrPfns.toNat (2^k)).map (·.2)

def start : Boot := ⟨false,[]⟩

def Free (b : Boot) (f : Nat) : Prop := ∃ r ∈ b.regions, r.s ≤ f ∧ f < r.e

-- What a call gives back, and what it leaves.
structure Allocated (b : Boot) (nrPfns pfnAlign pg : Nat) (next : Boot) : Prop where
  aligned : pfnAlign ∣ pg
  inside : ∃ r ∈ b.regions, r.s ≤ pg ∧ pg + nrPfns ≤ r.e
  free : ∀ f, Free next f ↔ Free b f ∧ ¬(pg ≤ f ∧ f < pg + nrPfns)

-- The region that a request is put in does not end below its size.
def Above (highmem : Option Nat) (b : Boot) : Event → Prop
  | .alloc nrPfns k => ∀ found ∈ search (pick highmem nrPfns.toNat (2^k)) b.regions b.regions.length, nrPfns.toNat ≤ found.2.1.e
  | _ => True

instance (highmem : Option Nat) (b : Boot) : ∀ event, Decidable (Above highmem b event)
  | .alloc nrPfns k => inferInstanceAs (Decidable (∀ found ∈ search (pick highmem nrPfns.toNat (2^k)) b.regions b.regions.length, _))
  | .add _ _ | .zap _ _ => .isTrue trivial

-- In order and apart; regions may be empty.
structure Sorted (l : List Region) : Prop where
  proper : ∀ r ∈ l, r.s ≤ r.e ∧ r.e < 2^64
  order : l.Pairwise fun r q => r.e ≤ q.s

structure Inv (b : Boot) : Prop where
  sorted : Sorted b.regions
  listed : b.regions ≠ [] → b.ready = true

variable {b next : Boot} {A B l : List Region} {r x : Region} {s e f : Nat} {highmem : Option Nat}

theorem sorted_append : Sorted (A ++ r :: B) ↔
    Sorted (A ++ B) ∧ (r.s ≤ r.e ∧ r.e < 2^64) ∧ (∀ a ∈ A, a.e ≤ r.s) ∧ ∀ b ∈ B, r.e ≤ b.s := by
  constructor
  · rintro ⟨proper,order⟩
    obtain ⟨left,right,across⟩ := List.pairwise_append.mp order
    obtain ⟨behind,rest⟩ := List.pairwise_cons.mp right
    refine ⟨⟨fun q member => proper q ?_,List.pairwise_append.mpr ⟨left,rest,fun a first b last => across a first b (by simp [last])⟩⟩,
      proper r (by simp),fun a first => across a first r (by simp),behind⟩
    rcases List.mem_append.mp member with first | last
    · simp [first]
    · simp [last]
  · rintro ⟨⟨proper,order⟩,own,before,behind⟩
    obtain ⟨left,right,across⟩ := List.pairwise_append.mp order
    refine ⟨fun q member => ?_,List.pairwise_append.mpr ⟨left,List.pairwise_cons.mpr ⟨behind,right⟩,fun a first b last => ?_⟩⟩
    · rcases List.mem_append.mp member with first | rest
      · exact proper q (by simp [first])
      · rcases List.mem_cons.mp rest with rfl | last
        · exact own
        · exact proper q (by simp [last])
    · rcases List.mem_cons.mp last with rfl | later
      · exact before a first
      · exact across a first b later

-- A region made smaller in its place.
theorem sorted_shrink (sorted : Sorted (A ++ r :: B)) (low : r.s ≤ x.s) (proper : x.s ≤ x.e) (high : x.e ≤ r.e) : Sorted (A ++ x :: B) := by
  obtain ⟨rest,own,before,behind⟩ := sorted_append.mp sorted
  refine sorted_append.mpr ⟨rest,by omega,fun a first => ?_,fun b last => ?_⟩
  · have := before a first
    omega
  · have := behind b last
    omega

theorem set_split (split : b.regions = A ++ r :: B) : (b.set_ A.length x).regions = A ++ x :: B := by
  simp [Boot.set_,split]

theorem get_split (found : l[i]? = some r) : ∃ A B, l = A ++ r :: B ∧ A.length = i := by
  obtain ⟨inside,value⟩ := List.getElem?_eq_some_iff.mp found
  refine ⟨l.take i,l.drop (i+1),?_,by simp; omega⟩
  rw [← value,List.cons_getElem_drop_succ,List.take_append_drop]

theorem free_append (split : b.regions = A ++ r :: B) :
    Free b f ↔ (∃ q ∈ A ++ B, q.s ≤ f ∧ f < q.e) ∨ r.s ≤ f ∧ f < r.e := by
  unfold Free
  rw [split]
  constructor
  · rintro ⟨q,member,within⟩
    rcases List.mem_append.mp member with first | rest
    · exact .inl ⟨q,by simp [first],within⟩
    · rcases List.mem_cons.mp rest with rfl | last
      · exact .inr within
      · exact .inl ⟨q,by simp [last],within⟩
  · rintro (⟨q,member,within⟩ | within)
    · rcases List.mem_append.mp member with first | last
      · exact ⟨q,by simp [first],within⟩
      · exact ⟨q,by simp [last],within⟩
    · exact ⟨r,by simp,within⟩

theorem apart (sorted : Sorted (A ++ r :: B)) (member : x ∈ A ++ B) (within : r.s ≤ f ∧ f < r.e) : ¬(x.s ≤ f ∧ f < x.e) := by
  obtain ⟨_,_,before,behind⟩ := sorted_append.mp sorted
  rcases List.mem_append.mp member with first | last
  · have := before x first
    omega
  · have := behind x last
    omega

-- Where the range goes in: behind the regions that end at or below it.
theorem add_parts (ready : b.ready = true) (proper : s < e) (added : bootmemRegionAdd b s e = some next) (sorted : Sorted b.regions) :
    ∃ A B, b.regions = A ++ B ∧ next = {b with regions := A ++ ⟨s,e⟩ :: B} ∧ (∀ a ∈ A, a.e ≤ s) ∧ ∀ q ∈ B, e ≤ q.s := by
  simp only [bootmemRegionAdd,ready,Bool.not_true,Bool.false_and,Bool.false_eq_true,if_false,Nat.not_le.mpr proper] at added
  split at added
  · cases added
  next free =>
    split at added
    · cases added
    · cases added
      refine ⟨_,_,(List.takeWhile_append_dropWhile (p:=fun r => decide (r.e ≤ s))).symm,by rw [ready],?_,?_⟩
      · intro a member
        simpa using List.mem_takeWhile_imp member
      · intro q member
        have order : (b.regions.dropWhile fun r => decide (r.e ≤ s)).Pairwise fun r q => r.e ≤ q.s :=
          sorted.order.sublist (List.dropWhile_sublist _)
        have all : ∀ q ∈ b.regions.dropWhile fun r => decide (r.e ≤ s), q.s ≤ q.e := fun q member =>
          (sorted.proper q ((List.dropWhile_sublist _).subset member)).1
        generalize (b.regions.dropWhile fun r => decide (r.e ≤ s)) = after at free member order all
        cases after with
        | nil => cases member
        | cons first rest =>
          have clear : e ≤ first.s := by simpa using free
          rcases List.mem_cons.mp member with rfl | later
          · exact clear
          · have := (List.pairwise_cons.mp order).1 q later
            have := all first (by simp)
            omega

theorem add_none (ready : b.ready = true) (empty : e ≤ s) : bootmemRegionAdd b s e = some b := by
  simp [bootmemRegionAdd,ready,empty]

theorem add_inv (inv : Inv b) (bound : e < 2^64) (added : bootmemRegionAdd b s e = some next) : Inv next := by
  cases ready : b.ready with
  | true =>
    by_cases proper : s < e
    · obtain ⟨A,B,split,rfl,before,behind⟩ := add_parts ready proper added inv.sorted
      exact ⟨sorted_append.mpr ⟨split ▸ inv.sorted,⟨Nat.le_of_lt proper,bound⟩,before,behind⟩,fun _ => ready⟩
    · rw [add_none ready (Nat.not_lt.mp proper)] at added
      cases added
      exact inv
  | false =>
    -- Nothing is listed yet.
    have none_ : b.regions = [] := by
      by_contra some_
      exact absurd (inv.listed some_) (by simp [ready])
    simp only [bootmemRegionAdd,ready,none_] at added
    by_cases proper : s < e
    · by_cases wide : e ≤ s+1
      · simp [proper,wide] at added
        cases added
        exact ⟨by simpa [none_] using inv.sorted,fun _ => rfl⟩
      · simp [proper,wide,maxRegions] at added
        cases added
        exact ⟨⟨by simp; omega,List.pairwise_singleton ..⟩,fun _ => rfl⟩
    · simp [proper,Nat.not_lt.mp proper] at added
      cases added
      exact inv

theorem set_inv (inv : Inv b) (found : b.regions[i]? = some r) (low : r.s ≤ x.s) (proper : x.s ≤ x.e) (high : x.e ≤ r.e) :
    Inv (b.set_ i x) := by
  obtain ⟨A,B,split,rfl⟩ := get_split found
  refine ⟨?_,fun _ => inv.listed (by simp [split])⟩
  rw [set_split split]
  exact sorted_shrink (split ▸ inv.sorted) low proper high

theorem zapTurn_inv (inv : Inv b) (found : b.regions[i]? = some r) (turn : zapTurn b s e i r = some (next,more)) : Inv next := by
  have own := inv.sorted.proper r (List.mem_of_getElem? found)
  simp only [zapTurn] at turn
  split at turn
  · cases turn
    exact inv
  · split at turn
    · cases turn
      exact inv
    · split at turn
      · cases turn
        exact set_inv inv found (by dsimp only; omega) (by dsimp only; omega) (Nat.le_refl _)
      · split at turn
        · cases turn
          exact set_inv inv found (Nat.le_refl _) (by dsimp only; omega) (by dsimp only; omega)
        · obtain ⟨after,added,same⟩ := Option.map_eq_some_iff.mp turn
          cases same
          have shrunk : Inv (b.set_ i ⟨r.s,s⟩) := set_inv inv found (Nat.le_refl _) (by dsimp only; omega) (by dsimp only; omega)
          exact add_inv shrunk own.2 added

theorem zapLoop_inv (inv : Inv b) (zapped : zapLoop s e fuel i b = some next) : Inv next := by
  induction fuel generalizing i b with
  | zero =>
    cases zapped
    exact inv
  | succ fuel ih =>
    simp only [zapLoop] at zapped
    cases found : b.regions[i]? with
    | none =>
      rw [found] at zapped
      cases zapped
      exact inv
    | some r =>
      rw [found] at zapped
      obtain ⟨⟨after,more⟩,turn,rest⟩ := Option.bind_eq_some_iff.mp zapped
      have kept := zapTurn_inv inv found turn
      cases more with
      | true => exact ih kept rest
      | false =>
        cases rest
        exact kept

theorem search_found {put : Region → Option Pick} (searched : search put l i = some (j,r,p)) : l[j]? = some r ∧ put r = some p := by
  induction i with
  | zero => cases searched
  | succ i ih =>
    simp only [search] at searched
    cases found : l[i]? with
    | none => simp [found] at searched
    | some q =>
      cases picked : put q with
      | some p' =>
        simp only [found,picked,Option.some.injEq,Prod.mk.injEq] at searched
        obtain ⟨rfl,rfl,rfl⟩ := searched
        exact ⟨found,picked⟩
      | none =>
        simp only [found,picked] at searched
        exact ih searched

-- The page of a region that does not end below the request.
theorem pick_inside (picked : pick highmem n (2^k) r = some p) (above : n ≤ r.e) (proper : r.s ≤ r.e ∧ r.e < 2^64) :
    2^k ∣ p.pg ∧ r.s ≤ p.pg ∧ p.pg + n ≤ r.e ∧ (∀ pg, p = .bottom pg → pg = r.s) := by
  have last : (r.e + 2^64 - n) % 2^64 = r.e - n := by omega
  simp only [pick,last,Nat.and_two_pow_sub_one_eq_mod] at picked
  have rounded : r.e - n - (r.e - n) % 2^k = 2^k * ((r.e - n) / 2^k) := by
    have := Nat.div_add_mod (r.e - n) (2^k)
    omega
  split at picked
  · cases picked
  · next enough =>
    split at picked
    · cases picked
      refine ⟨⟨_,rounded⟩,?_,?_,fun pg same => by cases same⟩
      · simp only [Pick.pg]
        omega
      · simp only [Pick.pg]
        omega
    · next h filtered =>
      have one : 2^k = 1 ∧ h < r.e := by simpa using (Option.filter_eq_some_iff.mp filtered).2
      split at picked
      · cases picked
      · cases picked
        refine ⟨by simp [Pick.pg,one.1],Nat.le_refl _,?_,fun pg same => by cases same; rfl⟩
        simp only [Pick.pg]
        omega

theorem add_free (ready : b.ready = true) (sorted : Sorted b.regions) (added : bootmemRegionAdd b s e = some next) :
    Free next f ↔ Free b f ∨ s ≤ f ∧ f < e := by
  by_cases proper : s < e
  · obtain ⟨A,B,split,rfl,_,_⟩ := add_parts ready proper added sorted
    rw [free_append rfl,Free,split]
  · rw [add_none ready (Nat.not_lt.mp proper)] at added
    cases added
    constructor
    · exact .inl
    · rintro (free | empty)
      · exact free
      · omega

-- Taking `[pg,pg+n)` out of one region leaves its two ends and the others.
theorem free_carved (sorted : Sorted b.regions) (split : b.regions = A ++ r :: B) (low : r.s ≤ pg) (high : pg + n ≤ r.e) :
    (∃ q ∈ A ++ B, q.s ≤ f ∧ f < q.e) ∨ (r.s ≤ f ∧ f < pg) ∨ (pg + n ≤ f ∧ f < r.e) ↔ Free b f ∧ ¬(pg ≤ f ∧ f < pg + n) := by
  rw [free_append split]
  constructor
  · rintro (⟨q,member,within⟩ | ends)
    · refine ⟨.inl ⟨q,member,within⟩,fun taken => ?_⟩
      exact apart (split ▸ sorted) member (show r.s ≤ f ∧ f < r.e by omega) within
    · exact ⟨.inr (by omega),by omega⟩
  · rintro ⟨others | within,kept⟩
    · exact .inl others
    · exact .inr (by omega)

theorem alloc_exact {n k pg : Nat} (inv : Inv b) (call : allocBootPages highmem b n (2^k) = some (pg,next))
    (above : ∀ found ∈ search (pick highmem n (2^k)) b.regions b.regions.length, n ≤ found.2.1.e) :
    Inv next ∧ Allocated b n (2^k) pg next := by
  unfold allocBootPages at call
  cases searched : search (pick highmem n (2^k)) b.regions b.regions.length with
  | none => simp [searched] at call
  | some found =>
    obtain ⟨i,r,p⟩ := found
    obtain ⟨listed,picked⟩ := search_found searched
    have own := inv.sorted.proper r (List.mem_of_getElem? listed)
    obtain ⟨aligned,low,high,base⟩ := pick_inside picked (above _ searched) own
    have ready := inv.listed (List.ne_nil_of_mem (List.mem_of_getElem? listed))
    obtain ⟨A,B,split,rfl⟩ := get_split listed
    have within : (p.pg + n) % 2^64 = p.pg + n := Nat.mod_eq_of_lt (by omega)
    cases p with
    | bottom first =>
      have start := base first rfl
      simp only [Pick.pg] at aligned low high within
      simp only [searched,Option.some.injEq,Prod.mk.injEq,within] at call
      obtain ⟨rfl,rfl⟩ := call
      refine ⟨set_inv inv listed (by dsimp only; omega) high (Nat.le_refl _),aligned,⟨r,by simp [split],low,high⟩,fun f => ?_⟩
      rw [← free_carved inv.sorted split low high,free_append (set_split split)]
      have none_ : ¬(r.s ≤ f ∧ f < first) := by omega
      simp only [none_,false_or]
    | top first =>
      simp only [Pick.pg] at aligned low high within
      simp only [searched,within] at call
      obtain ⟨after,added,same⟩ := Option.map_eq_some_iff.mp call
      cases same
      have still : (b.set_ A.length ⟨r.s,pg⟩).ready = true := ready
      have shrunk : Inv (b.set_ A.length ⟨r.s,pg⟩) := set_inv inv listed (Nat.le_refl _) low (by dsimp only; omega)
      refine ⟨add_inv shrunk own.2 added,aligned,⟨r,by simp [split],low,high⟩,fun f => ?_⟩
      rw [← free_carved inv.sorted split low high,add_free still shrunk.sorted added,free_append (set_split split),or_assoc]

theorem step_inv (event : Event) (inv : Inv b) (above : Above highmem b event) (taken : step highmem b event = some next) : Inv next := by
  cases event with
  | add s e => exact add_inv inv e.isLt taken
  | zap s e => exact zapLoop_inv inv taken
  | alloc nrPfns k =>
    obtain ⟨⟨pg,after⟩,call,same⟩ := Option.map_eq_some_iff.mp taken
    cases same
    exact (alloc_exact inv call above).1

-- In every run that puts no request in a region ending below its size.
theorem boot_allocator_exact {events : List Event} (above : Run.Guarded (Above highmem) (step highmem) start events)
    (ran : Run.run (step highmem) start events = some b) :
    Sorted b.regions ∧ ∀ nrPfns k pg next, Above highmem b (.alloc nrPfns k) →
      allocBootPages highmem b nrPfns.toNat (2^k) = some (pg,next) → Allocated b nrPfns.toNat (2^k) pg next := by
  have inv := Run.guarded_invariant (P:=Inv) (fun _ event _ inv allowed taken => step_inv event inv allowed taken)
    ⟨⟨by simp [start],.nil⟩,fun some_ => absurd rfl some_⟩ above ran
  exact ⟨inv.sorted,fun nrPfns k pg next allowed call => (alloc_exact inv call allowed).2⟩

theorem boot_allocator_exact_two : ∃ b, Run.run (step none) start [.add 1 100,.add 200 300,.zap 250 260] = some b ∧
    Allocated b 16 (2^4) 272 ⟨true,[⟨2,100⟩,⟨200,250⟩,⟨260,272⟩,⟨288,300⟩]⟩ := by
  refine ⟨⟨true,[⟨2,100⟩,⟨200,250⟩,⟨260,300⟩]⟩,by decide +kernel,?_⟩
  have above : Run.Guarded (Above none) (step none) start [.add 1 100,.add 200 300,.zap 250 260] := by decide +kernel
  exact (boot_allocator_exact above (by decide +kernel)).2 16 4 272 _ (by decide +kernel) (by decide +kernel)

-- A region of three frames is taken for a request of eight.
theorem request_wraps : ∃ b, Run.run (step none) start [.add 1 5] = some b ∧ b.regions = [⟨2,5⟩] ∧
    allocBootPages none b 8 1 = some (2^64 - 3,⟨true,[⟨2,2^64 - 3⟩]⟩) := by
  exact ⟨⟨true,[⟨2,5⟩]⟩,by decide +kernel,rfl,by decide +kernel⟩

end XenAet.BootMem
