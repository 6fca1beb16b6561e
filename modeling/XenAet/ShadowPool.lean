import XenAet.ShadowEntry
import XenAet.Library.Run

namespace XenAet.ShadowPool
open AetControl ShadowEntry Library

def shTypeL1Shadow : Nat := 8
def shTypeFl1Shadow : Nat := 9
def shTypeMaxShadow : Nat := 13

-- Only the shadows of two-level guests take more than one page.
def shadowSize : Nat → Nat
  | 1 | 2 => 2
  | 3 => 4
  | _ => 1

-- The union `u` of a page structure, by the fields of its shadow view. It is
-- the same 64-bit word that holds `type_info` while a guest uses the page.
structure ShWord where
  type : Nat
  pinned : Bool
  head : Bool
  count : Nat
  rest : Nat
  deriving DecidableEq,Repr

def ofTypeInfo (w : U64) : ShWord :=
  ⟨w.toNat % 32,w.getLsbD 5,w.getLsbD 6,w.toNat / 2^7 % 2^25,w.toNat / 2^32⟩

-- `need_tlbflush` of a free page is the low byte of the word.
def needTlbflush (flush : Bool) (w : ShWord) : ShWord :=
  ⟨if flush then 1 else 0,false,false,w.count / 2 * 2,w.rest⟩

abbrev DomId := Nat

-- What a page is in use as. This is bookkeeping of the model, not of the code.
inductive Role where
  | heap
  | pool (d : DomId)
  | shadow (d : DomId) (type : Nat) (back : U64)
  | guest (d : DomId)
  deriving DecidableEq,Repr

structure Page where
  u : ShWord
  role : Role
  content : Fin 512 → U64

structure Pool where
  page : U64 → Page
  freelist : DomId → List U64
  group : U64 → List U64

def Pool.put (s : Pool) (m : U64) (p : Page) : Pool := {s with page := Function.update s.page m p}

def allocated (p : Page) (d : DomId) (type : Nat) (back : U64) : Page where
  u := ⟨type,false,false,0,p.u.rest⟩
  role := .shadow d type back
  content := fun _ => 0

-- The loop of `shadow_alloc`: pages come off the head of the free list and are
-- linked in front of those already taken.
def allocPages (d : DomId) (type : Nat) (back : U64) : Nat → Pool → List U64 → Option (Pool × List U64)
  | 0,s,taken => some (s,taken)
  | n+1,s,taken =>
    match s.freelist d with
    | [] => none
    | sp :: rest =>
      let s := {s with freelist := Function.update s.freelist d rest}
      allocPages d type back n (s.put sp (allocated (s.page sp) d type back)) (sp :: taken)

def setHead (s : Pool) (m : U64) (type : Nat) : Pool :=
  if 1 ≤ type ∧ type ≤ shTypeMaxShadow then
    s.put m {s.page m with u := {(s.page m).u with head := true}}
  else s

def shadowAlloc (s : Pool) (d : DomId) (type : Nat) (back : U64) : Option Pool := do
  let (s,taken) ← allocPages d type back (shadowSize type) s []
  let sp ← taken.head?
  let s := setHead s sp type
  return {s with group := Function.update s.group sp taken}

def freed (p : Page) (d : DomId) : Page := {p with u := {p.u with type := 0,head := false},role := .pool d}

def freePage (d : DomId) (s : Pool) (sp : U64) : Pool :=
  let s := s.put sp (freed (s.page sp) d)
  {s with freelist := Function.update s.freelist d (s.freelist d ++ [sp])}

def shadowFree (s : Pool) (smfn : U64) : Option Pool :=
  match (s.page smfn).role with
  | .shadow d _ _ => some ((s.group smfn).foldl (freePage d) s)
  | _ => none

def growPool (s : Pool) (d : DomId) (m : U64) : Option Pool :=
  if (s.page m).role = .heap then
    let u := {(s.page m).u with type := 0,pinned := false,count := 0}
    let s := s.put m {s.page m with u,role := .pool d}
    some {s with freelist := Function.update s.freelist d (s.freelist d ++ [m])}
  else none

def shrinkPool (s : Pool) (d : DomId) (flush : Bool) : Option Pool :=
  match s.freelist d with
  | [] => none
  | m :: rest =>
    let s := {s with freelist := Function.update s.freelist d rest}
    some (s.put m {s.page m with u := needTlbflush flush (s.page m).u,role := .heap})

-- The heap hands a page to a guest with a clear `type_info`; from then on the
-- guest's use of the page sets the word to anything.
def giveGuest (s : Pool) (m : U64) (d : DomId) : Option Pool :=
  if (s.page m).role = .heap then some (s.put m {s.page m with u := ofTypeInfo 0,role := .guest d}) else none

def setTypeInfo (s : Pool) (m : U64) (w : U64) : Option Pool :=
  match (s.page m).role with
  | .guest _ => some (s.put m {s.page m with u := ofTypeInfo w})
  | _ => none

def takeGuest (s : Pool) (m : U64) (flush : Bool) : Option Pool :=
  match (s.page m).role with
  | .guest _ => some (s.put m {s.page m with u := needTlbflush flush (s.page m).u,role := .heap})
  | _ => none

def store (s : Pool) (m : U64) (i : Fin 512) (v : U64) : Pool :=
  s.put m {s.page m with content := Function.update (s.page m).content i v}

section
variable {s next : Pool} {d : DomId}

@[simp] theorem put_page (s : Pool) (m : U64) (p : Page) (x : U64) :
    (s.put m p).page x = if x = m then p else s.page x := by
  by_cases same : x = m
  · subst same; simp [Pool.put]
  · simp [Pool.put,same]

theorem alloc_pages (ran : allocPages d type back n s taken = some (next,all)) (m : U64) :
    (m ∈ (s.freelist d).take n ∧ (next.page m).u.type = type ∧ (next.page m).role = .shadow d type back) ∨
      next.page m = s.page m := by
  induction n generalizing s taken with
  | zero => cases ran; exact .inr rfl
  | succ n ih =>
    simp only [allocPages] at ran
    split at ran
    · cases ran
    · rename_i sp rest list
      rw [list,List.take_succ_cons]
      rcases ih ran with ⟨later,new⟩ | same
      · exact .inl ⟨List.mem_cons_of_mem _ (by simpa [Pool.put] using later),new⟩
      · by_cases here : m = sp
        · subst here
          rw [put_page,if_pos rfl] at same
          rw [same]
          exact .inl ⟨List.mem_cons_self,rfl,rfl⟩
        · rw [put_page,if_neg here] at same
          exact .inr same

theorem head_page (s : Pool) (sp m : U64) (type : Nat) :
    ((setHead s sp type).page m).u.type = (s.page m).u.type ∧
      ((setHead s sp type).page m).role = (s.page m).role := by
  unfold setHead
  split
  · by_cases here : m = sp
    · subst here; simp
    · simp [here]
  · exact ⟨rfl,rfl⟩

theorem alloc_cases (ran : shadowAlloc s d type back = some next) (m : U64) :
    (m ∈ (s.freelist d).take (shadowSize type) ∧ (next.page m).u.type = type ∧
      (next.page m).role = .shadow d type back) ∨
    ((next.page m).u.type = (s.page m).u.type ∧ (next.page m).role = (s.page m).role) := by
  simp only [shadowAlloc,Option.bind_eq_bind,Option.bind_eq_some_iff] at ran
  obtain ⟨⟨middle,taken⟩,got,sp,first,done⟩ := ran
  cases done
  obtain ⟨type_,role⟩ := head_page middle sp m type
  rcases alloc_pages got m with ⟨member,typed,used⟩ | same
  · exact .inl ⟨member,type_.trans typed,role.trans used⟩
  · exact .inr ⟨type_.trans (by rw [same]),role.trans (by rw [same])⟩

theorem free_page (s : Pool) (sp m : U64) :
    (freePage d s sp).page m = if m = sp then freed (s.page sp) d else s.page m := put_page s sp _ m

theorem free_cases (list : List U64) (s : Pool) (m : U64) :
    ((list.foldl (freePage d) s).page m).u.type = 0 ∨ (list.foldl (freePage d) s).page m = s.page m := by
  induction list generalizing s with
  | nil => exact .inr rfl
  | cons sp rest ih =>
    rw [List.foldl_cons]
    rcases ih (freePage d s sp) with zero | same
    · exact .inl zero
    · rw [same,free_page]
      split
      · exact .inl rfl
      · exact .inr rfl

end

end XenAet.ShadowPool
