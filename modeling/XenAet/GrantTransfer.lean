import XenAet.GrantTable

namespace XenAet.GrantTransfer
open GrantTable (gntstGeneralError gntstBadDomain gntstPermissionDenied)

def gntstBadPage : Int := -9
def gntstAddressTooBig : Int := -11
def gtfAcceptTransfer : Nat := 2
def gtfTransferCommitted : Nat := 4
def gtfTransferCompleted : Nat := 8

-- `allocated` and `count` are PGC_allocated and the count of `count_info`;
-- `free` says that the page is with the heap.
structure PageInfo where
  owner : Option Nat
  allocated : Bool
  count : Nat
  xenHeap : Bool
  free : Bool
  deriving DecidableEq

structure Entry where
  flags : Nat
  domid : Nat
  frame : Nat
  deriving DecidableEq

-- `refs` are the references to the domain.
structure Domain where
  isDying : Bool
  totPages : Int
  maxPages : Int
  refs : Int
  pageList : List Nat
  physaddrBitsize : Nat
  translated : Bool
  physmap : Nat → Option Nat
  gtVersion : Nat
  nrGrantEntries : Nat
  entry : Nat → Entry

-- `puts` counts the calls of `put_gfn`.
structure State where
  page : Nat → PageInfo
  dom : Nat → Option Domain
  puts : Nat

-- What others do to the target while its lock is dropped.
inductive Other where
  | assign (mfn : Nat)
  | release (mfn : Nat)
  | kill

structure Request where
  d : Nat
  gfn : Nat
  domid : Nat
  ref : Nat

-- What the call meets: the frame of the gfn if it is valid and not shared, the
-- answer of XSM, the page `alloc_domheap_page` gives, the others, the words seen
-- by the `cmpxchg`s one after the other, and whether the physmap takes the page.
structure Found where
  mfn : Option Nat
  denied : Bool
  newPage : Option Nat
  others : List Other
  words : List (Nat × Nat)
  physmapOk : Bool

-- `domain_adjust_tot_pages` by one, with the reference that the first page has.
def addPage (e : Domain) : Domain := {e with totPages := e.totPages + 1,refs := e.refs + if e.totPages + 1 = 1 then 1 else 0}
def subPage (e : Domain) : Domain := {e with totPages := e.totPages - 1,refs := e.refs - if e.totPages - 1 = 0 then 1 else 0}

def otherStep (e : Domain) : Other → Domain
  | .assign mfn => {addPage e with pageList := e.pageList ++ [mfn]}
  | .release mfn => {subPage e with pageList := e.pageList.erase mfn}
  | .kill => {e with isDying := true}

def otherSteps (others : List Other) (e : Domain) : Domain := others.foldl otherStep e

def setPage (s : State) (mfn : Nat) (pg : PageInfo) : State := {s with page := Function.update s.page mfn pg}
def setDom (s : State) (id : Nat) (e : Option Domain) : State := {s with dom := Function.update s.dom id e}
def putGfn (s : State) : State := {s with puts := s.puts + 1}

def stealPage (d mfn : Nat) (s : State) : Option State :=
  let pg := s.page mfn
  if pg.xenHeap || pg.owner != some d || !pg.allocated || pg.count != 1 then none
  else some (setDom (setPage s mfn {pg with owner := none}) d
    ((s.dom d).map fun e => {subPage e with pageList := e.pageList.erase mfn}))

def guestPhysmapRemovePage (id gfn : Nat) (s : State) : State :=
  setDom s id ((s.dom id).map fun e => if e.translated then {e with physmap := Function.update e.physmap gfn none} else e)

-- `page->count_info &= ~(PGC_count_mask|PGC_allocated); free_domheap_page(page)`
def freePage (mfn : Nat) (s : State) : State := setPage s mfn {s.page mfn with allocated := false,count := 0,free := true}

-- `alloc_domheap_page(NULL, ...)`
def allocPage (mfn : Nat) (s : State) : State := setPage s mfn ⟨none,false,0,false,false⟩

def maxBitsize (e : Domain) : Nat := if e.physaddrBitsize = 0 then 75 else min e.physaddrBitsize 75

def prepareLoop (ld : Nat) : Nat → Nat × Nat → List (Nat × Nat) → Bool
  | retries,scombo,words =>
    if scombo != (gtfAcceptTransfer,ld) then false
    else
      match words with
      | [] => true
      | word :: rest =>
        if word = scombo then true
        else if retries = 4 then false
        else prepareLoop ld (retries+1) word rest

def setEntry (e : Domain) (ref : Nat) (entry : Entry) : Domain := {e with entry := Function.update e.entry ref entry}

def prepareForTransfer (env : Found) (ld ref : Nat) (e : Domain) : Bool × Domain :=
  let entry := e.entry ref
  if e.gtVersion = 0 || e.nrGrantEntries ≤ ref then (false,e)
  else if prepareLoop ld 0 (entry.flags,entry.domid) env.words then
    (true,setEntry e ref {entry with flags := entry.flags ||| gtfTransferCommitted})
  else (false,e)

-- `frame` has 32 bits in a version 1 entry.
def tellGuest (env : Found) (ref mfn : Nat) (e : Domain) : Domain :=
  let entry := e.entry ref
  let e := if e.translated && env.physmapOk then {e with physmap := Function.update e.physmap entry.frame (some mfn)} else e
  setEntry e ref {entry with frame := mfn % 2^(if e.gtVersion = 1 then 32 else 64),flags := entry.flags ||| gtfTransferCompleted}

-- From `spin_lock(&e->page_alloc_lock)` on; `page` is the frame to be added.
def giveTo (env : Found) (g : Request) (mfn page : Nat) (e : Domain) (s : State) : Int × State :=
  if e.isDying || decide (e.maxPages ≤ e.totPages) then (gntstGeneralError,freePage page (putGfn s))
  else
    let (okay,e) := prepareForTransfer env g.d g.ref (otherSteps env.others (addPage e))
    if !okay || e.isDying then (gntstGeneralError,freePage page (putGfn (setDom s g.domid (some (subPage e)))))
    else
      let e := {e with pageList := e.pageList ++ [page]}
      let s := setPage s page {s.page page with owner := some g.domid}
      (0,setDom (putGfn s) g.domid (some (tellGuest env g.ref mfn e)))

-- One element of `gnttab_transfer`, from where the gfn is locked.
def gnttabTransfer (env : Found) (g : Request) (s : State) : Int × State :=
  match env.mfn with
  | none => (gntstBadPage,putGfn s)
  | some mfn =>
    if (s.page mfn).xenHeap then (gntstBadPage,putGfn s)
    else
      match stealPage g.d mfn s with
      | none => (gntstBadPage,putGfn s)
      | some s =>
        let s := guestPhysmapRemovePage g.d g.gfn s
        match s.dom g.domid with
        | none => (gntstBadDomain,freePage mfn (putGfn s))
        | some e =>
          if env.denied then (gntstPermissionDenied,freePage mfn (putGfn s))
          else if 2^(maxBitsize e - 12) ≤ mfn then
            match env.newPage with
            | none => (gntstAddressTooBig,freePage mfn s)
            | some page => giveTo env g mfn page e (allocPage page (freePage mfn s))
          else giveTo env g mfn mfn e s

-- The page list, the pages and the references of a domain.
def account (e : Domain) : List Nat × Int × Int := (e.pageList,e.totPages,e.refs)

-- The stolen page is with the heap, and the domains are as the others left them.
structure Freed (g : Request) (mfn : Nat) (stolen last : State) (others : List Other) : Prop where
  heap : (last.page mfn).free = true ∧ (last.page mfn).owner = none
  accounts : ∀ x, (last.dom x).map account = (stolen.dom x).map fun e => account (if x = g.domid then otherSteps others e else e)

structure Moved (g : Request) (mfn : Nat) (stolen last : State) (others : List Other) (e next : Domain) : Prop where
  was : stolen.dom g.domid = some e
  now : last.dom g.domid = some next
  owner : (last.page mfn).owner = some g.domid
  reference : (last.page mfn).allocated = true ∧ (last.page mfn).count = 1
  account : account next = account {addPage (otherSteps others e) with pageList := (otherSteps others e).pageList ++ [mfn]}
  physmap : next.translated = true → next.physmap (e.entry g.ref).frame = some mfn
  frame : (next.entry g.ref).frame = mfn

-- The page that moves may be the one that replaces the stolen page.
inductive Outcome (env : Found) (g : Request) (s : State) : Int × State → Prop where
  | untouched (error : status ≠ 0) (page : last.page = s.page) (dom : last.dom = s.dom) : Outcome env g s (status,last)
  | freed (error : status ≠ 0) (found : env.mfn = some mfn) (taken : stealPage g.d mfn s = some stolen)
      (window : others = [] ∨ others = env.others) (freed : Freed g mfn stolen last others) : Outcome env g s (status,last)
  | moved (found : env.mfn = some mfn) (taken : stealPage g.d mfn s = some stolen)
      (which : page = mfn ∨ env.newPage = some page ∧ (last.page mfn).free = true)
      (moved : Moved g page stolen last env.others e next) : Outcome env g s (0,last)

def Sole (d : Nat) (pg : PageInfo) : Prop := pg.xenHeap = false ∧ pg.owner = some d ∧ pg.allocated = true ∧ pg.count = 1

-- The element gets as far as the test of the width.
structure Reaches (env : Found) (g : Request) (s : State) (mfn : Nat) (e : Domain) : Prop where
  found : env.mfn = some mfn
  sole : Sole g.d (s.page mfn)
  target : s.dom g.domid = some e
  permitted : env.denied = false

-- The target has room and is not killed, and its grant entry accepts a page of
-- the source, as it is and when the `cmpxchg` sees it. A domain that gives a
-- page to itself has one page less by then.
structure Takes (env : Found) (g : Request) (e : Domain) : Prop where
  alive : e.isDying = false ∧ Other.kill ∉ env.others
  room : (if g.domid = g.d then e.totPages - 1 else e.totPages) < e.maxPages
  entries : e.gtVersion ≠ 0 ∧ g.ref < e.nrGrantEntries
  accepts : ((e.entry g.ref).flags,(e.entry g.ref).domid) = (gtfAcceptTransfer,g.d) ∧ ∀ word ∈ env.words.head?, word = (gtfAcceptTransfer,g.d)

-- The frame fits the grant entry, and the physmap takes it or has it there
-- already.
structure Entered (env : Found) (g : Request) (mfn : Nat) (e : Domain) : Prop where
  narrow : e.gtVersion = 1 → mfn < 2^32
  mapped : e.translated = true → env.physmapOk = true ∨
    e.physmap (e.entry g.ref).frame = some mfn ∧ ¬(g.domid = g.d ∧ (e.entry g.ref).frame = g.gfn)

-- A frame beyond the target's addresses finds a page to replace it, and a page
-- that the target takes needed no replacement.
def Fits (env : Found) (g : Request) (s : State) : Prop :=
  ∀ mfn e, Reaches env g s mfn e → (2^(maxBitsize e - 12) ≤ mfn → env.newPage ≠ none) ∧
    (Takes env g e → mfn < 2^(maxBitsize e - 12) ∧ Entered env g mfn e)

variable {env : Found} {g : Request} {s stolen : State} {e : Domain} {mfn : Nat}

theorem setDom_self (s : State) (id : Nat) (e : Option Domain) : (setDom s id e).dom id = e := Function.update_self ..

theorem first_page (tot : Int) : (if tot + 1 = 1 then 1 else 0 : Int) = if tot = 0 then 1 else 0 := if_congr (by omega) rfl rfl

theorem last_page (tot : Int) : (if tot - 1 = 0 then 1 else 0 : Int) = if tot = 1 then 1 else 0 := if_congr (by omega) rfl rfl

theorem other_addPage (e : Domain) (o : Other) : otherStep (addPage e) o = addPage (otherStep e o) := by
  cases o with
  | assign mfn => rfl
  | release mfn =>
    simp only [otherStep,addPage,subPage,Int.add_sub_cancel,Int.sub_add_cancel,first_page,last_page]
  | kill => rfl

theorem others_addPage (others : List Other) (e : Domain) : otherSteps others (addPage e) = addPage (otherSteps others e) := by
  induction others generalizing e with
  | nil => rfl
  | cons o rest ih =>
    rw [otherSteps,List.foldl_cons,other_addPage]
    exact ih _

theorem sub_addPage (e : Domain) : subPage (addPage e) = e := by
  obtain ⟨dying,tot,most,refs,list,bits,translated,physmap,version,entries,entry⟩ := e
  simp only [subPage,addPage,Int.add_sub_cancel,first_page]

-- Others leave the grant entries and the physmap alone.
theorem others_physmap (others : List Other) (e : Domain) (pm : Nat → Option Nat) :
    otherSteps others {e with physmap := pm} = {otherSteps others e with physmap := pm} := by
  induction others generalizing e with
  | nil => rfl
  | cons o rest ih =>
    have first : otherStep {e with physmap := pm} o = {otherStep e o with physmap := pm} := by cases o <;> rfl
    rw [otherSteps,List.foldl_cons,first]
    exact ih _

theorem others_fixed (others : List Other) (e : Domain) : (otherSteps others e).entry = e.entry ∧
    (otherSteps others e).translated = e.translated ∧ (otherSteps others e).gtVersion = e.gtVersion ∧
    (otherSteps others e).nrGrantEntries = e.nrGrantEntries := by
  induction others generalizing e with
  | nil => exact ⟨rfl,rfl,rfl,rfl⟩
  | cons o rest ih =>
    have later := ih (otherStep e o)
    cases o with
    | assign mfn => exact later
    | release mfn => exact later
    | kill => exact later

theorem others_dying (others : List Other) (e : Domain) :
    (otherSteps others e).isDying = false ↔ e.isDying = false ∧ Other.kill ∉ others := by
  induction others generalizing e with
  | nil => simp [otherSteps]
  | cons o rest ih =>
    refine (ih (otherStep e o)).trans ?_
    cases o with
    | assign mfn => simp [otherStep,addPage]
    | release mfn => simp [otherStep,subPage]
    | kill => simp [otherStep]

-- A word that differs is the next to be compared, so that only the first counts.
theorem prepareLoop_iff (ld : Nat) (word : Nat × Nat) (words : List (Nat × Nat)) :
    prepareLoop ld 0 word words = true ↔ word = (gtfAcceptTransfer,ld) ∧ ∀ w ∈ words.head?, w = (gtfAcceptTransfer,ld) := by
  unfold prepareLoop
  split
  · next other =>
    have differs : word ≠ (gtfAcceptTransfer,ld) := by simpa using other
    simp [differs]
  · next same =>
    have is : word = (gtfAcceptTransfer,ld) := by simpa using same
    cases words with
    | nil => simp [is]
    | cons w rest =>
      dsimp only
      split
      · next equal => simp [equal,is]
      · next differs =>
        rw [is] at differs
        have fails : prepareLoop ld 1 w rest = false := by
          unfold prepareLoop
          rw [if_pos (by simpa using differs)]
        simp [fails,differs]

theorem prepare_same (env : Found) (ld ref : Nat) (e : Domain) : ∃ entry, (prepareForTransfer env ld ref e).2 = {e with entry} ∧
    (entry ref).frame = (e.entry ref).frame := by
  simp only [prepareForTransfer]
  split
  · exact ⟨e.entry,rfl,rfl⟩
  · split
    · refine ⟨Function.update e.entry ref _,rfl,?_⟩
      rw [Function.update_self]
    · exact ⟨e.entry,rfl,rfl⟩

-- What is left of a domain when the page has been stolen and its gfn removed.
def robbed (g : Request) (mfn id : Nat) (e : Domain) : Domain :=
  if id = g.d then
    {subPage e with pageList := e.pageList.erase mfn,physmap := if e.translated then Function.update e.physmap g.gfn none else e.physmap}
  else e

theorem steal_none (kept : ¬Sole d (s.page mfn)) : stealPage d mfn s = none := by
  rw [stealPage]
  refine if_pos ?_
  by_contra sole
  simp only [Bool.or_eq_true,not_or,bne_iff_ne,ne_eq,Bool.not_eq_true,Bool.not_eq_false',not_not] at sole
  exact kept ⟨sole.1.1.1,sole.1.1.2,sole.1.2,sole.2⟩

-- What the stealing and then the removal leave, `t` the state after both.
structure Left (g : Request) (s : State) (mfn : Nat) (stolen t : State) : Prop where
  taken : stealPage g.d mfn s = some stolen
  puts : t.puts = s.puts
  page : t.page mfn = {s.page mfn with owner := none}
  was : ∀ x, stolen.dom x = (s.dom x).map fun e => {robbed g mfn x e with physmap := e.physmap}
  dom : ∀ x, t.dom x = (s.dom x).map (robbed g mfn x)

theorem steal_some (sole : Sole g.d (s.page mfn)) : ∃ stolen, Left g s mfn stolen (guestPhysmapRemovePage g.d g.gfn stolen) := by
  obtain ⟨heap,owner,allocated,count⟩ := sole
  refine ⟨setDom (setPage s mfn {s.page mfn with owner := none}) g.d ((s.dom g.d).map fun e => {subPage e with pageList := e.pageList.erase mfn}),
    ?_,rfl,Function.update_self ..,fun x => ?_,fun x => ?_⟩
  · rw [stealPage]
    exact if_neg (by simp [heap,owner,allocated,count])
  all_goals by_cases same : x = g.d
  · subst same
    simp only [setDom,Function.update_self,robbed,if_true]
    rfl
  · have own : robbed g mfn x = id := funext fun e => if_neg same
    simp [setDom,setPage,Function.update_of_ne same,own]
  · subst same
    simp only [guestPhysmapRemovePage,setDom,setPage,Function.update_self,Option.map_map]
    refine congrArg (fun f => (s.dom g.d).map f) (funext fun e => ?_)
    cases on : e.translated with
    | true => simp [robbed,subPage,on]
    | false => simp [robbed,subPage,on]
  · have own : robbed g mfn x = id := funext fun e => if_neg same
    simp [guestPhysmapRemovePage,setDom,setPage,Function.update_of_ne same,own]

theorem Left.accounts {t : State} (left : Left g s mfn stolen t) (x : Nat) : (t.dom x).map account = (stolen.dom x).map account := by
  rw [left.dom,left.was,Option.map_map,Option.map_map]
  rfl

theorem Left.target {t : State} (left : Left g s mfn stolen t) (target : s.dom g.domid = some first) :
    stolen.dom g.domid = some {robbed g mfn g.domid first with physmap := first.physmap} := by
  rw [left.was,target]
  rfl

theorem sub_account {a b : Domain} (same : account a = account b) : account (subPage a) = account (subPage b) := by
  simp only [account,Prod.mk.injEq] at same
  simp only [account,subPage,same]

theorem tell_account (env : Found) (ref mfn : Nat) (e : Domain) : account (tellGuest env ref mfn e) = account e := by
  simp only [tellGuest]
  split <;> rfl

theorem tell_entry (env : Found) (ref mfn : Nat) (e : Domain) :
    ((tellGuest env ref mfn e).entry ref).frame = mfn % 2^(if e.gtVersion = 1 then 32 else 64) := by
  simp only [tellGuest,setEntry]
  split <;> simp

theorem tell_physmap (env : Found) (ref mfn : Nat) (e : Domain) : (tellGuest env ref mfn e).translated = e.translated ∧
    (tellGuest env ref mfn e).physmap = if e.translated && env.physmapOk then Function.update e.physmap (e.entry ref).frame (some mfn) else e.physmap := by
  simp only [tellGuest,setEntry]
  split <;> exact ⟨rfl,rfl⟩

-- Where the transfer to `page` begins: the page has no owner, and a stolen page
-- that it replaces is with the heap.
structure Ready (mfn page : Nat) (s : State) : Prop where
  unowned : (s.page page).owner = none
  stolen : page = mfn ∨ (s.page mfn).free = true ∧ (s.page mfn).owner = none

theorem freed_page (ready : Ready mfn page s)
    (accounts : ∀ x, (s.dom x).map account = (stolen.dom x).map fun e => account (if x = g.domid then otherSteps others e else e)) :
    Freed g mfn stolen (freePage page (putGfn s)) others := by
  refine ⟨?_,accounts⟩
  by_cases same : mfn = page
  · subst same
    simp [freePage,putGfn,setPage,ready.unowned]
  · have other := ready.stolen.resolve_left (Ne.symm same)
    simpa [freePage,putGfn,setPage,Function.update_of_ne same] using other

theorem freed_early (ready : Ready mfn page s) (accounts : ∀ x, (s.dom x).map account = (stolen.dom x).map account) :
    Freed g mfn stolen (freePage page (putGfn s)) [] := by
  refine freed_page ready fun x => (accounts x).trans ?_
  simp [otherSteps]

-- The target has been through its window and gives the page up again.
theorem freed_late (ready : Ready mfn page s) (accounts : ∀ x, (s.dom x).map account = (stolen.dom x).map account)
    (was : stolen.dom g.domid = some old) (shape : account e = account (addPage (otherSteps others old))) :
    Freed g mfn stolen (freePage page (putGfn (setDom s g.domid (some (subPage e))))) others := by
  refine freed_page ⟨ready.unowned,ready.stolen⟩ fun x => ?_
  by_cases same : x = g.domid
  · subst same
    have back : account (subPage e) = account (otherSteps others old) := by rw [sub_account shape,sub_addPage]
    simp [setDom,was,back]
  · simp only [setDom,Function.update_of_ne same,same,if_false]
    exact accounts x

-- How the page is given, or given up.
inductive Gives (env : Found) (g : Request) (mfn page : Nat) (e : Domain) (s : State) : Int × State → Prop where
  | early (fails : ¬(e.isDying = false ∧ e.totPages < e.maxPages)) : Gives env g mfn page e s (gntstGeneralError,freePage page (putGfn s))
  | late (fails : ¬((prepareForTransfer env g.d g.ref (otherSteps env.others (addPage e))).1 = true ∧ (otherSteps env.others e).isDying = false))
      (shape : account next = account (otherSteps env.others (addPage e))) :
      Gives env g mfn page e s (gntstGeneralError,freePage page (putGfn (setDom s g.domid (some (subPage next)))))
  | moved (alive : (otherSteps env.others e).isDying = false) (room : e.totPages < e.maxPages)
      (okay : (prepareForTransfer env g.d g.ref (otherSteps env.others (addPage e))).1 = true)
      (is : next = {otherSteps env.others (addPage e) with entry}) (frame : (entry g.ref).frame = (e.entry g.ref).frame) :
      Gives env g mfn page e s (0,setDom (putGfn (setPage s page {s.page page with owner := some g.domid})) g.domid
        (some (tellGuest env g.ref mfn {next with pageList := next.pageList ++ [page]})))

theorem give_cases (env : Found) (g : Request) (mfn page : Nat) (e : Domain) (s : State) :
    Gives env g mfn page e s (giveTo env g mfn page e s) := by
  obtain ⟨entry,prepared,frame⟩ := prepare_same env g.d g.ref (otherSteps env.others (addPage e))
  have entries := (others_fixed env.others (addPage e)).1
  have dying : (otherSteps env.others (addPage e)).isDying = (otherSteps env.others e).isDying := by
    rw [others_addPage]
    rfl
  unfold giveTo
  split
  · next fails =>
    refine .early fun open_ => ?_
    rw [open_.1,Bool.false_or,decide_eq_true_eq] at fails
    exact absurd fails (Int.not_le.mpr open_.2)
  · next open_ =>
    simp only [Bool.or_eq_true,decide_eq_true_eq,not_or,Bool.not_eq_true,Int.not_le] at open_
    rcases ran : prepareForTransfer env g.d g.ref (otherSteps env.others (addPage e)) with ⟨okay,e2⟩
    rw [ran] at prepared
    dsimp only at prepared ⊢
    have living : e2.isDying = (otherSteps env.others e).isDying := by rw [prepared]; exact dying
    split
    · next fails =>
      refine .late ?_ (by rw [prepared]; rfl)
      rintro ⟨fine,alive⟩
      rw [ran] at fine
      rw [living,alive,show okay = true from fine] at fails
      exact absurd fails (by decide)
    · next fine =>
      simp only [Bool.or_eq_true,not_or,Bool.not_eq_true,Bool.not_eq_false'] at fine
      refine .moved (living.symm.trans fine.2) open_.2 (by rw [ran]; exact fine.1) prepared ?_
      rw [frame,entries]
      rfl

theorem prepare_iff (env : Found) (g : Request) (e : Domain) :
    (prepareForTransfer env g.d g.ref e).1 = true ↔ (e.gtVersion ≠ 0 ∧ g.ref < e.nrGrantEntries) ∧
      ((e.entry g.ref).flags,(e.entry g.ref).domid) = (gtfAcceptTransfer,g.d) ∧ ∀ word ∈ env.words.head?, word = (gtfAcceptTransfer,g.d) := by
  rw [← prepareLoop_iff,prepareForTransfer]
  split
  · next closed =>
    simp only [Bool.or_eq_true,decide_eq_true_eq] at closed
    refine iff_of_false Bool.false_ne_true fun both => ?_
    rcases closed with none_ | beyond
    · exact both.1.1 none_
    · exact absurd both.1.2 (Nat.not_lt.mpr beyond)
  · next open_ =>
    simp only [Bool.or_eq_true,decide_eq_true_eq,not_or,Nat.not_le] at open_
    split
    · next accepts => exact iff_of_true rfl ⟨open_,accepts⟩
    · next refuses => exact iff_of_false Bool.false_ne_true fun both => refuses both.2

-- The stealing leaves what the target is asked for as it was, but for a page
-- of its own.
theorem takes_iff (first : Domain) (is : e = robbed g mfn g.domid first) :
    ((otherSteps env.others e).isDying = false ∧ e.totPages < e.maxPages ∧
      (prepareForTransfer env g.d g.ref (otherSteps env.others (addPage e))).1 = true) ↔ Takes env g first := by
  obtain ⟨entry,_,version,count⟩ := others_fixed env.others (addPage e)
  have kept : e.isDying = first.isDying ∧ e.totPages = (if g.domid = g.d then first.totPages - 1 else first.totPages) ∧ e.maxPages = first.maxPages ∧
      e.gtVersion = first.gtVersion ∧ e.nrGrantEntries = first.nrGrantEntries ∧ e.entry = first.entry := by
    rw [is,robbed]
    split <;> exact ⟨rfl,rfl,rfl,rfl,rfl,rfl⟩
  obtain ⟨dying,pages,most,version',count',entry'⟩ := kept
  have asked := prepare_iff env g (otherSteps env.others (addPage e))
  rw [entry,version,count,show (addPage e).entry = e.entry from rfl,show (addPage e).gtVersion = e.gtVersion from rfl,
    show (addPage e).nrGrantEntries = e.nrGrantEntries from rfl,entry',version',count'] at asked
  rw [asked,others_dying,dying,pages,most]
  constructor
  · rintro ⟨alive,room,entries,accepts⟩
    exact ⟨alive,room,entries,accepts⟩
  · rintro ⟨alive,room,entries,accepts⟩
    exact ⟨alive,room,entries,accepts⟩

theorem bits_small (e : Domain) : 2^(maxBitsize e - 12) ≤ 2^63 := by
  refine Nat.pow_le_pow_right (by decide) ?_
  unfold maxBitsize
  split <;> omega

theorem give_puts (env : Found) (g : Request) (mfn page : Nat) (e : Domain) (s : State) : (giveTo env g mfn page e s).2.puts = s.puts + 1 := by
  have gives := give_cases env g mfn page e s
  generalize giveTo env g mfn page e s = result at gives ⊢
  cases gives with
  | early => rfl
  | late => rfl
  | moved => rfl

section
variable (ready : Ready mfn page s) (accounts : ∀ x, (s.dom x).map account = (stolen.dom x).map account)
  (was : stolen.dom g.domid = some old) (is : e = {old with physmap := pm})

include is in
theorem shape_of (env : Found) : account (otherSteps env.others (addPage e)) = account (addPage (otherSteps env.others old)) := by
  rw [others_addPage,is,others_physmap]
  rfl

include ready accounts was is in
theorem give_frees (env : Found) (fails : (giveTo env g mfn page e s).1 ≠ 0) :
    ∃ others, (others = [] ∨ others = env.others) ∧ Freed g mfn stolen (giveTo env g mfn page e s).2 others := by
  have gives := give_cases env g mfn page e s
  generalize giveTo env g mfn page e s = result at gives fails ⊢
  cases gives with
  | early _ => exact ⟨[],.inl rfl,freed_early ready accounts⟩
  | late _ shape => exact ⟨env.others,.inr rfl,freed_late ready accounts was (shape.trans (shape_of is env))⟩
  | moved => exact absurd rfl fails

include was is in
-- The page list says which page has moved.
theorem moved_page (env : Found) (given_ : (giveTo env g mfn mfn e s).1 = 0)
    (moved : Moved g page stolen (giveTo env g mfn mfn e s).2 env.others last next) : page = mfn ∧ last = old := by
  have same : last = old := Option.some.inj (moved.was.symm.trans was)
  refine ⟨?_,same⟩
  have shape := shape_of is env
  have gives := give_cases env g mfn mfn e s
  generalize giveTo env g mfn mfn e s = result at gives given_ moved
  cases gives with
  | early | late => exact absurd given_ (show gntstGeneralError ≠ 0 by decide)
  | @moved target entry _ _ _ target_ _ =>
    have listed := moved.account
    rw [← Option.some.inj ((setDom_self ..).symm.trans moved.now),tell_account,target_,same] at listed
    simp only [account,Prod.mk.injEq] at shape listed
    rw [shape.1] at listed
    simpa using (List.append_cancel_left listed.1).symm

include was is in
-- The frame given is the one stolen, and what it takes for its number to be
-- entered everywhere.
theorem moved_iff (env : Found) (whole : (s.page mfn).allocated = true ∧ (s.page mfn).count = 1) (small : mfn < 2^63)
    (given_ : (giveTo env g mfn mfn e s).1 = 0) :
    (∃ next, Moved g mfn stolen (giveTo env g mfn mfn e s).2 env.others old next) ↔
      (e.gtVersion = 1 → mfn < 2^32) ∧ (e.translated = true → env.physmapOk = true ∨ pm (old.entry g.ref).frame = some mfn) := by
  have shape := shape_of is env
  obtain ⟨_,translated,version,_⟩ := others_fixed env.others (addPage e)
  have map : (otherSteps env.others (addPage e)).physmap = pm := by
    rw [is,show addPage {old with physmap := pm} = {addPage old with physmap := pm} from rfl,others_physmap]
  have gives := give_cases env g mfn mfn e s
  generalize giveTo env g mfn mfn e s = result at gives given_ ⊢
  cases gives with
  | early | late => exact absurd given_ (show gntstGeneralError ≠ 0 by decide)
  | @moved target entry alive room okay target_ frame =>
    have slot : (entry g.ref).frame = (old.entry g.ref).frame := by rw [frame,is]
    have width : ((tellGuest env g.ref mfn {target with pageList := target.pageList ++ [mfn]}).entry g.ref).frame = mfn ↔
        (e.gtVersion = 1 → mfn < 2^32) := by
      rw [tell_entry,target_]
      dsimp only
      rw [version,show (addPage e).gtVersion = e.gtVersion from rfl]
      by_cases one : e.gtVersion = 1
      · rw [if_pos one]
        refine ⟨fun same _ => ?_,fun narrow => Nat.mod_eq_of_lt (narrow one)⟩
        rw [← same]
        exact Nat.mod_lt _ (by decide)
      · rw [if_neg one]
        exact iff_of_true (Nat.mod_eq_of_lt (Nat.lt_trans small (by decide))) fun is => absurd is one
    obtain ⟨still,maps⟩ := tell_physmap env g.ref mfn {target with pageList := target.pageList ++ [mfn]}
    have entered : ((tellGuest env g.ref mfn {target with pageList := target.pageList ++ [mfn]}).translated = true →
        (tellGuest env g.ref mfn {target with pageList := target.pageList ++ [mfn]}).physmap (old.entry g.ref).frame = some mfn) ↔
          (e.translated = true → env.physmapOk = true ∨ pm (old.entry g.ref).frame = some mfn) := by
      rw [still,maps,target_]
      dsimp only
      rw [translated,show (addPage e).translated = e.translated from rfl,slot,map]
      cases e.translated with
      | false => simp
      | true => cases env.physmapOk <;> simp
    rw [← width,← entered]
    constructor
    · rintro ⟨next,moved⟩
      obtain rfl := Option.some.inj ((setDom_self ..).symm.trans moved.now)
      exact ⟨moved.frame,moved.physmap⟩
    · rintro ⟨frame',physmap⟩
      refine ⟨_,was,Function.update_self ..,?_,?_,?_,physmap,frame'⟩
      · simp [setDom,putGfn,setPage]
      · simpa [setDom,putGfn,setPage] using whole
      · rw [tell_account,target_]
        simp only [account,Prod.mk.injEq] at shape ⊢
        exact ⟨by rw [shape.1]; rfl,shape.2⟩

end

theorem give_zero_iff (env : Found) (g : Request) (mfn page : Nat) (s : State) (first : Domain) :
    (giveTo env g mfn page (robbed g mfn g.domid first) s).1 = 0 ↔ Takes env g first := by
  have gives := give_cases env g mfn page (robbed g mfn g.domid first) s
  rw [← takes_iff first (Eq.refl (robbed g mfn g.domid first))]
  generalize giveTo env g mfn page (robbed g mfn g.domid first) s = result at gives ⊢
  cases gives with
  | early fails => exact iff_of_false (show gntstGeneralError ≠ 0 by decide) fun all => fails ⟨((others_dying ..).mp all.1).1,all.2.1⟩
  | late fails => exact iff_of_false (show gntstGeneralError ≠ 0 by decide) fun all => fails ⟨all.2.2,all.1⟩
  | moved alive room okay => exact iff_of_true rfl ⟨alive,room,okay⟩

theorem outcome_moved (out : Outcome env g s (0,last)) : ∃ mfn stolen page e next, env.mfn = some mfn ∧ stealPage g.d mfn s = some stolen ∧
    (page = mfn ∨ env.newPage = some page) ∧ Moved g page stolen last env.others e next := by
  cases out with
  | untouched error => exact absurd rfl error
  | freed error => exact absurd rfl error
  | moved found taken which moved => exact ⟨_,_,_,_,_,found,taken,which.imp_right And.left,moved⟩

theorem robbed_bits (e : Domain) : maxBitsize (robbed g mfn g.domid e) = maxBitsize e := by
  rw [robbed]
  split <;> rfl

theorem entered_iff (e : Domain) : Entered env g mfn e ↔ ((robbed g mfn g.domid e).gtVersion = 1 → mfn < 2^32) ∧
    ((robbed g mfn g.domid e).translated = true → env.physmapOk = true ∨
      (robbed g mfn g.domid e).physmap ((robbed g mfn g.domid e).entry g.ref).frame = some mfn) := by
  have parts : Entered env g mfn e ↔ (e.gtVersion = 1 → mfn < 2^32) ∧ (e.translated = true → env.physmapOk = true ∨
      e.physmap (e.entry g.ref).frame = some mfn ∧ ¬(g.domid = g.d ∧ (e.entry g.ref).frame = g.gfn)) :=
    ⟨fun entered => ⟨entered.narrow,entered.mapped⟩,fun both => ⟨both.1,both.2⟩⟩
  rw [parts,robbed]
  split
  · next own =>
    refine and_congr Iff.rfl (forall_congr' fun on => or_congr Iff.rfl ?_)
    have on : e.translated = true := on
    by_cases slot : (e.entry g.ref).frame = g.gfn
    · simp [on,own,slot,subPage]
    · simp [on,slot,subPage]
  · next other => simp [other]

-- A page that `alloc_domheap_page` gave has no reference, and the page it
-- replaces has none left.
theorem replaced_unmoved (given_ : (giveTo env g mfn page e (allocPage page (freePage mfn t))).1 = 0)
    (found : env.mfn = some mfn) (new : env.newPage = some page) :
    ¬Outcome env g s (giveTo env g mfn page e (allocPage page (freePage mfn t))) := by
  intro out
  have gives := give_cases env g mfn page e (allocPage page (freePage mfn t))
  generalize giveTo env g mfn page e (allocPage page (freePage mfn t)) = result at gives given_ out
  cases gives with
  | early | late => exact absurd given_ (show gntstGeneralError ≠ 0 by decide)
  | moved alive room okay is frame =>
    obtain ⟨mfn',_,page',_,_,found',_,which,moved⟩ := outcome_moved out
    rw [found] at found'
    cases found'
    rw [new] at which
    have referenced := moved.reference.1
    by_cases same : page' = page
    · subst same
      simp [setDom,putGfn,setPage,allocPage] at referenced
    · obtain rfl : page' = mfn := which.resolve_right fun other => same (Option.some.inj other).symm
      simp [setDom,putGfn,setPage,allocPage,freePage,Function.update_of_ne same] at referenced

section
variable {t : State} {first : Domain} (left : Left g s mfn stolen t) (found : env.mfn = some mfn) (target : s.dom g.domid = some first)
include left found target

theorem refused_outcome (page : Nat) (s' : State) (ready : Ready mfn page s') (doms : s'.dom = t.dom) (puts : s'.puts = t.puts)
    (refuses : ¬Takes env g first) : (giveTo env g mfn page (robbed g mfn g.domid first) s').2.puts = s.puts + 1 ∧
      Outcome env g s (giveTo env g mfn page (robbed g mfn g.domid first) s') := by
  have fails := mt (give_zero_iff env g mfn page s' first).mp refuses
  obtain ⟨others,window,freed⟩ := give_frees ready (fun x => by rw [doms]; exact left.accounts x) (left.target target) rfl env fails
  refine ⟨?_,.freed fails found left.taken window freed⟩
  rw [give_puts,puts,left.puts]

-- The page does for the target's addresses.
theorem narrow_exact (sole : Sole g.d (s.page mfn)) (fit : mfn < 2^(maxBitsize first - 12)) :
    ((giveTo env g mfn mfn (robbed g mfn g.domid first) t).2.puts = s.puts + 1 ∧
      Outcome env g s (giveTo env g mfn mfn (robbed g mfn g.domid first) t)) ↔ (Takes env g first → Entered env g mfn first) := by
  have ready : Ready mfn mfn t := ⟨by rw [left.page],.inl rfl⟩
  by_cases takes : Takes env g first
  · have zero := (give_zero_iff env g mfn mfn t first).mpr takes
    have exact_ := (moved_iff (e:=robbed g mfn g.domid first) (left.target target) rfl env (by rw [left.page]; exact sole.2.2)
      (Nat.lt_of_lt_of_le fit (bits_small first)) zero).trans (entered_iff first).symm
    have eta := Prod.eta (giveTo env g mfn mfn (robbed g mfn g.domid first) t)
    refine ⟨fun both _ => exact_.mp ?_,fun entered => ⟨?_,?_⟩⟩
    · have out := both.2
      rw [← eta,zero] at out
      obtain ⟨mfn',stolen',page,e,next,found',taken',_,moved⟩ := outcome_moved out
      cases found.symm.trans found'
      cases left.taken.symm.trans taken'
      obtain ⟨rfl,rfl⟩ := moved_page (e:=robbed g mfn g.domid first) (left.target target) rfl env zero moved
      exact ⟨next,moved⟩
    · rw [give_puts,left.puts]
    · obtain ⟨next,moved⟩ := exact_.mpr (entered takes)
      rw [← eta,zero]
      exact .moved found left.taken (.inl rfl) moved
  · exact iff_of_true (refused_outcome left found target mfn t ready rfl rfl takes) fun takes' => absurd takes' takes

-- It is beyond them, and `page` replaces it.
theorem replaced_exact (new : env.newPage = some page) :
    ((giveTo env g mfn page (robbed g mfn g.domid first) (allocPage page (freePage mfn t))).2.puts = s.puts + 1 ∧
      Outcome env g s (giveTo env g mfn page (robbed g mfn g.domid first) (allocPage page (freePage mfn t)))) ↔ ¬Takes env g first := by
  have ready : Ready mfn page (allocPage page (freePage mfn t)) := by
    refine ⟨by simp [allocPage,setPage],?_⟩
    by_cases again : page = mfn
    · exact .inl again
    · exact .inr (by simp [allocPage,freePage,setPage,Function.update_of_ne (Ne.symm again),left.page])
  refine ⟨fun both takes => ?_,fun refuses => refused_outcome left found target page _ ready rfl rfl refuses⟩
  exact replaced_unmoved ((give_zero_iff ..).mpr takes) found new both.2

end

-- The element ends with the lock released once, and the page with its owner,
-- with the heap, or with the target, exactly when it fits.
theorem transfer_moves_one_page (env : Found) (g : Request) (s : State) :
    ((gnttabTransfer env g s).2.puts = s.puts + 1 ∧ Outcome env g s (gnttabTransfer env g s)) ↔ Fits env g s := by
  unfold gnttabTransfer
  cases found : env.mfn with
  | none =>
    refine iff_of_true ⟨rfl,.untouched (by decide) rfl rfl⟩ fun mfn e reaches => ?_
    exact absurd (found.symm.trans reaches.found) (by simp)
  | some mfn =>
    have only {mfn' : Nat} {e : Domain} (reaches : Reaches env g s mfn' e) : mfn' = mfn :=
      (Option.some.inj (found.symm.trans reaches.found)).symm
    dsimp only
    by_cases sole : Sole g.d (s.page mfn)
    · obtain ⟨stolen,left⟩ := steal_some sole
      rw [if_neg (by simp [sole.1]),left.taken]
      dsimp only
      generalize guestPhysmapRemovePage g.d g.gfn stolen = t at left ⊢
      have early (status : Int) (error : status ≠ 0) : (freePage mfn (putGfn t)).puts = s.puts + 1 ∧
          Outcome env g s (status,freePage mfn (putGfn t)) :=
        ⟨congrArg (· + 1) left.puts,.freed error found left.taken (.inl rfl) (freed_early ⟨by rw [left.page],.inl rfl⟩ left.accounts)⟩
      rw [left.dom]
      cases target : s.dom g.domid with
      | none =>
        refine iff_of_true (early _ (by decide)) fun mfn' e reaches => ?_
        exact absurd (target.symm.trans reaches.target) (by simp)
      | some first =>
        dsimp only [Option.map_some]
        cases denied : env.denied with
        | true =>
          refine iff_of_true (early _ (by decide)) fun mfn' e reaches => ?_
          exact absurd (denied.symm.trans reaches.permitted) (by decide)
        | false =>
          have fits : Fits env g s ↔ (2^(maxBitsize first - 12) ≤ mfn → env.newPage ≠ none) ∧
              (Takes env g first → mfn < 2^(maxBitsize first - 12) ∧ Entered env g mfn first) := by
            refine ⟨fun all => all mfn first ⟨found,sole,target,denied⟩,fun one mfn' e other => ?_⟩
            obtain rfl := only other
            obtain rfl : e = first := Option.some.inj (other.target.symm.trans target)
            exact one
          rw [if_neg (by decide),robbed_bits,fits]
          by_cases wide : 2^(maxBitsize first - 12) ≤ mfn
          · have beyond : ¬mfn < 2^(maxBitsize first - 12) := Nat.not_lt.mpr wide
            rw [if_pos wide]
            cases new : env.newPage with
            | none =>
              -- the way out without `put_gfn`
              refine iff_of_false (fun both => ?_) fun all => all.1 wide rfl
              exact absurd (left.puts.symm.trans both.1) (Nat.ne_of_lt (Nat.lt_succ_self _))
            | some page =>
              dsimp only
              rw [replaced_exact left found target new]
              exact ⟨fun refuses => ⟨fun _ => by simp,fun takes => absurd takes refuses⟩,fun all takes => beyond (all.2 takes).1⟩
          · have fit := Nat.not_le.mp wide
            rw [if_neg wide,narrow_exact left found target sole fit]
            exact ⟨fun entered => ⟨fun over_ => absurd over_ wide,fun takes => ⟨fit,entered takes⟩⟩,fun all takes => (all.2 takes).2⟩
    · rw [steal_none sole]
      refine iff_of_true ?_ fun mfn' e reaches => ?_
      · split <;> exact ⟨rfl,.untouched (by decide) rfl rfl⟩
      · obtain rfl := only reaches
        exact absurd reaches.sole sole

-- Domain 1 has frame 20, and domain 2 takes a page from it with reference 3
-- into its gfn 7.
def source : Domain := ⟨false,1,4,1,[20],0,true,fun gfn => if gfn = 6 then some 20 else none,1,8,fun _ => ⟨0,0,0⟩⟩

def target (bits : Nat) : Domain := ⟨false,0,4,0,[],bits,true,fun _ => none,1,8,fun ref => if ref = 3 then ⟨2,1,7⟩ else ⟨0,0,0⟩⟩

def twoDomains (bits : Nat) : State where
  page mfn := if mfn = 20 then ⟨some 1,true,1,false,false⟩ else ⟨none,false,0,false,true⟩
  dom x := if x = 1 then some source else if x = 2 then some (target bits) else none
  puts := 0

def frameSix : Request := ⟨1,6,2,3⟩

-- Someone else gives the target a page while the lock is dropped.
def quiet (newPage : Option Nat) : Found := ⟨some 20,false,newPage,[.assign 30],[],true⟩

theorem transfer_moves_one_page_open : (gnttabTransfer (quiet none) frameSix (twoDomains 0)).1 = 0 ∧
    (gnttabTransfer (quiet none) frameSix (twoDomains 0)).2.puts = 1 ∧
    Outcome (quiet none) frameSix (twoDomains 0) (gnttabTransfer (quiet none) frameSix (twoDomains 0)) := by
  have fits : Fits (quiet none) frameSix (twoDomains 0) := by
    intro mfn e reaches
    cases reaches.found
    cases reaches.target
    exact ⟨fun wide => absurd wide (by decide),fun _ => ⟨by decide,fun _ => by decide,fun _ => .inl rfl⟩⟩
  exact ⟨by decide +kernel,(transfer_moves_one_page _ _ _).mpr fits⟩

-- A target with 16 address bits: frame 5 replaces frame 20 but 20 is what the
-- target is told, and without a page to replace it the lock is never released.
theorem replaced_page_lost :
    (∃ s, gnttabTransfer (quiet (some 5)) frameSix (twoDomains 16) = (0,s) ∧ (s.dom 2).map (·.pageList) = some [30,5] ∧
      s.page 5 = ⟨some 2,false,0,false,false⟩ ∧ (s.dom 2).map (fun e => (e.entry 3).frame) = some 20 ∧
      (s.dom 2).map (fun e => e.physmap 7) = some (some 20) ∧ (s.page 20).free = true) ∧
    (gnttabTransfer (quiet none) frameSix (twoDomains 16)).1 = gntstAddressTooBig ∧
      (gnttabTransfer (quiet none) frameSix (twoDomains 16)).2.puts = 0 := by
  refine ⟨⟨_,Prod.ext (by decide +kernel) rfl,?_⟩,by decide +kernel,by decide +kernel⟩
  decide +kernel

end XenAet.GrantTransfer
