import Mathlib.Algebra.Ring.Nat
import Mathlib.Data.List.Nodup
import Mathlib.Data.List.Perm.Subperm
import XenAet.Library.RingBuffer
import XenAet.Library.Run

namespace XenAet.TraceBuffer

def pageSize : Nat := 4096

end XenAet.TraceBuffer

namespace XenAet.TraceInfo
open XenAet.TraceBuffer

def fitToType (size x : Nat) : Nat := (x + size - 1) / size

def pfnUp (x : Nat) : Nat := (x + pageSize - 1) / pageSize

-- In words, behind `tbuf_size` and `mfn_offset[NR_CPUS]`.
def calcTinfoFirstOffset (nrCpus : Nat) : Nat := fitToType 4 (2 + 2 * nrCpus)

def maxTbufPages (first cpus : Nat) : Nat :=
  let maxSize := (2^32 - 1) / pageSize
  let maxPages := if maxSize < 65535 then maxSize else 65535
  let maxMfnOffset := if cpus - 1 ≠ 0 then (65535 - first) / (cpus - 1) else 65535 - first
  if maxMfnOffset < maxPages then maxMfnOffset else maxPages

-- The pages of each buffer and `t_info_pages`. The offset is added in words
-- to a number of bytes.
def calculateTbufSize (pages first cpus : Nat) : Nat × Nat :=
  let pages := if maxTbufPages first cpus < pages then maxTbufPages first cpus else pages
  let tInfoWords := cpus * pages * 4 % 2^32
  (pages,pfnUp (first + tInfoWords))

-- `info` is the memory at `t_info` in units of 16 bits. `answers` are the
-- outcomes of the page allocations to come, `taken` and `freed` the pages
-- that were allocated and freed.
structure State where
  tInfo : Bool
  info : Nat → BitVec 16
  answers : List (Option Nat)
  taken : List Nat
  freed : List Nat

-- A write outside the pages of `t_info` is none.
def putHalf (bound i : Nat) (v : BitVec 16) (s : State) : Option State :=
  if i < bound then some {s with info := Function.update s.info i v} else none

def putWord (bound i v : Nat) (s : State) : Option State :=
  if 2 * i + 1 < bound then
    some {s with info := Function.update (Function.update s.info (2 * i) (BitVec.ofNat 16 v)) (2 * i + 1) (BitVec.ofNat 16 (v / 2^16))}
  else none

def word (s : State) (i : Nat) : Nat := (s.info (2 * i)).toNat + (s.info (2 * i + 1)).toNat * 2^16

def mfnOffset (s : State) (cpu : Nat) : BitVec 16 := s.info (1 + cpu)

-- The loop over the pages of one cpu; false when an allocation fails.
def fillList (bound offset : Nat) : Nat → Nat → State → Option (State × Bool)
  | 0,_,s => some (s,true)
  | left + 1,i,s =>
    match s.answers.headD none with
    | some mfn =>
      (putWord bound (offset + i) mfn {s with answers := s.answers.tail,taken := s.taken ++ [mfn]}).bind
        (fillList bound offset left (i + 1))
    | none => (putWord bound (offset + i) 0 {s with answers := s.answers.tail}).map fun s => (s,false)

def fillCpus (bound first pages : Nat) : List Nat → State → Option (State × Bool)
  | [],s => some (s,true)
  | cpu :: rest,s =>
    let offset := BitVec.ofNat 16 (first + cpu * pages)
    (putHalf bound (1 + cpu) offset s).bind fun s =>
      (fillList bound offset.toNat pages 0 s).bind fun filled =>
        if filled.2 then fillCpus bound first pages rest filled.1 else some filled

-- The loop at `out_dealloc` over the pages of one cpu.
def freeList (bound offset : Nat) : Nat → Nat → State → Option State
  | 0,_,s => some s
  | left + 1,i,s =>
    if 2 * (offset + i) + 1 < bound then
      let mfn := word s (offset + i)
      if mfn = 0 then some s else freeList bound offset left (i + 1) {s with freed := s.freed ++ [mfn]}
    else none

def freeCpus (bound pages : Nat) : List Nat → State → Option State
  | [],s => some s
  | cpu :: rest,s =>
    let offset := (mfnOffset s cpu).toNat
    if offset = 0 then freeCpus bound pages rest s
    else (freeList bound offset pages 0 s).bind (freeCpus bound pages rest)

inductive Outcome where
  | ebusy
  | einval
  | enomem
  | initialised
deriving DecidableEq

-- `online` are the online cpus in order; `infoOk` says whether `t_info` itself
-- can be allocated.
def allocTraceBufs (nrCpus : Nat) (online : List Nat) (pages : Nat) (infoOk : Bool) (s : State) : Option (Outcome × State) :=
  if s.tInfo then some (.ebusy,s)
  else if pages = 0 then some (.einval,s)
  else
    let first := calcTinfoFirstOffset nrCpus
    let sized := calculateTbufSize pages first online.length
    let bound := sized.2 * (pageSize / 2)
    if !infoOk then some (.enomem,s)
    else
      (putHalf bound 0 (BitVec.ofNat 16 sized.1) {s with tInfo := true,info := fun _ => 0#16}).bind fun s =>
        (fillCpus bound first sized.1 online s).bind fun filled =>
          if filled.2 then some (.initialised,filled.1)
          else (freeCpus bound sized.1 online filled.1).map fun s => (.enomem,{s with tInfo := false})

section Lists
variable {bound offset first pages left i : Nat} {s s' : State} {ok : Bool}

def listOf (s : State) (offset : Nat) : Nat → List Nat
  | 0 => []
  | n + 1 => word s offset :: listOf s (offset + 1) n

theorem listOf_congr {n : Nat} (same : ∀ h, 2 * offset ≤ h → h < 2 * (offset + n) → s'.info h = s.info h) :
    listOf s' offset n = listOf s offset n := by
  induction n generalizing offset with
  | zero => rfl
  | succ n ih =>
    have head : word s' offset = word s offset := by
      rw [word,word,same (2 * offset) (by omega) (by omega),same (2 * offset + 1) (by omega) (by omega)]
    rw [listOf,listOf,head,ih fun h low high => same h (by omega) (by omega)]

theorem listOf_freed (s : State) (freed : List Nat) (offset n : Nat) : listOf {s with freed := freed} offset n = listOf s offset n :=
  listOf_congr fun _ _ _ => rfl

theorem listOf_add (s : State) (offset m n : Nat) : listOf s offset (m + n) = listOf s offset m ++ listOf s (offset + m) n := by
  induction m generalizing offset with
  | zero => simp [listOf]
  | succ m ih => rw [Nat.succ_add,listOf,ih,listOf,List.cons_append,Nat.add_assoc,Nat.add_comm 1 m]

theorem putWord_inside (v : Nat) (s : State) (inside : 2 * i + 1 < bound) : ∃ s', putWord bound i v s = some s' ∧
    (v < 2^32 → word s' i = v) ∧ (∀ h, h < 2 * i ∨ 2 * (i + 1) ≤ h → s'.info h = s.info h) ∧
    s'.answers = s.answers ∧ s'.taken = s.taken ∧ s'.freed = s.freed ∧ s'.tInfo = s.tInfo := by
  refine ⟨_,if_pos inside,fun small => ?_,fun h apart => ?_,rfl,rfl,rfl,rfl⟩
  · simp only [word,Function.update_self,BitVec.toNat_ofNat]
    rw [Function.update_of_ne (by omega),Function.update_self,BitVec.toNat_ofNat]
    omega
  · dsimp only
    rw [Function.update_of_ne (by omega),Function.update_of_ne (by omega)]

-- What the loop over the pages of one cpu leaves behind.
structure Filled (start left : Nat) (s s' : State) (ok : Bool) (got : List Nat) : Prop where
  taken : s'.taken = s.taken ++ got
  freed : s'.freed = s.freed
  tInfo : s'.tInfo = s.tInfo
  pool : s.answers.filterMap id = got ++ s'.answers.filterMap id
  listed : listOf s' start got.length = got
  whole : ok = true → got.length = left
  cut : ok = false → got.length < left ∧ word s' (start + got.length) = 0
  kept : ∀ h, h < 2 * start ∨ 2 * (start + left) ≤ h → s'.info h = s.info h

-- The heap hands out frames below 2^32, and never frame 0.
def Frames (l : List Nat) : Prop := ∀ m ∈ l, 0 < m ∧ m < 2^32

theorem answers_got {m : Nat} {answers : List (Option Nat)} (found : answers.headD none = some m) :
    answers.filterMap id = m :: answers.tail.filterMap id := by
  cases answers with
  | nil => simp at found
  | cons a rest =>
    have head : a = some m := found
    rw [head]
    rfl

theorem answers_failed {answers : List (Option Nat)} (found : answers.headD none = none) :
    answers.filterMap id = answers.tail.filterMap id := by
  cases answers with
  | nil => rfl
  | cons a rest =>
    have head : a = none := found
    rw [head]
    rfl

theorem fillList_spec (frames : Frames (s.answers.filterMap id)) (inside : 2 * (offset + i + left) ≤ bound) :
    ∃ s' ok got, fillList bound offset left i s = some (s',ok) ∧ Filled (offset + i) left s s' ok got := by
  induction left generalizing i s with
  | zero => exact ⟨s,true,[],rfl,by simp,rfl,rfl,by simp,rfl,fun _ => rfl,by simp,fun _ _ => rfl⟩
  | succ left ih =>
    cases found : s.answers.headD none with
    | none =>
      obtain ⟨s1,put,read,kept,answers,taken,freed,tInfo⟩ := putWord_inside 0 {s with answers := s.answers.tail}
        (show 2 * (offset + i) + 1 < bound by omega)
      refine ⟨s1,false,[],?_,by simpa using taken,freed,tInfo,?_,rfl,by simp,fun _ => ⟨by simp,read (by simp)⟩,
        fun h apart => kept h (by omega)⟩
      · rw [fillList,found,put]
        rfl
      · rw [answers,List.nil_append,answers_failed found]
    | some mfn =>
      have pool := answers_got found
      rw [pool] at frames
      obtain ⟨s1,put,read,kept,answers,taken,freed,tInfo⟩ := putWord_inside mfn
        {s with answers := s.answers.tail,taken := s.taken ++ [mfn]} (show 2 * (offset + i) + 1 < bound by omega)
      have later : Frames (s1.answers.filterMap id) := by
        rw [answers]
        exact fun m listed => frames m (List.mem_cons_of_mem _ listed)
      obtain ⟨s2,ok,got,ran,filled⟩ := ih later (show 2 * (offset + (i + 1) + left) ≤ bound by omega)
      have still : word s2 (offset + i) = mfn := by
        rw [word,filled.kept _ (by omega),filled.kept _ (by omega)]
        exact read (frames mfn List.mem_cons_self).2
      refine ⟨s2,ok,mfn :: got,?_,?_,filled.freed.trans freed,filled.tInfo.trans tInfo,?_,?_,?_,?_,?_⟩
      · rw [fillList,found]
        simp only [put,Option.bind_some,ran]
      · rw [filled.taken,taken,List.append_assoc]
        rfl
      · rw [pool,List.cons_append,← filled.pool,answers]
      · rw [List.length_cons,listOf,still]
        exact congrArg _ filled.listed
      · exact fun all => congrArg _ (filled.whole all)
      · intro failed
        obtain ⟨short,zero⟩ := filled.cut failed
        refine ⟨Nat.succ_lt_succ short,?_⟩
        rw [List.length_cons,show offset + i + (got.length + 1) = offset + (i + 1) + got.length by omega]
        exact zero
      · intro h apart
        rw [filled.kept h (by omega),kept h (by omega)]

end Lists

section Cpus
variable {bound first pages : Nat} {cpus rest : List Nat} {cpu : Nat} {s s' : State} {ok : Bool}

-- The pages that are freed for a cpu.
def share (pages : Nat) (s : State) (cpu : Nat) : List Nat :=
  if (mfnOffset s cpu).toNat = 0 then [] else (listOf s (mfnOffset s cpu).toNat pages).takeWhile (· != 0)

-- Every list has its place, behind the offsets and inside the memory.
structure Layout (bound first pages : Nat) (cpus : List Nat) : Prop where
  header : ∀ c ∈ cpus, 1 + c < 2 * first
  small : ∀ c ∈ cpus, first + c * pages < 2^16
  inside : ∀ c ∈ cpus, 2 * (first + c * pages + pages) ≤ bound
  once : cpus.Nodup

theorem Layout.tail (layout : Layout bound first pages (cpu :: rest)) : Layout bound first pages rest where
  header c listed := layout.header c (List.mem_cons_of_mem _ listed)
  small c listed := layout.small c (List.mem_cons_of_mem _ listed)
  inside c listed := layout.inside c (List.mem_cons_of_mem _ listed)
  once := (List.nodup_cons.mp layout.once).2

def Touches (first pages : Nat) (cpus : List Nat) (h : Nat) : Prop :=
  ∃ c ∈ cpus, h = 1 + c ∨ (2 * (first + c * pages) ≤ h ∧ h < 2 * (first + c * pages + pages))

theorem lists_apart (pages : Nat) {a b : Nat} (other : a ≠ b) : a * pages + pages ≤ b * pages ∨ b * pages + pages ≤ a * pages := by
  rcases Nat.lt_or_gt_of_ne other with less | less
  · exact .inl (by rw [← Nat.succ_mul]; exact Nat.mul_le_mul_right pages less)
  · exact .inr (by rw [← Nat.succ_mul]; exact Nat.mul_le_mul_right pages less)

theorem offset_untouched (layout : Layout bound first pages (cpu :: rest)) : ¬Touches first pages rest (1 + cpu) := by
  rintro ⟨c,listed,same | ⟨low,-⟩⟩
  · have equal : cpu = c := by omega
    exact (List.nodup_cons.mp layout.once).1 (equal ▸ listed)
  · have header := layout.header cpu List.mem_cons_self
    omega

theorem list_untouched (layout : Layout bound first pages (cpu :: rest)) {h : Nat} (low : 2 * (first + cpu * pages) ≤ h)
    (high : h < 2 * (first + cpu * pages + pages)) : ¬Touches first pages rest h := by
  rintro ⟨c,listed,same | ⟨from_,to_⟩⟩
  · have header := layout.header c (List.mem_cons_of_mem _ listed)
    omega
  · have other : c ≠ cpu := fun same => (List.nodup_cons.mp layout.once).1 (same ▸ listed)
    have apart := lists_apart pages other
    omega

structure FilledAll (first pages : Nat) (cpus : List Nat) (s s' : State) (ok : Bool) : Prop where
  taken : s'.taken = s.taken ++ cpus.flatMap (share pages s')
  freed : s'.freed = s.freed
  tInfo : s'.tInfo = s.tInfo
  pool : s.answers.filterMap id = cpus.flatMap (share pages s') ++ s'.answers.filterMap id
  offsets : ∀ c ∈ cpus, (mfnOffset s' c).toNat = 0 ∨ (mfnOffset s' c).toNat = first + c * pages
  whole : ok = true → ∀ c ∈ cpus, (mfnOffset s' c).toNat = first + c * pages ∧
    share pages s' c = listOf s' (first + c * pages) pages
  kept : ∀ h, ¬Touches first pages cpus h → s'.info h = s.info h

theorem share_placed {n : Nat} {got : List Nat} (placed : (mfnOffset s cpu).toNat = n) (positive : n ≠ 0)
    (frames : Frames got) (listed : listOf s n got.length = got)
    (ends : got.length = pages ∨ (got.length < pages ∧ word s (n + got.length) = 0)) : share pages s cpu = got := by
  have nonzero : ∀ m ∈ got, (m != 0) = true := fun m held => by
    have := (frames m held).1
    simpa using by omega
  rw [share,placed,if_neg positive]
  rcases ends with all | ⟨short,zero⟩
  · rw [← all,listed,← List.append_nil got,List.takeWhile_append_of_pos nonzero,List.takeWhile_nil]
  · obtain ⟨more,size⟩ := Nat.exists_eq_add_of_lt short
    rw [size,Nat.add_assoc,listOf_add,listed,listOf,zero,List.takeWhile_append_of_pos nonzero]
    simp

theorem share_congr (offset : s'.info (1 + cpu) = s.info (1 + cpu))
    (same : ∀ h, 2 * (mfnOffset s cpu).toNat ≤ h → h < 2 * ((mfnOffset s cpu).toNat + pages) → s'.info h = s.info h) :
    share pages s' cpu = share pages s cpu := by
  have placed : mfnOffset s' cpu = mfnOffset s cpu := offset
  rw [share,share,placed,listOf_congr same]

theorem share_empty (unset : (mfnOffset s cpu).toNat = 0) : share pages s cpu = [] := if_pos unset

theorem fillCpu_spec (layout : Layout bound first pages (cpu :: rest)) (frames : Frames (s.answers.filterMap id)) :
    ∃ s' ok, ((putHalf bound (1 + cpu) (BitVec.ofNat 16 (first + cpu * pages)) s).bind
        (fillList bound (BitVec.ofNat 16 (first + cpu * pages)).toNat pages 0)) = some (s',ok) ∧ FilledAll first pages [cpu] s s' ok := by
  have here : cpu ∈ cpu :: rest := List.mem_cons_self
  have header := layout.header cpu here
  have inside := layout.inside cpu here
  have placed : (BitVec.ofNat 16 (first + cpu * pages)).toNat = first + cpu * pages := by
    rw [BitVec.toNat_ofNat,Nat.mod_eq_of_lt (layout.small cpu here)]
  let s1 : State := {s with info := Function.update s.info (1 + cpu) (BitVec.ofNat 16 (first + cpu * pages))}
  have put : putHalf bound (1 + cpu) (BitVec.ofNat 16 (first + cpu * pages)) s = some s1 := if_pos (by omega)
  obtain ⟨s2,ok,got,ran,filled⟩ := fillList_spec (s:=s1) frames (show 2 * (first + cpu * pages + 0 + pages) ≤ bound by omega)
  have offset : (mfnOffset s2 cpu).toNat = first + cpu * pages := by
    rw [mfnOffset,filled.kept _ (by omega)]
    simp only [s1,Function.update_self,placed]
  have held : Frames got := fun m listed => frames m (by
    rw [show s.answers = s1.answers from rfl,filled.pool]
    exact List.mem_append_left _ listed)
  have ends : got.length = pages ∨ (got.length < pages ∧ word s2 (first + cpu * pages + got.length) = 0) := by
    cases ok with
    | true => exact .inl (filled.whole rfl)
    | false => exact .inr (filled.cut rfl)
  have shared : share pages s2 cpu = got := share_placed offset (by omega) held filled.listed ends
  refine ⟨s2,ok,?_,?_,filled.freed,filled.tInfo,?_,?_,?_,?_⟩
  · rw [put,placed]
    exact ran
  · rw [List.flatMap_singleton,shared]
    exact filled.taken
  · rw [List.flatMap_singleton,shared]
    exact filled.pool
  · intro c listed
    rw [List.mem_singleton.mp listed]
    exact .inr offset
  · intro all c listed
    have list := filled.listed
    rw [filled.whole all] at list
    rw [List.mem_singleton.mp listed,shared]
    exact ⟨offset,list.symm⟩
  · intro h apart
    have other : h ≠ 1 + cpu := fun same => apart ⟨cpu,List.mem_singleton_self cpu,.inl same⟩
    have outside : h < 2 * (first + cpu * pages + 0) ∨ 2 * (first + cpu * pages + 0 + pages) ≤ h := by
      by_contra within
      exact apart ⟨cpu,List.mem_singleton_self cpu,.inr (by omega)⟩
    rw [filled.kept h outside]
    exact Function.update_of_ne other _ _

-- The lists that follow leave a finished one as it is.
theorem FilledAll.cons {s1 s2 : State} (layout : Layout bound first pages (cpu :: rest))
    (one : FilledAll first pages [cpu] s s1 true) (more : FilledAll first pages rest s1 s2 ok) :
    FilledAll first pages (cpu :: rest) s s2 ok := by
  obtain ⟨placed,listed⟩ := one.whole rfl cpu (List.mem_singleton_self cpu)
  have offset : s2.info (1 + cpu) = s1.info (1 + cpu) := more.kept _ (offset_untouched layout)
  have list (h : Nat) (low : 2 * (first + cpu * pages) ≤ h) (high : h < 2 * (first + cpu * pages + pages)) :
      s2.info h = s1.info h := more.kept h (list_untouched layout low high)
  have shared : share pages s2 cpu = share pages s1 cpu := share_congr offset (by rw [placed]; exact list)
  have taken := one.taken
  have pool := one.pool
  rw [List.flatMap_singleton] at taken pool
  refine ⟨?_,more.freed.trans one.freed,more.tInfo.trans one.tInfo,?_,?_,?_,?_⟩
  · rw [more.taken,taken,List.flatMap_cons,shared,List.append_assoc]
  · rw [pool,more.pool,List.flatMap_cons,shared,List.append_assoc]
  · intro c member
    rcases List.mem_cons.mp member with rfl | later
    · rw [mfnOffset,offset]
      exact .inr placed
    · exact more.offsets c later
  · intro all c member
    rcases List.mem_cons.mp member with rfl | later
    · rw [shared,mfnOffset,offset,listed,listOf_congr list]
      exact ⟨placed,rfl⟩
    · exact more.whole all c later
  · intro h apart
    rw [more.kept h fun ⟨c,later,at_⟩ => apart ⟨c,List.mem_cons_of_mem _ later,at_⟩]
    exact one.kept h fun ⟨c,first,at_⟩ => apart ⟨c,List.mem_singleton.mp first ▸ List.mem_cons_self,at_⟩

theorem FilledAll.waits (layout : Layout bound first pages (cpu :: rest)) (one : FilledAll first pages [cpu] s s' ok)
    (unset : ∀ c ∈ rest, (mfnOffset s c).toNat = 0) : ∀ c ∈ rest, (mfnOffset s' c).toNat = 0 := by
  intro c later
  have apart : ¬Touches first pages [cpu] (1 + c) := by
    rintro ⟨d,member,same | ⟨low,-⟩⟩
    · rw [List.mem_singleton.mp member] at same
      have equal : c = cpu := by omega
      exact (List.nodup_cons.mp layout.once).1 (equal ▸ later)
    · have header := layout.header c (List.mem_cons_of_mem _ later)
      omega
  rw [mfnOffset,one.kept _ apart]
  exact unset c later

-- The cpus behind a failed one have no offset yet.
theorem FilledAll.failed (layout : Layout bound first pages (cpu :: rest)) (one : FilledAll first pages [cpu] s s' false)
    (unset : ∀ c ∈ rest, (mfnOffset s c).toNat = 0) : FilledAll first pages (cpu :: rest) s s' false := by
  have still := one.waits layout unset
  have empty : rest.flatMap (share pages s') = [] := by
    rw [List.flatMap_eq_nil_iff]
    exact fun c later => share_empty (still c later)
  have taken := one.taken
  have pool := one.pool
  rw [List.flatMap_singleton] at taken pool
  refine ⟨?_,one.freed,one.tInfo,?_,?_,nofun,?_⟩
  · rw [List.flatMap_cons,empty,List.append_nil,taken]
  · rw [List.flatMap_cons,empty,List.append_nil,pool]
  · intro c member
    rcases List.mem_cons.mp member with rfl | later
    · exact one.offsets c (List.mem_singleton_self c)
    · exact .inl (still c later)
  · exact fun h apart => one.kept h fun ⟨c,first,at_⟩ => apart ⟨c,List.mem_singleton.mp first ▸ List.mem_cons_self,at_⟩

theorem fillCpus_cons : fillCpus bound first pages (cpu :: rest) s =
    ((putHalf bound (1 + cpu) (BitVec.ofNat 16 (first + cpu * pages)) s).bind
      (fillList bound (BitVec.ofNat 16 (first + cpu * pages)).toNat pages 0)).bind fun filled =>
        if filled.2 then fillCpus bound first pages rest filled.1 else some filled := by
  rw [fillCpus,Option.bind_assoc]

theorem fillCpus_spec (layout : Layout bound first pages cpus) (frames : Frames (s.answers.filterMap id))
    (unset : ∀ c ∈ cpus, (mfnOffset s c).toNat = 0) :
    ∃ s' ok, fillCpus bound first pages cpus s = some (s',ok) ∧ FilledAll first pages cpus s s' ok := by
  induction cpus generalizing s with
  | nil => exact ⟨s,true,rfl,by simp,rfl,rfl,by simp,by simp,by simp,fun _ _ => rfl⟩
  | cons cpu rest ih =>
    have waiting (c : Nat) (later : c ∈ rest) : (mfnOffset s c).toNat = 0 := unset c (List.mem_cons_of_mem _ later)
    obtain ⟨s1,ok,ran,one⟩ := fillCpu_spec layout frames
    rw [fillCpus_cons,ran,Option.bind_some]
    cases ok with
    | false => exact ⟨s1,false,rfl,one.failed layout waiting⟩
    | true =>
      have left : Frames (s1.answers.filterMap id) := fun m listed => frames m (by
        rw [one.pool]
        exact List.mem_append_right _ listed)
      obtain ⟨s2,ok,rest_,more⟩ := ih layout.tail left (one.waits layout waiting)
      exact ⟨s2,ok,rest_,one.cons layout more⟩

theorem freeList_spec {offset left i : Nat} (inside : 2 * (offset + i + left) ≤ bound) :
    freeList bound offset left i s =
      some {s with freed := s.freed ++ (listOf s (offset + i) left).takeWhile (· != 0)} := by
  induction left generalizing i s with
  | zero => simp [freeList,listOf]
  | succ left ih =>
    rw [freeList,if_pos (by omega),listOf]
    by_cases ends : word s (offset + i) = 0
    · simp [ends]
    · simp only [ends,if_false]
      rw [ih (by omega),List.takeWhile_cons_of_pos (by simpa using ends),listOf_freed]
      simp only [List.append_assoc,List.singleton_append]
      rfl

theorem freeCpus_spec (inside : ∀ c ∈ cpus, (mfnOffset s c).toNat = 0 ∨ 2 * ((mfnOffset s c).toNat + pages) ≤ bound) :
    freeCpus bound pages cpus s = some {s with freed := s.freed ++ cpus.flatMap (share pages s)} := by
  suffices all : ∀ freed, freeCpus bound pages cpus {s with freed := freed} =
      some {s with freed := freed ++ cpus.flatMap (share pages s)} from all s.freed
  induction cpus with
  | nil => simp [freeCpus]
  | cons cpu rest ih =>
    intro freed
    have later := ih fun c member => inside c (List.mem_cons_of_mem _ member)
    rw [freeCpus,List.flatMap_cons]
    by_cases unset : (mfnOffset s cpu).toNat = 0
    · rw [share_empty unset,List.nil_append]
      exact (if_pos unset).trans (later freed)
    · have bounded := (inside cpu List.mem_cons_self).resolve_left unset
      have freeing := freeList_spec (s:={s with freed := freed}) (show 2 * ((mfnOffset s cpu).toNat + 0 + pages) ≤ bound from bounded)
      rw [listOf_freed] at freeing
      rw [share,if_neg unset,← List.append_assoc]
      refine (if_neg unset).trans ?_
      refine (congrArg (Option.bind · _) freeing).trans ?_
      exact later _

-- While no allocation fails, every write that was made was inside.
theorem fillList_bounded {offset left i : Nat} {l : List Nat} (answers : s.answers = l.map some) (enough : left ≤ l.length)
    (ran : fillList bound offset left i s = some (s',ok)) :
    ok = true ∧ s'.answers = (l.drop left).map some ∧ (left ≠ 0 → 2 * (offset + i + left) ≤ bound) := by
  induction left generalizing i s l with
  | zero =>
    cases ran
    exact ⟨rfl,answers,nofun⟩
  | succ left ih =>
    cases l with
    | nil => simp at enough
    | cons m l =>
      rw [fillList,answers,List.map_cons,List.headD_cons,List.tail_cons] at ran
      obtain ⟨s1,put,rest⟩ := Option.bind_eq_some_iff.mp ran
      unfold putWord at put
      split at put
      next inside =>
        cases put
        obtain ⟨all,left_,within⟩ := ih rfl (by simpa using enough) rest
        refine ⟨all,left_,fun _ => ?_⟩
        by_cases last : left = 0
        · omega
        · have := within last
          omega
      next => cases put

theorem fillCpus_bounded {l : List Nat} (positive : pages ≠ 0) (answers : s.answers = l.map some)
    (enough : cpus.length * pages ≤ l.length) (ran : fillCpus bound first pages cpus s = some (s',ok)) :
    ok = true ∧ ∀ c ∈ cpus, 2 * ((BitVec.ofNat 16 (first + c * pages)).toNat + pages) ≤ bound := by
  induction cpus generalizing s l with
  | nil =>
    cases ran
    exact ⟨rfl,by simp⟩
  | cons cpu rest ih =>
    rw [List.length_cons,Nat.succ_mul] at enough
    obtain ⟨s1,put,filling⟩ := Option.bind_eq_some_iff.mp ran
    obtain ⟨⟨s2,ok1⟩,filled,more⟩ := Option.bind_eq_some_iff.mp filling
    have kept : s1.answers = s.answers := by
      unfold putHalf at put
      split at put <;> cases put
      rfl
    obtain ⟨all,left,inside⟩ := fillList_bounded (kept.trans answers) (by omega) filled
    rw [all] at more
    obtain ⟨done,others⟩ := ih left (by rw [List.length_drop]; omega) more
    refine ⟨done,fun c listed => ?_⟩
    rcases List.mem_cons.mp listed with rfl | later
    · exact inside positive
    · exact others c later

end Cpus

section Allocation
variable {nrCpus pages : Nat} {online : List Nat}

-- The pages of each buffer, and the pages of `t_info`.
def bufPages (nrCpus : Nat) (online : List Nat) (pages : Nat) : Nat :=
  (calculateTbufSize pages (calcTinfoFirstOffset nrCpus) online.length).1

def infoPages (nrCpus : Nat) (online : List Nat) (pages : Nat) : Nat :=
  (calculateTbufSize pages (calcTinfoFirstOffset nrCpus) online.length).2

-- Where the list of a cpu belongs, in words.
def listPlace (nrCpus : Nat) (online : List Nat) (pages cpu : Nat) : Nat :=
  calcTinfoFirstOffset nrCpus + cpu * bufPages nrCpus online pages

def Fits (nrCpus : Nat) (online : List Nat) (pages : Nat) : Prop :=
  ∀ cpu ∈ online, listPlace nrCpus online pages cpu < 2^16 ∧
    4 * (listPlace nrCpus online pages cpu + bufPages nrCpus online pages) ≤ infoPages nrCpus online pages * pageSize

instance : Decidable (Fits nrCpus online pages) := List.decidableBAll _ _

structure LaidOut (nrCpus : Nat) (online : List Nat) (pages : Nat) (s : State) : Prop where
  offset : ∀ c ∈ online, (mfnOffset s c).toNat = listPlace nrCpus online pages c
  apart : ∀ c ∈ online, ∀ d ∈ online, c ≠ d →
    (mfnOffset s c).toNat + bufPages nrCpus online pages ≤ (mfnOffset s d).toNat ∨
      (mfnOffset s d).toNat + bufPages nrCpus online pages ≤ (mfnOffset s c).toNat
  held : s.taken = online.flatMap fun c => listOf s (mfnOffset s c).toNat (bufPages nrCpus online pages)

-- The heap hands out each frame once.
def Fresh (answers : List (Option Nat)) : Prop := (answers.filterMap id).Nodup ∧ Frames (answers.filterMap id)

-- Whatever the heap answers, nothing is written outside, the lists are where
-- the offsets say, and a failure gives back what was taken.
def Sound (nrCpus : Nat) (online : List Nat) (pages : Nat) : Prop :=
  ∀ infoOk info answers, Fresh answers → ∃ r s, allocTraceBufs nrCpus online pages infoOk ⟨false,info,answers,[],[]⟩ = some (r,s) ∧
    (r = .initialised → LaidOut nrCpus online pages s) ∧
    (r = .enomem → s.freed = s.taken ∧ s.taken.Nodup ∧ s.tInfo = false)

-- The online cpus, in order.
structure Online (nrCpus : Nat) (online : List Nat) : Prop where
  nonempty : online ≠ []
  sorted : online.Pairwise (· < ·)
  ids : ∀ c ∈ online, c < nrCpus

theorem Online.nodup (on : Online nrCpus online) : online.Nodup := on.sorted.imp Nat.ne_of_lt

theorem Online.few (on : Online nrCpus online) : online.length ≤ nrCpus := by
  have inside : online ⊆ List.range nrCpus := fun c listed => List.mem_range.mpr (on.ids c listed)
  simpa using (List.subperm_of_subset on.nodup inside).length_le

theorem maxTbufPages_eq (first cpus : Nat) : maxTbufPages first cpus =
    min 65535 (if cpus - 1 ≠ 0 then (65535 - first) / (cpus - 1) else 65535 - first) := by
  have large : ¬(2^32 - 1) / pageSize < 65535 := by decide
  unfold maxTbufPages
  simp only [large,if_false]
  rw [Nat.min_def]
  split_ifs <;> omega

theorem bufPages_positive (on : Online nrCpus online) (small : nrCpus ≤ 0xfff) (asked : pages ≠ 0) :
    0 < bufPages nrCpus online pages := by
  have few := on.few
  have first : calcTinfoFirstOffset nrCpus ≤ 2049 := by
    unfold calcTinfoFirstOffset fitToType
    omega
  have many : 0 < maxTbufPages (calcTinfoFirstOffset nrCpus) online.length := by
    have each : online.length - 1 ≠ 0 → 0 < (65535 - calcTinfoFirstOffset nrCpus) / (online.length - 1) := fun more =>
      Nat.div_pos (by omega) (by omega)
    rw [maxTbufPages_eq,Nat.lt_min]
    refine ⟨by decide,?_⟩
    split
    next more => exact each more
    next => omega
  unfold bufPages calculateTbufSize
  dsimp only
  split <;> omega

theorem bufPages_small (nrCpus : Nat) (online : List Nat) (pages : Nat) : bufPages nrCpus online pages ≤ 65535 := by
  have few : maxTbufPages (calcTinfoFirstOffset nrCpus) online.length ≤ 65535 := by
    rw [maxTbufPages_eq]
    exact Nat.min_le_left _ _
  unfold bufPages calculateTbufSize
  dsimp only
  split <;> omega

theorem layout_of_fits (on : Online nrCpus online) (fits : Fits nrCpus online pages) :
    Layout (infoPages nrCpus online pages * (pageSize / 2)) (calcTinfoFirstOffset nrCpus) (bufPages nrCpus online pages) online where
  header c listed := by
    have id := on.ids c listed
    unfold calcTinfoFirstOffset fitToType
    omega
  small c listed := (fits c listed).1
  inside c listed := by
    have inside := (fits c listed).2
    simp only [pageSize,listPlace] at inside ⊢
    omega
  once := on.nodup

-- `t_info` when its lists are about to be made.
def cleared (pages : Nat) (answers : List (Option Nat)) : State :=
  ⟨true,Function.update (fun _ => 0#16) 0 (BitVec.ofNat 16 pages),answers,[],[]⟩

theorem cleared_offset (pages : Nat) (answers : List (Option Nat)) (cpu : Nat) :
    (mfnOffset (cleared pages answers) cpu).toNat = 0 := by
  have other : 1 + cpu ≠ 0 := by omega
  simp only [mfnOffset,cleared,Function.update_of_ne other]
  rfl

theorem sound_of_fits (on : Online nrCpus online) (fits : Fits nrCpus online pages) : Sound nrCpus online pages := by
  intro infoOk info answers fresh
  by_cases asked : pages = 0
  · exact ⟨.einval,⟨false,info,answers,[],[]⟩,by simp [allocTraceBufs,asked],nofun,nofun⟩
  cases infoOk with
  | false => exact ⟨.enomem,⟨false,info,answers,[],[]⟩,by simp [allocTraceBufs,asked],nofun,fun _ => ⟨rfl,List.nodup_nil,rfl⟩⟩
  | true =>
    have layout := layout_of_fits on fits
    obtain ⟨cpu,listed⟩ := List.exists_mem_of_ne_nil online on.nonempty
    have header := layout.header cpu listed
    have inside := layout.inside cpu listed
    have put : putHalf (infoPages nrCpus online pages * (pageSize / 2)) 0 (BitVec.ofNat 16 (bufPages nrCpus online pages))
        ⟨true,fun _ => 0#16,answers,[],[]⟩ = some (cleared (bufPages nrCpus online pages) answers) := if_pos (by omega)
    obtain ⟨s,ok,ran,filled⟩ := fillCpus_spec (s:=cleared (bufPages nrCpus online pages) answers) layout fresh.2
      fun c _ => cleared_offset _ _ c
    have taken : s.taken = online.flatMap (share (bufPages nrCpus online pages) s) := filled.taken
    have pool : answers.filterMap id = s.taken ++ s.answers.filterMap id := taken ▸ filled.pool
    have result : allocTraceBufs nrCpus online pages true ⟨false,info,answers,[],[]⟩ =
        if ok then some (.initialised,s)
        else (freeCpus (infoPages nrCpus online pages * (pageSize / 2)) (bufPages nrCpus online pages) online s).map fun s =>
          (.enomem,{s with tInfo := false}) := by
      unfold allocTraceBufs
      simp only [asked,if_false,Bool.false_eq_true,Bool.not_true]
      refine (congrArg (Option.bind · _) put).trans ?_
      exact congrArg (Option.bind · _) ran
    rw [result]
    cases ok with
    | true =>
      refine ⟨.initialised,s,rfl,fun _ => ?_,nofun⟩
      have whole := filled.whole rfl
      refine ⟨fun c member => (whole c member).1,fun c first d second other => ?_,?_⟩
      · rw [(whole c first).1,(whole d second).1]
        have apart := lists_apart (bufPages nrCpus online pages) other
        omega
      · rw [taken]
        exact List.flatMap_congr fun c member => by rw [(whole c member).2,(whole c member).1]
    | false =>
      have inside (c : Nat) (member : c ∈ online) : (mfnOffset s c).toNat = 0 ∨
          2 * ((mfnOffset s c).toNat + bufPages nrCpus online pages) ≤ infoPages nrCpus online pages * (pageSize / 2) := by
        rcases filled.offsets c member with unset | placed
        · exact .inl unset
        · rw [placed]
          exact .inr (layout.inside c member)
      have once := fresh.1
      rw [pool] at once
      refine ⟨.enomem,_,congrArg (Option.map _) (freeCpus_spec inside),nofun,fun _ => ⟨?_,(List.nodup_append.mp once).1,rfl⟩⟩
      rw [taken]
      exact congrArg (· ++ _) filled.freed

theorem numbered_fresh {n : Nat} (few : n < 2^32) : Fresh (((List.range n).map (· + 1)).map some) := by
  have same : (((List.range n).map (· + 1)).map some).filterMap id = (List.range n).map (· + 1) := by simp
  rw [Fresh,same]
  refine ⟨List.Nodup.map (fun _ _ => Nat.succ.inj) List.nodup_range,fun m listed => ?_⟩
  obtain ⟨k,below,rfl⟩ := List.mem_map.mp listed
  have := List.mem_range.mp below
  omega

theorem fits_of_sound (on : Online nrCpus online) (small : nrCpus ≤ 0xfff) (asked : pages ≠ 0)
    (sound : Sound nrCpus online pages) : Fits nrCpus online pages := by
  have positive := bufPages_positive on small asked
  have few : online.length * bufPages nrCpus online pages < 2^32 := by
    have cpus := on.few
    have each := bufPages_small nrCpus online pages
    calc online.length * bufPages nrCpus online pages ≤ 0xfff * 65535 := Nat.mul_le_mul (by omega) each
      _ < 2^32 := by decide
  obtain ⟨r,s,ran,laid,-⟩ := sound true (fun _ => 0#16) _ (numbered_fresh few)
  unfold allocTraceBufs at ran
  simp only [asked,if_false,Bool.false_eq_true,Bool.not_true] at ran
  obtain ⟨s1,put,filling⟩ := Option.bind_eq_some_iff.mp ran
  obtain ⟨⟨s2,ok⟩,filled,ends⟩ := Option.bind_eq_some_iff.mp filling
  have kept : s1.answers = ((List.range (online.length * bufPages nrCpus online pages)).map (· + 1)).map some := by
    unfold putHalf at put
    split at put <;> cases put
    rfl
  obtain ⟨rfl,inside⟩ := fillCpus_bounded (Nat.ne_of_gt positive) kept (by simp [bufPages]) filled
  cases ends
  have placed := (laid rfl).offset
  intro cpu listed
  have at_ : listPlace nrCpus online pages cpu < 2^16 := by
    rw [← placed cpu listed]
    exact (mfnOffset s2 cpu).isLt
  refine ⟨at_,?_⟩
  have bounded := inside cpu listed
  rw [BitVec.toNat_ofNat,Nat.mod_eq_of_lt (by exact at_)] at bounded
  simp only [pageSize,infoPages,bufPages,listPlace] at bounded ⊢
  omega

-- The metadata is right exactly when the list of the last cpu, by its id,
-- ends inside the pages that were computed from the number of cpus.
theorem tinfo_fits_exactly (small : nrCpus ≤ 0xfff) (on : Online nrCpus online) :
    Sound nrCpus online pages ↔ pages = 0 ∨ Fits nrCpus online pages := by
  constructor
  · intro sound
    by_cases asked : pages = 0
    · exact .inl asked
    · exact .inr (fits_of_sound on small asked sound)
  · rintro (none_ | fits)
    · intro infoOk info answers _
      exact ⟨.einval,⟨false,info,answers,[],[]⟩,by simp [allocTraceBufs,none_],nofun,nofun⟩
    · exact sound_of_fits on fits

theorem four_online : Online 256 [0,1,2,3] := ⟨by simp,by decide,by decide⟩

theorem tinfo_fits_four : Sound 256 [0,1,2,3] 32 :=
  (tinfo_fits_exactly (by decide) four_online).mpr (.inr (by decide +kernel))

-- One cpu with 900 pages: its list ends behind the only page. Cpus 0 and 200
-- with 32 pages: the list of the second is behind it.
theorem tinfo_outside :
    (infoPages 256 [0] 900 = 1 ∧ (allocTraceBufs 256 [0] 900 true ⟨false,fun _ => 0#16,(List.range' 1 900).map some,[],[]⟩).isNone = true) ∧
      infoPages 256 [0,200] 32 = 1 ∧
      (allocTraceBufs 256 [0,200] 32 true ⟨false,fun _ => 0#16,(List.range' 1 64).map some,[],[]⟩).isNone = true := by
  decide +kernel

end Allocation

end XenAet.TraceInfo
