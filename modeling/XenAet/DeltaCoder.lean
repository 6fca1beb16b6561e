import Mathlib.Data.List.Basic
import XenAet.Library.ByteRegion

namespace XenAet.DeltaCoder
open Library.ByteRegion

def xcPageSize : Nat := 4096
def maxDeltas : Nat := 1024
def worstCompPageSize : Nat := xcPageSize + 9
def fullPageSize : Nat := xcPageSize + 1
def emptyPage : UInt8 := 0
def skipflag : UInt8 := 128
def fullPage : UInt8 := skipflag
def lenmask : UInt8 := 127

def wordAt (page : List UInt8) (off : Nat) : List UInt8 := slice page (off * 4) 4

-- The variables of `compress_page`: `dest` is what has been stored from
-- `compbuf_pos` on, so `complen` is its length.
structure Loop where
  runptr : Nat
  runlen : Nat
  wascopying : Bool
  bytesSkipped : Nat
  dest : List UInt8
  cache : List UInt8

-- The end of a run: its header, and its words to the output and to the cache.
def flush (new : List UInt8) (off : Nat) (l : Loop) : Loop :=
  let runbytes := l.runlen * 4
  if l.wascopying then
    let pageoff := l.runptr * 4
    let run := slice new pageoff runbytes
    {l with dest := l.dest ++ UInt8.ofNat l.runlen :: run,cache := patch l.cache pageoff run,runlen := 0,runptr := off}
  else
    {l with
      dest := l.dest ++ [UInt8.ofNat l.runlen ||| skipflag]
      bytesSkipped := l.bytesSkipped + runbytes
      runlen := 0
      runptr := off}

def turn (new : List UInt8) (off : Nat) (copying : Bool) (l : Loop) : Loop :=
  let l := if l.runlen ≠ 0 ∧ (l.wascopying ≠ copying ∨ l.runlen = lenmask.toNat) then flush new off l else l
  {l with runlen := l.runlen + 1,wascopying := copying}

def scan (new : List UInt8) (l : Loop) : List Nat → Loop
  | [] => l
  | off :: rest => scan new (turn new off (wordAt l.cache off != wordAt new off) l) rest

def start (cache : List UInt8) : Loop := ⟨0,0,false,0,[],cache⟩

-- The last turn is there to end the last run.
def compressLoop (new cache : List UInt8) : Loop :=
  let l := scan new (start cache) (List.range' 0 maxDeltas)
  turn new maxDeltas (!l.wascopying) l

-- `stored` is all that was stored into the buffer, `out` what counts.
structure Compressed where
  stored : List UInt8
  out : List UInt8
  cache : List UInt8

def Loop.result (l : Loop) : Compressed := ⟨l.dest,if l.bytesSkipped = xcPageSize then [emptyPage] else l.dest,l.cache⟩

def compressPage (compbufPos compbufSize : Nat) (srcpage cachePage : List UInt8) : Option Compressed :=
  if compbufSize < compbufPos + worstCompPageSize then none else some (compressLoop srcpage cachePage).result

-- `fault` is an access outside of the buffer or of the page.
inductive Outcome where
  | fault
  | failed
  | done (compbufPos : Nat) (destpage : List UInt8)

-- A `memcpy` from the buffer into the page.
def copyIn (compbuf : List UInt8) (pos : Nat) (destpage : List UInt8) (pagepos len : Nat) : Except Outcome (List UInt8) :=
  if pos + len ≤ compbuf.length ∧ pagepos + len ≤ destpage.length then .ok (patch destpage pagepos (slice compbuf pos len))
  else .error .fault

-- One turn of the loop over the runs of a page.
def readRun (compbuf : List UInt8) (pos pagepos : Nat) (destpage : List UInt8) : Except Outcome (Nat × Nat × List UInt8) :=
  match compbuf[pos]? with
  | none => .error .fault
  | some header =>
    let len := (header &&& lenmask).toNat * 4
    if len = 0 then .error .failed
    else if header &&& skipflag = 0 then
      if compbuf.length < pos + 1 + len ∨ xcPageSize < pagepos + len then .error .failed
      else (copyIn compbuf (pos + 1) destpage pagepos len).map fun destpage => (pos + 1 + len,pagepos + len,destpage)
    else .ok (pos + 1,pagepos + len,destpage)

-- `none` is a loop that is still running when its turns are spent.
def readRuns (compbuf : List UInt8) : Nat → Nat → Nat → List UInt8 → Option Outcome
  | 0,_,_,_ => none
  | turns+1,pos,pagepos,destpage =>
    match readRun compbuf pos pagepos destpage with
    | .error outcome => some outcome
    | .ok (pos,pagepos,destpage) =>
      if pagepos < xcPageSize ∧ pos < compbuf.length then readRuns compbuf turns pos pagepos destpage
      else if pagepos ≠ xcPageSize then some .failed
      else some (.done pos destpage)

def uncompressPage (compbuf : List UInt8) (compbufPos : Nat) (destpage : List UInt8) : Option Outcome :=
  if compbuf.length ≤ compbufPos then some .failed
  else
    match compbuf[compbufPos]? with
    | none => some .fault
    | some first =>
      if first = emptyPage then some (.done (compbufPos + 1) destpage)
      else if first = fullPage then
        if compbuf.length < compbufPos + fullPageSize then some .failed
        else
          match copyIn compbuf (compbufPos + 1) destpage 0 xcPageSize with
          | .error outcome => some outcome
          | .ok destpage => some (.done (compbufPos + fullPageSize) destpage)
      else readRuns compbuf (compbuf.length - compbufPos) compbufPos 0 destpage

-- What the coder stores.

variable {old new : List UInt8} {off : Nat} {l : Loop}

-- Before a word is looked at: the run in hand goes up to it, and what is
-- stored is paid for by the words before the run. A run of copied words that is
-- not full is paid for by the skipped words that follow it.
structure Paid (off : Nat) (l : Loop) : Prop where
  span : l.runptr + l.runlen = off
  short : l.runlen ≤ 127
  begun : 0 < off → 0 < l.runlen
  cost : 127 * l.dest.length ≤ 509 * l.runptr + if l.wascopying then 0 else 126

theorem flush_length (new : List UInt8) (inside : off * 4 ≤ new.length) (span : l.runptr + l.runlen = off) :
    (flush new off l).dest.length = l.dest.length + 1 + if l.wascopying then 4 * l.runlen else 0 := by
  unfold flush
  cases l.wascopying with
  | true =>
    have size : (slice new (l.runptr * 4) (l.runlen * 4)).length = l.runlen * 4 := length_slice new (by omega)
    simp only [if_true,List.length_append,List.length_cons,size]
    omega
  | false => simp

theorem turn_paid (copying : Bool) (inside : off * 4 ≤ new.length) (paid : Paid off l) : Paid (off + 1) (turn new off copying l) := by
  obtain ⟨span,short,begun,cost⟩ := paid
  have full : lenmask.toNat = 127 := rfl
  unfold turn
  dsimp only
  rw [full]
  by_cases ended : l.runlen ≠ 0 ∧ (l.wascopying ≠ copying ∨ l.runlen = 127)
  · have size := flush_length new inside span
    have restart : (flush new off l).runptr = off ∧ (flush new off l).runlen = 0 := by
      unfold flush
      split <;> exact ⟨rfl,rfl⟩
    rw [if_pos ended]
    refine ⟨by simp only [restart],by simp only [restart]; omega,fun _ => Nat.succ_pos _,?_⟩
    simp only [size,restart]
    obtain ⟨nonzero,why⟩ := ended
    cases was : l.wascopying with
    | false =>
      simp only [was,Bool.false_eq_true,if_false] at cost ⊢
      split <;> omega
    | true =>
      simp only [was,if_true] at cost ⊢
      cases copying with
      | true =>
        have exact_ : l.runlen = 127 := why.resolve_left fun other => other was
        simp only [if_true]
        omega
      | false =>
        simp only [Bool.false_eq_true,if_false]
        omega
  · rw [if_neg ended]
    by_cases empty : l.runlen = 0
    · have zero : off = 0 := by
        by_contra positive
        exact absurd (begun (Nat.pos_of_ne_zero positive)) (by omega)
      refine ⟨by simp only; omega,by simp only; omega,fun _ => Nat.succ_pos _,?_⟩
      simp only
      split at cost <;> split <;> omega
    · rw [not_and,not_or,not_not] at ended
      obtain ⟨same,room⟩ := ended empty
      refine ⟨by simp only; omega,by simp only; omega,fun _ => Nat.succ_pos _,?_⟩
      rw [same] at cost
      exact cost

theorem scan_paid (new : List UInt8) (whole : new.length = xcPageSize) (n : Nat) (inside : off + n ≤ maxDeltas) (paid : Paid off l) :
    Paid (off + n) (scan new l (List.range' off n)) := by
  induction n generalizing off l with
  | zero => exact paid
  | succ n ih =>
    have near : off * 4 ≤ new.length := by
      simp only [whole,xcPageSize,maxDeltas] at inside ⊢
      omega
    have next := turn_paid (wordAt l.cache off != wordAt new off) near paid
    rw [List.range'_succ,scan]
    have later := ih (by omega) next
    rwa [Nat.add_right_comm] at later

theorem start_paid (cache : List UInt8) : Paid 0 (start cache) :=
  ⟨rfl,Nat.zero_le _,fun none_ => absurd none_ (Nat.lt_irrefl 0),Nat.zero_le _⟩

theorem compressLoop_paid (whole : new.length = xcPageSize) (cache : List UInt8) : Paid (maxDeltas + 1) (compressLoop new cache) := by
  have scanned := scan_paid new whole maxDeltas (Nat.le_of_eq (Nat.zero_add _)) (start_paid cache)
  rw [Nat.zero_add] at scanned
  have near : maxDeltas * 4 ≤ new.length := by
    rw [whole]
    decide
  exact turn_paid _ near scanned

theorem compressLoop_small (whole : new.length = xcPageSize) (cache : List UInt8) :
    (compressLoop new cache).dest.length ≤ worstCompPageSize := by
  obtain ⟨span,_,begun,cost⟩ := compressLoop_paid whole cache
  have begun := begun (Nat.succ_pos _)
  have budget : 127 * (compressLoop new cache).dest.length ≤ 509 * (compressLoop new cache).runptr + 126 := by
    refine Nat.le_trans cost (Nat.add_le_add_left ?_ _)
    split <;> decide
  simp only [maxDeltas] at span
  simp only [worstCompPageSize,xcPageSize]
  omega

-- The decoder, on any bytes.

def Advances (compbuf : List UInt8) (pos : Nat) (outcome : Outcome) : Prop :=
  outcome = .failed ∨ ∃ pos' destpage, outcome = .done pos' destpage ∧ pos < pos' ∧ pos' ≤ compbuf.length ∧ destpage.length = xcPageSize

theorem copyIn_ok {compbuf destpage : List UInt8} {pos pagepos len : Nat} (source : pos + len ≤ compbuf.length)
    (target : pagepos + len ≤ destpage.length) :
    copyIn compbuf pos destpage pagepos len = .ok (patch destpage pagepos (slice compbuf pos len)) ∧
      (patch destpage pagepos (slice compbuf pos len)).length = destpage.length := by
  refine ⟨if_pos ⟨source,target⟩,length_patch _ _ _ ?_⟩
  rwa [length_slice compbuf source]

theorem readRun_safe {compbuf destpage : List UInt8} {pos : Nat} (inside : pos < compbuf.length) (page : destpage.length = xcPageSize)
    (pagepos : Nat) : readRun compbuf pos pagepos destpage = .error .failed ∨ ∃ pos' pagepos' destpage',
      readRun compbuf pos pagepos destpage = .ok (pos',pagepos',destpage') ∧ pos < pos' ∧ pos' ≤ compbuf.length ∧
        destpage'.length = xcPageSize := by
  unfold readRun
  rw [List.getElem?_eq_getElem inside]
  dsimp only
  split
  · exact .inl rfl
  split
  · split
    · exact .inl rfl
    · next fits =>
      rw [not_or,Nat.not_lt,Nat.not_lt] at fits
      obtain ⟨copied,size⟩ := copyIn_ok fits.1 (by rw [page]; exact fits.2)
      rw [copied]
      exact .inr ⟨_,_,_,rfl,by omega,fits.1,size.trans page⟩
  · exact .inr ⟨_,_,_,rfl,Nat.lt_succ_self pos,inside,page⟩

-- Every run takes at least its header, so the bytes left bound the turns.
theorem readRuns_safe {compbuf destpage : List UInt8} {turns pos : Nat} (enough : compbuf.length - pos ≤ turns)
    (inside : pos < compbuf.length) (page : destpage.length = xcPageSize) (pagepos : Nat) :
    ∃ outcome, readRuns compbuf turns pos pagepos destpage = some outcome ∧ Advances compbuf pos outcome := by
  induction turns generalizing pos pagepos destpage with
  | zero => omega
  | succ turns ih =>
    rw [readRuns]
    rcases readRun_safe inside page pagepos with failed | ⟨pos',pagepos',destpage',ran,after,within,page'⟩
    · rw [failed]
      exact ⟨_,rfl,.inl rfl⟩
    · rw [ran]
      dsimp only
      split
      · next more =>
        obtain ⟨outcome,result,advances⟩ := ih (by omega) more.2 page' pagepos'
        refine ⟨outcome,result,advances.imp id ?_⟩
        rintro ⟨last,dest,is,further,kept⟩
        exact ⟨last,dest,is,Nat.lt_trans after further,kept⟩
      · split
        · exact ⟨_,rfl,.inl rfl⟩
        · exact ⟨_,rfl,.inr ⟨pos',destpage',rfl,after,within,page'⟩⟩

theorem uncompressPage_safe (compbuf : List UInt8) (pos : Nat) {destpage : List UInt8} (page : destpage.length = xcPageSize) :
    ∃ outcome, uncompressPage compbuf pos destpage = some outcome ∧ Advances compbuf pos outcome := by
  unfold uncompressPage
  split
  · exact ⟨_,rfl,.inl rfl⟩
  next inside =>
  have inside := Nat.not_le.mp inside
  rw [List.getElem?_eq_getElem inside]
  dsimp only
  split
  · exact ⟨_,rfl,.inr ⟨_,_,rfl,Nat.lt_succ_self pos,inside,page⟩⟩
  split
  · split
    · exact ⟨_,rfl,.inl rfl⟩
    · next fits =>
      simp only [fullPageSize] at fits
      have source : pos + 1 + xcPageSize ≤ compbuf.length := by omega
      have target : 0 + xcPageSize ≤ destpage.length := by omega
      obtain ⟨copied,size⟩ := copyIn_ok source target
      rw [copied]
      refine ⟨_,rfl,.inr ⟨_,_,rfl,?_,?_,size.trans page⟩⟩ <;> simp only [fullPageSize] <;> omega
  · exact readRuns_safe (Nat.le_refl _) inside page 0

structure Page where
  bytes : List UInt8
  size : bytes.length = xcPageSize

theorem result_small (small : l.dest.length ≤ worstCompPageSize) :
    l.result.stored.length ≤ worstCompPageSize ∧ l.result.out.length ≤ worstCompPageSize := by
  refine ⟨small,?_⟩
  unfold Loop.result
  dsimp only
  split
  · rw [List.length_singleton]
    decide
  · exact small

theorem compressPage_small {pos bufsize : Nat} {new cache : List UInt8} {r : Compressed} (whole : new.length = xcPageSize)
    (ran : compressPage pos bufsize new cache = some r) :
    (r.stored.length ≤ worstCompPageSize ∧ r.out.length ≤ worstCompPageSize) ∧ pos + worstCompPageSize ≤ bufsize := by
  by_cases full : bufsize < pos + worstCompPageSize
  · rw [compressPage,if_pos full] at ran
    cases ran
  · rw [compressPage,if_neg full] at ran
    rw [← Option.some.inj ran]
    exact ⟨result_small (compressLoop_small whole cache),Nat.not_lt.mp full⟩

theorem page_coder_in_bounds :
    (∀ (pos bufsize : Nat) (srcpage cachePage : Page) (r : Compressed),
      compressPage pos bufsize srcpage.bytes cachePage.bytes = some r →
        r.out.length ≤ worstCompPageSize ∧ pos + r.out.length ≤ bufsize ∧ pos + r.stored.length ≤ bufsize) ∧
    ∀ (compbuf : List UInt8) (pos : Nat) (destpage : Page),
      ∃ outcome, uncompressPage compbuf pos destpage.bytes = some outcome ∧ (outcome = .failed ∨
        ∃ pos' dest, outcome = .done pos' dest ∧ pos < pos' ∧ pos' ≤ compbuf.length ∧ dest.length = xcPageSize) := by
  constructor
  · intro pos bufsize srcpage cachePage r ran
    obtain ⟨⟨stored,out⟩,room⟩ := compressPage_small srcpage.size ran
    exact ⟨out,by omega,by omega⟩
  · intro compbuf pos destpage
    exact uncompressPage_safe compbuf pos destpage.size

def constant (b : UInt8) : Page := ⟨List.replicate xcPageSize b,List.length_replicate⟩

theorem page_coder_in_bounds_exactly : ∃ r, compressPage 3 4108 (constant 1).bytes (constant 0).bytes = some r ∧
    r.out.length ≤ worstCompPageSize ∧ 3 + r.out.length ≤ 4108 ∧ 3 + r.stored.length ≤ 4108 := by
  have fits : ¬4108 < 3 + worstCompPageSize := by decide
  have ran : compressPage 3 4108 (constant 1).bytes (constant 0).bytes = 
      some (compressLoop (constant 1).bytes (constant 0).bytes).result := by
    rw [compressPage,if_neg fits]
  exact ⟨_,ran,page_coder_in_bounds.1 3 4108 (constant 1) (constant 0) _ ran⟩

end XenAet.DeltaCoder
