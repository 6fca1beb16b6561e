import XenAet.EventFifo
import XenAet.Library.Run

namespace XenAet.FifoLink
open Library EventFifo

-- Where `evtchn_fifo_set_link` is between two atomic operations; `w` is its
-- local copy of the word.
inductive Place where
  | read
  | firstTry (w : EventWord)
  | setBusy
  | reread
  | again (n : Nat) (w : EventWord)
  | clearBusy (ret : Bool)
  | returned (ret : Bool)
  deriving DecidableEq

-- `changes` counts how often others have changed the word since it was read
-- again.
structure State where
  word : EventWord
  place : Place
  changes : Nat
  deriving DecidableEq

def tries : Nat := 4

-- `(old & ~(BUSY | LINK_MASK)) | link`
def newWord (old : EventWord) (link : Nat) : EventWord := {old with busy := false,link}

def callStep (link : Nat) (s : State) : Option State :=
  match s.place with
  | .read => some {s with place := .firstTry s.word}
  | .firstTry w =>
    if !w.linked then some {s with place := .returned false}
    else if s.word = w then some {s with word := newWord w link,place := .returned true}
    else some {s with place := .setBusy}
  | .setBusy => some {s with word := {s.word with busy := true},place := .reread}
  | .reread => some {s with place := .again 0 s.word,changes := 0}
  | .again n w =>
    if !w.linked then some {s with place := .clearBusy false}
    else if s.word = w then some {s with word := newWord w link,place := .returned true}
    else some {s with place := if n + 1 < tries then .again (n+1) s.word else .clearBusy true}
  | .clearBusy ret => some {s with word := {s.word with busy := false},place := .returned ret}
  | .returned _ => none

-- What others do to the word: the guest, and Xen on other CPUs.
inductive Other where
  | guestMask
  | guestUnmask
  | guestClearPending
  | guestUnlink
  | setPending
  | unmask
  deriving DecidableEq

def otherStep (w : EventWord) : Other → Option EventWord
  | .guestMask => some {w with masked := true}
  | .guestUnmask => if w.busy then none else some {w with masked := false}
  | .guestClearPending => some {w with pending := false}
  | .guestUnlink => some {w with linked := false,link := 0}
  | .setPending => some {w with pending := true}
  | .unmask => some {w with masked := false}

inductive Event where
  | call
  | other (o : Other)

def step (link : Nat) (s : State) : Event → Option State
  | .call => callStep link s
  | .other o => (otherStep s.word o).map fun word =>
    {s with word,changes := if word = s.word then s.changes else s.changes + 1}

def begin_ (word : EventWord) : State := ⟨word,.read,0⟩

-- Others change the word fewer times than there are tries left behind the
-- second read.
def Few (s : State) : Event → Prop
  | .call => True
  | .other o =>
    match s.place with
    | .again _ _ => ∀ word ∈ otherStep s.word o, word = s.word ∨ s.changes + 1 < tries
    | _ => True

instance (s : State) : ∀ event, Decidable (Few s event)
  | .call => .isTrue trivial
  | .other o =>
    match place : s.place with
    | .again _ _ => decidable_of_iff (∀ word ∈ otherStep s.word o, word = s.word ∨ s.changes + 1 < tries) (by simp [Few,place])
    | .read | .firstTry _ | .setBusy | .reread | .clearBusy _ | .returned _ => .isTrue (by simp [Few,place])

-- Each failed try is one change since the word was read again.
def Inv (s : State) : Prop :=
  match s.place with
  | .again n w => n + (if s.word = w then 0 else 1) ≤ s.changes ∧ s.changes < tries
  | .clearBusy ret => ret = false
  | _ => True

def Holds (link : Nat) (s : State) : Prop := s.word.linked = true ∧ s.word.link = link

section
variable {link : Nat} {s next : State} {word : EventWord}

theorem call_inv (inv : Inv s) (taken : callStep link s = some next) :
    Inv next ∧ (next.place = .returned true → Holds link next) := by
  obtain ⟨word,place,changes⟩ := s
  cases place with
  | read =>
    cases taken
    exact ⟨trivial,nofun⟩
  | firstTry w =>
    simp only [callStep] at taken
    split at taken
    · cases taken
      exact ⟨trivial,nofun⟩
    · rename_i linked
      split at taken
      · cases taken
        exact ⟨trivial,fun _ => ⟨by simpa [newWord] using linked,rfl⟩⟩
      · cases taken
        exact ⟨trivial,nofun⟩
  | setBusy =>
    cases taken
    exact ⟨trivial,nofun⟩
  | reread =>
    cases taken
    refine ⟨⟨?_,show 0 < tries by decide⟩,nofun⟩
    simp
  | again n w =>
    obtain ⟨counted,few⟩ := inv
    simp only [callStep] at taken
    split at taken
    · cases taken
      exact ⟨rfl,nofun⟩
    · rename_i linked
      split at taken
      · cases taken
        exact ⟨trivial,fun _ => ⟨by simpa [newWord] using linked,rfl⟩⟩
      · rename_i differs
        cases taken
        dsimp only at counted few differs
        rw [if_neg differs] at counted
        rw [if_pos (by omega)]
        refine ⟨⟨?_,few⟩,nofun⟩
        simpa using counted
  | clearBusy ret =>
    cases taken
    refine ⟨trivial,fun same => ?_⟩
    cases same
    cases inv
  | returned ret => cases taken

theorem other_inv (inv : Inv s) (few : Few s (.other o)) (moved : otherStep s.word o = some word) :
    Inv {s with word,changes := if word = s.word then s.changes else s.changes + 1} := by
  obtain ⟨old,place,changes⟩ := s
  cases place with
  | again n w =>
    obtain ⟨counted,bound⟩ := inv
    by_cases same : word = old
    · subst same
      dsimp only
      rw [if_pos rfl]
      exact ⟨counted,bound⟩
    · have less := (few word moved).resolve_left same
      dsimp only at counted less ⊢
      rw [if_neg same]
      refine ⟨Nat.le_trans (Nat.add_le_add_left ?_ n) (Nat.add_le_add_right (Nat.le_of_add_right_le counted) 1),less⟩
      split <;> omega
  | clearBusy ret => exact inv
  | read | firstTry _ | setBusy | reread | returned _ => trivial

-- In every run in which others change the word at most three times behind the
-- second read.
theorem set_link_tells_truth {events : List Event} {last : State}
    (few : Run.Guarded Few (step link) (begin_ word) events) (ran : Run.run (step link) (begin_ word) events = some last)
    (one : last.place = .returned true) :
    ∃ first, first <+: events ∧ ∃ s, Run.run (step link) (begin_ word) first = some s ∧ Holds link s := by
  have kept := Run.guarded_history (P:=fun past s => Run.run (step link) (begin_ word) past = some s ∧ Inv s ∧
    (s.place = .returned true → ∃ first, first <+: past ∧ ∃ t, Run.run (step link) (begin_ word) first = some t ∧ Holds link t))
    (fun past s event next held allowed taken => by
      obtain ⟨here,inv,linked⟩ := held
      have there : Run.run (step link) (begin_ word) (past ++ [event]) = some next := by
        rw [Run.run_append,here]
        simpa using taken
      refine ⟨there,?_⟩
      cases event with
      | call =>
        obtain ⟨kept,now⟩ := call_inv inv taken
        exact ⟨kept,fun back => ⟨_,List.prefix_refl _,next,there,now back⟩⟩
      | other o =>
        obtain ⟨after,moved,same⟩ := Option.map_eq_some_iff.mp taken
        cases same
        refine ⟨other_inv inv allowed moved,fun back => ?_⟩
        obtain ⟨first,before,seen⟩ := linked back
        exact ⟨first,before.trans (List.prefix_append ..),seen⟩)
    [] ⟨rfl,trivial,nofun⟩ few ran
  exact kept.2.2 one

end

def pendingTail : EventWord := ⟨true,false,true,false,0⟩

-- Three changes behind the second read, and the fourth try links.
def threeChanges : List Event :=
  [.call,.other .guestClearPending,.call,.call,.call,.other .setPending,.call,.other .guestMask,.call,.other .unmask,.call,.call]

theorem set_link_tells_truth_three : ∃ first, first <+: threeChanges ∧ ∃ s,
    Run.run (step 9) (begin_ pendingTail) first = some s ∧ Holds 9 s := by
  have ran : Run.run (step 9) (begin_ pendingTail) threeChanges = some ⟨⟨true,false,true,false,9⟩,.returned true,3⟩ := by
    decide +kernel
  exact set_link_tells_truth (by decide +kernel) ran rfl

-- The guest clears `PENDING` and another CPU sets it again, four times in all.
def fourChanges : List Event :=
  [.call,.other .guestClearPending,.call,.call,.call,.other .setPending,.call,.other .guestClearPending,.call,
    .other .setPending,.call,.other .guestClearPending,.call,.call]

theorem one_without_link :
    Run.run (step 9) (begin_ pendingTail) fourChanges = some ⟨⟨false,false,true,false,0⟩,.returned true,4⟩ ∧
      ∀ first, first <+: fourChanges → ∀ s, Run.run (step 9) (begin_ pendingTail) first = some s →
        s.word.linked = true ∧ s.word.link = 0 := by
  have all : ∀ first ∈ fourChanges.inits, (Run.run (step 9) (begin_ pendingTail) first).all
      (fun s => s.word.linked && s.word.link == 0) = true := by decide +kernel
  refine ⟨by decide +kernel,fun first before s ran => ?_⟩
  have here := all first (List.mem_inits ..|>.mpr before)
  simpa [ran] using here

end XenAet.FifoLink
