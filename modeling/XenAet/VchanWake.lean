import XenAet.VchanStream

namespace XenAet.VchanWake
open XenAet.Vchan
open XenAet.VchanCopies
open XenAet.VchanStream
open Library

variable {st st' : State} {s : Side} {o : Output} {i : Input} {n : Nat} {bit : Bit} {q : Prop}

def space (st : State) (s : Side) : Nat := rawGetBufferSpace (st.ring s)

def ready (st : State) (s : Side) : Nat := rawGetDataReady (st.ring s.other)

-- An end between its index update and the test of the flag, and between the
-- test and the event.
def Telling : Bit → Pc → Prop
  | .write,.outTell _ _ => True
  | .read,.inTell _ _ => True
  | _,_ => False

def Eventing : Bit → Pc → Prop
  | .write,.outEvent _ _ => True
  | .read,.inEvent _ _ => True
  | _,_ => False

-- `s` will see the peer's close, or has an event coming that makes it look.
def Warned (st : State) (s : Side) : Prop :=
  libxenvchanIsOpen st s = true ∨ st.pending s = true ∨ st.pc s.other = .closeEvent

def Signalled (st : State) (s : Side) (bit : Bit) : Prop := st.pending s = true ∨ Eventing bit (st.pc s.other)

def Asked (st : State) (s : Side) (bit : Bit) : Prop := Signalled st s bit ∨ st.notify s.other bit = true

-- `q` says that nothing has come since `s` looked. It may fail only while the
-- peer is about to find the flag that `s` set.
def Fresh (st : State) (s : Side) (bit : Bit) (q : Prop) : Prop :=
  Signalled st s bit ∨ (st.notify s.other bit = true ∧ (Telling bit (st.pc s.other) ∨ q))

theorem Asked.fresh (asked : Asked st s bit) (now : q) : Fresh st s bit q :=
  asked.imp_right fun set_ => ⟨set_,.inr now⟩

theorem Fresh.mono {q' : Prop} (fresh : Fresh st s bit q) (implies : q → q') : Fresh st s bit q' :=
  fresh.imp_right fun both => ⟨both.1,both.2.imp_right implies⟩

def outNeed (o : Output) (space : Nat) : Prop :=
  match o.kind with
  | .send => o.data.length ≤ space
  | .write => 0 < space

def inNeed (i : Input) (ready : Nat) : Prop :=
  match i.kind with
  | .recv => i.size ≤ ready
  | .read => 0 < ready

def WaitsAfter (o : Output) (n : Nat) : Prop := o.kind = .write ∧ o.blocking = true ∧ o.pos + n < o.data.length

def Asks (i : Input) : Prop := ¬(i.kind = .read ∧ i.blocking = true ∧ i.size = 0)

def WakesAt (st : State) (s : Side) : Pc → Prop
  | .outOpen o => o.pos ≤ o.data.length
  | .outLook o | .outAsk o => o.pos ≤ o.data.length ∧ Warned st s
  | .outRelook o => o.pos ≤ o.data.length ∧ Warned st s ∧ Asked st s .read
  | .copy o n | .copyRest o n | .publish o n => WaitsAfter o n → Warned st s ∧ Fresh st s .read (space st s = n)
  | .outTell o n | .outEvent o n => WaitsAfter o n → Warned st s ∧ Fresh st s .read (space st s = 0)
  | .outWait o => o.pos ≤ o.data.length ∧ Warned st s ∧ Fresh st s .read (¬outNeed o (space st s))
  | .inLook i | .inAsk i => Asks i
  | .inRelook i => Asks i ∧ Asked st s .write
  | .inOpen i => Asks i ∧ (i.blocking = true → Fresh st s .write (¬inNeed i (ready st s)))
  | .inWait i => Asks i ∧ Warned st s ∧ Fresh st s .write (¬inNeed i (ready st s))
  | _ => True

def Wakes (st : State) (s : Side) : Prop := WakesAt st s (st.pc s)

-- All that a step of `s` does that the other end can notice.
structure Moves (st st' : State) (s : Side) : Prop where
  pc : st'.pc s.other = st.pc s.other
  pending : st.pending s.other = true → st'.pending s.other = true
  events : ∀ bit, Eventing bit (st.pc s) → st'.pending s.other = true
  closes : st.pc s = .closeEvent → st'.pending s.other = true
  flag : ∀ bit, st.notify s bit = true → st'.notify s bit = true ∨ Eventing bit (st'.pc s)
  tells : ∀ bit, Telling bit (st.pc s) → st.notify s bit = true → Eventing bit (st'.pc s)
  space : space st' s.other = space st s.other ∨ Telling .read (st'.pc s)
  ready : ready st' s.other = ready st s.other ∨ Telling .write (st'.pc s)
  open_ : libxenvchanIsOpen st s.other = true → libxenvchanIsOpen st' s.other = true ∨ st'.pc s = .closeEvent

theorem Moves.warned (moves : Moves st st' s) (warned : Warned st s.other) : Warned st' s.other := by
  rw [Warned,other_other] at warned ⊢
  rcases warned with isOpen | pending | closing
  · exact (moves.open_ isOpen).imp_right .inr
  · exact .inr (.inl (moves.pending pending))
  · exact .inr (.inl (moves.closes closing))

theorem Moves.signalled (moves : Moves st st' s) (signalled : Signalled st s.other bit) : Signalled st' s.other bit := by
  rw [Signalled,other_other] at signalled ⊢
  rcases signalled with pending | events
  · exact .inl (moves.pending pending)
  · exact .inl (moves.events bit events)

theorem Moves.asked (moves : Moves st st' s) (asked : Asked st s.other bit) : Asked st' s.other bit := by
  rcases asked with signalled | set_
  · exact .inl (moves.signalled signalled)
  · rw [other_other] at set_
    rw [Asked,Signalled,other_other]
    rcases moves.flag bit set_ with kept | events
    · exact .inr kept
    · exact .inl (.inr events)

theorem Moves.fresh {q' : Prop} (moves : Moves st st' s) (fresh : Fresh st s.other bit q)
    (same : (q → q') ∨ Telling bit (st'.pc s)) : Fresh st' s.other bit q' := by
  rcases fresh with signalled | ⟨set_,tells | quiet⟩
  · exact .inl (moves.signalled signalled)
  · rw [other_other] at set_ tells
    rw [Fresh,Signalled,other_other]
    exact .inl (.inr (moves.tells bit tells set_))
  · rw [other_other] at set_
    rw [Fresh,Signalled,other_other]
    rcases moves.flag bit set_ with kept | events
    · exact .inr ⟨kept,same.symm.imp_right fun implies => implies quiet⟩
    · exact .inl (.inr events)

theorem Moves.fresh_space (moves : Moves st st' s) (P : Nat → Prop) (fresh : Fresh st s.other .read (P (VchanWake.space st s.other))) :
    Fresh st' s.other .read (P (VchanWake.space st' s.other)) :=
  moves.fresh fresh (moves.space.imp_left fun same => by rw [same]; exact id)

theorem Moves.fresh_ready (moves : Moves st st' s) (P : Nat → Prop) (fresh : Fresh st s.other .write (P (VchanWake.ready st s.other))) :
    Fresh st' s.other .write (P (VchanWake.ready st' s.other)) :=
  moves.fresh fresh (moves.ready.imp_left fun same => by rw [same]; exact id)

theorem Moves.wakes (moves : Moves st st' s) (wakes : Wakes st s.other) : Wakes st' s.other := by
  rw [Wakes] at wakes ⊢
  rw [moves.pc]
  generalize st.pc s.other = pc at wakes ⊢
  cases pc with
  | outOpen o => exact wakes
  | outLook o | outAsk o => exact ⟨wakes.1,moves.warned wakes.2⟩
  | outRelook o => exact ⟨wakes.1,moves.warned wakes.2.1,moves.asked wakes.2.2⟩
  | copy o n | copyRest o n | publish o n => exact fun waits => ⟨moves.warned (wakes waits).1,moves.fresh_space (· = n) (wakes waits).2⟩
  | outTell o n | outEvent o n => exact fun waits => ⟨moves.warned (wakes waits).1,moves.fresh_space (· = 0) (wakes waits).2⟩
  | outWait o => exact ⟨wakes.1,moves.warned wakes.2.1,moves.fresh_space (¬outNeed o ·) wakes.2.2⟩
  | inLook i | inAsk i => exact wakes
  | inRelook i => exact ⟨wakes.1,moves.asked wakes.2⟩
  | inOpen i => exact ⟨wakes.1,fun blocks => moves.fresh_ready (¬inNeed i ·) (wakes.2 blocks)⟩
  | inWait i => exact ⟨wakes.1,moves.warned wakes.2.1,moves.fresh_ready (¬inNeed i ·) wakes.2.2⟩
  | _ => trivial

structure Calm (pc : Pc) : Prop where
  tells : ∀ bit, ¬Telling bit pc
  events : ∀ bit, ¬Eventing bit pc
  closes : pc ≠ .closeEvent

-- The counters of the steps that the other end is told by.
def Loud : Pc → Prop
  | .outTell _ _ | .inTell _ _ | .outEvent _ _ | .inEvent _ _ | .closeEvent => True
  | _ => False

theorem calm_of {pc : Pc} (at_ : st.pc s = pc) (quiet : ¬Loud pc) : Calm (st.pc s) := by
  rw [at_]
  refine ⟨fun bit told => ?_,fun bit told => ?_,fun same => ?_⟩
  · cases pc <;> cases bit <;> first | exact told | exact quiet trivial
  · cases pc <;> cases bit <;> first | exact told | exact quiet trivial
  · rw [same] at quiet
    exact quiet trivial

theorem isOpen_congr (live : st'.live = st.live) (persist : st'.serverPersist = st.serverPersist) (s : Side) :
    libxenvchanIsOpen st' s = libxenvchanIsOpen st s := by
  cases s <;> simp only [libxenvchanIsOpen,live,persist]

theorem moves_of (calm : Calm (st.pc s)) (pc : st'.pc s.other = st.pc s.other) (pending : st'.pending s.other = st.pending s.other)
    (notify : st'.notify s = st.notify s) (live : st'.live = st.live) (persist : st'.serverPersist = st.serverPersist)
    (room : space st' s.other = space st s.other ∨ Telling .read (st'.pc s))
    (data : ready st' s.other = ready st s.other ∨ Telling .write (st'.pc s)) : Moves st st' s where
  pc := pc
  pending := by rw [pending]; exact id
  events bit event := absurd event (calm.events bit)
  closes close := absurd close calm.closes
  flag bit set_ := .inl (by rw [notify]; exact set_)
  tells bit tell := absurd tell (calm.tells bit)
  space := room
  ready := data
  open_ := by rw [isOpen_congr live persist]; exact .inl

@[simp] theorem next_pending : (next st s nx).pending = st.pending := by cases nx <;> rfl

@[simp] theorem next_notify : (next st s nx).notify = st.notify := by cases nx <;> rfl

@[simp] theorem next_live : (next st s nx).live = st.live := by cases nx <;> rfl

@[simp] theorem next_persist : (next st s nx).serverPersist = st.serverPersist := by cases nx <;> rfl

theorem space_congr (ring : st'.ring = st.ring) (s : Side) : space st' s = space st s := by rw [space,space,ring]

theorem ready_congr (ring : st'.ring = st.ring) (s : Side) : ready st' s = ready st s := by rw [ready,ready,ring]

theorem moves_next {nx : Next} (calm : Calm (st.pc s)) : Moves st (next st s nx) s :=
  moves_of calm (by simp) (by simp) (by simp) (by simp) (by simp) (.inl (space_congr (by simp) _)) (.inl (ready_congr (by simp) _))

theorem moves_setPc {pc : Pc} (calm : Calm (st.pc s)) : Moves st (setPc st s pc) s := by
  change Moves st (next st s (.go pc)) s
  exact moves_next calm

theorem moves_ask {pc : Pc} (calm : Calm (st.pc s)) (bit : Bit) : Moves st (setPc (setNotify st s.other bit true) s pc) s :=
  moves_of calm (by simp [setPc,setNotify]) rfl (by simp [setPc,setNotify]) rfl rfl (.inl rfl) (.inl rfl)

theorem moves_wait {pc : Pc} (calm : Calm (st.pc s)) : Moves st (setPc (setPending st s false) s pc) s :=
  moves_of calm (by simp [setPc,setPending]) (by simp [setPc,setPending]) rfl rfl rfl (.inl rfl) (.inl rfl)

-- The writing end fills its ring, and only its last step shows in the indexes.
theorem moves_write {pc : Pc} {ring : Ring} (calm : Calm (st.pc s))
    (data : rawGetDataReady ring = rawGetDataReady (st.ring s) ∨ Telling .write pc) :
    Moves st (setPc (setRing st s ring) s pc) s := by
  refine moves_of calm (by simp [setPc,setRing]) rfl rfl rfl rfl (.inl ?_) ?_
  · simp [space,setPc,setRing]
  · simpa [ready,setPc,setRing] using data

theorem moves_consume {pc : Pc} {ring : Ring} (calm : Calm (st.pc s)) (tells : Telling .read pc) :
    Moves st (setPc (setRing st s.other ring) s pc) s := by
  refine moves_of calm (by simp [setPc,setRing]) rfl rfl rfl rfl (.inr ?_) (.inl ?_)
  · simpa [setPc] using tells
  · simp [ready,setPc,setRing]

-- The flag is set: it is cleared on the way to the event.
theorem moves_tell {pc : Pc} (told : Telling bit (st.pc s)) (events : Eventing bit pc) :
    Moves st (setPc (setNotify st s bit false) s pc) s where
  pc := by simp [setPc,setNotify]
  pending := id
  events other event := by cases at_ : st.pc s <;> cases bit <;> cases other <;> simp [at_,Telling,Eventing] at told event
  closes close := by rw [close] at told; cases bit <;> exact told.elim
  flag other set_ := by
    by_cases same : other = bit
    · subst same
      exact .inr (by simpa [setPc] using events)
    · exact .inl (by simpa [setPc,setNotify,Function.update_of_ne same] using set_)
  tells other tell set_ := by
    have same : other = bit := by
      cases at_ : st.pc s <;> cases bit <;> cases other <;> simp [at_,Telling] at told tell ⊢
    subst same
    simpa [setPc] using events
  space := .inl rfl
  ready := .inl rfl
  open_ := .inl

theorem moves_untold {nx : Next} (told : Telling bit (st.pc s)) (clear : st.notify s bit = false) : Moves st (next st s nx) s where
  pc := by simp
  pending := by simp
  events other event := by cases at_ : st.pc s <;> cases bit <;> cases other <;> simp [at_,Telling,Eventing] at told event
  closes close := by rw [close] at told; cases bit <;> exact told.elim
  flag other set_ := .inl (by simpa using set_)
  tells other tell set_ := by
    have same : other = bit := by
      cases at_ : st.pc s <;> cases bit <;> cases other <;> simp [at_,Telling] at told tell ⊢
    rw [same,clear] at set_
    cases set_
  space := .inl (space_congr (by simp) _)
  ready := .inl (ready_congr (by simp) _)
  open_ isOpen := .inl ((isOpen_congr next_live next_persist _).trans isOpen)

theorem moves_event {nx : Next} (quiet : ∀ bit, ¬Telling bit (st.pc s)) : Moves st (next (setPending st s.other true) s nx) s where
  pc := by simp [setPending]
  pending _ := by simp [setPending]
  events _ _ := by simp [setPending]
  closes _ := by simp [setPending]
  flag other set_ := .inl (by simpa [setPending] using set_)
  tells other tell := absurd tell (quiet other)
  space := .inl (space_congr (by simp [setPending]) _)
  ready := .inl (ready_congr (by simp [setPending]) _)
  open_ isOpen := .inl ((isOpen_congr (next_live.trans rfl) (next_persist.trans rfl) _).trans isOpen)

theorem moves_close (calm : Calm (st.pc s)) : Moves st (setPc (setDead st s) s .closeEvent) s where
  pc := by simp [setPc,setDead]
  pending := id
  events bit event := absurd event (calm.events bit)
  closes close := absurd close calm.closes
  flag _ set_ := .inl set_
  tells bit tell := absurd tell (calm.tells bit)
  space := .inl rfl
  ready := .inl rfl
  open_ _ := .inr (by simp [setPc])

theorem advance_moves (taken : advance st s = some st') : Moves st st' s := by
  rw [advance] at taken
  cases at_ : st.pc s <;> rw [at_] at taken <;> dsimp only at taken
  case idle | closed => cases taken
  case outTell o n =>
    have told : Telling .write (st.pc s) := by rw [at_]; trivial
    split at taken <;> cases taken
    · exact moves_tell told trivial
    · rename_i clear
      exact moves_untold told (Bool.not_eq_true _ ▸ clear)
  case inTell i got =>
    have told : Telling .read (st.pc s) := by rw [at_]; trivial
    split at taken <;> cases taken
    · exact moves_tell told trivial
    · rename_i clear
      exact moves_untold told (Bool.not_eq_true _ ▸ clear)
  case outEvent | inEvent =>
    cases taken
    exact moves_event (by rw [at_]; intro bit; cases bit <;> exact id)
  case closeEvent =>
    cases taken
    change Moves st (next (setPending st s.other true) s (.go .closed)) s
    exact moves_event (by rw [at_]; intro bit; cases bit <;> exact id)
  all_goals have rests := calm_of at_ id
  case outOpen | outLook | outRelook | inLook | inRelook | inOpen =>
    cases taken
    exact moves_next rests
  case outAsk o =>
    cases taken
    exact moves_ask rests .read
  case copy o n =>
    cases taken
    exact moves_write rests (.inl rfl)
  case copyRest o n =>
    cases taken
    refine moves_write rests (.inl ?_)
    rw [copySecond]
    split <;> rfl
  case publish o n =>
    cases taken
    exact moves_write rests (.inr trivial)
  case outWait | inWait =>
    split at taken <;> cases taken
    exact moves_wait rests
  case inAsk i =>
    cases taken
    exact moves_ask rests .write
  case fetch | fetchRest =>
    cases taken
    exact moves_setPc rests
  case consume i got =>
    cases taken
    exact moves_consume rests trivial
  case closing =>
    cases taken
    exact moves_close rests

-- A step of `s` itself leaves alone what it is waiting to be told.
structure Keeps (st st' : State) (s : Side) : Prop where
  pc : st'.pc s.other = st.pc s.other
  pending : st'.pending s = st.pending s
  notify : st'.notify s.other = st.notify s.other
  isOpen : libxenvchanIsOpen st' s = libxenvchanIsOpen st s

theorem Keeps.warned (keeps : Keeps st st' s) (warned : Warned st s) : Warned st' s := by
  rw [Warned,keeps.pc,keeps.pending,keeps.isOpen]
  exact warned

theorem Keeps.fresh {q' : Prop} (keeps : Keeps st st' s) (fresh : Fresh st s bit q) (implies : q → q') : Fresh st' s bit q' := by
  rw [Fresh,Signalled,keeps.pc,keeps.pending,keeps.notify]
  exact fresh.mono implies

theorem Keeps.waiting {q' : Prop} (keeps : Keeps st st' s) (waits : Warned st s ∧ Fresh st s bit q) (implies : q → q') :
    Warned st' s ∧ Fresh st' s bit q' := ⟨keeps.warned waits.1,keeps.fresh waits.2 implies⟩

theorem keeps_ring (after : Ring) : Keeps st (setRing st s after) s := ⟨rfl,rfl,rfl,isOpen_congr rfl rfl s⟩

theorem Keeps.wakesAt {pc : Pc} (keeps : Keeps st st' s) (room : space st' s = space st s) (data : ready st' s = ready st s)
    (wakes : WakesAt st s pc) : WakesAt st' s pc := by
  cases pc <;> simp only [WakesAt,Warned,Asked,Fresh,Signalled,keeps.pc,keeps.pending,keeps.notify,keeps.isOpen,room,data] at wakes ⊢ <;>
    exact wakes

theorem wakes_next {nx : Next} (wakes : WakesAt st s (nextPc nx)) : Wakes (next st s nx) s := by
  have keeps : Keeps st (next st s nx) s :=
    ⟨by simp,by simp,by simp,isOpen_congr next_live next_persist s⟩
  rw [Wakes,next_pc,Function.update_self]
  exact keeps.wakesAt (space_congr next_ring s) (ready_congr next_ring s) wakes

theorem wakes_setPc {pc : Pc} (wakes : WakesAt st s pc) : Wakes (setPc st s pc) s := by
  change Wakes (next st s (.go pc)) s
  exact wakes_next wakes

-- With room for all of it, what is copied is the rest of the data.
theorem look_wakes (within : o.pos ≤ o.data.length) (room : o.data.length - o.pos ≤ space st s) (start : OutOk o) (ringSize : Nat) :
    WakesAt st s (nextPc (outJudge o ringSize (space st s))) := by
  rw [outJudge]
  cases kind : o.kind with
  | send =>
    dsimp only
    have zero : o.pos = 0 := by
      rcases start with zero | ⟨isWrite,_⟩
      · exact zero
      · rw [kind] at isWrite
        cases isWrite
    rw [if_pos (by omega)]
    intro waits
    cases kind.symm.trans waits.1
  | write =>
    dsimp only
    split
    · intro waits
      have more := waits.2.2
      omega
    · rename_i none_
      split
      · trivial
      · rw [if_pos (by omega)]
        trivial

theorem relook_wakes (within : o.pos ≤ o.data.length) (warned : Warned st s) (asked : Asked st s .read) (ringSize : Nat) :
    WakesAt st s (nextPc (outJudge o ringSize (space st s))) := by
  rw [outJudge]
  cases kind : o.kind with
  | send =>
    dsimp only
    split
    · intro waits
      cases kind.symm.trans waits.1
    · rename_i short
      split
      · trivial
      · split
        · trivial
        · exact ⟨within,warned,asked.fresh (by rw [outNeed,kind]; exact short)⟩
  | write =>
    dsimp only
    split
    · intro waits
      have more := waits.2.2
      exact ⟨warned,asked.fresh (by omega)⟩
    · rename_i none_
      split
      · trivial
      · split
        · trivial
        · exact ⟨within,warned,asked.fresh (by rw [outNeed,kind]; dsimp only; omega)⟩

theorem sent_wakes (fits : o.pos + n ≤ o.data.length) (wakes : WaitsAfter o n → Warned st s ∧ Fresh st s .read (space st s = 0)) :
    WakesAt st s (nextPc (outSent o n)) := by
  rw [outSent]
  split
  · rename_i blocks
    split
    · trivial
    · rename_i more
      obtain ⟨warned,fresh⟩ := wakes ⟨blocks.1,blocks.2,by omega⟩
      refine ⟨fits,warned,fresh.mono fun zero => ?_⟩
      have kind : (o.more n).kind = .write := blocks.1
      rw [outNeed,kind,zero]
      exact Nat.lt_irrefl 0
  · trivial

theorem inLook_wakes (asks : Asks i) (there : i.size ≤ ready st s) : WakesAt st s (nextPc (inJudge i (ready st s))) := by
  rw [inJudge]
  cases kind : i.kind with
  | recv =>
    dsimp only
    rw [if_pos there]
    trivial
  | read =>
    dsimp only
    split
    · trivial
    · rename_i empty
      exact ⟨asks,fun blocks => absurd ⟨kind,blocks,by omega⟩ asks⟩

theorem inRelook_wakes (asks : Asks i) (asked : Asked st s .write) : WakesAt st s (nextPc (inJudge i (ready st s))) := by
  rw [inJudge]
  cases kind : i.kind with
  | recv =>
    dsimp only
    split
    · trivial
    · rename_i short
      exact ⟨asks,fun _ => asked.fresh (by rw [inNeed,kind]; exact short)⟩
  | read =>
    dsimp only
    split
    · trivial
    · rename_i empty
      exact ⟨asks,fun _ => asked.fresh (by rw [inNeed,kind]; dsimp only; omega)⟩

theorem advance_wakes (flows : Flows st) (wakes : Wakes st s) (taken : advance st s = some st') : Wakes st' s := by
  have own := flows s
  rw [advance] at taken
  rw [Wakes] at wakes
  generalize st.pc s = pc at own wakes taken
  cases pc with
  | idle | closed => cases taken
  | outOpen o =>
    cases taken
    refine wakes_next ?_
    split
    · rename_i isOpen
      exact ⟨wakes,.inl isOpen⟩
    · trivial
  | outLook o =>
    cases taken
    refine wakes_next ?_
    split
    · rename_i room
      exact look_wakes wakes.1 room (own.ok o rfl) _
    · exact wakes
  | outAsk o =>
    cases taken
    refine wakes_setPc ⟨wakes.1,wakes.2,.inr ?_⟩
    simp [setNotify]
  | outRelook o =>
    cases taken
    exact wakes_next (relook_wakes wakes.1 wakes.2.1 wakes.2.2 _)
  | copy o n =>
    cases taken
    refine wakes_setPc fun waits => (keeps_ring _).waiting (wakes waits) fun room => ?_
    have same : rawGetBufferSpace (copyFirst (st.ring s) o n) = rawGetBufferSpace (st.ring s) := rfl
    simpa [space,setRing,same] using room
  | copyRest o n =>
    cases taken
    refine wakes_setPc fun waits => (keeps_ring _).waiting (wakes waits) fun room => ?_
    have same : rawGetBufferSpace (copySecond (st.ring s) o n) = rawGetBufferSpace (st.ring s) := by
      rw [copySecond]
      split <;> rfl
    simpa [space,setRing,same] using room
  | publish o n =>
    obtain ⟨fits,held⟩ := own.writing
    have after := produce_sound own.sound fits held
    cases taken
    refine wakes_setPc fun waits => (keeps_ring _).waiting (wakes waits) fun room => ?_
    -- The write takes all the room it saw.
    have length : (produce (st.ring s) o n).put.length = (st.ring s).put.length + n := by
      rw [produce,List.length_append,length_piece fits.1]
    have size : (produce (st.ring s) o n).size = (st.ring s).size := rfl
    have gone : (produce (st.ring s) o n).taken = (st.ring s).taken := rfl
    have came := own.sound.came_le
    rw [space,own.sound.space] at room
    simp only [space,setRing,Function.update_self]
    rw [after.space,length,size,gone]
    omega
  | outTell o n =>
    dsimp only at taken
    split at taken <;> cases taken
    · refine wakes_setPc fun waits => ?_
      have keeps : Keeps st (setNotify st s .write false) s := ⟨rfl,rfl,by simp [setNotify],isOpen_congr rfl rfl s⟩
      exact keeps.waiting (wakes waits) id
    · exact wakes_next (sent_wakes own.writing wakes)
  | outEvent o n =>
    cases taken
    have keeps : Keeps st (setPending st s.other true) s := ⟨rfl,by simp [setPending],rfl,isOpen_congr rfl rfl s⟩
    exact wakes_next (sent_wakes own.writing fun waits => keeps.waiting (wakes waits) id)
  | outWait | inWait =>
    dsimp only at taken
    split at taken <;> cases taken
    exact wakes_setPc wakes.1
  | inLook i =>
    cases taken
    refine wakes_next ?_
    split
    · rename_i there
      exact inLook_wakes wakes there
    · exact wakes
  | inAsk i =>
    cases taken
    refine wakes_setPc ⟨wakes,.inr ?_⟩
    simp [setNotify]
  | inRelook i =>
    cases taken
    exact wakes_next (inRelook_wakes wakes.1 wakes.2)
  | fetch | fetchRest | consume | closing | closeEvent =>
    cases taken
    exact wakes_setPc trivial
  | inTell i got =>
    dsimp only at taken
    split at taken <;> cases taken
    · exact wakes_setPc trivial
    · exact wakes_next trivial
  | inEvent i got =>
    cases taken
    exact wakes_next trivial
  | inOpen i =>
    cases taken
    refine wakes_next ?_
    rw [inOpened]
    split
    · trivial
    · rename_i isOpen
      split
      · trivial
      · rename_i blocks
        split
        · trivial
        · exact ⟨wakes.1,.inl (by simpa using isOpen),wakes.2 (by simpa using blocks)⟩

def Asking (event : Side × Action) : Prop := event.2 ≠ .input .read true 0

theorem taken_moves {action : Action} (taken : Taken st s action st') : Moves st st' s := by
  cases taken with
  | advance taken => exact advance_moves taken
  | output at_ | input at_ | close at_ => exact moves_setPc (calm_of at_ id)
  | ask at_ => exact moves_of (calm_of at_ id) rfl rfl (by simp [setNotify]) rfl rfl (.inl rfl) (.inl rfl)
  | outFails at_ | inFails at_ => exact moves_next (calm_of at_ id)

theorem taken_wakes {action : Action} (flows : Flows st) (wakes : Wakes st s) (asks : Asking (s,action))
    (taken : Taken st s action st') : Wakes st' s := by
  cases taken with
  | advance taken => exact advance_wakes flows wakes taken
  | output at_ => exact wakes_setPc (Nat.zero_le _)
  | @input kind blocking size at_ =>
    refine wakes_setPc fun zero => asks ?_
    obtain ⟨isRead,blocks,empty⟩ := zero
    dsimp only at isRead blocks empty
    rw [isRead,blocks,empty]
  | ask at_ =>
    rw [Wakes]
    change WakesAt _ s (st.pc s)
    rw [at_]
    trivial
  | close at_ => exact wakes_setPc trivial
  | outFails at_ => exact wakes_next trivial
  | inFails at_ => exact wakes_next trivial

structure Awake (st : State) : Prop where
  flows : Flows st
  wakes : ∀ s, Wakes st s

theorem step_awake {event : Side × Action} (awake : Awake st) (asks : Asking event) (ran : step st event = some st') : Awake st' := by
  obtain ⟨s,action⟩ := event
  have taken := step_taken ran
  refine ⟨step_flows awake.flows ran,fun x => ?_⟩
  by_cases same : x = s
  · rw [same]
    exact taken_wakes awake.flows (awake.wakes s) asks taken
  · have other : x = s.other := by cases x <;> cases s <;> first | rfl | exact absurd rfl same
    rw [other]
    exact (taken_moves taken).wakes (awake.wakes s.other)

theorem run_awake {events : List (Side × Action)} (awake : Awake st) (asks : ∀ event ∈ events, Asking event)
    (ran : Run.run step st events = some st') : Awake st' := by
  induction events generalizing st with
  | nil =>
    cases ran
    exact awake
  | cons event rest ih =>
    obtain ⟨middle,taken,tail⟩ := Run.run_cons_some ran
    exact ih (step_awake awake (asks event (by simp)) taken) (fun later member => asks later (by simp [member])) tail

-- What an end in `libxenvchan_wait` waits for.
def Available (st : State) (s : Side) : Prop :=
  match st.pc s with
  | .outWait o => outNeed o (space st s)
  | .inWait i => inNeed i (ready st s)
  | _ => False

def Waiting (st : State) (s : Side) : Prop :=
  match st.pc s with
  | .outWait _ | .inWait _ => True
  | _ => False

-- The peer has moved its index and is before the test of the flag or before the
-- event: the reader's side for an end that waits for space, the writer's for
-- one that waits for data.
def Notifying (st : State) (s : Side) : Prop :=
  match st.pc s,st.pc s.other with
  | .outWait _,.inTell _ _ => True
  | .outWait _,.inEvent _ _ => True
  | .inWait _,.outTell _ _ => True
  | .inWait _,.outEvent _ _ => True
  | _,_ => False

theorem notifying_out (at_ : st.pc s = .outWait o) (peer : Telling .read (st.pc s.other) ∨ Eventing .read (st.pc s.other)) :
    Notifying st s := by
  rw [Notifying,at_]
  cases other : st.pc s.other <;> rw [other] at peer <;> first | trivial | exact peer.elim id id

theorem notifying_in (at_ : st.pc s = .inWait i) (peer : Telling .write (st.pc s.other) ∨ Eventing .write (st.pc s.other)) :
    Notifying st s := by
  rw [Notifying,at_]
  cases other : st.pc s.other <;> rw [other] at peer <;> first | trivial | exact peer.elim id id

theorem available_signalled (awake : Awake st) (available : Available st s) : st.pending s = true ∨ Notifying st s := by
  have wakes := awake.wakes s
  rw [Wakes] at wakes
  rw [Available] at available
  cases at_ : st.pc s <;> rw [at_] at wakes available
  case outWait o =>
    rcases wakes.2.2 with (pending | events) | ⟨_,tells | not_⟩
    · exact .inl pending
    · exact .inr (notifying_out at_ (.inr events))
    · exact .inr (notifying_out at_ (.inl tells))
    · exact absurd available not_
  case inWait i =>
    rcases wakes.2.2 with (pending | events) | ⟨_,tells | not_⟩
    · exact .inl pending
    · exact .inr (notifying_in at_ (.inr events))
    · exact .inr (notifying_in at_ (.inl tells))
    · exact absurd available not_
  all_goals exact available.elim

theorem closed_signalled (awake : Awake st) (waiting : Waiting st s) (closed : libxenvchanIsOpen st s = false) :
    st.pending s = true ∨ st.pc s.other = .closeEvent := by
  have wakes := awake.wakes s
  have warned : Warned st s := by
    rw [Wakes] at wakes
    rw [Waiting] at waiting
    cases at_ : st.pc s <;> rw [at_] at wakes waiting
    case outWait o => exact wakes.2.1
    case inWait i => exact wakes.2.1
    all_goals exact waiting.elim
  rcases warned with isOpen | signalled
  · rw [closed] at isOpen
    cases isOpen
  · exact signalled

theorem waiting_advances (waiting : Waiting st s) (pending : st.pending s = true) : (step st (s,.advance)).isSome = true := by
  rw [Waiting] at waiting
  change (advance st s).isSome = true
  rw [advance]
  cases at_ : st.pc s <;> rw [at_] at waiting
  case outWait o => simp [pending]
  case inWait i => simp [pending]
  all_goals exact waiting.elim

theorem waiting_not_notifying (waiting : Waiting st s.other) : ¬Notifying st s ∧ st.pc s.other ≠ .closeEvent := by
  rw [Waiting] at waiting
  rw [Notifying]
  cases peer : st.pc s.other <;> rw [peer] at waiting
  case outWait | inWait => exact ⟨by cases st.pc s <;> exact id,nofun⟩
  all_goals exact waiting.elim

theorem no_lost_wakeup (order : Side → Order) (memory : Side → Nat → UInt8) (serverPersist : Bool) (pending : Side → Bool)
    {events : List (Side × Action)} {st : State} (asks : ∀ event ∈ events, Asking event)
    (ran : Run.run step (initial order memory serverPersist pending) events = some st) :
    (∀ s, Available st s → st.pending s = true ∨ Notifying st s) ∧
      (∀ s, Waiting st s → libxenvchanIsOpen st s = false → st.pending s = true ∨ st.pc s.other = .closeEvent) ∧
      (Waiting st .server → Waiting st .client →
        ∀ s, Available st s ∨ libxenvchanIsOpen st s = false → (step st (s,.advance)).isSome = true) := by
  have awake := run_awake ⟨initial_flows order memory serverPersist pending,fun _ => trivial⟩ asks ran
  refine ⟨fun s => available_signalled awake,fun s => closed_signalled awake,fun server client s there => ?_⟩
  have both : Waiting st s ∧ Waiting st s.other := by
    cases s
    · exact ⟨server,client⟩
    · exact ⟨client,server⟩
  obtain ⟨not_,open_⟩ := waiting_not_notifying both.2
  refine waiting_advances both.1 ?_
  rcases there with available | closed
  · exact (available_signalled awake available).resolve_right not_
  · exact (closed_signalled awake both.1 closed).resolve_right open_

-- The client waits for two bytes that the server then sends.
def packet : List (Side × Action) :=
  (.client,.input .recv true 2) :: steps .client 4 ++ (.server,.output .send true [7,8]) :: steps .server 7

theorem no_lost_wakeup_packet : ∃ st, Run.run step smallRings packet = some st ∧
    Available st .client ∧ (st.pending .client = true ∨ Notifying st .client) := by
  have reached : (Run.run step smallRings packet).map (fun st => (st.pc .client,ready st .client)) =
      some (.inWait ⟨.recv,true,2⟩,2) := by decide +kernel
  obtain ⟨st,ran,is⟩ := Option.map_eq_some_iff.mp reached
  obtain ⟨client,data⟩ := Prod.mk.inj is
  have there : Available st .client := by
    rw [Available,client]
    change 2 ≤ ready st .client
    rw [data]
  have asks : ∀ event ∈ packet, event.2 ≠ .input .read true 0 := by decide +kernel
  exact ⟨st,ran,there,(no_lost_wakeup _ _ _ _ asks ran).1 .client there⟩

-- A blocking read of no bytes does not ask to be told, and waits.
def zeroRead : List (Side × Action) :=
  (.server,.output .send true [7]) :: steps .server 7 ++ (.client,.input .read true 1) :: steps .client 5 ++
    (.client,.input .read true 0) :: steps .client 5 ++ (.server,.output .send true [8]) :: steps .server 6

theorem zeroRead_sleeps : ∃ st, Run.run step smallRings zeroRead = some st ∧ Available st .client ∧
    st.pending .client = false ∧ ¬Notifying st .client := by
  have reached : (Run.run step smallRings zeroRead).map
      (fun st => (st.pc .client,st.pc .server,st.pending .client,ready st .client)) =
      some (.inWait ⟨.read,true,0⟩,.idle,false,1) := by decide +kernel
  obtain ⟨st,ran,is⟩ := Option.map_eq_some_iff.mp reached
  simp only [Prod.mk.injEq] at is
  obtain ⟨client,server,event,data⟩ := is
  refine ⟨st,ran,?_,event,?_⟩
  · rw [Available,client]
    change 0 < ready st .client
    rw [data]
    exact Nat.one_pos
  · rw [Notifying,client,show Side.client.other = .server from rfl,server]
    exact id

end XenAet.VchanWake
