import XenAet.VchanCopies

namespace XenAet.VchanStream
open XenAet.Vchan
open XenAet.VchanCopies
open Library
open Library.RingBuffer

variable {r : Ring} {o : Output} {i : Input} {n : Nat} {got : List UInt8}

-- The bytes a running call has sent, and those it has taken and will return.
def progress : Pc → List UInt8
  | .outOpen o | .outLook o | .outAsk o | .outRelook o | .outWait o => o.data.take o.pos
  | .copy o _ | .copyRest o _ | .publish o _ => o.data.take o.pos
  | .outTell o n | .outEvent o n => o.data.take (o.pos + n)
  | _ => []

def inflight : Pc → List UInt8
  | .inTell _ got | .inEvent _ got => got
  | _ => []

def sentBy : Return → List UInt8
  | .sent o _ => o.data.take o.pos
  | .received _ _ _ => []

def gotBy : Return → List UInt8
  | .sent _ _ => []
  | .received _ got _ => got

-- Only a blocking write waits with part of its data sent.
def OutOk (o : Output) : Prop := o.pos = 0 ∨ (o.kind = .write ∧ o.blocking = true)

def outputOf : Pc → Option Output
  | .outOpen o | .outLook o | .outAsk o | .outRelook o | .outWait o => some o
  | .copy o _ | .copyRest o _ | .publish o _ | .outTell o _ | .outEvent o _ => some o
  | _ => none

def ReturnOk : Return → Prop
  | .sent o result => result = toInt o.pos ∨ (result = -1 ∧ OutOk o)
  | .received _ got result => result = got.length ∨ (result = -1 ∧ got = [])

structure Own (wr rd : Ring) (pc : Pc) (returns : List Return) : Prop where
  sound : Sound wr
  writing : Writing wr pc
  reading : Reading rd pc
  sent : wr.put = returns.flatMap sentBy ++ progress pc
  taken : rd.taken = returns.flatMap gotBy ++ inflight pc
  ok : ∀ o, outputOf pc = some o → OutOk o
  results : ∀ r ∈ returns, ReturnOk r

variable {wr rd : Ring} {pc : Pc} {returns : List Return}

-- A side that holds no bytes of its own: between calls, or in a receiving call
-- that has taken nothing.
structure Quiet (wr rd : Ring) (returns : List Return) : Prop where
  sound : Sound wr
  sent : wr.put = returns.flatMap sentBy
  taken : rd.taken = returns.flatMap gotBy
  results : ∀ r ∈ returns, ReturnOk r

theorem Quiet.own (quiet : Quiet wr rd returns) (writing : Writing wr pc) (reading : Reading rd pc) (sends : progress pc = [])
    (holds : inflight pc = []) (out : outputOf pc = none) : Own wr rd pc returns := by
  refine ⟨quiet.sound,writing,reading,?_,?_,?_,quiet.results⟩
  · rw [sends,List.append_nil,quiet.sent]
  · rw [holds,List.append_nil,quiet.taken]
  · rw [out]
    nofun

theorem Own.quiet (own : Own wr rd pc returns) (sends : progress pc = []) (holds : inflight pc = []) : Quiet wr rd returns :=
  ⟨own.sound,by rw [own.sent,sends,List.append_nil],by rw [own.taken,holds,List.append_nil],own.results⟩

-- A side in a sending call that has sent `o.pos` bytes.
structure Sending (wr rd : Ring) (o : Output) (returns : List Return) : Prop where
  sound : Sound wr
  sent : wr.put = returns.flatMap sentBy ++ o.data.take o.pos
  taken : rd.taken = returns.flatMap gotBy
  results : ∀ r ∈ returns, ReturnOk r

theorem Sending.own (sending : Sending wr rd o returns) (ok : OutOk o) (writing : Writing wr pc) (reading : Reading rd pc)
    (sends : progress pc = o.data.take o.pos) (holds : inflight pc = []) (out : outputOf pc = some o) :
    Own wr rd pc returns := by
  refine ⟨sending.sound,writing,reading,?_,?_,?_,sending.results⟩
  · rw [sends,sending.sent]
  · rw [holds,List.append_nil,sending.taken]
  · intro other same
    rw [out] at same
    cases same
    exact ok

theorem Own.sending (own : Own wr rd pc returns) (sends : progress pc = o.data.take o.pos) (holds : inflight pc = []) :
    Sending wr rd o returns :=
  ⟨own.sound,by rw [own.sent,sends],by rw [own.taken,holds,List.append_nil],own.results⟩

theorem results_append {r : Return} (results : ∀ r ∈ returns, ReturnOk r) (ok : ReturnOk r) :
    ∀ x ∈ returns ++ [r], ReturnOk x := by
  intro x member
  rcases List.mem_append.mp member with old | new
  · exact results x old
  · rw [List.mem_singleton.mp new]
    exact ok

theorem Sending.done {result : Int} (sending : Sending wr rd o returns) (ok : ReturnOk (.sent o result)) :
    Own wr rd .idle (returns ++ [.sent o result]) := by
  have quiet : Quiet wr rd (returns ++ [.sent o result]) :=
    ⟨sending.sound,by rw [sending.sent]; simp [sentBy],by rw [sending.taken]; simp [gotBy],
      results_append sending.results ok⟩
  exact quiet.own trivial trivial rfl rfl rfl

theorem Quiet.done {result : Int} (quiet : Quiet wr rd returns) (ok : ReturnOk (.received i [] result)) :
    Own wr rd .idle (returns ++ [.received i [] result]) := by
  have after : Quiet wr rd (returns ++ [.received i [] result]) :=
    ⟨quiet.sound,by rw [quiet.sent]; simp [sentBy],by rw [quiet.taken]; simp [gotBy],results_append quiet.results ok⟩
  exact after.own trivial trivial rfl rfl rfl

-- Where `next` leads.
def nextPc : Next → Pc
  | .go pc => pc
  | .done _ => .idle

def nextReturns (returns : List Return) : Next → List Return
  | .go _ => returns
  | .done r => returns ++ [r]

theorem toInt_zero : toInt 0 = 0 := rfl

theorem judge_own (sending : Sending wr rd o returns) (ok : OutOk o) :
    Own wr rd (nextPc (outJudge o wr.size (rawGetBufferSpace wr))) (nextReturns returns (outJudge o wr.size (rawGetBufferSpace wr))) := by
  have space := sending.sound.space
  have window := sending.sound.window
  have came := sending.sound.came_le
  have waits : Own wr rd (.outWait o) returns := sending.own ok trivial trivial rfl rfl rfl
  have copies {n : Nat} (more : o.pos + n ≤ o.data.length) (room : n ≤ rawGetBufferSpace wr) : Own wr rd (.copy o n) returns :=
    sending.own ok ⟨more,by omega⟩ trivial rfl rfl rfl
  have fails : Own wr rd .idle (returns ++ [.sent o (-1)]) := sending.done (.inr ⟨rfl,ok⟩)
  have nothing (nonblocking : o.blocking = false) : Own wr rd .idle (returns ++ [.sent o 0]) := by
    refine sending.done (.inl ?_)
    rcases ok with start | ⟨_,blocking⟩
    · rw [start,toInt_zero]
    · rw [nonblocking] at blocking
      cases blocking
  rw [outJudge]
  cases kind : o.kind with
  | send =>
    dsimp only
    have start : o.pos = 0 := by
      rcases ok with start | ⟨isWrite,_⟩
      · exact start
      · rw [kind] at isWrite
        cases isWrite
    split
    · rename_i room
      exact copies (by omega) room
    · split
      · rename_i nonblocking
        exact nothing nonblocking
      · split
        · exact fails
        · exact waits
  | write =>
    dsimp only
    split
    · exact copies (by omega) (Nat.min_le_left _ _)
    · split
      · rename_i nonblocking
        exact nothing nonblocking
      · split
        · exact sending.done (.inl rfl)
        · exact waits

theorem sent_own (sending : Sending wr rd (o.more n) returns) (ok : OutOk o) :
    Own wr rd (nextPc (outSent o n)) (nextReturns returns (outSent o n)) := by
  rw [outSent]
  split
  · rename_i blocks
    split
    · exact sending.done (.inl rfl)
    · exact sending.own (.inr blocks) trivial trivial rfl rfl rfl
  · rename_i single
    refine sending.done (.inl ?_)
    rcases ok with start | blocks
    · change toInt n = toInt (o.pos + n)
      rw [start,Nat.zero_add]
    · exact absurd blocks single

theorem inJudge_own (quiet : Quiet wr rd returns) (sound : Sound rd) :
    Own wr rd (nextPc (inJudge i (rawGetDataReady rd))) (nextReturns returns (inJudge i (rawGetDataReady rd))) := by
  have ready := sound.ready
  have came := sound.came_le
  have opens : Own wr rd (.inOpen i) returns := quiet.own trivial trivial rfl rfl rfl
  have fetches {n : Nat} (there : n ≤ rawGetDataReady rd) : Own wr rd (.fetch i n) returns :=
    quiet.own trivial (by change _ ≤ _; omega) rfl rfl rfl
  rw [inJudge]
  cases i.kind with
  | recv =>
    dsimp only
    split
    · rename_i there
      exact fetches there
    · exact opens
  | read =>
    dsimp only
    split
    · exact fetches (Nat.min_le_right _ _)
    · exact opens

theorem inOpened_own (quiet : Quiet wr rd returns) (isOpen : Bool) (ringSize : Nat) :
    Own wr rd (nextPc (inOpened i isOpen ringSize)) (nextReturns returns (inOpened i isOpen ringSize)) := by
  have fails : Own wr rd .idle (returns ++ [.received i [] (-1)]) := quiet.done (.inr ⟨rfl,rfl⟩)
  rw [inOpened]
  split
  · exact fails
  · split
    · exact quiet.done (.inl rfl)
    · split
      · exact fails
      · exact quiet.own trivial trivial rfl rfl rfl

theorem toInt_small (small : n ≤ 2^20) : toInt n = n := by
  have value : (BitVec.ofNat 32 n).toNat = n := by
    rw [BitVec.toNat_ofNat]
    omega
  rw [toInt,BitVec.toInt_eq_toNat_of_lt (by omega),value]

theorem received_own (own : Own wr rd pc returns) (sends : progress pc = []) (holds : inflight pc = got)
    (small : got.length ≤ rd.size) : Own wr rd .idle (returns ++ [.received i got (toInt got.length)]) := by
  have quiet : Quiet wr rd (returns ++ [.received i got (toInt got.length)]) := by
    refine ⟨own.sound,?_,?_,results_append own.results (.inl (toInt_small (Nat.le_trans small (size_le rd))))⟩
    · rw [own.sent,sends]
      simp [sentBy]
    · rw [own.taken,holds]
      simp [gotBy]
  exact quiet.own trivial trivial rfl rfl rfl

-- What one end's step does to the other end: the rings move on under it.
structure Grown (before after : Ring) : Prop where
  order : after.order = before.order
  cons : after.cons = before.cons
  taken : after.taken = before.taken
  put : before.put <+: after.put

theorem reading_grown {after : Ring} (reading : Reading rd pc) (grown : Grown rd after) : Reading after pc := by
  obtain ⟨more,put⟩ := grown.put
  have length : after.put.length = rd.put.length + more.length := by rw [← put,List.length_append]
  have size : after.size = rd.size := by rw [Ring.size,Ring.size,grown.order]
  have same (k : Nat) (there : rd.taken.length + k ≤ rd.put.length) :
      (after.put.drop after.taken.length).take k = (rd.put.drop rd.taken.length).take k := by
    rw [← put,grown.taken,List.drop_append_of_le_length (by omega),List.take_append_of_le_length (by rw [List.length_drop]; omega)]
  have contig (k : Nat) : availContig after after.cons k = availContig rd rd.cons k := by
    rw [availContig,availContig,realIdx,realIdx,size,grown.cons]
  cases pc with
  | fetch i n =>
    change rd.taken.length + n ≤ rd.put.length at reading
    change after.taken.length + n ≤ after.put.length
    rw [grown.taken]
    omega
  | fetchRest i n got =>
    obtain ⟨there,is⟩ := reading
    have contig_le : availContig rd rd.cons n ≤ n := Nat.min_le_left _ _
    refine ⟨by rw [grown.taken]; omega,?_⟩
    rw [contig,same _ (by omega)]
    exact is
  | consume i got =>
    obtain ⟨there,is⟩ := reading
    refine ⟨by rw [grown.taken]; omega,?_⟩
    rw [same _ there]
    exact is
  | inTell i got | inEvent i got =>
    change got.length ≤ after.size
    rw [size]
    exact reading
  | _ => trivial

theorem Own.grown {after : Ring} (own : Own wr rd pc returns) (grown : Grown rd after) : Own wr after pc returns :=
  ⟨own.sound,own.writing,reading_grown own.reading grown,own.sent,by rw [grown.taken]; exact own.taken,own.ok,own.results⟩

theorem writing_consumed (writing : Writing wr pc) : Writing (consumed wr got) pc := by
  have length : (consumed wr got).taken.length = wr.taken.length + got.length := List.length_append
  have fits {o : Output} {n : Nat} (fits : Fits wr o n) : Fits (consumed wr got) o n := by
    refine ⟨fits.1,?_⟩
    have room := fits.2
    change wr.put.length + n ≤ (consumed wr got).taken.length + wr.size
    omega
  cases pc with
  | copy o n => exact fits writing
  | copyRest o n | publish o n => exact ⟨fits writing.1,writing.2.later (by omega)⟩
  | outTell o n => exact writing
  | outEvent o n => exact writing
  | _ => trivial

theorem Own.consumed (own : Own wr rd pc returns) (is : got = (wr.put.drop wr.taken.length).take got.length) : Own (consumed wr got) rd pc returns :=
  ⟨consumed_sound own.sound is,writing_consumed own.writing,own.reading,own.sent,own.taken,own.ok,own.results⟩

def Flows (st : State) : Prop := ∀ s, Own (st.ring s) (st.ring s.other) (st.pc s) (st.returns s)

variable {st : State} {s : Side} {nx : Next}

theorem flows_of (own : Own (st.ring s) (st.ring s.other) (st.pc s) (st.returns s))
    (peer : Own (st.ring s.other) (st.ring s) (st.pc s.other) (st.returns s.other)) : Flows st := by
  intro x
  by_cases same : x = s
  · rw [same]
    exact own
  · have other : x = s.other := by cases x <;> cases s <;> first | rfl | exact absurd rfl same
    rw [other,other_other]
    exact peer

@[simp] theorem next_ring : (next st s nx).ring = st.ring := by cases nx <;> rfl

@[simp] theorem next_pc : (next st s nx).pc = Function.update st.pc s (nextPc nx) := by cases nx <;> rfl

@[simp] theorem next_returns : (next st s nx).returns = Function.update st.returns s (nextReturns (st.returns s) nx) := by
  cases nx with
  | go pc => exact (Function.update_eq_self s st.returns).symm
  | done r => rfl

theorem flows_next (flows : Flows st)
    (own : Own (st.ring s) (st.ring s.other) (nextPc nx) (nextReturns (st.returns s) nx)) : Flows (next st s nx) := by
  refine flows_of (s:=s) ?_ ?_
  · simpa using own
  · simpa using flows s.other

theorem flows_setPc (flows : Flows st) (own : Own (st.ring s) (st.ring s.other) pc (st.returns s)) : Flows (setPc st s pc) := by
  change Flows (next st s (.go pc))
  exact flows_next flows own

theorem flows_setNotify (flows : Flows st) (s : Side) (bit : Bit) (value : Bool) : Flows (setNotify st s bit value) := flows

theorem flows_setPending (flows : Flows st) (s : Side) (value : Bool) : Flows (setPending st s value) := flows

theorem flows_setDead (flows : Flows st) (s : Side) : Flows (setDead st s) := flows

theorem flows_write {after : Ring} (flows : Flows st) (grown : Grown (st.ring s) after)
    (own : Own after (st.ring s.other) pc (st.returns s)) : Flows (setPc (setRing st s after) s pc) := by
  refine flows_of (s:=s) ?_ ?_
  · simpa [setPc,setRing] using own
  · have peer := flows s.other
    rw [other_other] at peer
    simpa [setPc,setRing] using peer.grown grown

theorem flows_take (flows : Flows st) (is : got = ((st.ring s.other).put.drop (st.ring s.other).taken.length).take got.length)
    (own : Own (st.ring s) (consumed (st.ring s.other) got) pc (st.returns s)) :
    Flows (setPc (setRing st s.other (consumed (st.ring s.other) got)) s pc) := by
  refine flows_of (s:=s) ?_ ?_
  · simpa [setPc,setRing] using own
  · have peer := flows s.other
    rw [other_other] at peer
    simpa [setPc,setRing] using peer.consumed is

theorem advance_flows {st' : State} (flows : Flows st) (taken : advance st s = some st') : Flows st' := by
  have own := flows s
  have rdSound : Sound (st.ring s.other) := (flows s.other).sound
  rw [advance] at taken
  generalize st.pc s = pc at own taken
  cases pc with
  | idle | closed => cases taken
  | outOpen o =>
    have sending := own.sending (o:=o) rfl rfl
    cases taken
    refine flows_next flows ?_
    split
    · exact sending.own (own.ok o rfl) trivial trivial rfl rfl rfl
    · exact sending.done (.inr ⟨rfl,own.ok o rfl⟩)
  | outLook o =>
    have sending := own.sending (o:=o) rfl rfl
    cases taken
    refine flows_next flows ?_
    split
    · exact judge_own sending (own.ok o rfl)
    · exact sending.own (own.ok o rfl) trivial trivial rfl rfl rfl
  | outAsk o =>
    cases taken
    exact flows_setPc (flows_setNotify flows _ _ _) ((own.sending (o:=o) rfl rfl).own (own.ok o rfl) trivial trivial rfl rfl rfl)
  | outRelook o =>
    cases taken
    exact flows_next flows (judge_own (own.sending (o:=o) rfl rfl) (own.ok o rfl))
  | copy o n =>
    have sending := own.sending (o:=o) rfl rfl
    obtain ⟨sound,held⟩ := copyFirst_sound sending.sound own.writing
    cases taken
    refine flows_write flows ⟨rfl,rfl,rfl,List.prefix_refl _⟩ ?_
    exact ⟨sound,⟨own.writing,held⟩,trivial,own.sent,own.taken,own.ok,own.results⟩
  | copyRest o n =>
    obtain ⟨fits,first⟩ := own.writing
    obtain ⟨sound,held⟩ := copySecond_sound own.sound fits first
    have grown : Grown (st.ring s) (copySecond (st.ring s) o n) := by
      rw [copySecond]
      split <;> exact ⟨rfl,rfl,rfl,List.prefix_refl _⟩
    have fields : (copySecond (st.ring s) o n).put = (st.ring s).put ∧ (copySecond (st.ring s) o n).size = (st.ring s).size := by
      rw [copySecond]
      split <;> exact ⟨rfl,rfl⟩
    cases taken
    refine flows_write flows grown ⟨sound,⟨⟨fits.1,?_⟩,?_⟩,trivial,?_,own.taken,own.ok,own.results⟩
    · rw [fields.1,fields.2,grown.taken]
      exact fits.2
    · rw [fields.1,fields.2,grown.taken]
      exact held
    · rw [fields.1]
      exact own.sent
  | publish o n =>
    obtain ⟨fits,held⟩ := own.writing
    cases taken
    refine flows_write flows ⟨rfl,rfl,rfl,List.prefix_append _ _⟩
      ⟨produce_sound own.sound fits held,fits.1,trivial,?_,own.taken,own.ok,own.results⟩
    have sent := own.sent
    change (st.ring s).put ++ o.piece n = _ ++ o.data.take (o.pos + n)
    rw [← take_more,← List.append_assoc,sent]
    rfl
  | outTell o n =>
    have sending : Sending (st.ring s) (st.ring s.other) (o.more n) (st.returns s) := own.sending rfl rfl
    dsimp only at taken
    split at taken <;> cases taken
    · refine flows_setPc (flows_setNotify flows _ _ _) ?_
      exact ⟨own.sound,own.writing,trivial,own.sent,own.taken,own.ok,own.results⟩
    · exact flows_next flows (sent_own sending (own.ok o rfl))
  | outEvent o n =>
    have sending : Sending (st.ring s) (st.ring s.other) (o.more n) (st.returns s) := own.sending rfl rfl
    cases taken
    exact flows_next (flows_setPending flows _ _) (sent_own sending (own.ok o rfl))
  | outWait o =>
    dsimp only at taken
    split at taken <;> cases taken
    exact flows_setPc (flows_setPending flows _ _) ((own.sending (o:=o) rfl rfl).own (own.ok o rfl) trivial trivial rfl rfl rfl)
  | inLook i =>
    have quiet := own.quiet rfl rfl
    cases taken
    refine flows_next flows ?_
    split
    · exact inJudge_own quiet rdSound
    · exact quiet.own trivial trivial rfl rfl rfl
  | inAsk i =>
    cases taken
    exact flows_setPc (flows_setNotify flows _ _ _) ((own.quiet rfl rfl).own trivial trivial rfl rfl rfl)
  | inRelook i =>
    cases taken
    exact flows_next flows (inJudge_own (own.quiet rfl rfl) rdSound)
  | fetch i n =>
    cases taken
    exact flows_setPc flows ((own.quiet rfl rfl).own trivial ⟨own.reading,fetchFirst_eq rdSound own.reading⟩ rfl rfl rfl)
  | fetchRest i n got =>
    obtain ⟨there,first⟩ := own.reading
    have all : got ++ fetchSecond (st.ring s.other) n =
        ((st.ring s.other).put.drop (st.ring s.other).taken.length).take n := by
      rw [first,fetchSecond_eq rdSound there]
    have length : (got ++ fetchSecond (st.ring s.other) n).length = n := by
      rw [all,List.length_take,List.length_drop]
      omega
    cases taken
    refine flows_setPc flows ((own.quiet rfl rfl).own trivial ⟨?_,?_⟩ rfl rfl rfl)
    · rw [length]
      exact there
    · rw [length]
      exact all
  | consume i got =>
    obtain ⟨there,is⟩ := own.reading
    have window := rdSound.window
    have small : got.length ≤ (st.ring s.other).size := by omega
    have gone := own.taken
    cases taken
    refine flows_take flows is ⟨own.sound,trivial,small,own.sent,?_,fun _ none_ => (by cases none_),own.results⟩
    change (st.ring s.other).taken ++ got = _ ++ got
    rw [gone]
    simp [inflight]
  | inTell i got =>
    dsimp only at taken
    split at taken <;> cases taken
    · refine flows_setPc (flows_setNotify flows _ _ _) ?_
      exact ⟨own.sound,trivial,own.reading,own.sent,own.taken,fun _ none_ => (by cases none_),own.results⟩
    · exact flows_next flows (received_own own rfl rfl own.reading)
  | inEvent i got =>
    cases taken
    exact flows_next (flows_setPending flows _ _) (received_own own rfl rfl own.reading)
  | inOpen i =>
    cases taken
    exact flows_next flows (inOpened_own (own.quiet rfl rfl) _ _)
  | inWait i =>
    dsimp only at taken
    split at taken <;> cases taken
    exact flows_setPc (flows_setPending flows _ _) ((own.quiet rfl rfl).own trivial trivial rfl rfl rfl)
  | closing =>
    cases taken
    exact flows_setPc (flows_setDead flows s) ((own.quiet rfl rfl).own trivial trivial rfl rfl rfl)
  | closeEvent =>
    cases taken
    exact flows_setPc (flows_setPending flows _ _) ((own.quiet rfl rfl).own trivial trivial rfl rfl rfl)

theorem step_flows {st' : State} {event : Side × Action} (flows : Flows st) (ran : step st event = some st') : Flows st' := by
  obtain ⟨s,action⟩ := event
  have own := flows s
  cases step_taken ran with
  | advance taken => exact advance_flows flows taken
  | @output kind blocking data at_ =>
    rw [at_] at own
    have sending : Sending (st.ring s) (st.ring s.other) ⟨kind,blocking,data,0⟩ (st.returns s) := own.sending rfl rfl
    exact flows_setPc flows (sending.own (.inl rfl) trivial trivial rfl rfl rfl)
  | input at_ | close at_ =>
    rw [at_] at own
    exact flows_setPc flows ((own.quiet rfl rfl).own trivial trivial rfl rfl rfl)
  | ask at_ => exact flows_setNotify flows _ _ _
  | outFails at_ =>
    rw [at_] at own
    exact flows_next flows ((own.sending rfl rfl).done (.inr ⟨rfl,own.ok _ rfl⟩))
  | inFails at_ =>
    rw [at_] at own
    exact flows_next flows ((own.quiet rfl rfl).done (.inr ⟨rfl,rfl⟩))

theorem initial_flows (order : Side → Order) (memory : Side → Nat → UInt8) (serverPersist : Bool) (pending : Side → Bool) :
    Flows (initial order memory serverPersist pending) := by
  intro s
  refine ⟨⟨rfl,rfl,List.prefix_refl _,Nat.zero_le _,?_⟩,trivial,trivial,rfl,rfl,nofun,nofun⟩
  exact fun k _ below => absurd below (Nat.not_lt_zero k)

theorem run_flows {st' : State} {events : List (Side × Action)} (flows : Flows st) (ran : Run.run step st events = some st') :
    Flows st' := by
  induction events generalizing st with
  | nil =>
    cases ran
    exact flows
  | cons event rest ih =>
    obtain ⟨middle,taken,tail⟩ := Run.run_cons_some ran
    exact ih (step_flows flows taken) tail

-- The bytes of the ring that `s` writes: those its finished calls put there,
-- then those of the call it is in. A finished call reports its number, unless it
-- is a blocking write that was cut short.
theorem stream_reliable (order : Side → Order) (memory : Side → Nat → UInt8) (serverPersist : Bool) (pending : Side → Bool)
    {events : List (Side × Action)} {st : State}
    (ran : Run.run step (initial order memory serverPersist pending) events = some st) (s : Side) :
    let sent := (st.returns s).flatMap sentBy ++ progress (st.pc s)
    let returned := (st.returns s.other).flatMap gotBy
    let taken := returned ++ inflight (st.pc s.other)
    returned <+: sent ∧ taken <+: sent ∧ sent.length ≤ taken.length + 2 ^ (st.ring s).order.val ∧
      ∀ r ∈ st.returns s, ReturnOk r := by
  have flows := run_flows (initial_flows order memory serverPersist pending) ran
  have own := flows s
  have peer := (flows s.other).taken
  rw [other_other] at peer
  have came := own.sound.came
  have window := own.sound.window
  rw [own.sent,peer] at came window
  exact ⟨(List.prefix_append _ _).trans came,came,window,own.results⟩

def steps (s : Side) (n : Nat) : List (Side × Action) := List.replicate n (s,.advance)

-- A client reads a byte while the server's blocking write waits for room.
def smallRings : State :=
  initial (fun s => ⟨if s = .server then 10 else 11,by split <;> decide⟩) (fun _ _ => 0) false fun _ => false

def longWrite : List (Side × Action) :=
  (.server,.output .write true (List.replicate 1025 7)) :: steps .server 9 ++ (.client,.input .read true 1) :: steps .client 6

theorem stream_reliable_longWrite : ∃ st, Run.run step smallRings longWrite = some st ∧
    (st.returns .client).flatMap gotBy <+: (st.returns .server).flatMap sentBy ++ progress (st.pc .server) := by
  have runs : (Run.run step smallRings longWrite).isSome = true := by decide +kernel
  obtain ⟨st,ran⟩ := Option.isSome_iff_exists.mp runs
  exact ⟨st,ran,(stream_reliable _ _ _ _ ran .server).1⟩

theorem returned_before_reported : (Run.run step smallRings longWrite).map
    (fun st => (st.returns .server,(st.returns .client).flatMap gotBy)) = some ([],[7]) := by decide +kernel

end XenAet.VchanStream
