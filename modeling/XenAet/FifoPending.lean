import XenAet.FifoQueues

namespace XenAet.FifoPending
open Library EventFifo FifoQueues
open EventChannel (evtchnsPerBucket)

-- `raised` says of a bound port that an event was raised on it since it was
-- bound, and not cleared since.
structure System where
  d : Domain
  raised : Nat → Bool

variable {s s' : System} {d d' : Domain} {p port v : Nat} {page : Nat → EventWord}

def validPorts (d : Domain) : Nat := min (maxEvtchns d) d.allocated

def newBucket (d : Domain) (port : Nat) : Domain :=
  let evtchn (p : Nat) := if port ≤ p ∧ p < port + evtchnsPerBucket then ⟨false,false,0,0,0,0⟩ else d.evtchn p
  {d with evtchn,allocated := port + evtchnsPerBucket}

-- The search of `get_free_port` in a domain that is neither dying nor limited
-- by its configuration.
def getFreePort (memory : Bool) (d : Domain) : Option (Nat × Domain) :=
  match (List.range (validPorts d)).find? fun port => port != 0 && !(d.evtchn port).bound with
  | some port => some (port,d)
  | none =>
    if validPorts d = maxEvtchns d then none
    else if memory then some (validPorts d,newBucket d (validPorts d)) else none

def bind (memory : Bool) (d : Domain) (vcpu : Nat) : Domain :=
  match getFreePort memory d with
  | some (port,d) => evtchnPortInit (setEvtchn d port {d.evtchn port with bound := true,notifyVcpuId := vcpu}) port
  | none => d

def isBound (d : Domain) (port : Nat) : Bool := portIsValid d port && (d.evtchn port).bound

def close (d : Domain) (port : Nat) : Domain :=
  if isBound d port then
    let d := evtchnPortClearPending d port
    setEvtchn d port {d.evtchn port with bound := false,notifyVcpuId := 0}
  else d

def reset (self : Bool) (d : Domain) : Domain :=
  let d := (List.range (validPorts d)).foldl close d
  if self && d.fifo then evtchnFifoDestroy d else d

-- The guest clears a pending event where its ABI has it.
def guestClears (d : Domain) (port : Nat) : Bool := !d.fifo || decide (port < d.numEvtchns)

-- `bind` names the port it is given, and `guestWrite` is any other use the
-- guest makes of its shared memory.
inductive Event where
  | bind (memory : Bool) (port vcpu : Nat)
  | send (port : Nat)
  | close (port : Nat)
  | guestClear (port : Nat)
  | guestWrite (bit : Nat) (value : Bool)
  | initControl (placed mapped : Bool) (vcpuId : Nat)
  | expandArray (page : Nat → EventWord)
  | reset (self : Bool)

def step (s : System) : Event → Option System
  | .bind memory port vcpu => some ⟨bind memory s.d vcpu,Function.update s.raised port false⟩
  | .send port => some (if isBound s.d port then ⟨evtchnSetPending s.d port,Function.update s.raised port true⟩ else s)
  | .close port => some ⟨close s.d port,Function.update s.raised port false⟩
  | .guestClear port =>
    some (if guestClears s.d port then ⟨evtchnPortClearPending s.d port,Function.update s.raised port false⟩ else s)
  | .guestWrite bit value => some ⟨{s.d with sharedInfo := Function.update s.d.sharedInfo bit value},s.raised⟩
  | .initControl placed mapped vcpuId => some ⟨evtchnFifoInitControl placed mapped s.d vcpuId,s.raised⟩
  | .expandArray page => some ⟨evtchnFifoExpandArray page s.d,s.raised⟩
  | .reset self => some ⟨reset self s.d,fun _ => false⟩

def blankPage (d : Domain) (page : Nat → EventWord) : Prop :=
  ∀ p < d.numEvtchns + evtchnFifoEventWordsPerPage, d.numEvtchns ≤ p → (page p).pending = false

-- Pages are added with no event pending on them, and the pending bits
-- themselves are written only through `guestClear`.
def Legal (s : System) : Event → Prop
  | .bind memory port _ => (getFreePort memory s.d).map Prod.fst = some port
  | .guestWrite bit _ => s.d.bitsPerEvtchnWord * s.d.bitsPerEvtchnWord ≤ bit
  | .expandArray page => blankPage s.d page
  | _ => True

-- A port is bound only when nothing is left of the events before.
def Fresh (s : System) : Event → Prop
  | .bind _ port _ =>
    (port < s.d.allocated → (s.d.evtchn port).pending = false) ∧ (s.d.fifo = false → s.d.sharedInfo port = false)
  | _ => True

instance (s : System) (event : Event) : Decidable (Legal s event) := by
  cases event <;> dsimp only [Legal,blankPage] <;> infer_instance

instance (s : System) (event : Event) : Decidable (Fresh s event) := by
  cases event <;> dsimp only [Fresh] <;> infer_instance

section Frames

-- What neither linking nor a guest's write to a word touches.
structure Alike (d d' : Domain) : Prop where
  fifo : d'.fifo = d.fifo
  bits : d'.bitsPerEvtchnWord = d.bitsPerEvtchnWord
  allocated : d'.allocated = d.allocated
  num : d'.numEvtchns = d.numEvtchns
  shared : d'.sharedInfo = d.sharedInfo
  bound : ∀ p, (d'.evtchn p).bound = (d.evtchn p).bound
  pending : ∀ p, (d'.evtchn p).pending = (d.evtchn p).pending

theorem alike_refl : Alike d d := ⟨rfl,rfl,rfl,rfl,rfl,fun _ => rfl,fun _ => rfl⟩

theorem alike_trans (first : Alike d d') (second : Alike d' d'') : Alike d d'' :=
  ⟨second.fifo.trans first.fifo,second.bits.trans first.bits,second.allocated.trans first.allocated,
    second.num.trans first.num,second.shared.trans first.shared,fun p => (second.bound p).trans (first.bound p),
    fun p => (second.pending p).trans (first.pending p)⟩

theorem alike_setEvtchn (bound : chn.bound = (d.evtchn port).bound) (pending : chn.pending = (d.evtchn port).pending) :
    Alike d (setEvtchn d port chn) := by
  refine ⟨rfl,rfl,rfl,rfl,rfl,fun p => ?_,fun p => ?_⟩
  · by_cases here : p = port <;> simp [setEvtchn,here,bound]
  · by_cases here : p = port <;> simp [setEvtchn,here,pending]

theorem appendTail_alike (d : Domain) (q : Nat × Nat) (port : Nat) : Alike d (appendTail d q port) := by
  simp only [appendTail]
  split
  next d' linked =>
    split at linked
    · obtain ⟨word,_,rfl⟩ := Option.map_eq_some_iff.mp linked
      exact ⟨rfl,rfl,rfl,rfl,rfl,fun _ => rfl,fun _ => rfl⟩
    · cases linked
  · exact ⟨rfl,rfl,rfl,rfl,rfl,fun _ => rfl,fun _ => rfl⟩

theorem leaveOldQueue_alike (d : Domain) (q : Nat × Nat) (port : Nat) : Alike d (leaveOldQueue d q port) := by
  have tail (d : Domain) (q : Nat × Nat) : Alike d (dropTail d q port) := by
    unfold dropTail
    split <;> exact ⟨rfl,rfl,rfl,rfl,rfl,fun _ => rfl,fun _ => rfl⟩
  have record (d : Domain) : Alike d (recordQueue d q port) := by
    simp only [recordQueue]
    split
    · exact alike_setEvtchn rfl rfl
    · exact alike_refl
  have linked : Alike d (setWord d port {d.word port with linked := true}) :=
    ⟨rfl,rfl,rfl,rfl,rfl,fun _ => rfl,fun _ => rfl⟩
  exact alike_trans linked (alike_trans (tail _ _) (record _))

theorem setPending_alike (known : port < d.numEvtchns) :
    Alike d (evtchnFifoSetPending d (d.evtchn port).notifyVcpuId port) := by
  have mark : Alike d (marked d port) := ⟨rfl,rfl,rfl,rfl,rfl,fun _ => rfl,fun _ => rfl⟩
  rw [setPending_known known]
  split
  · exact alike_trans mark (alike_trans (leaveOldQueue_alike _ _ _) (appendTail_alike _ _ _))
  · exact mark

theorem alike_valid (alike : Alike d d') (p : Nat) : portIsValid d' p = portIsValid d p := by
  rw [portIsValid,portIsValid,maxEvtchns,maxEvtchns,alike.fifo,alike.bits,alike.allocated]

-- The ports whose flag is set have their event raised on the new page.
theorem raiseAgain_fold (ports : List Nat) (known : ∀ p ∈ ports, p < d.numEvtchns) :
    Alike d (ports.foldl raiseAgain d) ∧ ∀ p, ((ports.foldl raiseAgain d).word p).pending =
      ((d.word p).pending || (decide (p ∈ ports) && (portIsValid d p && (d.evtchn p).pending))) := by
  induction ports generalizing d with
  | nil => exact ⟨alike_refl,fun p => by simp⟩
  | cons port rest ih =>
    have first : Alike d (raiseAgain d port) ∧ ∀ p, ((raiseAgain d port).word p).pending =
        ((d.word p).pending || (decide (p = port) && (portIsValid d p && (d.evtchn p).pending))) := by
      unfold raiseAgain
      split
      next due =>
        refine ⟨setPending_alike (known port (by simp)),fun p => ?_⟩
        rw [(setPending_word (known port (by simp)) p).1]
        by_cases here : p = port
        · subst here
          simp [due]
        · simp [here]
      next idle =>
        refine ⟨alike_refl,fun p => ?_⟩
        by_cases here : p = port
        · subst here
          simpa using fun valid pending => absurd (by simp [valid,pending]) idle
        · simp [here]
    have inside : ∀ p ∈ rest, p < (raiseAgain d port).numEvtchns := fun p later => by
      rw [first.1.num]
      exact known p (by simp [later])
    obtain ⟨alike,words⟩ := ih inside
    refine ⟨alike_trans first.1 alike,fun p => ?_⟩
    rw [List.foldl_cons,words p,first.2 p,alike_valid first.1,first.1.pending]
    simp only [List.mem_cons]
    cases (d.word p).pending <;> cases portIsValid d p <;> cases (d.evtchn p).pending <;> simp

end Frames

-- Where an event that was raised waits until its word is there.
def Carried (d : Domain) (raised : Bool) (p : Nat) : Prop :=
  if d.fifo then d.numEvtchns ≤ p → (d.evtchn p).pending = raised
  else d.sharedInfo p = raised ∧ (d.evtchn p).pending = false

structure Ports (d : Domain) : Prop where
  sized : d.bitsPerEvtchnWord = 32 ∨ d.bitsPerEvtchnWord = 64
  room : 0 < d.allocated
  valid : ∀ p, (d.evtchn p).bound = true → p ≠ 0 ∧ portIsValid d p = true

structure Invariant (s : System) : Prop extends Ports s.d where
  carried : ∀ p, (s.d.evtchn p).bound = true → Carried s.d (s.raised p) p

theorem portIsValid_iff : portIsValid d p = true ↔ p < maxEvtchns d ∧ p < d.allocated := by simp [portIsValid]

-- The port found, and the domain it is found in.
structure Found (d : Domain) (port : Nat) (d' : Domain) : Prop where
  nonzero : port ≠ 0
  valid : portIsValid d' port = true
  more : d.allocated ≤ d'.allocated
  rest : d' = {d with evtchn := d'.evtchn,allocated := d'.allocated}
  kept : ∀ p, (d'.evtchn p).bound = true → d'.evtchn p = d.evtchn p
  clear : (port < d.allocated → (d.evtchn port).pending = false) → (d'.evtchn port).pending = false

theorem getFreePort_found (ports : Ports d) (got : getFreePort memory d = some (port,d')) : Found d port d' := by
  unfold getFreePort at got
  split at got
  next first found =>
    cases got
    have inside := List.mem_range.mp (List.mem_of_find?_eq_some found)
    have free := List.find?_some found
    simp only [Bool.and_eq_true,bne_iff_ne,Bool.not_eq_true'] at free
    have valid := Nat.lt_min.mp inside
    exact ⟨free.1,portIsValid_iff.mpr valid,le_rfl,rfl,fun _ _ => rfl,fun clear => clear valid.2⟩
  next =>
    split at got
    · cases got
    next full =>
    split at got
    · cases got
      have last : validPorts d = d.allocated := by simp only [validPorts] at full ⊢; omega
      have below : d.allocated < maxEvtchns d := by simp only [validPorts] at full; omega
      rw [last]
      have here : (newBucket d d.allocated).evtchn d.allocated = ⟨false,false,0,0,0,0⟩ := by
        simp [newBucket,evtchnsPerBucket]
      refine ⟨Nat.pos_iff_ne_zero.mp ports.room,?_,Nat.le_add_right _ _,rfl,fun p bound => ?_,fun _ => by rw [here]⟩
      · exact portIsValid_iff.mpr ⟨below,by simp [newBucket,evtchnsPerBucket]⟩
      · simp only [newBucket] at bound ⊢
        split at bound
        · cases bound
        next old => rw [if_neg old]
    · cases got

-- An operation on one port.
theorem invariant_at {raised : Nat → Bool} (inv : Invariant s) (port : Nat) (fifo : d'.fifo = s.d.fifo)
    (bits : d'.bitsPerEvtchnWord = s.d.bitsPerEvtchnWord) (num : d'.numEvtchns = s.d.numEvtchns)
    (more : s.d.allocated ≤ d'.allocated)
    (others : ∀ p, p ≠ port → (d'.evtchn p).bound = true → (s.d.evtchn p).bound = true ∧
      (d'.evtchn p).pending = (s.d.evtchn p).pending ∧ d'.sharedInfo p = s.d.sharedInfo p ∧ raised p = s.raised p)
    (own : (d'.evtchn port).bound = true → port ≠ 0 ∧ portIsValid d' port = true ∧ Carried d' (raised port) port) :
    Invariant ⟨d',raised⟩ := by
  refine ⟨⟨bits ▸ inv.sized,Nat.lt_of_lt_of_le inv.room more,fun p bound => ?_⟩,fun p bound => ?_⟩
  · by_cases here : p = port
    · subst here
      exact ⟨(own bound).1,(own bound).2.1⟩
    · obtain ⟨nonzero,valid⟩ := inv.valid p (others p here bound).1
      have inside := portIsValid_iff.mp valid
      refine ⟨nonzero,portIsValid_iff.mpr ⟨?_,Nat.lt_of_lt_of_le inside.2 more⟩⟩
      rw [maxEvtchns,fifo,bits]
      exact inside.1
  · by_cases here : p = port
    · subst here
      exact (own bound).2.2
    · obtain ⟨before,pending,shared,same⟩ := others p here bound
      have carried := inv.carried p before
      simp only [Carried,fifo,num,pending,shared,same]
      exact carried

theorem bind_eq (vcpu : Nat) (got : getFreePort memory d = some (port,d')) :
    ∃ chn, bind memory d vcpu = setEvtchn d' port chn ∧ chn.bound = true ∧ chn.pending = (d'.evtchn port).pending := by
  have bound : bind memory d vcpu =
      evtchnPortInit (setEvtchn d' port {d'.evtchn port with bound := true,notifyVcpuId := vcpu}) port := by
    rw [bind,got]
  rw [bound]
  unfold evtchnPortInit
  split
  · refine ⟨{d'.evtchn port with bound := true,notifyVcpuId := vcpu,priority := evtchnFifoPriorityDefault},?_,rfl,rfl⟩
    simp only [setEvtchn,Function.update_self,Function.update_idem]
  · exact ⟨_,rfl,rfl,rfl⟩

theorem bind_invariant (inv : Invariant s) (legal : Legal s (.bind memory port vcpu)) (fresh : Fresh s (.bind memory port vcpu)) :
    Invariant ⟨bind memory s.d vcpu,Function.update s.raised port false⟩ := by
  obtain ⟨⟨_,d⟩,got,rfl⟩ := Option.map_eq_some_iff.mp legal
  have found := getFreePort_found inv.toPorts got
  obtain ⟨chn,result,bound,pending⟩ := bind_eq vcpu got
  have clear := pending.trans (found.clear fresh.1)
  have fixed := found.rest
  rw [result]
  refine invariant_at inv _ (by rw [setEvtchn,fixed]) (by rw [setEvtchn,fixed]) (by rw [setEvtchn,fixed]) found.more
    (fun p other held => ?_) fun _ => ⟨found.nonzero,found.valid,?_⟩
  · simp only [setEvtchn,Function.update_of_ne other] at held ⊢
    have same := found.kept p held
    exact ⟨same ▸ held,by rw [same],by rw [fixed],trivial⟩
  · simp only [Carried,setEvtchn,Function.update_self]
    split
    · exact fun _ => clear
    next twoLevel =>
      rw [fixed] at twoLevel ⊢
      exact ⟨fresh.2 (by simpa using twoLevel),clear⟩

theorem valid_of_alike (inv : Invariant s) (alike : Alike s.d d') (bound : (d'.evtchn p).bound = true) :
    p ≠ 0 ∧ portIsValid d' p = true :=
  alike_valid alike p ▸ inv.valid p (alike.bound p ▸ bound)

-- Beyond the event words the port's own flag has to follow, before them
-- nothing is asked.
theorem alike_invariant (inv : Invariant s) (alike : Alike s.d d') (fifo : s.d.fifo = true) (known : port < s.d.numEvtchns)
    (raised : Bool) : Invariant ⟨d',Function.update s.raised port raised⟩ := by
  refine invariant_at inv port alike.fifo alike.bits alike.num alike.allocated.ge (fun p other bound => ?_) fun bound => ?_
  · exact ⟨alike.bound p ▸ bound,alike.pending p,by rw [alike.shared],Function.update_of_ne other _ _⟩
  · obtain ⟨nonzero,valid⟩ := valid_of_alike inv alike bound
    refine ⟨nonzero,valid,?_⟩
    rw [Carried,if_pos (alike.fifo.trans fifo),alike.num]
    exact fun beyond => absurd known (Nat.not_lt.mpr beyond)

theorem shared_invariant (inv : Invariant s) (twoLevel : s.d.fifo = false) (raised : Bool) :
    Invariant ⟨{s.d with sharedInfo := Function.update s.d.sharedInfo port raised},Function.update s.raised port raised⟩ := by
  refine invariant_at inv port rfl rfl rfl le_rfl (fun p other bound => ?_) fun bound => ?_
  · exact ⟨bound,rfl,Function.update_of_ne other _ _,Function.update_of_ne other _ _⟩
  · have carried := inv.carried port bound
    refine ⟨(inv.valid port bound).1,(inv.valid port bound).2,?_⟩
    simp only [Carried,twoLevel,Bool.false_eq_true,↓reduceIte,Function.update_self,true_and] at carried ⊢
    exact carried.2

theorem send_invariant (inv : Invariant s) : Invariant ⟨evtchnSetPending s.d port,Function.update s.raised port true⟩ := by
  unfold evtchnSetPending
  split
  next fifo =>
    by_cases known : port < s.d.numEvtchns
    · exact alike_invariant inv (setPending_alike known) fifo known true
    · rw [evtchnFifoSetPending,if_pos (Nat.le_of_not_lt known)]
      refine invariant_at inv port rfl rfl rfl le_rfl (fun p other bound => ?_) fun bound => ?_
      · simp only [setEvtchn,Function.update_of_ne other] at bound ⊢
        exact ⟨bound,trivial,trivial,trivial⟩
      · simp only [setEvtchn,Function.update_self] at bound
        refine ⟨(inv.valid port bound).1,(inv.valid port bound).2,?_⟩
        simp [Carried,setEvtchn,fifo]
  next twoLevel => exact shared_invariant inv (by simpa using twoLevel) true

theorem clear_invariant (inv : Invariant s) (clears : guestClears s.d port = true) :
    Invariant ⟨evtchnPortClearPending s.d port,Function.update s.raised port false⟩ := by
  unfold evtchnPortClearPending
  split
  next fifo =>
    have known : port < s.d.numEvtchns := by simpa [guestClears,fifo] using clears
    rw [evtchnFifoClearPending,if_neg (Nat.not_le.mpr known)]
    have alike : Alike s.d (setWord s.d port {s.d.word port with pending := false}) :=
      ⟨rfl,rfl,rfl,rfl,rfl,fun _ => rfl,fun _ => rfl⟩
    exact alike_invariant inv alike fifo known false
  next twoLevel => exact shared_invariant inv (by simpa using twoLevel) false

-- Closing touches one port, and leaves it unbound.
structure Closed (d : Domain) (port : Nat) (d' : Domain) : Prop where
  fifo : d'.fifo = d.fifo
  bits : d'.bitsPerEvtchnWord = d.bitsPerEvtchnWord
  num : d'.numEvtchns = d.numEvtchns
  allocated : d'.allocated = d.allocated
  others : ∀ p, p ≠ port → d'.evtchn p = d.evtchn p ∧ d'.sharedInfo p = d.sharedInfo p
  unbound : (d'.evtchn port).bound = true → (d.evtchn port).bound = true ∧ portIsValid d port = false

theorem close_closed (d : Domain) (port : Nat) : Closed d port (close d port) := by
  unfold close
  split
  · have clear : Closed d port (setEvtchn (evtchnPortClearPending d port) port
        {(evtchnPortClearPending d port).evtchn port with bound := false,notifyVcpuId := 0}) := by
      unfold evtchnPortClearPending
      split
      · unfold evtchnFifoClearPending
        split
        · exact ⟨rfl,rfl,rfl,rfl,fun p other => by simp [setEvtchn,other],fun bound => by simp [setEvtchn] at bound⟩
        · exact ⟨rfl,rfl,rfl,rfl,fun p other => by simp [setEvtchn,setWord,other],fun bound => by simp [setEvtchn] at bound⟩
      · exact ⟨rfl,rfl,rfl,rfl,fun p other => by simp [setEvtchn,other],fun bound => by simp [setEvtchn] at bound⟩
    exact clear
  next free =>
    refine ⟨rfl,rfl,rfl,rfl,fun _ _ => ⟨rfl,rfl⟩,fun bound => ⟨bound,?_⟩⟩
    simpa [isBound,bound] using free

theorem close_invariant (inv : Invariant s) : Invariant ⟨close s.d port,Function.update s.raised port false⟩ := by
  have closed := close_closed s.d port
  refine invariant_at inv port closed.fifo closed.bits closed.num closed.allocated.ge (fun p other bound => ?_) fun bound => ?_
  · obtain ⟨same,shared⟩ := closed.others p other
    rw [same] at bound ⊢
    exact ⟨bound,rfl,shared,Function.update_of_ne other _ _⟩
  · obtain ⟨before,invalid⟩ := closed.unbound bound
    rw [(inv.valid port before).2] at invalid
    cases invalid

theorem close_fold (ports : List Nat) (d : Domain) :
    (ports.foldl close d).bitsPerEvtchnWord = d.bitsPerEvtchnWord ∧ (ports.foldl close d).allocated = d.allocated ∧
      ∀ p, ((ports.foldl close d).evtchn p).bound = true →
        (d.evtchn p).bound = true ∧ (p ∈ ports → portIsValid d p = false) := by
  induction ports generalizing d with
  | nil => exact ⟨rfl,rfl,fun p bound => ⟨bound,by simp⟩⟩
  | cons port rest ih =>
    have closed := close_closed d port
    obtain ⟨bits,allocated,unbound⟩ := ih (close d port)
    have valid (p : Nat) : portIsValid (close d port) p = portIsValid d p := by
      rw [portIsValid,portIsValid,maxEvtchns,maxEvtchns,closed.fifo,closed.bits,closed.allocated]
    refine ⟨bits.trans closed.bits,allocated.trans closed.allocated,fun p bound => ?_⟩
    obtain ⟨between,later⟩ := unbound p bound
    by_cases here : p = port
    · subst here
      exact ⟨(closed.unbound between).1,fun _ => (closed.unbound between).2⟩
    · rw [(closed.others p here).1] at between
      refine ⟨between,fun member => ?_⟩
      rw [← valid p]
      exact later ((List.mem_cons.mp member).resolve_left here)

theorem reset_invariant (inv : Invariant s) (self : Bool) : Invariant ⟨reset self s.d,fun _ => false⟩ := by
  obtain ⟨bits,allocated,unbound⟩ := close_fold (List.range (validPorts s.d)) s.d
  have none (p : Nat) : (((List.range (validPorts s.d)).foldl close s.d).evtchn p).bound ≠ true := fun bound => by
    obtain ⟨before,invalid⟩ := unbound p bound
    have valid := (inv.valid p before).2
    rw [invalid (List.mem_range.mpr (Nat.lt_min.mpr (portIsValid_iff.mp valid)))] at valid
    cases valid
  unfold reset
  generalize (List.range (validPorts s.d)).foldl close s.d = d at bits allocated none
  have fresh (d' : Domain) (bits' : d'.bitsPerEvtchnWord = d.bitsPerEvtchnWord) (allocated' : d'.allocated = d.allocated)
      (same : d'.evtchn = d.evtchn) : Invariant ⟨d',fun _ => false⟩ := by
    refine ⟨⟨?_,?_,fun p bound => ?_⟩,fun p bound => ?_⟩
    · exact bits'.trans bits ▸ inv.sized
    · exact allocated'.trans allocated ▸ inv.room
    all_goals exact absurd (same ▸ bound) (none p)
  dsimp only
  split
  · exact fresh _ rfl rfl rfl
  · exact fresh _ rfl rfl rfl

theorem write_invariant (inv : Invariant s) (legal : Legal s (.guestWrite bit value)) :
    Invariant ⟨{s.d with sharedInfo := Function.update s.d.sharedInfo bit value},s.raised⟩ := by
  refine invariant_at inv bit rfl rfl rfl le_rfl (fun p other bound => ?_) fun bound => ?_
  · exact ⟨bound,rfl,Function.update_of_ne other _ _,rfl⟩
  · refine ⟨(inv.valid bit bound).1,(inv.valid bit bound).2,?_⟩
    have inside := (portIsValid_iff.mp (inv.valid bit bound).2).1
    have carried := inv.carried bit bound
    unfold maxEvtchns at inside
    unfold Carried at carried ⊢
    split
    next fifo => rwa [if_pos fifo] at carried
    next twoLevel =>
      rw [if_neg twoLevel] at inside
      exact absurd inside (Nat.not_lt.mpr legal)

-- The bitmap's events become the flags of their ports.
theorem setupPorts_invariant (inv : Invariant s) (twoLevel : s.d.fifo = false) (fifo : d.fifo = true)
    (bits : d.bitsPerEvtchnWord = s.d.bitsPerEvtchnWord) (allocated : d.allocated = s.d.allocated)
    (evtchn : d.evtchn = s.d.evtchn) (shared : d.sharedInfo = s.d.sharedInfo) : Invariant ⟨setupPorts d,s.raised⟩ := by
  have inside (p : Nat) (bound : (s.d.evtchn p).bound = true) : portIsValid d p = true := by
    have before := portIsValid_iff.mp (inv.valid p bound).2
    have size : s.d.bitsPerEvtchnWord * s.d.bitsPerEvtchnWord ≤ EventChannel.evtchnFifoNrChannels := by
      rcases inv.sized with bits | bits <;> rw [bits] <;> decide
    rw [maxEvtchns,twoLevel] at before
    rw [portIsValid_iff,maxEvtchns,if_pos fifo,allocated]
    exact ⟨Nat.lt_of_lt_of_le before.1 size,before.2⟩
  have held (p : Nat) (bound : ((setupPorts d).evtchn p).bound = true) : (s.d.evtchn p).bound = true := by
    simp only [setupPorts,evtchn] at bound
    split at bound <;> exact bound
  refine ⟨⟨bits ▸ inv.sized,allocated ▸ inv.room,fun p bound => ?_⟩,fun p bound => ?_⟩
  · exact ⟨(inv.valid p (held p bound)).1,inside p (held p bound)⟩
  · have carried := inv.carried p (held p bound)
    have due : p ≠ 0 ∧ portIsValid d p = true := ⟨(inv.valid p (held p bound)).1,inside p (held p bound)⟩
    simp only [Carried,twoLevel,Bool.false_eq_true,↓reduceIte] at carried
    have flag : ((setupPorts d).evtchn p).pending = s.raised p := by
      simp only [setupPorts,if_pos due,evtchn,shared,carried.1,carried.2,Bool.false_or]
    rw [Carried,if_pos (show (setupPorts d).fifo = true from fifo)]
    exact fun _ => flag

theorem initControl_invariant (inv : Invariant s) (placed mapped : Bool) (vcpuId : Nat) :
    Invariant ⟨evtchnFifoInitControl placed mapped s.d vcpuId,s.raised⟩ := by
  unfold evtchnFifoInitControl
  split
  · exact inv
  split
  · split
    · exact inv
    · exact ⟨⟨inv.sized,inv.room,inv.valid⟩,inv.carried⟩
  next twoLevel => exact setupPorts_invariant inv (by simpa using twoLevel) rfl rfl rfl rfl rfl

-- What adding a page makes of the domain, and of the words on it.
theorem expandArray_words (legal : blankPage d page) (fifo : d.fifo = true) :
    (evtchnFifoMaxEventArrayPages ≤ d.numEvtchns / evtchnFifoEventWordsPerPage ∧ evtchnFifoExpandArray page d = d ∨
      (evtchnFifoExpandArray page d).numEvtchns = d.numEvtchns + evtchnFifoEventWordsPerPage ∧
      Alike {d with numEvtchns := d.numEvtchns + evtchnFifoEventWordsPerPage} (evtchnFifoExpandArray page d)) ∧
    ∀ p, d.numEvtchns ≤ p → p < (evtchnFifoExpandArray page d).numEvtchns → portIsValid d p = true →
      ((evtchnFifoExpandArray page d).word p).pending = (d.evtchn p).pending := by
  rw [evtchnFifoExpandArray,if_pos fifo]
  unfold addPageToEventArray
  dsimp only
  split
  next full => exact ⟨.inl ⟨full,rfl⟩,fun p beyond known => absurd known (Nat.not_lt.mpr beyond)⟩
  · let added : Domain := {d with
      word := fun p => if d.numEvtchns ≤ p ∧ p < d.numEvtchns + evtchnFifoEventWordsPerPage then page p else d.word p,
      numEvtchns := d.numEvtchns + evtchnFifoEventWordsPerPage}
    have inside : ∀ p ∈ List.range' d.numEvtchns evtchnFifoEventWordsPerPage, p < added.numEvtchns := fun p member =>
      (List.mem_range'_1.mp member).2
    obtain ⟨alike,words⟩ := raiseAgain_fold (d:=added) (List.range' d.numEvtchns evtchnFifoEventWordsPerPage) inside
    change _ ∧ ∀ p, _ → p < ((List.range' d.numEvtchns evtchnFifoEventWordsPerPage).foldl raiseAgain added).numEvtchns → _
    generalize (List.range' d.numEvtchns evtchnFifoEventWordsPerPage).foldl raiseAgain added = result at alike words ⊢
    refine ⟨.inr ⟨alike.num,⟨alike.fifo,alike.bits,alike.allocated,alike.num,alike.shared,alike.bound,alike.pending⟩⟩,
      fun p beyond known valid => ?_⟩
    have fresh : p < d.numEvtchns + evtchnFifoEventWordsPerPage := Nat.lt_of_lt_of_eq known alike.num
    have blank : (added.word p).pending = false := by
      simp only [added,if_pos (And.intro beyond fresh)]
      exact legal p fresh beyond
    have listed : p ∈ List.range' d.numEvtchns evtchnFifoEventWordsPerPage := List.mem_range'_1.mpr ⟨beyond,fresh⟩
    have same : portIsValid added p = true := valid
    rw [words p,blank,decide_eq_true listed,same]
    rfl

theorem expandArray_invariant (inv : Invariant s) (legal : blankPage s.d page) :
    Invariant ⟨evtchnFifoExpandArray page s.d,s.raised⟩ := by
  by_cases fifo : s.d.fifo = true
  · rcases (expandArray_words legal fifo).1 with ⟨_,same⟩ | ⟨num,alike⟩
    · rw [same]
      exact inv
    · have more := alike.num
      generalize evtchnFifoExpandArray page s.d = d at num alike more
      have before (p : Nat) (bound : (d.evtchn p).bound = true) : (s.d.evtchn p).bound = true := alike.bound p ▸ bound
      refine ⟨⟨alike.bits ▸ inv.sized,alike.allocated ▸ inv.room,fun p bound => ?_⟩,fun p bound => ?_⟩
      · rw [alike_valid alike]
        exact inv.valid p (before p bound)
      · have carried := inv.carried p (before p bound)
        rw [Carried,if_pos fifo] at carried
        rw [Carried,if_pos (alike.fifo.trans fifo),num,alike.pending]
        exact fun beyond => carried (Nat.le_trans (Nat.le_add_right _ _) beyond)
  · rw [evtchnFifoExpandArray,if_neg fifo]
    exact inv

theorem step_invariant (inv : Invariant s) (allowed : Legal s event ∧ Fresh s event) (ran : step s event = some s') :
    Invariant s' := by
  obtain ⟨legal,fresh⟩ := allowed
  cases event with
  | bind memory port vcpu => cases ran; exact bind_invariant inv legal fresh
  | send port =>
    simp only [step] at ran
    split at ran <;> cases ran
    · exact send_invariant inv
    · exact inv
  | close port => cases ran; exact close_invariant inv
  | guestClear port =>
    simp only [step] at ran
    split at ran <;> cases ran
    next clears => exact clear_invariant inv clears
    next => exact inv
  | guestWrite bit value => cases ran; exact write_invariant inv legal
  | initControl placed mapped vcpuId => cases ran; exact initControl_invariant inv placed mapped vcpuId
  | expandArray page => cases ran; exact expandArray_invariant inv legal
  | reset self => cases ran; exact reset_invariant inv self

-- A new domain, with its first bucket of channels.
def start (vcpu : Nat → Bool) (wide : Bool) : System :=
  ⟨⟨vcpu,if wide then 64 else 32,evtchnsPerBucket,fun _ => ⟨false,false,0,0,0,0⟩,fun _ => false,false,0,
    fun _ => ⟨false,false,false,false,0⟩,fun _ => false,fun _ => ⟨0,0⟩,fun _ => false⟩,fun _ => false⟩

theorem start_invariant (vcpu : Nat → Bool) (wide : Bool) : Invariant (start vcpu wide) := by
  refine ⟨⟨?_,(by decide : 0 < evtchnsPerBucket),fun p bound => ?_⟩,fun p bound => ?_⟩
  · cases wide
    · exact .inl rfl
    · exact .inr rfl
  all_goals cases bound

-- A new page shows, on the words of bound ports, exactly the events that were
-- raised, in every run that binds a port only when it is fresh.
theorem page_shows_raised (vcpu : Nat → Bool) (wide : Bool)
    (legal : Run.Guarded (fun s event => Legal s event ∧ Fresh s event) step (start vcpu wide) events)
    (ran : Run.run step (start vcpu wide) events = some s) (page : Nat → EventWord) (blank : Legal s (.expandArray page))
    (fifo : s.d.fifo = true) :
    ∀ p, s.d.numEvtchns ≤ p → p < (evtchnFifoExpandArray page s.d).numEvtchns → (s.d.evtchn p).bound = true →
      ((evtchnFifoExpandArray page s.d).word p).pending = s.raised p := by
  have inv := Run.guarded_invariant (fun _ _ _ => step_invariant) (start_invariant vcpu wide) legal ran
  intro p beyond known bound
  have carried := inv.carried p bound
  rw [Carried,if_pos fifo] at carried
  rw [(expandArray_words blank fifo).2 p beyond known (inv.valid p bound).2]
  exact carried beyond

def zeroPage : Nat → EventWord := fun _ => ⟨false,false,false,false,0⟩

-- One event raised before the switch and one after it.
def switch : List Event :=
  [.bind true 1 0,.send 1,.initControl true true 0,.bind true 2 0,.send 2,.bind true 3 0]

theorem page_shows_raised_switch : ∃ s, Run.run step (start (fun v => v == 0) true) switch = some s ∧
    s.d.fifo = true ∧ s.raised 1 = true ∧ ∀ p, s.d.numEvtchns ≤ p → p < (evtchnFifoExpandArray zeroPage s.d).numEvtchns →
      (s.d.evtchn p).bound = true → ((evtchnFifoExpandArray zeroPage s.d).word p).pending = s.raised p := by
  obtain ⟨s,ran,fifo,raised⟩ := Run.run_reaches (s:=start (fun v => v == 0) true)
    (P:=fun s => s.d.fifo = true ∧ s.raised 1 = true) (show (Run.run step _ switch).any _ = true by decide +kernel)
  exact ⟨s,ran,fifo,raised,page_shows_raised _ true (by decide +kernel) ran zeroPage (fun _ _ _ => rfl) fifo⟩

def invented (s : System) (p : Nat) : Bool :=
  decide (p < s.d.numEvtchns) && (s.d.evtchn p).bound && (s.d.word p).pending && !s.raised p

def leftOver (p : Nat) (s : System) : Prop :=
  s.d.fifo = true ∧ s.d.numEvtchns = 0 ∧ isBound s.d p = true ∧ (s.d.evtchn p).pending = true ∧ s.raised p = false

instance (p : Nat) : DecidablePred (leftOver p) := fun _ => by
  unfold leftOver
  infer_instance

-- The first page shows the flag that is set, whoever set it.
theorem run_invents (seen : (Run.run step s events).any (fun s => decide (leftOver p s)) = true)
    (first : p < evtchnFifoEventWordsPerPage) :
    ∃ s', Run.run step s (events ++ [.expandArray zeroPage]) = some s' ∧ invented s' p = true := by
  obtain ⟨s,ran,fifo,empty,bound,flag,idle⟩ := Run.run_reaches seen
  obtain ⟨valid,bound⟩ := Bool.and_eq_true_iff.mp bound
  obtain ⟨outcome,shows⟩ := expandArray_words (fun _ _ _ => rfl : blankPage s.d zeroPage) fifo
  refine ⟨⟨evtchnFifoExpandArray zeroPage s.d,s.raised⟩,by rw [Run.run_append,ran]; rfl,?_⟩
  rcases outcome with ⟨full,_⟩ | ⟨num,alike⟩
  · rw [empty] at full
    exact absurd full (by decide)
  · have known : p < (evtchnFifoExpandArray zeroPage s.d).numEvtchns := by
      rw [num,empty,Nat.zero_add]
      exact first
    have word := shows p (empty ▸ Nat.zero_le p) known valid
    simp [invented,known,word,flag,idle,alike.bound p,bound]

def rebound : List Event := [.initControl true true 0,.bind true 1 0,.send 1,.close 1,.bind true 1 0]

def resetBetween : List Event :=
  [.bind true 1 0,.send 1,.initControl true true 0,.reset true,.bind true 1 0,.guestClear 1,.initControl true true 0]

-- The flag of a port without a word outlives the close, and the reset.
theorem closed_event_returns :
    Run.Guarded Legal step (start (fun v => v == 0) true) (rebound ++ [.expandArray zeroPage]) ∧
    (∃ s, Run.run step (start (fun v => v == 0) true) (rebound ++ [.expandArray zeroPage]) = some s ∧ invented s 1 = true) ∧
    Run.Guarded Legal step (start (fun v => v == 0) true) (resetBetween ++ [.expandArray zeroPage]) ∧
    ∃ s, Run.run step (start (fun v => v == 0) true) (resetBetween ++ [.expandArray zeroPage]) = some s ∧ invented s 1 = true :=
  ⟨by decide +kernel,run_invents (by decide +kernel) (by decide),by decide +kernel,run_invents (by decide +kernel) (by decide)⟩

end XenAet.FifoPending
