import XenAet.Library.LinkedLists
import XenAet.EventFifo

namespace XenAet.FifoQueues
open Library EventFifo TailQueues Chains

-- The guest reads a queue's head once and then goes on by itself from
-- `position`. `held` are the events it still has something to do about: it has
-- unlinked one and not yet looked at it, or has cleared MASKED of a pending one
-- and not yet called for the unmask. `dropped` are those whose vcpu had no
-- control block when they last had to be linked.
structure System where
  d : Domain
  position : Nat × Nat → Nat
  held : Nat → Bool
  dropped : Nat → Bool

variable {s s' : System} {d : Domain} {p port v : Nat} {q : Nat × Nat} {position : Nat × Nat → Nat}

def target (d : Domain) (port : Nat) : Nat × Nat := ((d.evtchn port).notifyVcpuId,(d.evtchn port).priority)

def modifyWord (s : System) (port : Nat) (change : EventWord → EventWord) : System :=
  {s with d := setWord s.d port (change (s.d.word port))}

-- A raise of an event that has to be linked is dropped or not.
def outcome (d : Domain) (dropped : Nat → Bool) (port : Nat) (due : Bool) : Nat → Bool :=
  if decide (port < d.numEvtchns) && due then
    Function.update dropped port (!d.controlBlock (d.evtchn port).notifyVcpuId)
  else dropped

def setPending (s : System) (port : Nat) : System :=
  let word := s.d.word port
  {s with
    d := evtchnFifoSetPending s.d (s.d.evtchn port).notifyVcpuId port
    dropped := outcome s.d s.dropped port (!word.masked && !word.linked)}

def unmask (s : System) (port : Nat) : System :=
  let word := s.d.word port
  {s with
    d := evtchnFifoUnmask s.d port
    held := Function.update s.held port false
    dropped := outcome s.d s.dropped port (word.pending && !word.linked)}

def fetch (s : System) (q : Nat × Nat) : System :=
  if s.d.ready q && s.position q == 0 then
    {s with
      d := {s.d with ready := Function.update s.d.ready q false}
      position := Function.update s.position q (s.d.queue q).head}
  else s

def consume (s : System) (q : Nat × Nat) : System :=
  let port := s.position q
  if port = 0 then s
  else
    {modifyWord s port fun word => {word with linked := false,link := 0} with
      position := Function.update s.position q (s.d.word port).link
      held := Function.update s.held port true}

inductive Event where
  | setPending (port : Nat)
  | unmask (port : Nat)
  | setPriority (port priority : Nat)
  | bindVcpu (port vcpuId : Nat)
  | fetch (q : Nat × Nat)
  | consume (q : Nat × Nat)
  | clearPending (port : Nat)
  | ignore (port : Nat)
  | setMasked (port : Nat)
  | clearMasked (port : Nat)

def step (s : System) : Event → Option System
  | .setPending port => some (setPending s port)
  | .unmask port => some (unmask s port)
  | .setPriority port priority => some {s with d := evtchnFifoSetPriority s.d port priority}
  | .bindVcpu port vcpuId => some {s with d := evtchnBindVcpu s.d port vcpuId}
  | .fetch q => some (fetch s q)
  | .consume q => some (consume s q)
  | .clearPending port =>
    some {modifyWord s port fun word => {word with pending := false} with held := Function.update s.held port false}
  | .ignore port =>
    let word := s.d.word port
    if word.masked || !word.pending then some {s with held := Function.update s.held port false} else some s
  | .setMasked port => some (modifyWord s port fun word => {word with masked := true})
  | .clearMasked port =>
    some {modifyWord s port fun word => {word with masked := false} with
      held := Function.update s.held port (s.held port || (s.d.word port).pending)}

-- Port 0 is reserved and never raised.
def Legal (_ : System) : Event → Prop
  | .setPending port => port ≠ 0
  | .unmask port => port ≠ 0
  | _ => True

instance (s : System) (event : Event) : Decidable (Legal s event) := by
  cases event <;> dsimp only [Legal] <;> infer_instance

def shape (d : Domain) (position : Nat × Nat → Nat) : Shape (Nat × Nat) where
  linked p := (d.word p).linked
  link p := (d.word p).link
  home p := lockOldQueue (d.evtchn p)
  tail q := (d.queue q).tail
  start q := if d.ready q then (d.queue q).head else position q

section Shapes
variable {word : EventWord} {chn : Evtchn} {t : Nat}

theorem setWord_shape : shape (setWord d port word) position =
    {shape d position with
      linked := Function.update (shape d position).linked port word.linked
      link := Function.update (shape d position).link port word.link} := by
  have each {α : Type} (f : EventWord → α) : (fun p => f ((setWord d port word).word p)) =
      Function.update (fun p => f (d.word p)) port (f word) := by
    funext p
    by_cases here : p = port <;> simp [setWord,here]
  ext1
  · exact each EventWord.linked
  · exact each EventWord.link
  · rfl
  · rfl
  · rfl

theorem setTail_shape : shape (setQueue d q ⟨(d.queue q).head,t⟩) position =
    {shape d position with tail := Function.update (shape d position).tail q t} := by
  ext1
  · rfl
  · rfl
  · rfl
  · funext r
    by_cases here : r = q <;> simp [shape,setQueue,here]
  · funext r
    by_cases here : r = q <;> simp [shape,setQueue,here]

theorem setEvtchn_shape : shape (setEvtchn d port chn) position =
    {shape d position with home := Function.update (shape d position).home port (lockOldQueue chn)} := by
  ext1
  · rfl
  · rfl
  · funext p
    by_cases here : p = port <;> simp [shape,setEvtchn,here]
  · rfl
  · rfl

theorem startQueue_shape (d : Domain) (q : Nat × Nat) (port : Nat) :
    shape {setQueue d q ⟨port,t⟩ with ready := Function.update d.ready q true} position =
      {shape d position with
        tail := Function.update (shape d position).tail q t
        start := Function.update (shape d position).start q port} := by
  ext1
  · rfl
  · rfl
  · rfl
  · funext r
    by_cases here : r = q <;> simp [shape,setQueue,here]
  · funext r
    by_cases here : r = q <;> simp [shape,setQueue,here]

theorem dropTail_shape (d : Domain) (q : Nat × Nat) (port : Nat) : shape (dropTail d q port) position =
    {shape d position with
      tail := if (shape d position).tail q = port then Function.update (shape d position).tail q 0
        else (shape d position).tail} := by
  unfold dropTail
  by_cases tail : (d.queue q).tail = port
  · have at_port : (shape d position).tail q = port := tail
    rw [if_pos tail,setTail_shape,if_pos at_port]
  · have other : (shape d position).tail q ≠ port := tail
    rw [if_neg tail,if_neg other]

-- Without a move the port already has the new queue as its last.
theorem recordQueue_shape (d : Domain) (port : Nat) : shape (recordQueue d (target d port) port) position =
    {shape d position with home := Function.update (shape d position).home port (target d port)} := by
  simp only [recordQueue]
  split
  · exact setEvtchn_shape
  next same =>
    have home : Function.update (shape d position).home port (target d port) = (shape d position).home := by
      rw [← not_not.mp same]
      exact Function.update_eq_self _ _
    rw [home]

theorem evtchn_dropTail (d : Domain) (q : Nat × Nat) (port : Nat) : (dropTail d q port).evtchn = d.evtchn := by
  unfold dropTail
  split <;> rfl

theorem leaveOldQueue_shape (position : Nat × Nat → Nat) (d : Domain) (port : Nat) : shape (leaveOldQueue d (target d port) port) position =
    {shape d position with
      linked := Function.update (shape d position).linked port true
      home := Function.update (shape d position).home port (target d port)
      tail := vacated (shape d position) port} := by
  have link : Function.update (shape d position).link port (d.word port).link = (shape d position).link :=
    Function.update_eq_self _ _
  have same : target d port = target (dropTail (setWord d port {d.word port with linked := true})
      (lockOldQueue (d.evtchn port)) port) port := by
    rw [target,target,evtchn_dropTail]
    rfl
  simp only [leaveOldQueue]
  rw [same,recordQueue_shape,← same,dropTail_shape,setWord_shape,link]
  rfl

theorem appendTail_shape (d : Domain) (q : Nat × Nat) (port : Nat) : shape (appendTail d q port) position =
    let s := shape d position
    let after := s.tail q != 0 && s.linked (s.tail q)
    {s with
      link := if after then Function.update s.link (s.tail q) port else s.link
      tail := Function.update s.tail q port
      start := if after then s.start else Function.update s.start q port} := by
  have first : (shape d position).tail q = (d.queue q).tail := rfl
  simp only [appendTail,first]
  by_cases none : (d.queue q).tail = 0
  · simpa [none] using startQueue_shape d q port
  cases linked : (d.word (d.queue q).tail).linked with
  | false =>
    have unlinked : (shape d position).linked (d.queue q).tail = false := linked
    simpa [none,linked,unlinked,evtchnFifoSetLink,trySetLink] using startQueue_shape d q port
  | true =>
    have at_tail : (shape d position).linked (d.queue q).tail = true := linked
    have same : Function.update (shape d position).linked (d.queue q).tail true = (shape d position).linked := by
      rw [← at_tail]
      exact Function.update_eq_self _ _
    simp only [evtchnFifoSetLink,trySetLink,linked,at_tail]
    simp [none,setTail_shape,setWord_shape,same]

theorem setWord_same (linked : word.linked = (d.word port).linked) (link : word.link = (d.word port).link) :
    shape (setWord d port word) position = shape d position := by
  have first : Function.update (shape d position).linked port (d.word port).linked = (shape d position).linked :=
    Function.update_eq_self _ _
  have second : Function.update (shape d position).link port (d.word port).link = (shape d position).link :=
    Function.update_eq_self _ _
  rw [setWord_shape,linked,link,first,second]

theorem setEvtchn_same (last : lockOldQueue chn = lockOldQueue (d.evtchn port)) :
    shape (setEvtchn d port chn) position = shape d position := by
  have home : Function.update (shape d position).home port (lockOldQueue (d.evtchn port)) = (shape d position).home :=
    Function.update_eq_self _ _
  rw [setEvtchn_shape,last,home]

def links (d : Domain) (port : Nat) : Bool :=
  decide (port < d.numEvtchns) && (!(d.word port).masked && !(d.word port).linked) &&
    d.controlBlock (d.evtchn port).notifyVcpuId

def marked (d : Domain) (port : Nat) : Domain := setWord d port {d.word port with pending := true}

theorem setPending_known (known : port < d.numEvtchns) : evtchnFifoSetPending d (d.evtchn port).notifyVcpuId port =
    if links d port then appendTail (leaveOldQueue (marked d port) (target d port) port) (target d port) port
    else marked d port := by
  have word : (marked d port).word port = {d.word port with pending := true} := Function.update_self ..
  have masked : ((marked d port).word port).masked = (d.word port).masked := by rw [word]
  have linked : ((marked d port).word port).linked = (d.word port).linked := by rw [word]
  have unfolded : evtchnFifoSetPending d (d.evtchn port).notifyVcpuId port =
      if ((marked d port).word port).masked || ((marked d port).word port).linked then marked d port
      else if !d.controlBlock (d.evtchn port).notifyVcpuId then marked d port
      else appendTail (leaveOldQueue (marked d port) (target d port) port) (target d port) port :=
    if_neg (Nat.not_le.mpr known)
  rw [unfolded,masked,linked,links]
  cases (d.word port).masked <;> cases (d.word port).linked <;>
    cases d.controlBlock (d.evtchn port).notifyVcpuId <;> simp [known]

-- The model's queues are the general ones, and a raise that links is a push.
theorem setPending_shape (d : Domain) (position : Nat × Nat → Nat) (port : Nat) :
    shape (evtchnFifoSetPending d (d.evtchn port).notifyVcpuId port) position =
      if links d port then push (shape d position) port (target d port) else shape d position := by
  have raised : shape (marked d port) position = shape d position := setWord_same rfl rfl
  by_cases known : port < d.numEvtchns
  · rw [setPending_known known,apply_ite (shape · position),raised]
    refine ite_congr rfl (fun _ => ?_) fun _ => rfl
    have same : target (marked d port) port = target d port := rfl
    rw [appendTail_shape,← same,leaveOldQueue_shape,raised]
    rfl
  · have unknown : links d port = false := by simp [links,known]
    rw [unknown,if_neg (by simp),evtchnFifoSetPending,if_pos (Nat.not_lt.mp known)]
    exact setEvtchn_same rfl

theorem appendTail_flags (d : Domain) (q : Nat × Nat) (port p : Nat) :
    ((appendTail d q port).word p).pending = (d.word p).pending ∧ ((appendTail d q port).word p).masked = (d.word p).masked := by
  simp only [appendTail]
  split
  next d' linked =>
    split at linked
    · simp only [evtchnFifoSetLink,trySetLink] at linked
      split at linked
      · cases linked
        by_cases here : p = (d.queue q).tail <;> simp [setQueue,setWord,here]
      · cases linked
    · cases linked
  · exact ⟨rfl,rfl⟩

theorem leaveOldQueue_flags (d : Domain) (q : Nat × Nat) (port p : Nat) :
    ((leaveOldQueue d q port).word p).pending = (d.word p).pending ∧
      ((leaveOldQueue d q port).word p).masked = (d.word p).masked := by
  simp only [leaveOldQueue,recordQueue,dropTail]
  by_cases here : p = port <;> split <;> split <;> simp [setWord,setQueue,setEvtchn,here]

theorem appendTail_ready (now : (appendTail d q port).ready r = true) :
    d.ready r = true ∨ r = q ∧ ¬((d.queue q).tail ≠ 0 ∧ (d.word (d.queue q).tail).linked = true) := by
  simp only [appendTail] at now
  split at now
  next d' linked =>
    split at linked
    · simp only [evtchnFifoSetLink,trySetLink] at linked
      split at linked <;> cases linked
      exact .inl now
    · cases linked
  next alone =>
    by_cases here : r = q
    · refine .inr ⟨here,fun ⟨there,linked⟩ => ?_⟩
      simp [there,evtchnFifoSetLink,trySetLink,linked] at alone
    · exact .inl (by simpa [setQueue,here] using now)

theorem leaveOldQueue_ready (d : Domain) (q : Nat × Nat) (port : Nat) : (leaveOldQueue d q port).ready = d.ready := by
  simp only [leaveOldQueue,recordQueue,dropTail]
  split <;> split <;> rfl

theorem links_iff : links d port = true ↔ port < d.numEvtchns ∧ (d.word port).masked = false ∧
    (d.word port).linked = false ∧ d.controlBlock (d.evtchn port).notifyVcpuId = true := by
  simp [links,and_assoc]

-- What a raise does to the words, apart from where they are linked.
theorem setPending_word (known : port < d.numEvtchns) (p : Nat) :
    let word := (evtchnFifoSetPending d (d.evtchn port).notifyVcpuId port).word p
    word.pending = (if p = port then true else (d.word p).pending) ∧ word.masked = (d.word p).masked ∧
      word.linked = (if p = port then (d.word port).linked || links d port else (d.word p).linked) := by
  have mark (p : Nat) : ((marked d port).word p).pending = (if p = port then true else (d.word p).pending) ∧
      ((marked d port).word p).masked = (d.word p).masked := by
    by_cases here : p = port <;> simp [marked,setWord,here]
  have after := congrArg (fun s : Shape (Nat × Nat) => s.linked p) (setPending_shape d (fun _ => 0) port)
  rw [setPending_known known] at after ⊢
  refine ⟨?_,?_,?_⟩
  · split
    · exact ((appendTail_flags _ _ _ p).1.trans (leaveOldQueue_flags _ _ _ p).1).trans (mark p).1
    · exact (mark p).1
  · split
    · exact ((appendTail_flags _ _ _ p).2.trans (leaveOldQueue_flags _ _ _ p).2).trans (mark p).2
    · exact (mark p).2
  · refine Eq.trans after ?_
    by_cases here : p = port
    · subst here
      cases due : links d p <;> simp [push,shape]
    · cases due : links d port <;> simp [push,shape,here]

end Shapes

-- An event that waits for the guest is where the guest will find it.
def Raised (d : Domain) (held dropped : Nat → Bool) (p : Nat) : Prop :=
  p < d.numEvtchns → (d.word p).pending = true → (d.word p).masked = false → held p = false → dropped p = false →
    (d.word p).linked = true

structure Invariant (s : System) : Prop where
  ordered : ∃ chain, Ordered (shape s.d s.position) chain
  fetched : ∀ q, s.d.ready q = true → s.position q = 0
  raised : ∀ p, Raised s.d s.held s.dropped p

theorem empty_start (ordered : Ordered (shape d position) chain) (empty : chain q = []) :
    (if d.ready q then (d.queue q).head else position q) = 0 := by
  have follows := ordered.follows q
  rw [empty] at follows
  exact follows

-- A queue is announced only when the guest has come to its end.
theorem setPending_fetched (ordered : Ordered (shape d position) chain) (fetched : ∀ q, d.ready q = true → position q = 0)
    (nonzero : port ≠ 0) (r : Nat × Nat)
    (now : (evtchnFifoSetPending d (d.evtchn port).notifyVcpuId port).ready r = true) : position r = 0 := by
  by_cases known : port < d.numEvtchns
  · rw [setPending_known known] at now
    cases due : links d port with
    | false =>
      rw [due] at now
      exact fetched r now
    | true =>
      rw [due,if_pos rfl] at now
      rcases appendTail_ready now with before | ⟨rfl,alone⟩
      · exact fetched r (by rwa [leaveOldQueue_ready] at before)
      · have fresh := (links_iff.mp due).2.2.1
        have left := leaveOldQueue_shape position (marked d port) port
        have raised : shape (marked d port) position = shape d position := setWord_same rfl rfl
        rw [raised] at left
        have tail : ((leaveOldQueue (marked d port) (target d port) port).queue (target d port)).tail =
            vacated (shape d position) port (target d port) := congrFun (congrArg Shape.tail left) (target d port)
        have linked (x : Nat) : ((leaveOldQueue (marked d port) (target d port) port).word x).linked =
            Function.update (shape d position).linked port true x := congrFun (congrArg Shape.linked left) x
        rw [tail,linked] at alone
        have none : ¬behind (shape d position) port (target d port) = true := fun after =>
          alone (by simpa only [behind,Bool.and_eq_true,bne_iff_ne] using after)
        have start := empty_start ordered (not_behind ordered fresh nonzero none)
        by_cases before : d.ready (target d port) = true
        · exact fetched _ before
        · rwa [if_neg before] at start
  · rw [evtchnFifoSetPending,if_pos (Nat.not_lt.mp known)] at now
    exact fetched r now

theorem setPending_ordered (ordered : ∃ chain, Ordered (shape d position) chain) (nonzero : port ≠ 0) :
    ∃ chain, Ordered (shape (evtchnFifoSetPending d (d.evtchn port).notifyVcpuId port) position) chain := by
  obtain ⟨chain,ordered⟩ := ordered
  rw [setPending_shape]
  split
  next due => exact push_ordered ordered (links_iff.mp due).2.2.1 nonzero _
  · exact ⟨chain,ordered⟩

theorem setPending_num (d : Domain) (port : Nat) :
    (evtchnFifoSetPending d (d.evtchn port).notifyVcpuId port).numEvtchns = d.numEvtchns := by
  have appended (d : Domain) (q : Nat × Nat) : (appendTail d q port).numEvtchns = d.numEvtchns := by
    simp only [appendTail]
    split
    next d' linked =>
      split at linked
      · obtain ⟨word,_,rfl⟩ := Option.map_eq_some_iff.mp linked
        rfl
      · cases linked
    · rfl
  have left (d : Domain) (q : Nat × Nat) : (leaveOldQueue d q port).numEvtchns = d.numEvtchns := by
    simp only [leaveOldQueue,recordQueue,dropTail]
    split <;> split <;> rfl
  by_cases known : port < d.numEvtchns
  · rw [setPending_known known]
    split
    · rw [appended,left]
      rfl
    · rfl
  · rw [evtchnFifoSetPending,if_pos (Nat.not_lt.mp known)]
    rfl

-- The event just raised is on a queue, is masked, or was dropped, whatever it was before.
theorem setPending_raised (known : port < d.numEvtchns) (others : ∀ p, p ≠ port → Raised d held dropped p) (p : Nat) :
    Raised (evtchnFifoSetPending d (d.evtchn port).notifyVcpuId port) held
      (outcome d dropped port (!(d.word port).masked && !(d.word port).linked)) p := by
  intro inside pending masked free kept
  obtain ⟨marks,same,linked⟩ := setPending_word known p
  rw [same] at masked
  rw [linked]
  by_cases here : p = port
  · subst here
    cases before : (d.word p).linked with
    | true => simp
    | false =>
      simp only [outcome,known,masked,before,decide_true,Bool.not_false,Bool.and_self,if_true,Function.update_self,
        Bool.not_eq_false'] at kept
      simp [links_iff.mpr ⟨known,masked,before,kept⟩]
  · rw [marks,if_neg here] at pending
    rw [setPending_num] at inside
    rw [if_neg here]
    refine others p here inside pending masked free ?_
    unfold outcome at kept
    split at kept
    · rwa [Function.update_of_ne here] at kept
    · exact kept

theorem setPending_invariant (inv : Invariant s) (nonzero : port ≠ 0) : Invariant (setPending s port) := by
  obtain ⟨chain,ordered⟩ := inv.ordered
  refine ⟨setPending_ordered inv.ordered nonzero,setPending_fetched ordered inv.fetched nonzero,fun p => ?_⟩
  by_cases known : port < s.d.numEvtchns
  · exact setPending_raised known (fun p _ => inv.raised p) p
  · have same : (setPending s port).dropped = s.dropped := by simp [setPending,outcome,known]
    rw [same]
    simp only [setPending,evtchnFifoSetPending,if_pos (Nat.not_lt.mp known)]
    exact inv.raised p

theorem unmask_invariant (inv : Invariant s) (nonzero : port ≠ 0) : Invariant (unmask s port) := by
  obtain ⟨chain,ordered⟩ := inv.ordered
  have others (p : Nat) (other : p ≠ port) : Raised s.d (Function.update s.held port false) s.dropped p := by
    have before := inv.raised p
    unfold Raised at before ⊢
    rwa [Function.update_of_ne other]
  by_cases known : port < s.d.numEvtchns
  · let d := setWord s.d port {s.d.word port with masked := false}
    have word : d.word port = {s.d.word port with masked := false} := Function.update_self ..
    have same : shape d s.position = shape s.d s.position := setWord_same rfl rfl
    have others' (p : Nat) (other : p ≠ port) : Raised d (Function.update s.held port false) s.dropped p := by
      have before := others p other
      unfold Raised at before ⊢
      simpa [d,setWord,other] using before
    cases pending : (s.d.word port).pending with
    | false =>
      have result : unmask s port = {s with d,held := Function.update s.held port false} := by
        simp [unmask,evtchnFifoUnmask,outcome,pending,Nat.not_le.mpr known,d,setWord]
      rw [result]
      refine ⟨⟨chain,same ▸ ordered⟩,inv.fetched,fun p => ?_⟩
      by_cases here : p = port
      · subst here
        intro _ waiting
        rw [word] at waiting
        simp [pending] at waiting
      · exact others' p here
    | true =>
      have result : unmask s port =
          {s with
            d := evtchnFifoSetPending d (d.evtchn port).notifyVcpuId port
            held := Function.update s.held port false
            dropped := outcome d s.dropped port (!(d.word port).masked && !(d.word port).linked)} := by
        simp [unmask,evtchnFifoUnmask,outcome,pending,Nat.not_le.mpr known,d,setWord]
      rw [result]
      have ordered' : Ordered (shape d s.position) chain := same ▸ ordered
      exact ⟨setPending_ordered ⟨chain,ordered'⟩ nonzero,setPending_fetched ordered' inv.fetched nonzero,
        setPending_raised known others'⟩
  · have result : unmask s port = {s with held := Function.update s.held port false} := by
      simp [unmask,evtchnFifoUnmask,outcome,known,Nat.not_lt.mp known]
    rw [result]
    refine ⟨⟨chain,ordered⟩,inv.fetched,fun p => ?_⟩
    by_cases here : p = port
    · subst here
      exact fun inside => absurd inside known
    · exact others p here

-- What the guest may do to a word besides unlinking it.
theorem guest_invariant (inv : Invariant s) (change : EventWord → EventWord) {held : Nat → Bool}
    (linked : (change (s.d.word port)).linked = (s.d.word port).linked)
    (link : (change (s.d.word port)).link = (s.d.word port).link) (others : ∀ p, p ≠ port → held p = s.held p)
    (own : (change (s.d.word port)).pending = true → (change (s.d.word port)).masked = false → held port = false →
      s.dropped port = false → port < s.d.numEvtchns → (s.d.word port).linked = true) :
    Invariant {modifyWord s port change with held} := by
  obtain ⟨chain,ordered⟩ := inv.ordered
  have same : shape (modifyWord s port change).d s.position = shape s.d s.position := setWord_same linked link
  refine ⟨⟨chain,same ▸ ordered⟩,inv.fetched,fun p => ?_⟩
  by_cases here : p = port
  · subst here
    simpa [Raised,modifyWord,setWord,linked] using fun inside pending masked free kept =>
      own pending masked free kept inside
  · have before := inv.raised p
    unfold Raised at before ⊢
    simpa [modifyWord,setWord,here,others p here] using before

theorem fetch_invariant (inv : Invariant s) : Invariant (fetch s q) := by
  unfold fetch
  split
  next due =>
    simp only [Bool.and_eq_true,beq_iff_eq] at due
    obtain ⟨chain,ordered⟩ := inv.ordered
    have same : shape {s.d with ready := Function.update s.d.ready q false}
        (Function.update s.position q (s.d.queue q).head) = shape s.d s.position := by
      ext1
      · rfl
      · rfl
      · rfl
      · rfl
      · funext r
        by_cases here : r = q
        · subst here
          simp [shape,due.1]
        · simp [shape,here]
    refine ⟨⟨chain,same ▸ ordered⟩,fun r ready => ?_,inv.raised⟩
    by_cases here : r = q
    · simp [here] at ready
    · simp only [Function.update_of_ne here] at ready ⊢
      exact inv.fetched r ready
  · exact inv

theorem consume_invariant (inv : Invariant s) : Invariant (consume s q) := by
  simp only [consume]
  split
  · exact inv
  next here =>
    obtain ⟨chain,ordered⟩ := inv.ordered
    have gone : s.d.ready q = false := by
      by_contra ready
      exact here (inv.fetched q (by simpa using ready))
    have start : (shape s.d s.position).start q = s.position q := by simp [shape,gone]
    let word := {s.d.word (s.position q) with linked := false,link := 0}
    have popped : shape (setWord s.d (s.position q) word)
        (Function.update s.position q (s.d.word (s.position q)).link) = pop (shape s.d s.position) q := by
      have written : shape (setWord s.d (s.position q) word)
          (Function.update s.position q (s.d.word (s.position q)).link) = _ := setWord_shape
      have linked := congrArg Shape.linked written
      have link := congrArg Shape.link written
      rw [pop,start]
      ext1
      · exact linked
      · exact link
      · rfl
      · rfl
      · funext r
        by_cases same : r = q
        · simp [same,shape,setWord,gone]
        · simp [same,shape,setWord]
    refine ⟨popped ▸ pop_ordered ordered (by rwa [start]),fun r ready => ?_,fun p => ?_⟩
    · by_cases other : r = q
      · subst other
        simp [modifyWord,setWord,gone] at ready
      · simp only [Function.update_of_ne other]
        exact inv.fetched r ready
    · by_cases own : p = s.position q
      · subst own
        intro _ _ _ free
        simp at free
      · have before := inv.raised p
        unfold Raised at before ⊢
        simpa [modifyWord,setWord,own] using before

theorem step_invariant (s : System) (event : Event) (s' : System) (inv : Invariant s) (legal : Legal s event)
    (ran : step s event = some s') : Invariant s' := by
  have kept {chn : Evtchn} {port : Nat} (last : lockOldQueue chn = lockOldQueue (s.d.evtchn port)) :
      Invariant {s with d := setEvtchn s.d port chn} := by
    obtain ⟨chain,ordered⟩ := inv.ordered
    exact ⟨⟨chain,(setEvtchn_same last : shape _ s.position = _) ▸ ordered⟩,inv.fetched,inv.raised⟩
  cases event with
  | setPending port => cases ran; exact setPending_invariant inv legal
  | unmask port => cases ran; exact unmask_invariant inv legal
  | setPriority port priority =>
    cases ran
    unfold evtchnFifoSetPriority
    split
    · exact inv
    · exact kept rfl
  | bindVcpu port vcpuId =>
    cases ran
    unfold evtchnBindVcpu
    split
    · exact kept rfl
    · exact inv
  | fetch q => cases ran; exact fetch_invariant inv
  | consume q => cases ran; exact consume_invariant inv
  | clearPending port =>
    cases ran
    exact guest_invariant inv (fun word => {word with pending := false}) rfl rfl
      (fun p other => Function.update_of_ne other _ _) fun pending => by simp at pending
  | ignore port =>
    simp only [step] at ran
    split at ran
    next settled =>
      cases ran
      refine ⟨inv.ordered,inv.fetched,fun p => ?_⟩
      by_cases here : p = port
      · subst here
        intro _ pending masked
        rw [show (s.d.word p).masked = false from masked,show (s.d.word p).pending = true from pending] at settled
        cases settled
      · have before := inv.raised p
        unfold Raised at before ⊢
        simpa [here] using before
    · cases ran
      exact inv
  | setMasked port =>
    cases ran
    exact guest_invariant inv (fun word => {word with masked := true}) rfl rfl (fun _ _ => rfl)
      fun _ masked => by simp at masked
  | clearMasked port =>
    cases ran
    refine guest_invariant inv (fun word => {word with masked := false}) rfl rfl
      (fun p other => Function.update_of_ne other _ _) fun pending _ free => ?_
    simp only [Function.update_self,Bool.or_eq_false_iff] at free
    simp [free.2] at pending

-- The state `init_control` and `expand_array` leave: clear words, any of them
-- masked, and empty queues.
structure Setup where
  vcpu : Nat → Bool
  controlBlock : Nat → Bool
  numEvtchns : Nat
  evtchn : Nat → Evtchn
  masked : Nat → Bool

def start (c : Setup) : System where
  d := {
    vcpu := c.vcpu,bitsPerEvtchnWord := 64,allocated := c.numEvtchns,evtchn := c.evtchn,sharedInfo := fun _ => false
    fifo := true,numEvtchns := c.numEvtchns,word := fun p => ⟨false,c.masked p,false,false,0⟩
    controlBlock := c.controlBlock,queue := fun _ => ⟨0,0⟩,ready := fun _ => false}
  position _ := 0
  held _ := false
  dropped _ := false

theorem start_invariant (c : Setup) : Invariant (start c) := by
  refine ⟨⟨fun _ => [],fun _ => rfl,fun _ => List.nodup_nil,fun q p => ?_,fun q l t split => ?_,fun q some => absurd rfl some,
    fun _ _ => rfl⟩,fun _ ready => absurd ready Bool.false_ne_true,fun p _ pending => absurd pending Bool.false_ne_true⟩
  · simp [shape,start]
  · simp at split

def queueHead (s : System) (q : Nat × Nat) : Nat := if s.d.ready q then (s.d.queue q).head else s.position q

-- Every queue is the chain from its head, a linked event is on one of them and
-- a linked tail ends its own; an event to be delivered is linked unless the
-- guest is about to deal with it or its vcpu had no control block.
theorem queues_keep_events (c : Setup) (events : List Event) (legal : Run.Guarded Legal step (start c) events)
    (ran : Run.run step (start c) events = some s) :
    ∃ chain : Nat × Nat → List Nat,
      (∀ q, Follows (fun p => (s.d.word p).link) (queueHead s q) (chain q) ∧ (chain q).Nodup) ∧
      (∀ p, (s.d.word p).linked = true → ∃! q, p ∈ chain q) ∧
      (∀ q, (s.d.queue q).tail ≠ 0 → (s.d.word (s.d.queue q).tail).linked = true →
        ∃ l, chain q = l ++ [(s.d.queue q).tail]) ∧
      ∀ p < s.d.numEvtchns, (s.d.word p).pending = true → (s.d.word p).masked = false → s.held p = false →
        s.dropped p = false → (s.d.word p).linked = true := by
  have inv := Run.guarded_invariant step_invariant (start_invariant c) legal ran
  obtain ⟨chain,ordered⟩ := inv.ordered
  refine ⟨chain,fun q => ⟨ordered.follows q,ordered.nodup q⟩,fun p linked => ?_,fun q some linked => ?_,inv.raised⟩
  · refine ⟨lockOldQueue (s.d.evtchn p),(ordered.member _ p).mpr ⟨linked,rfl⟩,fun r listed => ?_⟩
    exact ((ordered.member r p).mp listed).2.symm
  · have listed := (ordered.member q _).mpr ⟨linked,ordered.tails q some⟩
    obtain empty | ⟨l,t,list⟩ := List.eq_nil_or_concat' (chain q)
    · simp [empty] at listed
    · exact ⟨l,by rw [list,← ordered.last q l t list]; rfl⟩

def twoVcpus (controlBlock : Nat → Bool) : Setup where
  vcpu v := v < 2
  controlBlock
  numEvtchns := 1024
  evtchn _ := ⟨true,false,7,1,0,0⟩
  masked _ := false

def drain : List Event := [.setPending 1,.setPending 2,.fetch (1,7),.consume (1,7),.clearPending 1,.setPriority 2 3,.setPending 3]

theorem queues_keep_events_drain : ∃ s, Run.run step (start (twoVcpus fun _ => true)) drain = some s ∧
    queueHead s (1,7) = 2 ∧ ∃ chain : Nat × Nat → List Nat,
      (∀ q, Follows (fun p => (s.d.word p).link) (queueHead s q) (chain q) ∧ (chain q).Nodup) ∧
      ∀ p, (s.d.word p).linked = true → ∃! q, p ∈ chain q := by
  obtain ⟨s,ran,head⟩ := Run.run_reaches (s:=start (twoVcpus fun _ => true)) (P:=fun s => queueHead s (1,7) = 2)
    (show (Run.run step _ drain).any _ = true by decide +kernel)
  obtain ⟨chain,follows,unique,_⟩ := queues_keep_events (twoVcpus fun _ => true) drain (by decide +kernel) ran
  exact ⟨s,ran,head,chain,follows,unique⟩

def missed (s : System) (p : Nat) : Bool :=
  decide (p < s.d.numEvtchns) && (s.d.word p).pending && !(s.d.word p).masked &&
    s.d.controlBlock (s.d.evtchn p).notifyVcpuId && !(s.d.word p).linked

-- An event raised on a vcpu without a control block is dropped, and then the
-- guest moves it to a vcpu that has one; and one that the guest has taken off
-- its queue is pending until the guest has dealt with it.
theorem event_unlinked :
    (∃ s, Run.run step (start (twoVcpus fun v => v == 0)) [.setPending 1,.bindVcpu 1 0] = some s ∧ missed s 1 = true) ∧
    ∃ s, Run.run step (start (twoVcpus fun _ => true)) [.setPending 1,.fetch (1,7),.consume (1,7)] = some s ∧
      missed s 1 = true :=
  ⟨Run.run_reaches (by decide +kernel),Run.run_reaches (by decide +kernel)⟩

end XenAet.FifoQueues
