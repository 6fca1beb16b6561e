import XenAet.VchanCopies

namespace XenAet.VchanPeer
open XenAet.Vchan hiding Next next step State
open XenAet.VchanCopies Library

-- What the other end does to the shared page between two accesses of this one:
-- an honest one reads, another stores what it likes in the indexes.
inductive Peer where
  | reads (n : Nat)
  | stores (prod cons : BitVec 32)

def Peer.act (r : Ring) : Peer → Ring
  | .reads n => consumed r ((r.put.drop r.taken.length).take n)
  | .stores prod cons => {r with prod,cons}

-- The answers of the event channel and of `libxenvchan_is_open` in one turn of
-- a loop.
structure Answers where
  notifyFails : Bool
  waitFails : Bool
  isOpen : Bool

def Answers.Stops (answers : Answers) : Prop := answers.waitFails = true ∨ answers.isOpen = false

-- With the other end before the first look, between the two looks and before
-- the copy.
structure Turn extends Answers where
  first : Peer
  second : Peer
  third : Peer

def fastGet (look : Ring → Nat) (r : Ring) (request : Nat) (turn : Turn) : Ring × Nat :=
  let r := turn.first.act r
  if request ≤ look r then (r,look r)
  else
    let r := turn.second.act r
    (r,look r)

def fastGetBufferSpace : Ring → Nat → Turn → Ring × Nat := fastGet rawGetBufferSpace

def fastGetDataReady : Ring → Nat → Turn → Ring × Nat := fastGet rawGetDataReady

section Write

-- A `do_send`: where its data starts, how much it sends, the `wr_prod` it has
-- read and whether it could not notify.
structure Sent where
  offset : BitVec 64
  count : Nat
  index : BitVec 32
  failed : Bool
deriving DecidableEq

structure Call where
  ring : Ring
  pos : BitVec 64
  log : List Sent

-- The offsets from `data` that a send reads. Addresses wrap.
def Sent.offsets (e : Sent) : List (BitVec 64) := (List.range e.count).map fun i => e.offset + BitVec.ofNat 64 i

def offsets (log : List Sent) : List (BitVec 64) := log.flatMap Sent.offsets

-- The copies and the publication of `do_send`.
def put (r : Ring) (bytes : List UInt8) : Ring :=
  let o : Output := ⟨.write,true,bytes,0⟩
  produce (copySecond (copyFirst r o bytes.length) o bytes.length) o bytes.length

def doSend (memory : BitVec 64 → UInt8) (c : Call) (n : BitVec 64) (turn : Turn) : Call × BitVec 32 :=
  let r := turn.third.act c.ring
  let e : Sent := ⟨c.pos,n.toNat,r.prod,turn.notifyFails⟩
  ({c with ring := put r (e.offsets.map memory),log := c.log ++ [e]},if turn.notifyFails then -1 else n.setWidth 32)

-- `avail` is an `int`, sizes and positions are `size_t`.
def sendable (size pos : BitVec 64) (space : Nat) : BitVec 32 :=
  if size < pos + BitVec.ofNat 64 space then (size - pos).setWidth 32 else BitVec.ofNat 32 space

def writeTurn (memory : BitVec 64 → UInt8) (size : BitVec 64) (c : Call) (turn : Turn) : Call :=
  let (r,space) := fastGetBufferSpace c.ring (size - c.pos).toNat turn
  let avail := sendable size c.pos space
  if avail ≠ 0 then
    let (c,result) := doSend memory {c with ring := r} (avail.signExtend 64) turn
    {c with pos := c.pos + result.signExtend 64}
  else {c with ring := r}

def writeLoop (memory : BitVec 64 → UInt8) (size : BitVec 64) : List Turn → Call → Call × Option Int
  | [],c => (c,none)
  | turn :: rest,c =>
    let c := writeTurn memory size c turn
    if c.pos = size then (c,some (toInt c.pos.toNat))
    else if turn.waitFails then (c,some (-1))
    else if turn.isOpen = false then (c,some (-1))
    else writeLoop memory size rest c

-- A call with its turns so far: no result yet where it still waits.
def libxenvchanWrite (memory : BitVec 64 → UInt8) (size : BitVec 64) (blocking opened : Bool) (turns : List Turn) (r : Ring) : Call × Option Int :=
  let c : Call := ⟨r,0,[]⟩
  if opened = false then (c,some (-1))
  else if blocking then writeLoop memory size turns c
  else
    match turns with
    | [] => (c,none)
    | turn :: _ =>
      let (r,avail) := fastGetBufferSpace r size.toNat turn
      let n := if BitVec.ofNat 64 avail < size then BitVec.ofNat 64 avail else size
      if n = 0 then ({c with ring := r},some 0)
      else
        let (c,result) := doSend memory {c with ring := r} n turn
        (c,some result.toInt)

end Write

section Looks
variable {r : Ring} {turn : Turn} {request : Nat}

def Peer.Honest : Peer → Prop
  | .reads _ => True
  | .stores _ _ => False

structure Turn.Honest (turn : Turn) : Prop where
  first : turn.first.Honest
  second : turn.second.Honest
  third : turn.third.Honest

theorem capped_le (cap n : Nat) : (if cap < n then 0 else n) ≤ cap := by
  split
  · exact Nat.zero_le _
  · next within => exact Nat.le_of_not_lt within

theorem space_le (r : Ring) : rawGetBufferSpace r ≤ r.size := capped_le ..

theorem ready_le (r : Ring) : rawGetDataReady r ≤ r.size := capped_le ..

theorem act_order (r : Ring) (peer : Peer) : (peer.act r).order = r.order := by
  cases peer with
  | reads n => rfl
  | stores prod cons => rfl

-- The bytes in the ring, and how many an honest end takes.
def used (r : Ring) : Nat := r.put.length - r.taken.length

def Peer.count : Peer → Nat
  | .reads n => n
  | .stores _ _ => 0

-- The stream is as the writing end left it, but for `n` bytes taken.
structure Served (r r' : Ring) (n : Nat) : Prop where
  sound : Sound r'
  order : r'.order = r.order
  put : r'.put = r.put
  used : used r' = used r - n

theorem act_served {peer : Peer} (sound : Sound r) (honest : peer.Honest) : Served r (peer.act r) peer.count := by
  cases peer with
  | reads n =>
    refine ⟨consumed_sound sound ?_,rfl,rfl,?_⟩
    · rw [List.length_take,List.take_eq_take_min]
    · change r.put.length - (r.taken ++ _).length = r.put.length - r.taken.length - n
      rw [List.length_append,List.length_take,List.length_drop]
      omega
  | stores prod cons => exact honest.elim

theorem Served.trans {r' r'' : Ring} {n n' : Nat} (first : Served r r' n) (second : Served r' r'' n') : Served r r'' (n + n') :=
  ⟨second.sound,second.order.trans first.order,second.put.trans first.put,by rw [second.used,first.used,Nat.sub_sub]⟩

-- The ring after the looks, and the answer that stands for it.
theorem fastGet_eq (look : Ring → Nat) (r : Ring) (request : Nat) (turn : Turn) :
    ∃ r', fastGet look r request turn = (r',look r') ∧ (r' = turn.first.act r ∨ r' = turn.second.act (turn.first.act r)) := by
  rw [fastGet]
  dsimp only
  split
  · exact ⟨_,rfl,.inl rfl⟩
  · exact ⟨_,rfl,.inr rfl⟩

theorem fastGet_order (look : Ring → Nat) (r : Ring) (request : Nat) (turn : Turn) :
    ∃ r', fastGet look r request turn = (r',look r') ∧ r'.order = r.order := by
  obtain ⟨r',got,is | is⟩ := fastGet_eq look r request turn
  · exact ⟨r',got,by rw [is,act_order]⟩
  · exact ⟨r',got,by rw [is,act_order,act_order]⟩

theorem size_eq {r' : Ring} (order : r'.order = r.order) : r'.size = r.size := by rw [Ring.size,Ring.size,order]

-- The bytes the two looks at the space find, in a ring of size `cap`.
def looked (cap used request : Nat) (turn : Turn) : Nat :=
  if request ≤ cap - (used - turn.first.count) then used - turn.first.count else used - turn.first.count - turn.second.count

theorem fastGet_served (sound : Sound r) (honest : turn.Honest) (request : Nat) :
    ∃ r' n, fastGet rawGetBufferSpace r request turn = (r',r.size - looked r.size (used r) request turn) ∧ Served r r' n ∧
      used r' = looked r.size (used r) request turn := by
  have first := act_served sound honest.first
  have second := act_served first.sound honest.second
  have space : rawGetBufferSpace (turn.first.act r) = r.size - (used r - turn.first.count) := by
    rw [first.sound.space,size_eq first.order]
    exact congrArg _ first.used
  have space' : rawGetBufferSpace (turn.second.act (turn.first.act r)) = r.size - (used r - turn.first.count - turn.second.count) := by
    rw [second.sound.space,size_eq second.order,size_eq first.order,← first.used]
    exact congrArg _ second.used
  rw [fastGet,looked]
  dsimp only
  rw [space,space']
  split
  · exact ⟨_,_,rfl,first,first.used⟩
  · exact ⟨_,_,rfl,first.trans second,by rw [second.used,first.used]⟩

theorem put_order (r : Ring) (bytes : List UInt8) : (put r bytes).order = r.order := by
  rw [put,copySecond]
  split
  · rfl
  · rfl

theorem put_taken (r : Ring) (bytes : List UInt8) : (put r bytes).taken = r.taken := by
  rw [put,copySecond]
  split
  · rfl
  · rfl

theorem put_served (bytes : List UInt8) (sound : Sound r) (room : r.put.length + bytes.length ≤ r.taken.length + r.size) :
    Sound (put r bytes) ∧ (put r bytes).put = r.put ++ bytes := by
  have piece : Output.piece ⟨.write,true,bytes,0⟩ bytes.length = bytes := List.take_length
  have fits : Fits r ⟨.write,true,bytes,0⟩ bytes.length := ⟨Nat.le_of_eq (Nat.zero_add _),room⟩
  obtain ⟨sound₁,held₁⟩ := copyFirst_sound sound fits
  obtain ⟨sound₂,held₂⟩ := copySecond_sound sound₁ fits held₁
  -- The copies change nothing but the buffer.
  obtain ⟨buffer,copied⟩ : ∃ buffer, copySecond (copyFirst r ⟨.write,true,bytes,0⟩ bytes.length) ⟨.write,true,bytes,0⟩ bytes.length = {r with buffer} := by
    rw [copySecond]
    split
    · exact ⟨_,rfl⟩
    · exact ⟨_,rfl⟩
  rw [copied] at sound₂ held₂
  rw [put,copied]
  refine ⟨produce_sound sound₂ ⟨fits.1,fits.2⟩ held₂,?_⟩
  change r.put ++ Output.piece _ _ = _
  rw [piece]

end Looks

section Words
variable {size pos : BitVec 64} {p n space : Nat}

theorem widen (small : n ≤ 2^20) : (BitVec.ofNat 32 n).signExtend 64 = BitVec.ofNat 64 n := by
  have top : (BitVec.ofNat 32 n).msb = false := by
    rw [BitVec.msb_eq_false_iff_two_mul_lt,BitVec.toNat_ofNat]
    omega
  rw [BitVec.signExtend_eq_setWidth_of_msb_false top]
  apply BitVec.eq_of_toNat_eq
  rw [BitVec.toNat_setWidth,BitVec.toNat_ofNat,BitVec.toNat_ofNat]
  omega

theorem narrow (n : Nat) : (BitVec.ofNat 64 n).setWidth 32 = BitVec.ofNat 32 n := BitVec.setWidth_ofNat_of_le (by decide) n

theorem widen_ne_zero {avail : BitVec 32} (some_ : avail ≠ 0) : (avail.signExtend 64).toNat ≠ 0 := by
  intro none_
  apply some_
  have zero : avail.signExtend 64 = 0 := BitVec.eq_of_toNat_eq none_
  apply BitVec.eq_of_toInt_eq
  rw [← BitVec.toInt_signExtend_of_le (v:=64) (by decide),zero]
  rfl

theorem left_toNat (within : p ≤ size.toNat) : (size - BitVec.ofNat 64 p).toNat = size.toNat - p := by
  have small := size.isLt
  rw [BitVec.toNat_sub,BitVec.toNat_ofNat]
  omega

theorem sendable_eq (within : p ≤ size.toNat) (room : p + space < 2^64) :
    sendable size (BitVec.ofNat 64 p) space = BitVec.ofNat 32 (min space (size.toNat - p)) := by
  have sum : (BitVec.ofNat 64 p + BitVec.ofNat 64 space).toNat = p + space := by
    rw [← BitVec.ofNat_add,BitVec.toNat_ofNat]
    exact Nat.mod_eq_of_lt room
  rw [sendable]
  split
  · next more =>
    rw [BitVec.lt_def,sum] at more
    rw [Nat.min_eq_right (by omega),← left_toNat within]
    exact (BitVec.ofNat_toNat ..).symm
  · next less =>
    rw [BitVec.lt_def,sum] at less
    rw [Nat.min_eq_left (by omega)]

-- One before `p` the position and the size wrap.
theorem back_toNat (p : Nat) : (BitVec.ofNat 64 p - 1).toNat = (2^64 - 1 + p % 2^64) % 2^64 := by
  rw [BitVec.toNat_sub,BitVec.toNat_ofNat]
  rfl

theorem sendable_back (within : p ≤ size.toNat) (short : size.toNat < 2^64 - 1) (room : size.toNat + space < 2^64) (small : space ≤ 2^20) :
    sendable size (BitVec.ofNat 64 p - 1) space = 0 ↔ space = 0 ∧ (p = 0 → (size.toNat + 1) % 2^32 = 0) := by
  have back := back_toNat p
  have sum : (BitVec.ofNat 64 p - 1 + BitVec.ofNat 64 space).toNat = ((BitVec.ofNat 64 p - 1).toNat + space) % 2^64 := by
    rw [BitVec.toNat_add,BitVec.toNat_ofNat,Nat.add_mod_mod]
  rw [sendable,← BitVec.toNat_inj]
  change _ = 0 ↔ _
  split
  · next more =>
    rw [BitVec.lt_def,sum] at more
    rw [BitVec.toNat_setWidth,BitVec.toNat_sub]
    omega
  · next less =>
    rw [BitVec.lt_def,sum] at less
    rw [BitVec.toNat_ofNat]
    omega

end Words

section Exact
variable {memory : BitVec 64 → UInt8} {size : BitVec 64} {start : Ring} {c c' : Call} {m n : Nat} {turn : Turn} {log : List Sent} {e : Sent}

-- The first `m` bytes of the data, by their offsets.
def firstOffsets (m : Nat) : List (BitVec 64) := (List.range m).map (BitVec.ofNat 64)

theorem firstOffsets_add (m n : Nat) : firstOffsets (m + n) = firstOffsets m ++ (List.range n).map fun i => BitVec.ofNat 64 m + BitVec.ofNat 64 i := by
  rw [firstOffsets,List.range_add,List.map_append,List.map_map,firstOffsets]
  refine congrArg _ (List.map_congr_left fun i _ => ?_)
  exact BitVec.ofNat_add ..

theorem firstOffsets_length (m : Nat) : (firstOffsets m).length = m := by rw [firstOffsets,List.length_map,List.length_range]

theorem offsets_append (log : List Sent) (e : Sent) : offsets (log ++ [e]) = offsets log ++ e.offsets := by
  rw [offsets,List.flatMap_append,List.flatMap_singleton]
  rfl

theorem firstOffsets_initial {left : List (BitVec 64)} (initial : left <+: firstOffsets m) : left = firstOffsets left.length := by
  have take := List.prefix_iff_eq_take.mp initial
  rw [firstOffsets,← List.map_take,List.take_range,Nat.min_eq_left (by rw [← firstOffsets_length m]; exact initial.length_le)] at take
  exact take

-- What is sent next would have to begin where the last send ended.
theorem offsets_next {m' : Nat} (first : offsets log = firstOffsets m) (more : e.count ≠ 0) (same : offsets (log ++ [e]) = firstOffsets m') :
    e.offset = BitVec.ofNat 64 m := by
  rw [offsets_append,first] at same
  have length : m + e.offsets.length = m' := by
    rw [← firstOffsets_length m,← List.length_append,same,firstOffsets_length]
  rw [← length,firstOffsets_add] at same
  have sent := congrArg List.head? (List.append_cancel_left same)
  rw [Sent.offsets,List.length_map,List.length_range] at sent
  obtain ⟨k,count⟩ := Nat.exists_eq_succ_of_ne_zero more
  rw [count,List.range_succ_eq_map,List.map_cons,List.map_cons,List.head?_cons,List.head?_cons,Option.some.injEq] at sent
  exact (BitVec.add_left_inj _).mp sent

-- What was sent is not how the data begins, nor will it be.
def Broken (log : List Sent) : Prop := ∀ m, offsets log ≠ firstOffsets m

theorem Broken.later (broken : Broken log) (e : Sent) : Broken (log ++ [e]) := by
  intro m same
  rw [offsets_append] at same
  exact broken _ (firstOffsets_initial ⟨_,same⟩)

structure Clean (memory : BitVec 64 → UInt8) (size : BitVec 64) (start : Ring) (c : Call) (m : Nat) : Prop where
  offsets : offsets c.log = firstOffsets m
  within : m ≤ size.toNat
  sound : Sound c.ring
  order : c.ring.order = start.order
  put : c.ring.put = start.put ++ (firstOffsets m).map memory

theorem Clean.served {r : Ring} (clean : Clean memory size start c m) (served : Served c.ring r n) : Clean memory size start {c with ring := r} m :=
  ⟨clean.offsets,clean.within,served.sound,served.order.trans clean.order,served.put.trans clean.put⟩

-- A send of `n` bytes at the position reached.
theorem doSend_clean (clean : Clean memory size start c m) (pos : c.pos = BitVec.ofNat 64 m)
    (honest : turn.Honest) (within : m + n ≤ size.toNat) (room : n ≤ c.ring.size - used c.ring) (pos' : BitVec 64) :
    Clean memory size start {(doSend memory c (BitVec.ofNat 64 n) turn).1 with pos := pos'} (m + n) ∧
      used (doSend memory c (BitVec.ofNat 64 n) turn).1.ring = used c.ring - turn.third.count + n := by
  have served := act_served clean.sound honest.third
  have came := served.sound.came_le
  have small : n ≤ 2^20 := Nat.le_trans room (Nat.le_trans (Nat.sub_le ..) (size_le _))
  have count : (BitVec.ofNat 64 n).toNat = n := by
    rw [BitVec.toNat_ofNat]
    omega
  have fresh : Sent.offsets ⟨c.pos,(BitVec.ofNat 64 n).toNat,(turn.third.act c.ring).prod,turn.notifyFails⟩ =
      (List.range n).map fun i => BitVec.ofNat 64 m + BitVec.ofNat 64 i := by
    rw [Sent.offsets,count,pos]
  have length : ((List.range n).map fun i => memory (BitVec.ofNat 64 m + BitVec.ofNat 64 i)).length = n := by
    rw [List.length_map,List.length_range]
  have left := served.used
  have window := served.sound.window
  obtain ⟨sound,stream⟩ := put_served ((List.range n).map fun i => memory (BitVec.ofNat 64 m + BitVec.ofNat 64 i)) served.sound (by
    rw [length,size_eq served.order]
    rw [used] at left
    rw [size_eq served.order] at window
    omega)
  have after : (doSend memory c (BitVec.ofNat 64 n) turn).1.ring =
      put (turn.third.act c.ring) ((List.range n).map fun i => memory (BitVec.ofNat 64 m + BitVec.ofNat 64 i)) := by
    change put _ (List.map memory _) = _
    rw [fresh,List.map_map]
    rfl
  refine ⟨⟨?_,within,?_,?_,?_⟩,?_⟩
  · change offsets (c.log ++ [_]) = _
    rw [offsets_append,clean.offsets,fresh,firstOffsets_add]
  · dsimp only
    rw [after]
    exact sound
  · exact (put_order _ _).trans (served.order.trans clean.order)
  · dsimp only
    rw [after,stream,served.put,clean.put,firstOffsets_add,List.map_append,List.map_map,List.append_assoc]
    rfl
  · rw [after,used,stream,put_taken,List.length_append,length,← left,used]
    omega

-- A turn that begins with `m` bytes sent.
theorem writeTurn_on (memory : BitVec 64 → UInt8) {r : Ring} {space : Nat} (pos : c.pos = BitVec.ofNat 64 m) (within : m ≤ size.toNat)
    (got : fastGet rawGetBufferSpace c.ring (size - c.pos).toNat turn = (r,space)) (room : size.toNat + space < 2^64) (small : space ≤ 2^20) :
    min space (size.toNat - m) = 0 ∧ writeTurn memory size c turn = {c with ring := r} ∨
      0 < min space (size.toNat - m) ∧ writeTurn memory size c turn =
        {(doSend memory {c with ring := r} (BitVec.ofNat 64 (min space (size.toNat - m))) turn).1 with
          pos := if turn.notifyFails then BitVec.ofNat 64 m - 1 else BitVec.ofNat 64 (m + min space (size.toNat - m))} := by
  have amount : sendable size c.pos space = BitVec.ofNat 32 (min space (size.toNat - m)) := by
    rw [pos]
    exact sendable_eq within (by omega)
  rw [writeTurn,fastGetBufferSpace,got]
  dsimp only
  rw [amount]
  rcases Nat.eq_zero_or_pos (min space (size.toNat - m)) with zero | more
  · refine .inl ⟨zero,?_⟩
    rw [zero]
    rfl
  · have some_ : BitVec.ofNat 32 (min space (size.toNat - m)) ≠ 0 := by
      rw [BitVec.toNat_ne,BitVec.toNat_ofNat]
      change _ ≠ 0
      omega
    refine .inr ⟨more,?_⟩
    rw [if_pos some_,widen (by omega)]
    refine congrArg (fun pos => {(doSend memory {c with ring := r} _ turn).1 with pos}) ?_
    change c.pos + BitVec.signExtend 64 (if turn.notifyFails = true then (-1 : BitVec 32) else _) = _
    rw [pos]
    cases turn.notifyFails with
    | true =>
      have back : (-1 : BitVec 32).signExtend 64 = -1#64 := by decide
      rw [if_pos rfl,if_pos rfl,back]
      exact (BitVec.sub_eq_add_neg ..).symm
    | false => rw [if_neg Bool.false_ne_true,if_neg Bool.false_ne_true,narrow,widen (by omega),← BitVec.ofNat_add]

theorem writeTurn_idle (memory : BitVec 64 → UInt8) {r : Ring} {space : Nat}
    (got : fastGet rawGetBufferSpace c.ring (size - c.pos).toNat turn = (r,space)) (idle : sendable size c.pos space = 0) :
    writeTurn memory size c turn = {c with ring := r} := by
  rw [writeTurn,fastGetBufferSpace,got]
  exact if_neg (not_not.mpr idle)

theorem writeTurn_sends (memory : BitVec 64 → UInt8) {r : Ring} {space : Nat}
    (got : fastGet rawGetBufferSpace c.ring (size - c.pos).toNat turn = (r,space)) (more : sendable size c.pos space ≠ 0) :
    ∃ e : Sent, (writeTurn memory size c turn).log = c.log ++ [e] ∧ e.offset = c.pos ∧ e.count ≠ 0 := by
  rw [writeTurn,fastGetBufferSpace,got]
  dsimp only
  rw [if_pos more]
  exact ⟨_,rfl,rfl,widen_ne_zero more⟩

theorem writeLoop_cons (turn : Turn) (rest : List Turn) (c : Call) :
    (∃ v, writeLoop memory size (turn :: rest) c = (writeTurn memory size c turn,some v)) ∨
      writeLoop memory size (turn :: rest) c = writeLoop memory size rest (writeTurn memory size c turn) := by
  rw [writeLoop]
  split
  · exact .inl ⟨_,rfl⟩
  · split
    · exact .inl ⟨_,rfl⟩
    · split
      · exact .inl ⟨_,rfl⟩
      · exact .inr rfl

-- What holds of the sends so far and of longer ones holds to the end.
theorem writeLoop_log {P : List Sent → Prop} (longer : ∀ log e, P log → P (log ++ [e])) (turns : List Turn) (held : P c.log) :
    P (writeLoop memory size turns c).1.log := by
  induction turns generalizing c with
  | nil => exact held
  | cons turn rest ih =>
    have after : P (writeTurn memory size c turn).log := by
      rw [writeTurn]
      dsimp only
      split
      · exact longer _ _ held
      · exact held
    rcases writeLoop_cons turn rest c with ⟨_,same⟩ | same
    · rw [same]
      exact after
    · rw [same]
      exact ih after

theorem writeLoop_turn {P : List Sent → Prop} (longer : ∀ log e, P log → P (log ++ [e])) (rest : List Turn)
    (held : P (writeTurn memory size c turn).log) : P (writeLoop memory size (turn :: rest) c).1.log := by
  rcases writeLoop_cons turn rest c with ⟨_,same⟩ | same
  · rw [same]
    exact held
  · rw [same]
    exact writeLoop_log longer rest held

-- What a write should come to: a first part of the data is in the ring, once,
-- and the answer is its length or an error.
def Correct (memory : BitVec 64 → UInt8) (size : BitVec 64) (start : Ring) (out : Call × Option Int) : Prop :=
  ∃ m, m ≤ size.toNat ∧ offsets out.1.log = firstOffsets m ∧ Sound out.1.ring ∧ out.1.ring.put = start.put ++ (firstOffsets m).map memory ∧
    ∀ v, out.2 = some v → v = -1 ∨ v = m

theorem firstOffsets_inj {m' : Nat} (same : firstOffsets m = firstOffsets m') : m = m' := by
  rw [← firstOffsets_length m,same,firstOffsets_length]

theorem Clean.correct_iff (clean : Clean memory size start c m) (result : Option Int) :
    Correct memory size start (c,result) ↔ ∀ v, result = some v → v = -1 ∨ v = m := by
  constructor
  · rintro ⟨m',_,same,_,_,answer⟩
    rw [firstOffsets_inj (clean.offsets.symm.trans same)]
    exact answer
  · intro answer
    exact ⟨m,clean.within,clean.offsets,clean.sound,clean.put,answer⟩

theorem Clean.waits (clean : Clean memory size start c m) : Correct memory size start (c,none) :=
  (clean.correct_iff none).mpr fun _ is => (by cases is)

theorem Clean.fails (clean : Clean memory size start c m) : Correct memory size start (c,some (-1)) :=
  (clean.correct_iff _).mpr fun _ is => .inl (Option.some.inj is).symm

-- An `int` for the size of a whole write.
def Answerable (size : Nat) : Prop := toInt size = -1 ∨ toInt size = size

-- After a failed notification with `m` bytes sent before: the ring is full and
-- nothing is taken until the call stops.  Before the data, with `m` none, the
-- bytes left to send are `size + 1`, of which an `int` has the low part.
def Stuck (size cap m : Nat) : Nat → List Turn → Prop
  | _,[] => True
  | used,turn :: rest =>
    let used := looked cap used (size - m + 1) turn
    cap ≤ used ∧ (m = 0 → (size + 1) % 2^32 = 0) ∧ (turn.Stops ∨ Stuck size cap m used rest)

-- The schedules of a blocking write with `m` bytes sent and `used` in the ring
-- under which it does no harm.
def Harmless (size cap : Nat) : Nat → Nat → List Turn → Prop
  | _,_,[] => True
  | used,m,turn :: rest =>
    let used := looked cap used (size - m) turn
    let n := min (cap - used) (size - m)
    if n ≠ 0 ∧ turn.notifyFails = true then turn.Stops ∨ Stuck size cap m (used - turn.third.count + n) rest
    else if m + n = size then Answerable size
    else turn.Stops ∨ Harmless size cap (if n = 0 then used else used - turn.third.count + n) (m + n) rest

theorem writeLoop_goes {rest : List Turn} (clean : Clean memory size start (writeTurn memory size c turn) m)
    (on : (writeTurn memory size c turn).pos ≠ size) :
    Correct memory size start (writeLoop memory size (turn :: rest) c) ↔
      turn.Stops ∨ Correct memory size start (writeLoop memory size rest (writeTurn memory size c turn)) := by
  rw [writeLoop,if_neg on,Answers.Stops]
  split
  · next fails => exact iff_of_true clean.fails (.inl (.inl fails))
  · next waits =>
    split
    · next closed => exact iff_of_true clean.fails (.inl (.inr closed))
    · next opened => exact ⟨.inr,fun either => either.resolve_left (not_or.mpr ⟨waits,opened⟩)⟩

theorem writeLoop_turned {rest : List Turn} (clean : Clean memory size start (writeTurn memory size c turn) m)
    (pos : (writeTurn memory size c turn).pos = BitVec.ofNat 64 m) :
    Correct memory size start (writeLoop memory size (turn :: rest) c) ↔ if m = size.toNat then Answerable size.toNat
      else turn.Stops ∨ Correct memory size start (writeLoop memory size rest (writeTurn memory size c turn)) := by
  split
  · next all =>
    have done : (writeTurn memory size c turn).pos = size := by rw [pos,all,BitVec.ofNat_toNat,BitVec.setWidth_eq]
    rw [writeLoop,if_pos done,done,clean.correct_iff,all]
    exact ⟨fun answer => answer _ rfl,fun fits v is => Option.some.inj is ▸ fits⟩
  · next less =>
    refine writeLoop_goes clean fun done => less ?_
    have within := clean.within
    have small := size.isLt
    rw [← done,pos,BitVec.toNat_ofNat]
    omega

theorem writeLoop_stuck (turns : List Turn) (clean : Clean memory size start c (m + n)) (some_ : 0 < n) (pos : c.pos = BitVec.ofNat 64 m - 1)
    (honest : ∀ turn ∈ turns, turn.Honest) (room : size.toNat + start.size < 2^64) :
    Correct memory size start (writeLoop memory size turns c) ↔ Stuck size.toNat start.size m (used c.ring) turns := by
  induction turns generalizing c with
  | nil => exact iff_of_true clean.waits trivial
  | cons turn rest ih =>
    have within := clean.within
    have cap := size_pos start
    have small := size_le start
    have back : c.pos.toNat = (2^64 - 1 + m % 2^64) % 2^64 := by rw [pos,back_toNat]
    have request : (size - c.pos).toNat = size.toNat - m + 1 := by
      rw [BitVec.toNat_sub,back]
      omega
    obtain ⟨r,k,got,served,left⟩ := fastGet_served clean.sound (honest turn (by simp)) (size - c.pos).toNat
    rw [size_eq clean.order] at got left
    have still := clean.served served
    have quiet : sendable size c.pos (start.size - looked start.size (used c.ring) (size - c.pos).toNat turn) = 0 ↔
        start.size - looked start.size (used c.ring) (size - c.pos).toNat turn = 0 ∧ (m = 0 → (size.toNat + 1) % 2^32 = 0) := by
      rw [pos]
      exact sendable_back (by omega) (by omega) (by omega) (by omega)
    rw [Stuck]
    rw [← request]
    by_cases idle : sendable size c.pos (start.size - looked start.size (used c.ring) (size - c.pos).toNat turn) = 0
    · have turned := writeTurn_idle memory got idle
      obtain ⟨full,word⟩ := quiet.mp idle
      have on : (writeTurn memory size c turn).pos ≠ size := by
        rw [turned]
        intro done
        have same : c.pos.toNat = size.toNat := congrArg BitVec.toNat done
        omega
      rw [← turned] at still
      rw [writeLoop_goes still on,ih still (by rw [turned]; exact pos) fun turn later => honest turn (List.mem_cons_of_mem _ later),turned]
      dsimp only
      rw [left]
      exact ⟨fun either => ⟨Nat.sub_eq_zero_iff_le.mp full,word,either⟩,fun all => all.2.2⟩
    · refine iff_of_false ?_ fun all => idle (quiet.mpr ⟨Nat.sub_eq_zero_of_le all.1,all.2.1⟩)
      obtain ⟨e,log,offset,count⟩ := writeTurn_sends memory got idle
      have broken : Broken (writeTurn memory size c turn).log := by
        intro m' same
        rw [log] at same
        have next := offsets_next clean.offsets count same
        rw [offset] at next
        rw [next,BitVec.toNat_ofNat] at back
        omega
      rintro ⟨m',_,same,_⟩
      exact writeLoop_turn (P:=Broken) (fun _ e held => held.later e) rest broken m' same

theorem writeLoop_exact (turns : List Turn) (clean : Clean memory size start c m) (pos : c.pos = BitVec.ofNat 64 m)
    (honest : ∀ turn ∈ turns, turn.Honest) (room : size.toNat + start.size < 2^64) :
    Correct memory size start (writeLoop memory size turns c) ↔ Harmless size.toNat start.size (used c.ring) m turns := by
  induction turns generalizing c m with
  | nil => exact iff_of_true clean.waits trivial
  | cons turn rest ih =>
    have within := clean.within
    have small := size_le start
    have some_ := size_pos start
    have later : ∀ turn ∈ rest, turn.Honest := fun turn later => honest turn (List.mem_cons_of_mem _ later)
    obtain ⟨r,k,got,served,left⟩ := fastGet_served clean.sound (honest turn (by simp)) (size - c.pos).toNat
    rw [size_eq clean.order] at got left
    have still := clean.served served
    have turned := writeTurn_on memory pos within got (by omega) (by omega)
    have request : (size - c.pos).toNat = size.toNat - m := by rw [pos,left_toNat within]
    rw [request] at turned left
    rw [Harmless]
    generalize looked start.size (used c.ring) (size.toNat - m) turn = found at turned left
    subst left
    rcases turned with ⟨zero,turned⟩ | ⟨more,turned⟩
    · have after : (writeTurn memory size c turn).pos = BitVec.ofNat 64 m := by rw [turned]; exact pos
      rw [← turned] at still
      rw [zero,if_neg fun both => both.1 rfl,Nat.add_zero,if_pos rfl,writeLoop_turned still after,ih still after later,turned]
    · obtain ⟨sent,taken⟩ := doSend_clean (n:=min (start.size - used r) (size.toNat - m)) still pos (honest turn (by simp)) (by omega)
        (by rw [size_eq still.order]; exact Nat.min_le_left ..)
        (if turn.notifyFails then BitVec.ofNat 64 m - 1 else BitVec.ofNat 64 (m + min (start.size - used r) (size.toNat - m)))
      rw [← turned] at sent
      have ring : used (writeTurn memory size c turn).ring = used r - turn.third.count + min (start.size - used r) (size.toNat - m) := by
        rw [turned]
        exact taken
      have after := congrArg Call.pos turned
      dsimp only at after
      cases fails : turn.notifyFails with
      | true =>
        rw [fails,if_pos rfl] at after
        have on : (writeTurn memory size c turn).pos ≠ size := by
          intro done
          have back := back_toNat m
          rw [← after,done] at back
          omega
        rw [if_pos ⟨more.ne',rfl⟩,writeLoop_goes sent on,writeLoop_stuck rest sent more after later room,ring]
      | false =>
        rw [fails,if_neg Bool.false_ne_true] at after
        rw [if_neg fun both => Bool.false_ne_true both.2,if_neg more.ne',writeLoop_turned sent after,ih sent after later,ring]

theorem start_clean (sound : Sound start) : Clean memory size start ⟨start,0,[]⟩ 0 := by
  exact ⟨rfl,Nat.zero_le _,sound,rfl,(List.append_nil _).symm⟩

theorem write_unblocked (memory : BitVec 64 → UInt8) {r : Ring} {space : Nat} (rest : List Turn)
    (got : fastGet rawGetBufferSpace start size.toNat turn = (r,space)) (small : space ≤ 2^20) :
    libxenvchanWrite memory size false true (turn :: rest) start = (⟨r,0,[]⟩,some 0) ∨
      0 < min space size.toNat ∧ libxenvchanWrite memory size false true (turn :: rest) start =
        ((doSend memory ⟨r,0,[]⟩ (BitVec.ofNat 64 (min space size.toNat)) turn).1,
          some (if turn.notifyFails then -1 else ((min space size.toNat : Nat) : Int))) := by
  have wide : (BitVec.ofNat 64 space).toNat = space := by
    rw [BitVec.toNat_ofNat]
    omega
  have amount : (if BitVec.ofNat 64 space < size then BitVec.ofNat 64 space else size) =
      BitVec.ofNat 64 (min space size.toNat) := by
    split
    · next less =>
      rw [BitVec.lt_def,wide] at less
      rw [Nat.min_eq_left (Nat.le_of_lt less)]
    · next more =>
      rw [BitVec.lt_def,wide] at more
      rw [Nat.min_eq_right (Nat.le_of_not_lt more),BitVec.ofNat_toNat,BitVec.setWidth_eq]
  rw [libxenvchanWrite,if_neg (by decide),if_neg (by decide)]
  dsimp only
  rw [fastGetBufferSpace,got]
  dsimp only
  rw [amount]
  rcases Nat.eq_zero_or_pos (min space size.toNat) with zero | more
  · refine .inl ?_
    rw [zero]
    rfl
  · have some_ : BitVec.ofNat 64 (min space size.toNat) ≠ 0 := by
      rw [BitVec.toNat_ne,BitVec.toNat_ofNat]
      change _ ≠ 0
      omega
    refine .inr ⟨more,?_⟩
    rw [if_neg some_]
    refine Prod.ext rfl ?_
    change some (BitVec.toInt (if turn.notifyFails = true then (-1 : BitVec 32) else _)) = some _
    refine congrArg some ?_
    cases turn.notifyFails with
    | true =>
      rw [if_pos rfl,if_pos rfl]
      decide
    | false =>
      rw [if_neg Bool.false_ne_true,if_neg Bool.false_ne_true,narrow,BitVec.toInt_eq_toNat_of_lt,BitVec.toNat_ofNat]
      · omega
      · rw [BitVec.toNat_ofNat]
        omega

-- A call that does not block sends once, so that nothing comes after a
-- failure.
theorem write_once (sound : Sound start) (honest : turn.Honest) (rest : List Turn) :
    Correct memory size start (libxenvchanWrite memory size false true (turn :: rest) start) := by
  obtain ⟨r,k,got,served,left⟩ := fastGet_served sound honest size.toNat
  have clean : Clean memory size start ⟨r,0,[]⟩ 0 := (start_clean sound).served served
  rw [← left] at got
  rcases write_unblocked memory rest got (Nat.le_trans (Nat.sub_le ..) (size_le start)) with same | ⟨more,same⟩
  · rw [same,clean.correct_iff]
    exact fun v is => .inr (Option.some.inj is).symm
  · obtain ⟨sent,_⟩ := doSend_clean (n:=min (start.size - used r) size.toNat) clean rfl honest (by omega)
      (by rw [size_eq clean.order]; exact Nat.min_le_left ..) 0
    rw [same]
    refine (sent.correct_iff _).mpr fun v is => ?_
    rw [← Option.some.inj is]
    split
    · exact .inl rfl
    · exact .inr (by rw [Nat.zero_add])

-- With honest reads a write is exact, whatever notifications fail, just where
-- it does not block or does no harm under the schedule.
theorem write_correct_exactly (memory : BitVec 64 → UInt8) (size : BitVec 64) (blocking opened : Bool) (turns : List Turn) (start : Ring)
    (sound : Sound start) (honest : ∀ turn ∈ turns, turn.Honest) (room : size.toNat + start.size < 2^64) :
    Correct memory size start (libxenvchanWrite memory size blocking opened turns start) ↔
      (blocking = true → opened = true → Harmless size.toNat start.size (used start) 0 turns) := by
  have clean : Clean memory size start ⟨start,0,[]⟩ 0 := start_clean sound
  cases opened with
  | false =>
    refine iff_of_true clean.fails fun _ wrong => ?_
    cases wrong
  | true =>
    cases blocking with
    | true => exact (writeLoop_exact turns clean rfl honest room).trans ⟨fun harmless _ _ => harmless,fun all => all rfl rfl⟩
    | false =>
      refine iff_of_true ?_ fun wrong => nomatch wrong
      cases turns with
      | nil => exact clean.waits
      | cons turn rest => exact write_once sound (honest turn (by simp)) rest

def quiet (notifyFails : Bool) : Turn := ⟨⟨notifyFails,false,true⟩,.reads 0,.reads 0,.reads 0⟩

def empty : Ring := ⟨⟨10,by decide⟩,fun _ => 0,0,0,[],[]⟩

theorem empty_sound : Sound empty := ⟨rfl,rfl,List.prefix_refl _,Nat.zero_le _,fun k _ below => absurd below (Nat.not_lt_zero k)⟩

-- Three bytes, and the first notification fails: the position is one before
-- the data, all of it is sent again behind the byte before it, and the answer
-- is that three bytes were written.
theorem write_repeats :
    offsets (libxenvchanWrite (fun _ => 0) 3 true true [quiet true,quiet false] empty).1.log = [0,1,2,-1,0,1,2] ∧
      (libxenvchanWrite (fun _ => 0) 3 true true [quiet true,quiet false] empty).2 = some 3 := by decide +kernel

theorem quiet_honest (notifyFails : Bool) : (quiet notifyFails).Honest := ⟨trivial,trivial,trivial⟩

-- A failed send that the call waits behind has done no harm yet.
theorem write_waits : Correct (fun _ => 0) 3 empty (libxenvchanWrite (fun _ => 0) 3 true true [quiet true] empty) := by
  refine (write_correct_exactly _ _ true true [quiet true] empty empty_sound (fun turn member => ?_) (by decide)).mpr fun _ _ => .inr trivial
  rw [List.mem_singleton.mp member]
  exact quiet_honest true

end Exact

section Safety

-- Where an end's ring lies: in the shared page, or in pages of its own.
inductive Region where
  | page (offset : Nat)
  | pages (count : Nat)
deriving DecidableEq

def Region.capacity : Region → Nat
  | .page offset => 4096 - offset
  | .pages count => count * 4096

structure End where
  order : Order
  region : Region

def buffer (order : Nat) (maps : Bool) : Option Region :=
  match order with
  | 10 => some (.page 1024)
  | 11 => some (.page 2048)
  | _ => if maps then some (.pages (1 <<< (order - 12))) else none

-- The orders are read from the shared page, which the other end has set up.
-- The first of the pair is the end for writing.
def initGntCli (leftOrder rightOrder : BitVec 16) (mapsLeft mapsRight : Bool) : Option (End × End) :=
  if left : 10 ≤ leftOrder.toNat ∧ leftOrder.toNat ≤ 20 then
    if right : 10 ≤ rightOrder.toNat ∧ rightOrder.toNat ≤ 20 then
      if rightOrder = leftOrder ∧ rightOrder.toNat < 12 then none
      else do
        let write ← buffer leftOrder.toNat mapsLeft
        let read ← buffer rightOrder.toNat mapsRight
        some (⟨⟨leftOrder.toNat,left⟩,write⟩,⟨⟨rightOrder.toNat,right⟩,read⟩)
    else none
  else none

-- A `memcpy` between the ring and the caller's buffer.
structure Copy where
  ring : Nat
  data : Nat
  count : Nat
deriving DecidableEq

-- The copies of `do_send` and `do_recv` with the index they have read.
def copies (r : Ring) (index : BitVec 32) (n : Nat) : List Copy :=
  ⟨realIdx r index,0,availContig r index n⟩ ::
    if availContig r index n < n then [⟨0,availContig r index n,n - availContig r index n⟩] else []

def libxenvchanSend (size : Nat) (blocking : Bool) : List Turn → Ring → List Copy
  | [],_ => []
  | turn :: rest,r =>
    if turn.isOpen = false then []
    else
      let (r,avail) := fastGetBufferSpace r size turn
      if size ≤ avail then copies (turn.third.act r) (turn.third.act r).prod size
      else if blocking = false then []
      else if r.size < size then []
      else if turn.waitFails then []
      else libxenvchanSend size blocking rest r

def libxenvchanRecv (size : Nat) (blocking : Bool) : List Turn → Ring → List Copy
  | [],_ => []
  | turn :: rest,r =>
    let (r,avail) := fastGetDataReady r size turn
    if size ≤ avail then copies (turn.third.act r) (turn.third.act r).cons size
    else if turn.isOpen = false then []
    else if blocking = false then []
    else if r.size < size then []
    else if turn.waitFails then []
    else libxenvchanRecv size blocking rest r

def libxenvchanRead (size : Nat) (blocking : Bool) : List Turn → Ring → List Copy
  | [],_ => []
  | turn :: rest,r =>
    let (r,avail) := fastGetDataReady r size turn
    if avail ≠ 0 then copies (turn.third.act r) (turn.third.act r).cons (if avail < size then avail else size)
    else if turn.isOpen = false then []
    else if blocking = false then []
    else if turn.waitFails then []
    else libxenvchanRead size blocking rest r

-- Inside the ring, and inside the caller's buffer.
def Inside (order : Order) (size : Nat) (copy : Copy) : Prop := copy.ring + copy.count ≤ 2 ^ order.val ∧ copy.data + copy.count ≤ size

variable {r : Ring} {n size : Nat} {turn : Turn} {order : Order}

theorem realIdx_lt (r : Ring) (index : BitVec 32) : realIdx r index < r.size := by
  have masked := realIdx_ofNat r index.toNat
  rw [BitVec.ofNat_toNat,BitVec.setWidth_eq] at masked
  rw [masked]
  exact Nat.mod_lt _ (size_pos r)

-- The mask bounds the offset and the size checked bounds the rest, whatever
-- the index has become in between.
theorem copies_inside (index : BitVec 32) (is : r.order = order) (fits : n ≤ r.size) (within : n ≤ size) :
    ∀ copy ∈ copies r index n, Inside order size copy := by
  have low := realIdx_lt r index
  have contig : availContig r index n = min n (r.size - realIdx r index) := rfl
  have whole : 2 ^ order.val = r.size := by rw [Ring.size,is]
  intro copy member
  unfold Inside
  rw [whole]
  rcases List.mem_cons.mp member with rfl | rest
  · dsimp only
    omega
  · split at rest
    · rw [List.mem_singleton.mp rest]
      dsimp only
      omega
    · cases rest

-- After a last act of the other end.
theorem acted_inside (peer : Peer) (index : BitVec 32) (is : r.order = order) (fits : n ≤ r.size) (within : n ≤ size) :
    ∀ copy ∈ copies (peer.act r) index n, Inside order size copy :=
  copies_inside index ((act_order r peer).trans is) (by rwa [size_eq (act_order r peer)]) within

theorem mem_unless {c : Prop} [Decidable c] {copy : Copy} {rest : List Copy} (member : copy ∈ if c then [] else rest) : copy ∈ rest := by
  split at member
  · cases member
  · exact member

theorem send_inside (size : Nat) (blocking : Bool) (turns : List Turn) (r : Ring) (is : r.order = order) :
    ∀ copy ∈ libxenvchanSend size blocking turns r, Inside order size copy := by
  induction turns generalizing r with
  | nil => exact fun copy none_ => nomatch none_
  | cons turn rest ih =>
    obtain ⟨r',got,same⟩ := fastGet_order rawGetBufferSpace r size turn
    intro copy member
    rw [libxenvchanSend,fastGetBufferSpace,got] at member
    dsimp only at member
    have opened := mem_unless member
    split at opened
    · next fits => exact acted_inside _ _ (same.trans is) (Nat.le_trans fits (space_le r')) (Nat.le_refl _) copy opened
    · exact ih r' (same.trans is) copy (mem_unless (mem_unless (mem_unless opened)))

theorem recv_inside (size : Nat) (blocking : Bool) (turns : List Turn) (r : Ring) (is : r.order = order) :
    ∀ copy ∈ libxenvchanRecv size blocking turns r, Inside order size copy := by
  induction turns generalizing r with
  | nil => exact fun copy none_ => nomatch none_
  | cons turn rest ih =>
    obtain ⟨r',got,same⟩ := fastGet_order rawGetDataReady r size turn
    intro copy member
    rw [libxenvchanRecv,fastGetDataReady,got] at member
    dsimp only at member
    split at member
    · next fits => exact acted_inside _ _ (same.trans is) (Nat.le_trans fits (ready_le r')) (Nat.le_refl _) copy member
    · exact ih r' (same.trans is) copy (mem_unless (mem_unless (mem_unless (mem_unless member))))

theorem read_inside (size : Nat) (blocking : Bool) (turns : List Turn) (r : Ring) (is : r.order = order) :
    ∀ copy ∈ libxenvchanRead size blocking turns r, Inside order size copy := by
  induction turns generalizing r with
  | nil => exact fun copy none_ => nomatch none_
  | cons turn rest ih =>
    obtain ⟨r',got,same⟩ := fastGet_order rawGetDataReady r size turn
    have ready := ready_le r'
    intro copy member
    rw [libxenvchanRead,fastGetDataReady,got] at member
    dsimp only at member
    split at member
    · refine acted_inside _ _ (same.trans is) ?_ ?_ copy member
      · split <;> omega
      · split <;> omega
    · exact ih r' (same.trans is) copy (mem_unless (mem_unless (mem_unless member)))

-- The sends of a write so far read nothing outside the data.
def Bounded (size : BitVec 64) (order : Order) (log : List Sent) : Prop :=
  ∀ e ∈ log, e.offset.toNat + e.count ≤ size.toNat ∧ e.count ≤ 2 ^ order.val

-- A write whose notifications have come through, with whatever indexes.
structure Steady (size : BitVec 64) (order : Order) (c : Call) (m : Nat) : Prop where
  pos : c.pos = BitVec.ofNat 64 m
  within : m ≤ size.toNat
  ring : c.ring.order = order
  sends : Bounded size order c.log

section
variable {memory : BitVec 64 → UInt8} {bytes : BitVec 64} {c : Call} {m : Nat}

theorem doSend_bounded (memory : BitVec 64 → UInt8) (steady : Steady bytes order c m) (turn : Turn) (within : m + n ≤ bytes.toNat) (fits : n ≤ 2 ^ order.val) :
    Bounded bytes order (doSend memory c (BitVec.ofNat 64 n) turn).1.log := by
  have small := bytes.isLt
  intro e member
  rcases List.mem_append.mp member with early | last
  · exact steady.sends e early
  · rw [List.mem_singleton.mp last]
    change c.pos.toNat + (BitVec.ofNat 64 n).toNat ≤ _ ∧ (BitVec.ofNat 64 n).toNat ≤ _
    rw [steady.pos,BitVec.toNat_ofNat,BitVec.toNat_ofNat]
    omega

theorem writeTurn_steady (memory : BitVec 64 → UInt8) (turn : Turn) (steady : Steady bytes order c m) (room : bytes.toNat + 2 ^ order.val < 2^64) :
    Bounded bytes order (writeTurn memory bytes c turn).log ∧
      (turn.notifyFails = false → ∃ m', Steady bytes order (writeTurn memory bytes c turn) m') := by
  obtain ⟨r,got,same⟩ := fastGet_order rawGetBufferSpace c.ring (bytes - c.pos).toNat turn
  have whole : r.size = 2 ^ order.val := by rw [Ring.size,same,steady.ring]
  have space := space_le r
  have small := size_le r
  have looked : Steady bytes order {c with ring := r} m := ⟨steady.pos,steady.within,same.trans steady.ring,steady.sends⟩
  have within := steady.within
  rcases writeTurn_on memory steady.pos within got (by omega) (by omega) with ⟨_,turned⟩ | ⟨more,turned⟩
  · rw [turned]
    exact ⟨steady.sends,fun _ => ⟨m,looked⟩⟩
  · have sent : Bounded bytes order _ := doSend_bounded memory looked turn (n:=min (rawGetBufferSpace r) (bytes.toNat - m)) (by omega) (by omega)
    rw [turned]
    refine ⟨sent,fun tells => ?_⟩
    rw [tells,if_neg Bool.false_ne_true]
    exact ⟨_,rfl,by omega,(put_order _ _).trans ((act_order _ _).trans looked.ring),sent⟩

-- No notification fails in a turn that another follows.
def Told : List Answers → Prop
  | [] => True
  | answers :: rest => answers.Stops ∨ (answers.notifyFails = true → rest = []) ∧ Told rest

theorem writeLoop_stops (memory : BitVec 64 → UInt8) (rest : List Turn) (stops : turn.Stops) :
    (writeLoop memory bytes (turn :: rest) c).1 = writeTurn memory bytes c turn := by
  rw [writeLoop]
  split
  · rfl
  · split
    · rfl
    · next waits => rw [if_pos (stops.resolve_left waits)]

theorem writeLoop_bounded (turns : List Turn) (steady : Steady bytes order c m) (told : Told (turns.map Turn.toAnswers))
    (room : bytes.toNat + 2 ^ order.val < 2^64) : Bounded bytes order (writeLoop memory bytes turns c).1.log := by
  induction turns generalizing c m with
  | nil => exact steady.sends
  | cons turn rest ih =>
    obtain ⟨sends,tells⟩ := writeTurn_steady memory turn steady room
    rcases told with stops | ⟨last,told⟩
    · rw [writeLoop_stops memory rest stops]
      exact sends
    · rcases writeLoop_cons turn rest c with ⟨_,same⟩ | same
      · rw [same]
        exact sends
      · rw [same]
        cases fails : turn.notifyFails with
        | true =>
          rw [List.map_eq_nil_iff.mp (last fails)]
          exact sends
        | false =>
          obtain ⟨m',after⟩ := tells fails
          exact ih after told

theorem write_empty (turns : List Turn) (none_ : bytes.toNat = 0) (r : Ring) : (writeLoop memory bytes turns ⟨r,0,[]⟩).1.log = [] := by
  cases turns with
  | nil => rfl
  | cons turn rest =>
    obtain ⟨r',got,_⟩ := fastGet_order rawGetBufferSpace r (bytes - 0).toNat turn
    have small := Nat.le_trans (space_le r') (size_le r')
    rcases writeTurn_on (m:=0) (c:=⟨r,0,[]⟩) memory rfl (Nat.zero_le _) got (by omega) small with ⟨_,turned⟩ | ⟨more,_⟩
    · have done : (writeTurn memory bytes ⟨r,0,[]⟩ turn).pos = bytes := by
        rw [turned]
        exact BitVec.eq_of_toNat_eq none_.symm
      rw [writeLoop,if_pos done,turned]
    · omega

-- An end that shows `n` bytes in the ring at each look.
def shows (n : Nat) (answers : Answers) : Turn := ⟨answers,.stores (BitVec.ofNat 32 n) 0,.stores (BitVec.ofNat 32 n) 0,.stores (BitVec.ofNat 32 n) 0⟩

theorem fastGet_shows (r : Ring) (request : Nat) (answers : Answers) (fits : n ≤ r.size) :
    fastGet rawGetBufferSpace r request (shows n answers) = ({r with prod := BitVec.ofNat 32 n, cons := 0},r.size - n) := by
  have small := size_le r
  have left : (BitVec.ofNat 32 r.size - (BitVec.ofNat 32 n - 0)).toNat = r.size - n := by
    rw [BitVec.toNat_sub,BitVec.toNat_sub,BitVec.toNat_ofNat,BitVec.toNat_ofNat]
    change (_ - (2^32 - 0 + _) % 2^32 + _) % 2^32 = _
    omega
  have space : rawGetBufferSpace {r with prod := BitVec.ofNat 32 n, cons := 0} = r.size - n := by
    change (if r.size < (BitVec.ofNat 32 r.size - (BitVec.ofNat 32 n - 0)).toNat then 0 else (BitVec.ofNat 32 r.size - (BitVec.ofNat 32 n - 0)).toNat) = _
    rw [left,if_neg (by omega)]
  rw [← space,fastGet]
  split
  · rfl
  · rfl

theorem writeLoop_go (memory : BitVec 64 → UInt8) (rest : List Turn) (on : (writeTurn memory bytes c turn).pos ≠ bytes) (go : ¬turn.Stops) :
    writeLoop memory bytes (turn :: rest) c = writeLoop memory bytes rest (writeTurn memory bytes c turn) := by
  obtain ⟨waits,opened⟩ := not_or.mp go
  rw [writeLoop,if_neg on,if_neg waits,if_neg opened]

-- The other end keeps the ring full up to the notification that fails, shows
-- it empty there and in the next turn, and the byte before the data is read.
theorem untold_outside (memory : BitVec 64 → UInt8) (answers : List Answers) (untold : ¬Told answers) (pos : c.pos = BitVec.ofNat 64 0)
    (some_ : 0 < bytes.toNat) (room : bytes.toNat + c.ring.size < 2^64) :
    ∃ turns : List Turn, turns.map Turn.toAnswers = answers ∧ ∃ e ∈ (writeLoop memory bytes turns c).1.log, e.offset = -1 ∧ e.count ≠ 0 := by
  induction answers generalizing c with
  | nil => exact absurd trivial untold
  | cons a rest ih =>
    obtain ⟨go,later⟩ := not_or.mp untold
    have small := size_le c.ring
    have cap := size_pos c.ring
    have away (pos : BitVec 64) (is : pos = BitVec.ofNat 64 0 ∨ pos = BitVec.ofNat 64 0 - 1) : pos ≠ bytes := by
      rintro rfl
      rcases is with rfl | rfl
      · exact absurd some_ (by decide)
      · have back := back_toNat 0
        omega
    by_cases told : Told rest
    · obtain ⟨fails,more⟩ := Classical.not_imp.mp fun last => later ⟨last,told⟩
      obtain ⟨b,rest,rfl⟩ := List.exists_cons_of_ne_nil more
      refine ⟨(a :: b :: rest).map (shows 0),by rw [List.map_map]; exact List.map_id _,?_⟩
      have got := fastGet_shows c.ring (bytes - c.pos).toNat a (Nat.zero_le _)
      rcases writeTurn_on memory pos (Nat.zero_le _) got (by omega) (by omega) with ⟨none_,_⟩ | ⟨_,turned⟩
      · omega
      · have back := congrArg Call.pos turned
        have same := size_eq ((congrArg (fun c => c.ring.order) turned).trans (put_order _ _))
        change _ = c.ring.size at same
        dsimp only at back
        rw [show (shows 0 a).notifyFails = true from fails,if_pos rfl] at back
        have got := fastGet_shows (writeTurn memory bytes c (shows 0 a)).ring (bytes - (writeTurn memory bytes c (shows 0 a)).pos).toNat b (Nat.zero_le _)
        obtain ⟨e,log,offset,count⟩ := writeTurn_sends memory got (by
          rw [back]
          intro zero
          have full := ((sendable_back (Nat.zero_le _) (by omega) (by omega) (by omega)).mp zero).1
          omega)
        rw [List.map_cons,writeLoop_go memory _ (away _ (.inr back)) go]
        refine ⟨e,writeLoop_turn (P:=(e ∈ ·)) (fun log _ held => List.mem_append_left _ held) _ ?_,by rw [offset,back]; rfl,count⟩
        rw [log]
        exact List.mem_append_right _ List.mem_cons_self
    · have got := fastGet_shows c.ring (bytes - c.pos).toNat a (Nat.le_refl c.ring.size)
      have turned := writeTurn_idle memory got (by
        rw [pos,Nat.sub_self,sendable_eq (Nat.zero_le _) (by decide),Nat.zero_min]
        rfl)
      obtain ⟨turns,same,e,member,outside⟩ := ih (c:={c with ring := {c.ring with prod := BitVec.ofNat 32 c.ring.size, cons := 0}}) told pos room
      refine ⟨shows c.ring.size a :: turns,by rw [List.map_cons,same]; rfl,e,?_,outside⟩
      rw [writeLoop_go memory turns (away _ (.inl (by rw [turned]; exact pos))) go,turned]
      exact member

end

theorem buffer_capacity {o : Nat} {maps : Bool} {region : Region} (large : 10 ≤ o) (mapped : buffer o maps = some region) :
    2 ^ o ≤ region.capacity := by
  unfold buffer at mapped
  split at mapped
  · cases mapped
    decide
  · cases mapped
    decide
  · next small large' =>
    split at mapped
    · cases mapped
      change 2 ^ o ≤ 1 <<< (o - 12) * 2 ^ 12
      rw [Nat.one_shiftLeft,← Nat.pow_add,Nat.sub_add_cancel]
      by_contra less
      have : o = 10 ∨ o = 11 := by omega
      rcases this with rfl | rfl
      · exact small rfl
      · exact large' rfl
    · cases mapped

-- Two rings in the shared page do not overlap.
def Apart (one two : End) : Prop := ∀ a b, one.region = .page a → two.region = .page b →
  a + 2 ^ one.order.val ≤ b ∨ b + 2 ^ two.order.val ≤ a

theorem buffer_page {o a : Nat} {maps : Bool} (mapped : buffer o maps = some (.page a)) : o = 10 ∧ a = 1024 ∨ o = 11 ∧ a = 2048 := by
  unfold buffer at mapped
  split at mapped
  · cases mapped
    exact .inl ⟨rfl,rfl⟩
  · cases mapped
    exact .inr ⟨rfl,rfl⟩
  · split at mapped <;> cases mapped

-- What the client takes from the shared page.
structure Accepted (wr rd : End) : Prop where
  write : 2 ^ wr.order.val ≤ wr.region.capacity
  read : 2 ^ rd.order.val ≤ rd.region.capacity
  apart : Apart wr rd

theorem initGntCli_accepted {left right : BitVec 16} {mapsLeft mapsRight : Bool} {wr rd : End}
    (accepted : initGntCli left right mapsLeft mapsRight = some (wr,rd)) : Accepted wr rd := by
  unfold initGntCli at accepted
  split at accepted
  · next low =>
    split at accepted
    · next high =>
      split at accepted
      · cases accepted
      · next differ =>
        obtain ⟨writes,first,rest⟩ := Option.bind_eq_some_iff.mp accepted
        obtain ⟨reads,second,same⟩ := Option.bind_eq_some_iff.mp rest
        cases same
        refine ⟨buffer_capacity low.1 first,buffer_capacity high.1 second,?_⟩
        rintro a b rfl rfl
        dsimp only
        have distinct : ¬ (right.toNat = left.toNat ∧ right.toNat < 12) := fun same => differ ⟨BitVec.eq_of_toNat_eq same.1,same.2⟩
        rcases buffer_page first with ⟨l,rfl⟩ | ⟨l,rfl⟩ <;> rcases buffer_page second with ⟨r,rfl⟩ | ⟨r,rfl⟩
        · omega
        · rw [l]
          exact .inl (by decide)
        · rw [r]
          exact .inr (by decide)
        · omega
    · cases accepted
  · cases accepted

theorem unblocked_bounded {memory : BitVec 64 → UInt8} {bytes : BitVec 64} {turns : List Turn} (is : r.order = order) :
    Bounded bytes order (libxenvchanWrite memory bytes false true turns r).1.log := by
  have begins {r' : Ring} (same : r'.order = order) : Steady bytes order ⟨r',0,[]⟩ 0 := ⟨rfl,Nat.zero_le _,same,fun e none_ => nomatch none_⟩
  cases turns with
  | nil => exact (begins is).sends
  | cons turn rest =>
    obtain ⟨r',got,same⟩ := fastGet_order rawGetBufferSpace r bytes.toNat turn
    have whole : r'.size = 2 ^ order.val := by rw [Ring.size,same,is]
    have space := space_le r'
    have small := size_le r'
    rcases write_unblocked memory rest got (by omega) with done | ⟨_,done⟩
    · rw [done]
      exact (begins (same.trans is)).sends
    · rw [done]
      exact doSend_bounded memory (begins (same.trans is)) turn (by omega) (by omega)

-- What a write reads of the data and stores in the ring.
def WriteInside (order : Order) (size : Nat) (r : Ring) (log : List Sent) : Prop :=
  ∀ e ∈ log, ∀ copy ∈ copies r e.index e.count, Inside order size {copy with data := e.offset.toNat + copy.data}

theorem Bounded.inside {log : List Sent} (bounded : Bounded (BitVec.ofNat 64 size) order log) (is : r.order = order) (small : size < 2^64) :
    WriteInside order size r log := by
  have whole : r.size = 2 ^ order.val := by rw [Ring.size,is]
  intro e member copy part
  obtain ⟨within,fits⟩ := bounded e member
  rw [BitVec.toNat_ofNat,Nat.mod_eq_of_lt small] at within
  obtain ⟨ring,data⟩ := copies_inside e.index is (by rw [whole]; exact fits) (Nat.le_refl e.count) copy part
  refine ⟨ring,?_⟩
  dsimp only
  omega

theorem write_inside_iff (memory : BitVec 64 → UInt8) (is : r.order = order) (blocking opened : Bool) (answers : List Answers)
    (room : size + 2 ^ order.val < 2^64) :
    (∀ turns : List Turn, turns.map Turn.toAnswers = answers →
      WriteInside order size r (libxenvchanWrite memory (BitVec.ofNat 64 size) blocking opened turns r).1.log) ↔
      (blocking = true → opened = true → size = 0 ∨ Told answers) := by
  have whole : r.size = 2 ^ order.val := by rw [Ring.size,is]
  have bytes : (BitVec.ofNat 64 size).toNat = size := by
    rw [BitVec.toNat_ofNat]
    omega
  cases opened with
  | false => exact iff_of_true (fun turns _ e none_ => absurd none_ List.not_mem_nil) fun _ wrong => absurd wrong Bool.false_ne_true
  | true =>
    cases blocking with
    | false => exact iff_of_true (fun turns _ => (unblocked_bounded is).inside is (by omega)) fun wrong => absurd wrong Bool.false_ne_true
    | true =>
      refine ⟨fun inside _ _ => ?_,fun met turns same => ?_⟩
      · by_contra neither
        obtain ⟨more,untold⟩ := not_or.mp neither
        obtain ⟨turns,same,e,member,before,count⟩ :=
          untold_outside (c:=⟨r,0,[]⟩) memory answers untold rfl (by rw [bytes]; exact Nat.pos_of_ne_zero more) (by rw [bytes,whole]; exact room)
        have reads := (inside turns same e member _ List.mem_cons_self).2
        rw [before] at reads
        change 2^64 - 1 + 0 + availContig r e.index e.count ≤ size at reads
        have contig : availContig r e.index e.count = min e.count (r.size - realIdx r e.index) := rfl
        have low := realIdx_lt r e.index
        omega
      · rcases met rfl rfl with none_ | told
        · change WriteInside order size r (writeLoop memory (BitVec.ofNat 64 size) turns ⟨r,0,[]⟩).1.log
          rw [write_empty turns (bytes.trans none_) r]
          exact fun e none_ => absurd none_ List.not_mem_nil
        · have begins : Steady (BitVec.ofNat 64 size) order ⟨r,0,[]⟩ 0 := ⟨rfl,Nat.zero_le _,is,fun e none_ => absurd none_ List.not_mem_nil⟩
          exact (writeLoop_bounded turns begins (same ▸ told) (by rw [bytes]; exact room)).inside is (by omega)

-- Whatever the other end stores in the indexes between two reads of them, all
-- copies stay inside the ring and the caller's buffer, those of a write
-- exactly if no notification fails in a turn that another follows.
theorem accesses_inside {left right : BitVec 16} {mapsLeft mapsRight : Bool} {wr rd : End}
    (accepted : initGntCli left right mapsLeft mapsRight = some (wr,rd)) (blocking : Bool) (turns : List Turn) (size : Nat) :
    Accepted wr rd ∧
    (∀ r : Ring, r.order = wr.order → ∀ copy ∈ libxenvchanSend size blocking turns r, Inside wr.order size copy) ∧
    (∀ r : Ring, r.order = rd.order → ∀ copy ∈ libxenvchanRecv size blocking turns r ++ libxenvchanRead size blocking turns r,
      Inside rd.order size copy) ∧
    ∀ r : Ring, r.order = wr.order → ∀ memory opened answers, size + 2 ^ wr.order.val < 2^64 →
      ((∀ turns : List Turn, turns.map Turn.toAnswers = answers →
        WriteInside wr.order size r (libxenvchanWrite memory (BitVec.ofNat 64 size) blocking opened turns r).1.log) ↔
        (blocking = true → opened = true → size = 0 ∨ Told answers)) := by
  refine ⟨initGntCli_accepted accepted,fun r is => send_inside size blocking turns r is,fun r is copy member => ?_,
    fun r is memory opened answers room => write_inside_iff memory is blocking opened answers room⟩
  rcases List.mem_append.mp member with received | seen
  · exact recv_inside size blocking turns r is copy received
  · exact read_inside size blocking turns r is copy seen

-- A send across the end of the ring.
def nearEnd : Ring := {empty with prod := 0xFFFFFFFD, cons := 0xFFFFFFFD}

theorem accesses_inside_wrapped : libxenvchanSend 5 true [quiet false] nearEnd = [⟨1021,0,3⟩,⟨0,3,2⟩] ∧
    Inside empty.order 5 ⟨1021,0,3⟩ ∧ Inside empty.order 5 ⟨0,3,2⟩ := by
  have copied : libxenvchanSend 5 true [quiet false] nearEnd = [⟨1021,0,3⟩,⟨0,3,2⟩] := by decide +kernel
  have accepted : initGntCli 10 11 false false = some (⟨empty.order,.page 1024⟩,⟨⟨11,by decide⟩,.page 2048⟩) := rfl
  have inside := (accesses_inside accepted true [quiet false] 5).2.1 nearEnd rfl
  rw [copied] at inside
  exact ⟨copied,inside _ (by simp),inside _ (by simp)⟩

-- The blocking write whose first notification fails reads the byte before its
-- three.
theorem write_reads_before : initGntCli 10 11 false false = some (⟨empty.order,.page 1024⟩,⟨⟨11,by decide⟩,.page 2048⟩) ∧
    ¬WriteInside empty.order 3 empty (libxenvchanWrite (fun _ => 0) 3 true true [quiet true,quiet false] empty).1.log := by
  refine ⟨rfl,fun inside => ?_⟩
  have member : ⟨-1,4,3,false⟩ ∈ (libxenvchanWrite (fun _ => 0) 3 true true [quiet true,quiet false] empty).1.log := by decide +kernel
  exact absurd (inside _ member _ List.mem_cons_self).2 (by decide)

end Safety

end XenAet.VchanPeer
