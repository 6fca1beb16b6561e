import XenAet.Library.ByteRegion

namespace XenAet.HvmSave
open Library.ByteRegion

-- What must not happen: an access outside the data, a cursor beyond the size,
-- a failed BUG_ON, and a loop that takes more turns than it was given.
inductive Fault where
  | outside
  | overrun
  | bug
  | endless
  deriving DecidableEq

structure Descriptor where
  typecode : Nat
  instance_ : Nat
  length : Nat

def sizeofDescriptor : Nat := 8

def hvmSaveCodeMax : Nat := 20

def headerCode : Nat := 1

def headerLength : Nat := 24

def endCode : Nat := 0

-- `cur` and `size` are 32-bit numbers.
structure Context where
  cur : Nat
  size : Nat
  data : List UInt8

-- `h->size - h->cur`.
def Context.left (h : Context) : Nat := (h.size + 2^32 - h.cur) % 2^32

def Context.load (h : Context) (start : Int) (n : Nat) : Except Fault (List UInt8) :=
  if 0 ≤ start ∧ start + n ≤ h.data.length then .ok (slice h.data start.toNat n) else .error .outside

def Context.store (h : Context) (bytes : List UInt8) : Except Fault Context :=
  if h.cur + bytes.length ≤ h.data.length then .ok {h with data := patch h.data h.cur bytes} else .error .outside

-- `h->cur += n`.
def Context.advance (h : Context) (n : Nat) : Except Fault Context :=
  if h.size < (h.cur + n) % 2^32 then .error .overrun else .ok {h with cur := (h.cur + n) % 2^32}

-- All of it is loaded where any field is used.
def Context.descriptor (h : Context) (start : Int) : Except Fault Descriptor := do
  let bytes ← h.load start sizeofDescriptor
  return ⟨decode (slice bytes 0 2),decode (slice bytes 2 2),decode (slice bytes 4 4)⟩

def hvmInitEntry (h : Context) (tc inst len : Nat) : Except Fault (Context × Int) := do
  if h.left < len + sizeofDescriptor then return (h,-1)
  let h ← h.store (encode 2 tc ++ (encode 2 inst ++ encode 4 len))
  let h ← h.advance sizeofDescriptor
  return (h,0)

def hvmWriteEntry (h : Context) (src : List UInt8) : Except Fault Context := do
  let h ← h.store src
  h.advance src.length

def hvmCheckEntry (h : Context) (type len : Nat) (strictLength : Bool) : Except Fault (Context × Int) := do
  if h.left < sizeofDescriptor then return (h,-1)
  let d ← h.descriptor h.cur
  if type ≠ d.typecode ∨ (if strictLength then len ≠ d.length else len < d.length) ∨ h.left - sizeofDescriptor < d.length then
    return (h,-1)
  let h ← h.advance sizeofDescriptor
  return (h,0)

def hvmReadEntry (h : Context) (destLen : Nat) : Except Fault (Context × List UInt8) := do
  let d ← h.descriptor (h.cur - sizeofDescriptor)
  if destLen < d.length then throw .bug
  let bytes ← h.load h.cur d.length
  let h ← h.advance d.length
  return (h,bytes ++ List.replicate (destLen - d.length) 0)

def hvmLoadInstance (h : Context) : Except Fault Nat := do
  let d ← h.descriptor h.cur
  return d.instance_

def hvmSaveEntry (h : Context) (tc inst : Nat) (src : List UInt8) : Except Fault (Context × Int) := do
  let (h,rc) ← hvmInitEntry h tc inst src.length
  if rc = 0 then
    let h ← hvmWriteEntry h src
    return (h,rc)
  return (h,rc)

def hvmLoadEntry (h : Context) (type len : Nat) (strict : Bool) : Except Fault (Context × Option (List UInt8)) := do
  let (h,rc) ← hvmCheckEntry h type len strict
  if rc = 0 then
    let (h,bytes) ← hvmReadEntry h len
    return (h,some bytes)
  return (h,none)

-- What a load handler does with the stream: entries are checked and read, and
-- the rest depends on what was read.
inductive Reader (D : Type) where
  | done (rc : Int) (d : D)
  | load (type len : Nat) (strict : Bool) (ok : List UInt8 → Reader D) (failed : Reader D)

def Reader.run {D : Type} : Reader D → Context → Except Fault (Context × Int × D)
  | .done rc d,h => return (h,rc,d)
  | .load type len strict ok failed,h => do
    match ← hvmLoadEntry h type len strict with
    | (h,some bytes) => (ok bytes).run h
    | (h,none) => failed.run h

-- Nothing is taken for loaded before an entry has been read.
def Reader.Reads {D : Type} : Reader D → Prop
  | .done rc _ => rc ≠ 0
  | .load _ _ _ _ failed => failed.Reads

-- A handler looks at the instance of its entry first.
structure Handler (D : Type) where
  reader : D → Nat → Reader D
  reads : ∀ d inst, (reader d inst).Reads

structure Host (D : Type) where
  isDying : D → Bool
  archHvmLoad : D → List UInt8 → Option D
  down : D → D
  handlers : Nat → Option (Handler D)

def loadLoop {D : Type} (k : Host D) : Nat → D → Context → Except Fault (Context × Int × D)
  | 0,_,_ => .error .endless
  | fuel + 1,d,h => do
    if h.left < sizeofDescriptor then return (h,-1,d)
    let desc ← h.descriptor h.cur
    if desc.typecode = endCode then return (h,0,d)
    if hvmSaveCodeMax < desc.typecode then return (h,-1,d)
    match k.handlers desc.typecode with
    | none => return (h,-1,d)
    | some handler =>
      let inst ← hvmLoadInstance h
      let (h,rc,d) ← (handler.reader d inst).run h
      if rc ≠ 0 then return (h,-1,d)
      loadLoop k fuel d h

def hvmLoad {D : Type} (k : Host D) (fuel : Nat) (d : D) (h : Context) : Except Fault (Context × Int × D) := do
  if k.isDying d then return (h,-22,d)
  match ← hvmLoadEntry h headerCode headerLength true with
  | (h,none) => return (h,-1,d)
  | (h,some hdr) =>
    match k.archHvmLoad d hdr with
    | none => return (h,-1,d)
    | some d => loadLoop k fuel (k.down d) h

end XenAet.HvmSave
