import XenAet.HvmRecords

namespace XenAet.HvmSaveOne
open Library.ByteRegion HvmSave HvmFraming HvmRecords

def eFAULT : Int := 14
def eBADSLT : Int := 57

-- What is read of the data, each with its first byte and its length, and the
-- return value with what the guest is given.
structure Outcome where
  reads : List (Nat × Nat)
  result : Except Fault (Int × Option (List UInt8))

def Outcome.after (read : Nat × Nat) (o : Outcome) : Outcome := {o with reads := read :: o.reads}

-- `copy_to_guest`; nothing is copied where there is nothing to copy.
def copyToGuest (h : Context) (fault : Bool) (off copyLength : Nat) : Outcome :=
  ⟨[(off,copyLength)],(h.load off copyLength).map fun bytes =>
    if fault && copyLength != 0 then (-eFAULT,none) else (0,some bytes)⟩

-- `off` has 32 bits; `ctxt.cur - sizeof(*desc)` has 64.
def saveOneLoop (inst : Nat) (fault : Bool) (h : Context) : Nat → Nat → Outcome
  | 0,_ => ⟨[],.error .endless⟩
  | fuel+1,off =>
    if off < (h.cur + 2^64 - sizeofDescriptor) % 2^64 then
      match h.descriptor off with
      | .error e => ⟨[(off,sizeofDescriptor)],.error e⟩
      | .ok desc =>
        let past := (off + sizeofDescriptor) % 2^32
        if inst = desc.instance_ then
          (copyToGuest h fault past
            (if h.cur < (past + desc.length) % 2^32 then (h.cur + 2^32 - past) % 2^32 else desc.length)).after (off,sizeofDescriptor)
        else (saveOneLoop inst fault h fuel ((past + desc.length) % 2^32)).after (off,sizeofDescriptor)
    else ⟨[],.ok (-eBADSLT,none)⟩

-- What is registered for a type.
structure Registration where
  size : Nat
  perVcpu : Bool
  save : Option (Context → Except Fault (Context × Int))

structure Target where
  isDying : Bool
  vcpus : Nat
  handlers : Nat → Registration
  xmalloc : Nat → Option (List UInt8)

def contextSize (d : Target) (typecode : Nat) : Nat :=
  if (d.handlers typecode).perVcpu then d.vcpus * (d.handlers typecode).size else (d.handlers typecode).size

def hvmSaveOne (d : Target) (fuel typecode inst : Nat) (fault : Bool) : Outcome :=
  let size := contextSize d typecode
  if d.isDying ∨ hvmSaveCodeMax < typecode ∨ (d.handlers typecode).size < sizeofDescriptor then ⟨[],.ok (-22,none)⟩
  else match (d.handlers typecode).save with
    | none => ⟨[],.ok (-22,none)⟩
    | some save =>
      match d.xmalloc size with
      | none => ⟨[],.ok (-12,none)⟩
      | some data =>
        match save ⟨0,size % 2^32,data⟩ with
        | .error e => ⟨[],.error e⟩
        | .ok (h,rc) => if rc ≠ 0 then ⟨[],.ok (-eFAULT,none)⟩ else saveOneLoop inst fault h fuel 0

-- The handler has written the records, and what stands behind them is not its.
structure Holds (h : Context) (records : List Record) (rest : List UInt8) : Prop where
  data : h.data = frames records ++ rest
  cur : h.cur = (frames records).length
  small : h.cur < 2^32

-- The call comes to the loop, with the context that the handler has left.
structure Saves (d : Target) (typecode : Nat) (h : Context) : Prop where
  alive : d.isDying = false
  known : typecode ≤ hvmSaveCodeMax
  room : sizeofDescriptor ≤ (d.handlers typecode).size
  saved : ∃ save data, (d.handlers typecode).save = some save ∧ d.xmalloc (contextSize d typecode) = some data ∧
    save ⟨0,contextSize d typecode % 2^32,data⟩ = .ok (h,0)

-- The first record of the instance, if there is one.
def answer (records : List Record) (inst : Nat) (fault : Bool) : Int × Option (List UInt8) :=
  match records.find? (·.instance_ == inst) with
  | none => (-eBADSLT,none)
  | some r => if fault && r.payload.length != 0 then (-eFAULT,none) else (0,some r.payload)

def Outcome.Right (o : Outcome) (cur : Nat) (records : List Record) (inst : Nat) (fault : Bool) : Prop :=
  o.result = .ok (answer records inst fault) ∧ ∀ read ∈ o.reads, read.1 + read.2 ≤ cur

-- There is a record, and an empty one at the end is not the one asked for.
def Reached (records : List Record) (inst : Nat) : Prop :=
  records ≠ [] ∧ ∀ first last, records = first ++ [last] → last.payload = [] → last.instance_ = inst →
    ∃ r ∈ first, r.instance_ = inst

variable {h : Context} {inst : Nat} {fault : Bool}

theorem after_right (read : Nat × Nat) (o : Outcome) (cur : Nat) (records : List Record) (inside : read.1 + read.2 ≤ cur) :
    (o.after read).Right cur records inst fault ↔ o.Right cur records inst fault := by
  refine and_congr_right fun _ => ?_
  simp only [Outcome.after,List.forall_mem_cons,inside,true_and]

theorem reached_matching (r : Record) (todo : List Record) (asked : r.instance_ = inst) (more : todo ≠ [] ∨ r.payload ≠ []) :
    Reached (r :: todo) inst := by
  refine ⟨List.cons_ne_nil _ _,?_⟩
  intro first last split empty _
  cases first with
  | nil =>
    obtain ⟨rfl,rfl⟩ := List.cons.inj split
    rcases more with more | more
    · exact absurd rfl more
    · exact absurd empty more
  | cons r' first =>
    obtain ⟨rfl,_⟩ := List.cons.inj split
    exact ⟨r,List.mem_cons_self,asked⟩

theorem reached_other (r : Record) (todo : List Record) (other : r.instance_ ≠ inst) (more : todo ≠ []) :
    Reached (r :: todo) inst ↔ Reached todo inst := by
  constructor
  · intro reached
    refine ⟨more,?_⟩
    intro first last split empty asked
    obtain ⟨r',member,is⟩ := reached.2 (r :: first) last (by rw [split]; rfl) empty asked
    rcases List.mem_cons.mp member with rfl | old
    · exact absurd is other
    · exact ⟨r',old,is⟩
  · intro reached
    refine ⟨List.cons_ne_nil _ _,?_⟩
    intro first last split empty asked
    cases first with
    | nil => exact absurd (List.cons.inj split).2 more
    | cons r' first =>
      obtain ⟨r',member,is⟩ := reached.2 first last (List.cons.inj split).2 empty asked
      exact ⟨r',List.mem_cons_of_mem _ member,is⟩

theorem reached_single (r : Record) : Reached [r] inst ↔ (r.payload = [] → r.instance_ ≠ inst) := by
  by_cases asked : r.instance_ = inst
  · constructor
    · intro reached empty _
      obtain ⟨r',member,_⟩ := reached.2 [] r rfl empty asked
      cases member
    · intro not
      exact reached_matching r [] asked (Or.inr fun empty => not empty asked)
  · refine ⟨fun _ _ => asked,fun _ => ⟨List.cons_ne_nil _ _,?_⟩⟩
    intro first last split _ is
    cases first with
    | nil => exact absurd ((List.cons.inj split).1 ▸ is) asked
    | cons r' first => cases first <;> cases (List.cons.inj split).2

theorem answer_matching (r : Record) (todo : List Record) (asked : r.instance_ = inst) :
    answer (r :: todo) inst fault = if fault && r.payload.length != 0 then (-eFAULT,none) else (0,some r.payload) := by
  rw [answer,List.find?_cons_of_pos (by simpa using asked)]

theorem answer_other (r : Record) (todo : List Record) (other : r.instance_ ≠ inst) :
    answer (r :: todo) inst fault = answer todo inst fault := by
  rw [answer,answer,List.find?_cons_of_neg (by simpa using other)]

-- What the loop ends with when it has found none, at the last record.
theorem unasked_right (r : Record) (cur : Nat) :
    (⟨[],.ok (-eBADSLT,none)⟩ : Outcome).Right cur [r] inst fault ↔ r.instance_ ≠ inst := by
  constructor
  · rintro ⟨same,_⟩ asked
    rw [answer_matching r [] asked] at same
    split at same <;> cases same
  · intro other
    refine ⟨?_,fun read member => by cases member⟩
    rw [answer_other r [] other]
    rfl

-- The loop stands at a record: `first` is behind it and `rest` is after the
-- last one.
structure At (h : Context) (first : List UInt8) (todo : List Record) (rest : List UInt8) : Prop where
  data : h.data = first ++ (frames todo ++ rest)
  cur : h.cur = first.length + (frames todo).length
  small : h.cur < 2^32

variable {first rest : List UInt8} {r : Record} {todo : List Record}

theorem At.next (stands : At h first (r :: todo) rest) :
    At h (first ++ r.frame) todo rest := by
  refine ⟨?_,?_,stands.small⟩
  · rw [stands.data,frames_cons,List.append_assoc,List.append_assoc]
  · rw [stands.cur,frames_cons,List.length_append,List.length_append,Nat.add_assoc]

theorem At.left (stands : At h first (r :: todo) rest) :
    h.cur = first.length + sizeofDescriptor + r.payload.length + (frames todo).length := by
  rw [stands.cur,frames_cons,List.length_append,r.length_frame,Nat.add_assoc,Nat.add_assoc,Nat.add_assoc]

theorem At.header_inside (stands : At h first (r :: todo) rest) : (first.length,sizeofDescriptor).1 + (first.length,sizeofDescriptor).2 ≤ h.cur := by
  rw [stands.left,Nat.add_assoc]
  exact Nat.le_add_right _ _

theorem At.descriptor (stands : At h first (r :: todo) rest) :
    h.descriptor first.length = .ok ⟨r.typecode,r.instance_,r.payload.length⟩ := by
  have length : h.data.length = h.cur + rest.length := by
    rw [stands.data,stands.cur,List.length_append,List.length_append,Nat.add_assoc]
  rw [descriptor_ok (by rw [length,stands.left]; omega),stands.data,frames_cons,List.append_assoc,describe_frame]

theorem At.payload (stands : At h first (r :: todo) rest) :
    h.load (first.length + sizeofDescriptor : Nat) r.payload.length = .ok r.payload := by
  have data : h.data = (first ++ r.header) ++ (r.payload ++ (frames todo ++ rest)) := by
    rw [stands.data,frames_cons,Record.frame]
    simp only [List.append_assoc]
  have start : first.length + sizeofDescriptor = (first ++ r.header).length := by rw [List.length_append,r.length_header]
  have inside : (first ++ r.header).length + r.payload.length ≤ h.data.length := by
    rw [data]
    simp only [List.length_append]
    omega
  rw [start,load_ok inside,data,slice_append]

-- The bound leaves a record out only if it is the last and has no payload.
theorem At.bound (stands : At h first (r :: todo) rest) :
    first.length < (h.cur + 2^64 - sizeofDescriptor) % 2^64 ↔ todo ≠ [] ∨ r.payload ≠ [] := by
  have left := stands.left
  have small := stands.small
  have bound : (h.cur + 2^64 - sizeofDescriptor) % 2^64 = h.cur - sizeofDescriptor := by omega
  rw [bound,left]
  cases todo with
  | nil =>
    have payload : r.payload ≠ [] ↔ 0 < r.payload.length := List.length_pos_iff.symm
    rw [payload,frames_nil,List.length_nil]
    simp only [ne_eq,not_true_eq_false,false_or]
    omega
  | cons r' todo =>
    have header := r'.length_frame
    rw [frames_cons,List.length_append]
    refine iff_of_true ?_ (Or.inl (List.cons_ne_nil _ _))
    simp only [sizeofDescriptor] at header ⊢
    omega

theorem At.ended (stands : At h first [] rest) (header : sizeofDescriptor ≤ first.length) (fuel : Nat) :
    saveOneLoop inst fault h (fuel+1) first.length = ⟨[],.ok (-eBADSLT,none)⟩ := by
  have cur : h.cur = first.length := stands.cur
  have small := stands.small
  rw [saveOneLoop,if_neg]
  simp only [sizeofDescriptor] at header ⊢
  omega

theorem At.turn (stands : At h first (r :: todo) rest) (more : todo ≠ [] ∨ r.payload ≠ []) (fuel : Nat) :
    saveOneLoop inst fault h (fuel+1) first.length =
      if inst = r.instance_ then (copyToGuest h fault (first.length + sizeofDescriptor) r.payload.length).after (first.length,sizeofDescriptor)
      else (saveOneLoop inst fault h fuel (first ++ r.frame).length).after (first.length,sizeofDescriptor) := by
  have left := stands.left
  have small := stands.small
  have past : (first.length + sizeofDescriptor) % 2^32 = first.length + sizeofDescriptor := Nat.mod_eq_of_lt (by omega)
  have next : (first.length + sizeofDescriptor + r.payload.length) % 2^32 = (first ++ r.frame).length := by
    rw [Nat.mod_eq_of_lt (by omega),List.length_append,r.length_frame,Nat.add_assoc]
  have whole : ¬h.cur < (first ++ r.frame).length := by
    rw [← next,Nat.mod_eq_of_lt (by omega)]
    omega
  rw [saveOneLoop,if_pos (stands.bound.mpr more),stands.descriptor]
  simp only [past,next,if_neg whole]

theorem At.copied (stands : At h first (r :: todo) rest) (asked : r.instance_ = inst) :
    (copyToGuest h fault (first.length + sizeofDescriptor) r.payload.length).Right h.cur (r :: todo) inst fault := by
  constructor
  · rw [copyToGuest,stands.payload,answer_matching r todo asked]
    rfl
  · intro read member
    obtain rfl := List.mem_singleton.mp member
    rw [stands.left]
    exact Nat.le_add_right _ _

-- One turn for a record; the last one is also where the bound ends the loop.
theorem At.loop_right (fuel : Nat) (stands : At h first (r :: todo) rest) (enough : todo.length + 1 < fuel) :
    (saveOneLoop inst fault h fuel first.length).Right h.cur (r :: todo) inst fault ↔ Reached (r :: todo) inst := by
  induction todo generalizing first r fuel with
  | nil =>
    obtain ⟨fuel,rfl⟩ : ∃ n, fuel = n + 2 := ⟨fuel - 2,by simp only [List.length_nil] at enough; omega⟩
    by_cases empty : r.payload = []
    · have bound : ¬first.length < (h.cur + 2^64 - sizeofDescriptor) % 2^64 := fun less => by simpa [empty] using stands.bound.mp less
      rw [saveOneLoop,if_neg bound,unasked_right,reached_single]
      exact ⟨fun other _ => other,fun other => other empty⟩
    · rw [stands.turn (Or.inr empty)]
      split
      · rename_i asked
        rw [after_right _ _ _ _ (stands.header_inside)]
        exact iff_of_true (stands.copied asked.symm) (reached_matching r [] asked.symm (Or.inr empty))
      · rename_i other
        rw [after_right _ _ _ _ (stands.header_inside),stands.next.ended (by rw [List.length_append,r.length_frame]; omega),unasked_right,reached_single]
        exact iff_of_true (Ne.symm other) fun _ => Ne.symm other
  | cons r' todo ih =>
    obtain ⟨fuel,rfl⟩ : ∃ n, fuel = n + 1 := ⟨fuel - 1,by omega⟩
    have more : r' :: todo ≠ [] := List.cons_ne_nil _ _
    rw [stands.turn (Or.inl more)]
    split
    · rename_i asked
      rw [after_right _ _ _ _ (stands.header_inside)]
      exact iff_of_true (stands.copied asked.symm) (reached_matching r _ asked.symm (Or.inl more))
    · rename_i other
      rw [after_right _ _ _ _ (stands.header_inside),reached_other r _ (Ne.symm other) more,← ih fuel stands.next (by simp only [List.length_cons] at enough; omega),
        Outcome.Right,Outcome.Right,answer_other r _ (Ne.symm other)]

-- Without a record the bound is that of the 64-bit numbers, and what the
-- first descriptor is read of was never written.
theorem loop_wraps (records : List Record) (fuel : Nat) (empty : h.cur = 0) :
    ¬(saveOneLoop inst fault h (fuel+1) 0).Right h.cur records inst fault := by
  have bound : 0 < (h.cur + 2^64 - sizeofDescriptor) % 2^64 := by rw [empty]; decide
  have read : (0,sizeofDescriptor) ∈ (saveOneLoop inst fault h (fuel+1) 0).reads := by
    rw [saveOneLoop,if_pos bound]
    split
    · exact List.mem_cons_self
    · dsimp only
      split
      · exact List.mem_cons_self
      · exact List.mem_cons_self
  intro right
  have inside := right.2 _ read
  rw [empty] at inside
  exact absurd inside (by decide)

theorem saveOneLoop_right (fuel : Nat) (records : List Record) (rest : List UInt8) (holds : Holds h records rest) (enough : records.length < fuel) :
    (saveOneLoop inst fault h fuel 0).Right h.cur records inst fault ↔ Reached records inst := by
  cases records with
  | nil =>
    obtain ⟨fuel,rfl⟩ : ∃ n, fuel = n + 1 := ⟨fuel - 1,by simp only [List.length_nil] at enough; omega⟩
    refine iff_of_false (loop_wraps [] fuel holds.cur) ?_
    intro reached
    exact reached.1 rfl
  | cons r todo =>
    have stands : At h [] (r :: todo) rest := ⟨holds.data,by rw [holds.cur,List.length_nil,Nat.zero_add],holds.small⟩
    exact stands.loop_right fuel enough

theorem hvmSaveOne_loop {d : Target} {typecode : Nat} (saves : Saves d typecode h) (fuel : Nat) :
    hvmSaveOne d fuel typecode inst fault = saveOneLoop inst fault h fuel 0 := by
  obtain ⟨save,data,handler,room,saved⟩ := saves.saved
  have refused : ¬(d.isDying ∨ hvmSaveCodeMax < typecode ∨ (d.handlers typecode).size < sizeofDescriptor) := by
    rintro (dying | unknown | less)
    · rw [saves.alive] at dying
      cases dying
    · exact absurd saves.known (Nat.not_le.mpr unknown)
    · exact absurd saves.room (Nat.not_le.mpr less)
  simp only [hvmSaveOne,if_neg refused,handler,room,saved,ne_eq,not_true_eq_false,if_false]

-- A handler that writes records with `hvm_save_entry`, as far as they have room.
def writing (records : List Record) (h : Context) : Except Fault (Context × Int) := do
  let (h,_) ← saveRecords records h
  return (h,0)

theorem writing_holds (records : List Record) (data : List UInt8) (small : data.length < 2^32) :
    ∃ h kept rest, writing records ⟨0,data.length,data⟩ = .ok (h,0) ∧ Holds h kept rest ∧
      ((frames records).length ≤ data.length → kept = records) := by
  have within : Within ⟨0,data.length,data⟩ := ⟨Nat.zero_le _,rfl,small⟩
  have start : Stands ⟨0,data.length,data⟩ [] data := ⟨rfl,rfl⟩
  obtain ⟨h,kept,rest,saved,inside,size,stands,all⟩ := saveRecords_eq records within start
  refine ⟨h,kept,rest,?_,⟨stands.data,stands.cur,?_⟩,?_⟩
  · rw [writing,saved]
    rfl
  · exact Nat.lt_of_le_of_lt inside.cur inside.small
  · intro room
    apply all
    rw [Nat.zero_add]
    exact room

-- A type of which every vcpu has a record of at most two bytes.
def writer (records : List Record) : Target :=
  ⟨false,2,fun _ => ⟨10,true,some (writing records)⟩,fun n => some (List.replicate n 0)⟩

theorem small_code {n : Nat} (small : n < 3) : n < 2^16 := by
  omega

theorem small_payload {bytes : List UInt8} (short : bytes.length < 3) : bytes.length < 2^32 := by
  omega

def recordOf (inst : Nat) (bytes : List UInt8) (first : inst < 3) (short : bytes.length < 3) : Record :=
  ⟨2,inst,bytes,small_code (Nat.lt_succ_self 2),small_code first,small_payload short⟩

theorem two_bytes (a b : UInt8) : [a,b].length < 3 := Nat.lt_succ_self 2

def twoVcpus : List Record :=
  [recordOf 0 [7,7] (Nat.zero_lt_succ 2) (two_bytes 7 7),recordOf 1 [8,9] (Nat.lt_succ_of_lt (Nat.lt_succ_self 1)) (two_bytes 8 9)]

def emptyRecord : Record := recordOf 0 [] (Nat.zero_lt_succ 2) (Nat.zero_lt_succ 2)

theorem finds_exactly_the_record (d : Target) (typecode inst fuel : Nat) (fault : Bool) (h : Context) (records : List Record) (rest : List UInt8)
    (saves : Saves d typecode h) (holds : Holds h records rest) (enough : records.length < fuel) :
    (hvmSaveOne d fuel typecode inst fault).Right h.cur records inst fault ↔ Reached records inst := by
  rw [hvmSaveOne_loop saves]
  exact saveOneLoop_right fuel records rest holds enough

theorem second_vcpu_found :
    ∃ h rest, Holds h twoVcpus rest ∧ (hvmSaveOne (writer twoVcpus) 3 2 1 false).Right h.cur twoVcpus 1 false := by
  obtain ⟨h,kept,rest,saved,holds,all⟩ := writing_holds twoVcpus (List.replicate 20 0) (by decide)
  rw [all (by decide)] at holds
  refine ⟨h,rest,holds,?_⟩
  have saves : Saves (writer twoVcpus) 2 h := ⟨rfl,by decide,by decide,writing twoVcpus,List.replicate 20 0,rfl,rfl,saved⟩
  refine (finds_exactly_the_record _ _ _ _ _ h twoVcpus rest saves holds (by decide)).mpr ?_
  refine ⟨by decide,?_⟩
  intro first last split empty _
  have last_is : twoVcpus.getLast? = some last := by rw [split,List.getLast?_concat]
  cases last_is
  cases empty

-- Nothing written: an instance is read of bytes that nobody wrote, and what is
-- copied ends 4 GiB later. And an empty record, alone, is not found.
theorem unwritten_read_and_empty_missed :
    (∃ h, Saves (writer []) 2 h ∧ Holds h [] (List.replicate 20 0) ∧
      ¬(hvmSaveOne (writer []) 2 2 0 false).Right h.cur [] 0 false ∧ (hvmSaveOne (writer []) 2 2 0 false).result = .error .outside) ∧
    (∃ h rest, Saves (writer [emptyRecord]) 2 h ∧ Holds h [emptyRecord] rest ∧ answer [emptyRecord] 0 false = (0,some []) ∧
      (hvmSaveOne (writer [emptyRecord]) 2 2 0 false).result = .ok (-eBADSLT,none)) := by
  constructor
  · have saves : Saves (writer []) 2 ⟨0,20,List.replicate 20 0⟩ :=
      ⟨rfl,by decide,by decide,writing [],List.replicate 20 0,rfl,rfl,rfl⟩
    refine ⟨_,saves,⟨rfl,rfl,by decide⟩,?_,rfl⟩
    rw [hvmSaveOne_loop saves]
    exact loop_wraps [] 1 rfl
  · obtain ⟨h,kept,rest,saved,holds,all⟩ := writing_holds [emptyRecord] (List.replicate 20 0) (by decide)
    rw [all (by decide)] at holds
    have saves : Saves (writer [emptyRecord]) 2 h :=
      ⟨rfl,by decide,by decide,writing [emptyRecord],List.replicate 20 0,rfl,rfl,saved⟩
    refine ⟨h,rest,saves,holds,rfl,?_⟩
    have bound : ¬0 < (h.cur + 2^64 - sizeofDescriptor) % 2^64 := by
      rw [show h.cur = 8 from holds.cur]
      decide
    rw [hvmSaveOne_loop saves,saveOneLoop,if_neg bound]

end XenAet.HvmSaveOne
