import XenAet.HvmSave

namespace XenAet.HvmFraming
open Library.ByteRegion HvmSave
variable {D : Type} {h h' : Context} {type len n : Nat} {strict : Bool}

-- The buffer has as many bytes as `size` says, and the cursor is in it.
structure Within (h : Context) : Prop where
  cur : h.cur ≤ h.size
  size : h.size = h.data.length
  small : h.size < 2^32

theorem Within.left_eq (within : Within h) : h.left = h.size - h.cur := by
  obtain ⟨cur,_,small⟩ := within
  rw [Context.left]
  omega

theorem Within.at_ (within : Within h) (upto : n ≤ h.size) : Within {h with cur := n} := ⟨upto,within.size,within.small⟩

theorem advance_ok (within : Within h) (room : h.cur + n ≤ h.size) : h.advance n = .ok {h with cur := h.cur + n} := by
  have small := within.small
  rw [Context.advance,Nat.mod_eq_of_lt (by omega),if_neg (by omega)]

theorem load_ok {start : Nat} (inside : start + n ≤ h.data.length) : h.load start n = .ok (slice h.data start n) := by
  rw [Context.load,if_pos ⟨by omega,by omega⟩]
  rfl

def describe (data : List UInt8) (start : Nat) : Descriptor :=
  let bytes := slice data start sizeofDescriptor
  ⟨decode (slice bytes 0 2),decode (slice bytes 2 2),decode (slice bytes 4 4)⟩

theorem descriptor_ok {start : Nat} (inside : start + sizeofDescriptor ≤ h.data.length) :
    h.descriptor start = .ok (describe h.data start) := by
  rw [Context.descriptor,load_ok inside]
  rfl

-- What the check lets pass.
structure Accepted (h : Context) (type len : Nat) (strict : Bool) : Prop where
  header : h.cur + sizeofDescriptor ≤ h.size
  typecode : type = (describe h.data h.cur).typecode
  length : if strict then len = (describe h.data h.cur).length else (describe h.data h.cur).length ≤ len
  room : h.cur + sizeofDescriptor + (describe h.data h.cur).length ≤ h.size

instance : Decidable (Accepted h type len strict) :=
  decidable_of_iff (h.cur + sizeofDescriptor ≤ h.size ∧ type = (describe h.data h.cur).typecode ∧
      (if strict then len = (describe h.data h.cur).length else (describe h.data h.cur).length ≤ len) ∧
      h.cur + sizeofDescriptor + (describe h.data h.cur).length ≤ h.size)
    ⟨fun ⟨header,typecode,length,room⟩ => ⟨header,typecode,length,room⟩,fun is => ⟨is.header,is.typecode,is.length,is.room⟩⟩

theorem hvmCheckEntry_eq (within : Within h) : hvmCheckEntry h type len strict =
    .ok (if Accepted h type len strict then ({h with cur := h.cur + sizeofDescriptor},0) else (h,-1)) := by
  have left := within.left_eq
  rw [hvmCheckEntry]
  by_cases short : h.left < sizeofDescriptor
  · have not : ¬Accepted h type len strict := fun is => by have := is.header; have := within.cur; omega
    rw [if_pos short,if_neg not]
    rfl
  have header : h.cur + sizeofDescriptor ≤ h.size := by have := within.cur; omega
  rw [if_neg short,descriptor_ok (by rw [← within.size]; exact header)]
  by_cases is : Accepted h type len strict
  · obtain ⟨_,typecode,length,room⟩ := is
    rw [if_pos ⟨header,typecode,length,room⟩]
    simp only [bind,Except.bind,pure,Except.pure]
    rw [if_neg,advance_ok within header]
    rintro (other | other | other)
    · exact other typecode
    · cases strict
      · exact absurd length (by simpa using other)
      · exact absurd length (by simpa using other)
    · omega
  · rw [if_neg is]
    simp only [bind,Except.bind,pure,Except.pure]
    rw [if_pos]
    by_contra accepted
    obtain ⟨typecode,length,room⟩ := not_or.mp accepted |>.imp id not_or.mp
    refine is ⟨header,not_not.mp typecode,?_,by omega⟩
    cases strict
    · simpa using length
    · simpa using length

theorem hvmReadEntry_eq (within : Within h) (is : Accepted h type len strict) :
    hvmReadEntry {h with cur := h.cur + sizeofDescriptor} len =
      .ok ({h with cur := h.cur + sizeofDescriptor + (describe h.data h.cur).length},
        slice h.data (h.cur + sizeofDescriptor) (describe h.data h.cur).length ++
          List.replicate (len - (describe h.data h.cur).length) 0) := by
  obtain ⟨header,_,length,room⟩ := is
  have fits : ¬len < (describe h.data h.cur).length := by
    cases strict
    · exact Nat.not_lt.mpr (by simpa using length)
    · have : len = (describe h.data h.cur).length := by simpa using length
      omega
  have size := within.size
  have back : ((h.cur + sizeofDescriptor : Nat) : Int) - sizeofDescriptor = (h.cur : Int) := by omega
  have within' := within.at_ header
  rw [hvmReadEntry]
  simp only [back]
  rw [descriptor_ok (h:={h with cur := h.cur + sizeofDescriptor}) (by dsimp only; omega)]
  simp only [bind,Except.bind,pure,Except.pure,if_neg fits]
  rw [load_ok (h:={h with cur := h.cur + sizeofDescriptor}) (by dsimp only; omega),advance_ok within' (by dsimp only; omega)]

theorem hvmLoadEntry_eq (within : Within h) : hvmLoadEntry h type len strict =
    .ok (if Accepted h type len strict then
      ({h with cur := h.cur + sizeofDescriptor + (describe h.data h.cur).length},
        some (slice h.data (h.cur + sizeofDescriptor) (describe h.data h.cur).length ++
          List.replicate (len - (describe h.data h.cur).length) 0))
      else (h,none)) := by
  rw [hvmLoadEntry,hvmCheckEntry_eq within]
  by_cases is : Accepted h type len strict
  · simp only [if_pos is,bind,Except.bind,pure,Except.pure]
    rw [hvmReadEntry_eq within is]
    rfl
  · simp only [if_neg is]
    rfl

-- A cursor that went on by at least `n`, in the same buffer.
structure Moved (h h' : Context) (n : Nat) : Prop where
  within : Within h'
  size : h'.size = h.size
  cur : h.cur + n ≤ h'.cur

theorem hvmLoadEntry_moved (within : Within h) (is : Accepted h type len strict) :
    Moved h {h with cur := h.cur + sizeofDescriptor + (describe h.data h.cur).length} sizeofDescriptor :=
  ⟨within.at_ is.room,rfl,Nat.le_add_right _ _⟩

-- The induction is on what the handler does. Of the cursor it needs only that
-- the first entry read moves it.
theorem run_moved (reader : Reader D) (within : Within h) : ∃ h' rc d, reader.run h = .ok (h',rc,d) ∧ Moved h h' 0 ∧
    (reader.Reads → rc = 0 → Moved h h' sizeofDescriptor) := by
  induction reader generalizing h with
  | done rc d => exact ⟨h,rc,d,rfl,⟨within,rfl,Nat.le_refl _⟩,fun reads zero => absurd zero reads⟩
  | load type len strict ok failed ihOk ihFailed =>
    rw [Reader.run,hvmLoadEntry_eq within]
    by_cases is : Accepted h type len strict
    · rw [if_pos is]
      have moved := hvmLoadEntry_moved within is
      obtain ⟨h',rc,d,ran,further,_⟩ := ihOk _ moved.within
      have both : Moved h h' sizeofDescriptor := ⟨further.within,further.size,Nat.le_trans moved.cur further.cur⟩
      exact ⟨h',rc,d,ran,⟨both.within,both.size,by have := both.cur; omega⟩,fun _ _ => both⟩
    · rw [if_neg is]
      exact ihFailed within

theorem loadLoop_ends (k : Host D) (fuel : Nat) (d : D) (within : Within h) (enough : h.size - h.cur < fuel) :
    ∃ h' rc d', loadLoop k fuel d h = .ok (h',rc,d') ∧ Within h' := by
  induction fuel generalizing d h with
  | zero => exact absurd enough (Nat.not_lt_zero _)
  | succ fuel ih =>
    have left := within.left_eq
    rw [loadLoop]
    by_cases short : h.left < sizeofDescriptor
    · rw [if_pos short]
      exact ⟨h,-1,d,rfl,within⟩
    have header : h.cur + sizeofDescriptor ≤ h.data.length := by
      have := within.cur
      have := within.size
      omega
    rw [if_neg short,hvmLoadInstance,descriptor_ok header]
    simp only [bind,Except.bind,pure,Except.pure]
    by_cases ends : (describe h.data h.cur).typecode = endCode
    · exact ⟨h,0,d,if_pos ends,within⟩
    rw [if_neg ends]
    by_cases large : hvmSaveCodeMax < (describe h.data h.cur).typecode
    · exact ⟨h,-1,d,if_pos large,within⟩
    rw [if_neg large]
    cases k.handlers (describe h.data h.cur).typecode with
    | none => exact ⟨h,-1,d,rfl,within⟩
    | some handler =>
      obtain ⟨h',rc,d',ran,moved,read⟩ := run_moved (handler.reader d (describe h.data h.cur).instance_) within
      simp only [ran]
      by_cases failed : rc ≠ 0
      · exact ⟨h',-1,d',if_pos failed,moved.within⟩
      · rw [if_neg failed]
        have further := read (handler.reads _ _) (not_not.mp failed)
        have := further.cur
        have := further.size
        have : 0 < sizeofDescriptor := by decide
        exact ih d' further.within (by omega)

structure Buffer where
  bytes : List UInt8
  small : bytes.length < 2^32

def Buffer.start (b : Buffer) : Context := ⟨0,b.bytes.length,b.bytes⟩

theorem Buffer.within (b : Buffer) : Within b.start := ⟨Nat.zero_le _,rfl,b.small⟩

theorem hvmLoad_ends (k : Host D) (d : D) (b : Buffer) :
    ∃ h rc d', hvmLoad k (b.bytes.length + 1) d b.start = .ok (h,rc,d') ∧ Within h := by
  rw [hvmLoad]
  by_cases dying : k.isDying d = true
  · rw [if_pos dying]
    exact ⟨b.start,-22,d,rfl,b.within⟩
  rw [if_neg dying,hvmLoadEntry_eq b.within]
  simp only [bind,Except.bind,pure,Except.pure]
  by_cases is : Accepted b.start headerCode headerLength true
  · have moved := hvmLoadEntry_moved b.within is
    simp only [if_pos is]
    cases k.archHvmLoad d _ with
    | none => exact ⟨_,-1,d,rfl,moved.within⟩
    | some d =>
      refine loadLoop_ends k _ _ moved.within ?_
      have := moved.size
      have size : b.start.size = b.bytes.length := rfl
      omega
  · simp only [if_neg is]
    exact ⟨b.start,-1,d,rfl,b.within⟩

end XenAet.HvmFraming
