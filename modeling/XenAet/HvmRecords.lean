import XenAet.HvmFraming

namespace XenAet.HvmRecords
open Library.ByteRegion HvmSave HvmFraming
variable {D : Type} {h : Context} {first rest : List UInt8}

structure Record where
  typecode : Nat
  instance_ : Nat
  payload : List UInt8
  codeSmall : typecode < 2^16
  instanceSmall : instance_ < 2^16
  lengthSmall : payload.length < 2^32

def endMarker : Record := ⟨endCode,0,[],by decide,by decide,by decide⟩

def Record.header (r : Record) : List UInt8 := encode 2 r.typecode ++ (encode 2 r.instance_ ++ encode 4 r.payload.length)

def Record.frame (r : Record) : List UInt8 := r.header ++ r.payload

theorem Record.length_header (r : Record) : r.header.length = sizeofDescriptor := by simp [Record.header,sizeofDescriptor]

theorem Record.length_frame (r : Record) : r.frame.length = sizeofDescriptor + r.payload.length := by
  rw [Record.frame,List.length_append,r.length_header]

theorem describe_frame (first rest : List UInt8) (r : Record) :
    describe (first ++ (r.frame ++ rest)) first.length = ⟨r.typecode,r.instance_,r.payload.length⟩ := by
  have header : slice (first ++ (r.frame ++ rest)) first.length sizeofDescriptor = r.header := by
    rw [Record.frame,List.append_assoc,← r.length_header]
    exact slice_append _ _ _
  have code : slice r.header 0 2 = encode 2 r.typecode := slice_append [] (encode 2 r.typecode) _
  have inst : slice r.header 2 2 = encode 2 r.instance_ := by
    have := slice_append (encode 2 r.typecode) (encode 2 r.instance_) (encode 4 r.payload.length)
    rwa [length_encode,length_encode] at this
  have length : slice r.header 4 4 = encode 4 r.payload.length := by
    have := slice_append (encode 2 r.typecode ++ encode 2 r.instance_) (encode 4 r.payload.length) []
    rwa [List.length_append,length_encode,length_encode,length_encode,List.append_nil,List.append_assoc] at this
  simp only [describe,header,code,inst,length]
  rw [decode_encode 2 _ r.codeSmall,decode_encode 2 _ r.instanceSmall,decode_encode 4 _ r.lengthSmall]

-- `first` is what the stream holds before the cursor.
structure Stands (h : Context) (first rest : List UInt8) : Prop where
  data : h.data = first ++ rest
  cur : h.cur = first.length

-- Bytes written at the cursor, which is behind them afterwards.
def written (h : Context) (first bytes rest : List UInt8) : Context :=
  ⟨h.cur + bytes.length,h.size,first ++ (bytes ++ rest.drop bytes.length)⟩

theorem written_stands (bytes : List UInt8) (stands : Stands h first rest) :
    Stands (written h first bytes rest) (first ++ bytes) (rest.drop bytes.length) :=
  ⟨(List.append_assoc _ _ _).symm,by rw [List.length_append,← stands.cur]; rfl⟩

theorem written_within (bytes : List UInt8) (within : Within h) (stands : Stands h first rest)
    (room : h.cur + bytes.length ≤ h.size) : Within (written h first bytes rest) := by
  refine ⟨room,?_,within.small⟩
  have := length_patch h.data bytes h.cur (by rw [← within.size]; exact room)
  rw [stands.data,stands.cur,patch_append,← stands.data] at this
  exact within.size.trans this.symm

theorem hvmWriteEntry_eq (bytes : List UInt8) (within : Within h) (stands : Stands h first rest)
    (room : h.cur + bytes.length ≤ h.size) : hvmWriteEntry h bytes = .ok (written h first bytes rest) := by
  have moved : Within {h with data := first ++ (bytes ++ rest.drop bytes.length)} :=
    ⟨within.cur,(written_within bytes within stands room).size,within.small⟩
  rw [hvmWriteEntry,Context.store,if_pos (by rw [← within.size]; exact room),stands.data,stands.cur,patch_append]
  rw [stands.cur] at moved
  have advanced := advance_ok moved (n:=bytes.length) (by dsimp only; rw [← stands.cur]; exact room)
  rw [written,stands.cur]
  exact advanced

theorem hvmInitEntry_eq (r : Record) (within : Within h) (stands : Stands h first rest)
    (room : h.cur + r.frame.length ≤ h.size) :
    hvmInitEntry h r.typecode r.instance_ r.payload.length = .ok (written h first r.header rest,0) := by
  have frame := r.length_frame
  have length := r.length_header
  have left := within.left_eq
  have write := hvmWriteEntry_eq r.header within stands (by omega)
  rw [hvmInitEntry,if_neg (by omega)]
  rw [hvmWriteEntry,length] at write
  change (do let h ← h.store r.header; let h ← h.advance sizeofDescriptor; return (h,(0 : Int))) = _
  rw [← bind_assoc,write]
  rfl

theorem hvmSaveEntry_eq (r : Record) (within : Within h) (stands : Stands h first rest) :
    hvmSaveEntry h r.typecode r.instance_ r.payload =
      .ok (if h.cur + r.frame.length ≤ h.size then (written h first r.frame rest,0) else (h,-1)) := by
  have frame := r.length_frame
  have length := r.length_header
  have left := within.left_eq
  have cur := within.cur
  rw [hvmSaveEntry]
  by_cases room : h.cur + r.frame.length ≤ h.size
  · have stands' := written_stands r.header stands
    have within' := written_within r.header within stands (by omega)
    have write := hvmWriteEntry_eq r.payload within' stands' (by simp only [written]; omega)
    have both : written (written h first r.header rest) (first ++ r.header) r.payload (rest.drop r.header.length) =
        written h first r.frame rest := by
      simp only [written,Record.frame,List.length_append,List.drop_drop,List.append_assoc,Nat.add_assoc]
    rw [both] at write
    rw [if_pos room,hvmInitEntry_eq r within stands room]
    simp only [bind,Except.bind,pure,Except.pure,if_true,write]
  · rw [if_neg room,hvmInitEntry,if_pos (by omega)]
    rfl

def frames (records : List Record) : List UInt8 := records.flatMap Record.frame

theorem frames_nil : frames [] = [] := rfl

theorem frames_cons (r : Record) (records : List Record) : frames (r :: records) = r.frame ++ frames records := List.flatMap_cons

-- The records that found room; a refused one leaves the stream as it was.
def saveRecords : List Record → Context → Except Fault (Context × List Record)
  | [],h => return (h,[])
  | r :: rest,h => do
    let (h,rc) ← hvmSaveEntry h r.typecode r.instance_ r.payload
    let (h,kept) ← saveRecords rest h
    return (h,if rc = 0 then r :: kept else kept)

theorem saveRecords_eq (records : List Record) (within : Within h) (stands : Stands h first rest) :
    ∃ h' kept rest', saveRecords records h = .ok (h',kept) ∧ Within h' ∧ h'.size = h.size ∧ Stands h' (first ++ frames kept) rest' ∧
      (h.cur + (frames records).length ≤ h.size → kept = records) := by
  induction records generalizing h first rest with
  | nil => exact ⟨h,[],rest,rfl,within,rfl,by simpa [frames] using stands,fun _ => rfl⟩
  | cons r records ih =>
    rw [saveRecords,hvmSaveEntry_eq r within stands]
    have total : (frames (r :: records)).length = r.frame.length + (frames records).length := by simp [frames]
    by_cases room : h.cur + r.frame.length ≤ h.size
    · obtain ⟨h',kept,rest',saved,within',size,stands',all⟩ := ih (written_within r.frame within stands room) (written_stands r.frame stands)
      refine ⟨h',r :: kept,rest',?_,within',size,?_,fun fits => ?_⟩
      · simp only [if_pos room,bind,Except.bind,pure,Except.pure,saved,if_true]
      · simpa [frames] using stands'
      · rw [all (by simp only [written]; omega)]
    · obtain ⟨h',kept,rest',saved,within',size,stands',_⟩ := ih within stands
      refine ⟨h',kept,rest',?_,within',size,stands',fun fits => by omega⟩
      simp only [if_neg room,bind,Except.bind,pure,Except.pure,saved]
      rfl

-- How an entry is asked for: with the length it was written with, or with a
-- length that may be greater.
structure Want where
  len : Nat
  strict : Bool

def Want.Fits (w : Want) (r : Record) : Prop := if w.strict then w.len = r.payload.length else r.payload.length ≤ w.len

def Record.extended (r : Record) (w : Want) : List UInt8 := r.payload ++ List.replicate (w.len - r.payload.length) 0

theorem hvmLoadEntry_frame (r : Record) (w : Want) (within : Within h) (stands : Stands h first (r.frame ++ rest)) (fits : w.Fits r) :
    hvmLoadEntry h r.typecode w.len w.strict = .ok ({h with cur := h.cur + r.frame.length},some (r.extended w)) ∧
      Within {h with cur := h.cur + r.frame.length} ∧ Stands {h with cur := h.cur + r.frame.length} (first ++ r.frame) rest := by
  have frame := r.length_frame
  have described : describe h.data h.cur = ⟨r.typecode,r.instance_,r.payload.length⟩ := by
    rw [stands.data,stands.cur,describe_frame]
  have room : h.cur + r.frame.length ≤ h.size := by
    rw [within.size,stands.data,stands.cur]
    simp only [List.length_append]
    omega
  have accepted : Accepted h r.typecode w.len w.strict :=
    ⟨by omega,by rw [described],by rw [described]; exact fits,by rw [described]; dsimp only; omega⟩
  have payload : slice h.data (h.cur + sizeofDescriptor) r.payload.length = r.payload := by
    have := slice_append (first ++ r.header) r.payload rest
    rw [List.length_append,r.length_header] at this
    rw [stands.data,stands.cur,Record.frame]
    simpa only [List.append_assoc] using this
  refine ⟨?_,within.at_ room,stands.data.trans (List.append_assoc _ _ _).symm,by rw [List.length_append,← stands.cur]⟩
  rw [hvmLoadEntry_eq within,if_pos accepted,described]
  simp only [payload,frame,Nat.add_assoc]
  rfl

theorem descriptor_frame (r : Record) (stands : Stands h first (r.frame ++ rest)) :
    h.descriptor h.cur = .ok ⟨r.typecode,r.instance_,r.payload.length⟩ := by
  have frame := r.length_frame
  rw [descriptor_ok,stands.data,stands.cur,describe_frame]
  rw [stands.data,stands.cur]
  simp only [List.length_append]
  omega

-- Reading the entries with these type codes; `none` if one is refused.
def readBack : List (Nat × Want) → Context → Except Fault (Context × Option (List (Nat × List UInt8)))
  | [],h => return (h,some [])
  | (code,w) :: more,h => do
    let inst ← hvmLoadInstance h
    match ← hvmLoadEntry h code w.len w.strict with
    | (h,none) => return (h,none)
    | (h,some bytes) =>
      let (h,got) ← readBack more h
      return (h,got.map ((inst,bytes) :: ·))

theorem readBack_frames {wants : List Want} {kept : List Record} (fits : List.Forall₂ Want.Fits wants kept) (within : Within h)
    (stands : Stands h first (frames kept ++ rest)) :
    readBack (List.zipWith (fun w r => (r.typecode,w)) wants kept) h =
      .ok ({h with cur := h.cur + (frames kept).length},some (List.zipWith (fun w r => (r.instance_,r.extended w)) wants kept)) := by
  induction fits generalizing h first with
  | nil => rfl
  | @cons w r wants kept fit fits ih =>
    rw [frames_cons,List.append_assoc] at stands
    obtain ⟨loaded,within',stands'⟩ := hvmLoadEntry_frame r w within stands fit
    rw [List.zipWith_cons_cons,List.zipWith_cons_cons,readBack,hvmLoadInstance,descriptor_frame r stands,loaded,frames_cons,List.length_append,
      ← Nat.add_assoc]
    simp only [bind,Except.bind,pure,Except.pure]
    rw [ih within' stands']
    rfl

-- Behind the records the loop finds the end marker, or no room for it.
theorem loadLoop_marked (k : Host D) (fuel : Nat) (d : D) (stands : Stands h first (endMarker.frame ++ rest)) (within : Within h) :
    loadLoop k (fuel + 1) d h = .ok (h,0,d) := by
  have left := within.left_eq
  have room : h.cur + sizeofDescriptor ≤ h.size := by
    have frame := endMarker.length_frame
    rw [within.size,stands.data,stands.cur]
    simp only [List.length_append]
    omega
  rw [loadLoop,if_neg (by omega),descriptor_frame endMarker stands]
  simp only [bind,Except.bind,pure,Except.pure]
  exact if_pos rfl

theorem loadLoop_short (k : Host D) (fuel : Nat) (d : D) (within : Within h) (short : h.size < h.cur + sizeofDescriptor) :
    loadLoop k (fuel + 1) d h = .ok (h,-1,d) := by
  have left := within.left_eq
  have cur := within.cur
  rw [loadLoop]
  simp only [bind,Except.bind,pure,Except.pure]
  exact if_pos (by omega)

-- A domain that notes what its handlers read, in the order in which it wants
-- to read it.
abbrev Notes := List Want × List (Nat × Nat × List UInt8)

def collect (code : Nat) : Handler Notes where
  reader d inst :=
    match d.1 with
    | [] => .done (-1) d
    | w :: more => .load code w.len w.strict (fun bytes => .done 0 (more,d.2 ++ [(code,inst,bytes)])) (.done (-1) d)
  reads d inst := by
    cases d.1 with
    | nil => exact (by decide : (-1 : Int) ≠ 0)
    | cons w more => exact (by decide : (-1 : Int) ≠ 0)

-- The header has no handler of its own.
def collector : Host Notes where
  isDying _ := false
  archHvmLoad d _ := some d
  down d := d
  handlers code := if code = headerCode then none else some (collect code)

def Loadable (r : Record) : Prop := r.typecode ≠ endCode ∧ r.typecode ≠ headerCode ∧ r.typecode ≤ hvmSaveCodeMax

def note (w : Want) (r : Record) : Nat × Nat × List UInt8 := (r.typecode,r.instance_,r.extended w)

theorem collect_frame (r : Record) (w : Want) (more : List Want) (got : List (Nat × Nat × List UInt8)) (within : Within h)
    (stands : Stands h first (r.frame ++ rest)) (fits : w.Fits r) :
    ((collect r.typecode).reader (w :: more,got) r.instance_).run h =
      .ok ({h with cur := h.cur + r.frame.length},0,(more,got ++ [note w r])) := by
  change (Reader.load r.typecode w.len w.strict (fun bytes => .done 0 (more,got ++ [(r.typecode,r.instance_,bytes)]))
    (.done (-1) (w :: more,got))).run h = _
  rw [Reader.run,(hvmLoadEntry_frame r w within stands fits).1]
  simp only [bind,Except.bind,Reader.run,pure,Except.pure,note]

theorem loadLoop_entry (k : Host D) (fuel : Nat) (d d' : D) (entry : Descriptor) (handler : Handler D) (rc : Int) (h' : Context)
    (room : sizeofDescriptor ≤ h.left) (found : h.descriptor h.cur = .ok entry) (notEnd : entry.typecode ≠ endCode)
    (small : entry.typecode ≤ hvmSaveCodeMax) (known : k.handlers entry.typecode = some handler)
    (ran : (handler.reader d entry.instance_).run h = .ok (h',rc,d')) :
    loadLoop k (fuel + 1) d h = if rc ≠ 0 then .ok (h',-1,d') else loadLoop k fuel d' h' := by
  rw [loadLoop,if_neg (Nat.not_lt.mpr room),hvmLoadInstance,found]
  simp only [bind,Except.bind,pure,Except.pure]
  rw [if_neg notEnd,if_neg (Nat.not_lt.mpr small),known]
  simp only [ran]

theorem loadLoop_turn (r : Record) (w : Want) (more : List Want) (got : List (Nat × Nat × List UInt8)) (fuel : Nat) (within : Within h)
    (stands : Stands h first (r.frame ++ rest)) (fits : w.Fits r) (loadable : Loadable r) :
    loadLoop collector (fuel + 1) (w :: more,got) h =
      loadLoop collector fuel (more,got ++ [note w r]) {h with cur := h.cur + r.frame.length} := by
  obtain ⟨_,moved,_⟩ := hvmLoadEntry_frame r w within stands fits
  obtain ⟨notEnd,notHeader,small⟩ := loadable
  have left := within.left_eq
  have frame := r.length_frame
  have room : h.cur + r.frame.length ≤ h.size := moved.cur
  have handler : collector.handlers r.typecode = some (collect r.typecode) := if_neg notHeader
  have ran := collect_frame r w more got within stands fits
  rw [loadLoop_entry collector fuel _ _ _ _ 0 _ (by omega) (descriptor_frame r stands) notEnd small handler ran,if_neg (fun no => no rfl)]

theorem loadLoop_frames {wants : List Want} {kept : List Record} (fits : List.Forall₂ Want.Fits wants kept)
    (loadable : ∀ r ∈ kept, Loadable r) (got : List (Nat × Nat × List UInt8)) (within : Within h)
    (stands : Stands h first (frames kept ++ (endMarker.frame ++ rest))) :
    loadLoop collector (kept.length + 1) (wants,got) h =
      .ok ({h with cur := h.cur + (frames kept).length},0,([],got ++ List.zipWith note wants kept)) := by
  induction fits generalizing h first got with
  | nil =>
    rw [frames_nil,List.nil_append] at stands
    rw [frames_nil,List.length_nil,List.length_nil,loadLoop_marked collector 0 ([],got) stands within,List.zipWith_nil_left,List.append_nil,
      Nat.add_zero]
  | @cons w r wants kept fit fits ih =>
    rw [frames_cons,List.append_assoc] at stands
    obtain ⟨_,within',stands'⟩ := hvmLoadEntry_frame r w within stands fit
    rw [List.length_cons,loadLoop_turn r w wants got (kept.length + 1) within stands fit (loadable r List.mem_cons_self),
      ih (fun r is => loadable r (List.mem_cons_of_mem _ is)) _ within' stands',frames_cons,List.length_append,← Nat.add_assoc,
      List.zipWith_cons_cons,List.append_assoc,List.singleton_append]

theorem hvmLoad_entry (k : Host D) (fuel : Nat) (d d' : D) (h' : Context) (hdr : List UInt8) (alive : k.isDying d = false)
    (loaded : hvmLoadEntry h headerCode headerLength true = .ok (h',some hdr)) (accepted : k.archHvmLoad d hdr = some d') :
    hvmLoad k fuel d h = loadLoop k fuel (k.down d') h' := by
  rw [hvmLoad,alive,if_neg Bool.false_ne_true,loaded]
  simp only [bind,Except.bind,accepted]

theorem hvmLoad_frames {wants : List Want} {kept : List Record} (header : Record) (code : header.typecode = headerCode)
    (length : header.payload.length = headerLength) (fits : List.Forall₂ Want.Fits wants kept) (loadable : ∀ r ∈ kept, Loadable r)
    (within : Within h) (stands : Stands h first (frames (header :: kept) ++ (endMarker.frame ++ rest))) :
    hvmLoad collector (kept.length + 1) (wants,[]) h =
      .ok ({h with cur := h.cur + (frames (header :: kept)).length},0,([],List.zipWith note wants kept)) := by
  rw [frames_cons,List.append_assoc] at stands
  have strict : Want.Fits ⟨headerLength,true⟩ header := length.symm
  obtain ⟨loaded,within',stands'⟩ := hvmLoadEntry_frame header ⟨headerLength,true⟩ within stands strict
  rw [code] at loaded
  rw [hvmLoad_entry collector (kept.length + 1) (wants,[]) (wants,[]) _ _ rfl loaded rfl,frames_cons,List.length_append,← Nat.add_assoc]
  exact loadLoop_frames fits loadable [] within' stands'

-- The stream that a sequence of records and the end marker are written into.
structure Saved (records : List Record) (b : Buffer) (h h' : Context) (kept : List Record) (rc : Int) : Prop where
  records : saveRecords records b.start = .ok (h,kept)
  marker : hvmSaveEntry h endCode 0 [] = .ok (h',rc)

def Context.rewind (h : Context) : Context := {h with cur := 0}

theorem saved_stands (records : List Record) (b : Buffer) : ∃ h h' kept rc rest, Saved records b h h' kept rc ∧ Within h' ∧
    h.cur = (frames kept).length ∧ h'.data = frames kept ++ rest ∧ h.cur ≤ h'.cur ∧
    ((frames records).length ≤ b.bytes.length → kept = records) ∧
    (rc = 0 ∧ (∃ more, rest = endMarker.frame ++ more) ∨ rc = -1 ∧ h'.size < h.cur + sizeofDescriptor) := by
  have stands : Stands b.start [] b.bytes := ⟨rfl,rfl⟩
  obtain ⟨h,kept,rest,saved,within,_,stands,all⟩ := saveRecords_eq records b.within stands
  rw [List.nil_append] at stands
  have marker := hvmSaveEntry_eq endMarker within stands
  have start : b.start.cur = 0 := rfl
  have fits : (frames records).length ≤ b.bytes.length → kept = records := fun fits => all (by rw [start,Nat.zero_add]; exact fits)
  by_cases room : h.cur + endMarker.frame.length ≤ h.size
  · rw [if_pos room] at marker
    exact ⟨h,_,kept,0,_,⟨saved,marker⟩,written_within endMarker.frame within stands room,stands.cur,rfl,Nat.le_add_right _ _,fits,
      .inl ⟨rfl,_,rfl⟩⟩
  · rw [if_neg room] at marker
    exact ⟨h,h,kept,-1,rest,⟨saved,marker⟩,within,stands.cur,stands.data,Nat.le_refl _,fits,.inr ⟨rfl,by
      rw [endMarker.length_frame] at room
      exact Nat.lt_of_not_le room⟩⟩

theorem context_framing : (∀ (D : Type) (k : Host D) (d : D) (b : Buffer),
      ∃ h rc d', hvmLoad k (b.bytes.length + 1) d b.start = .ok (h,rc,d') ∧ h.cur ≤ h.size) ∧
    ∀ (records : List Record) (b : Buffer), ∃ h h' kept rc, Saved records b h h' kept rc ∧
      ((frames records).length ≤ b.bytes.length → kept = records) ∧
      (∀ wants, List.Forall₂ Want.Fits wants kept →
        readBack (List.zipWith (fun w r => (r.typecode,w)) wants kept) (Context.rewind h') =
          .ok ({h' with cur := h.cur},some (List.zipWith (fun w r => (r.instance_,r.extended w)) wants kept))) ∧
      (∀ (D : Type) (k : Host D) (d : D) (fuel : Nat),
        loadLoop k (fuel + 1) d {h' with cur := h.cur} = .ok ({h' with cur := h.cur},rc,d)) ∧
      ∀ header rest wants, kept = header :: rest → header.typecode = headerCode → header.payload.length = headerLength →
        (∀ r ∈ rest, Loadable r) → rc = 0 → List.Forall₂ Want.Fits wants rest →
          hvmLoad collector (rest.length + 1) (wants,[]) (Context.rewind h') =
            .ok ({h' with cur := h.cur},0,([],List.zipWith note wants rest)) := by
  refine ⟨fun D k d b => ?_,fun records b => ?_⟩
  · obtain ⟨h,rc,d',loaded,within⟩ := hvmLoad_ends k d b
    exact ⟨h,rc,d',loaded,within.cur⟩
  · obtain ⟨h,h',kept,rc,rest,saved,within,cur,data,upto,all,ends⟩ := saved_stands records b
    have start : Within (Context.rewind h') := within.at_ (Nat.zero_le _)
    have moved : Within {h' with cur := h.cur} := within.at_ (Nat.le_trans upto within.cur)
    have stands : Stands (Context.rewind h') [] (frames kept ++ rest) := ⟨data,rfl⟩
    have behind : Stands {h' with cur := h.cur} (frames kept) rest := ⟨data,cur⟩
    have zero : (Context.rewind h').cur + (frames kept).length = h.cur := (Nat.zero_add _).trans cur.symm
    refine ⟨h,h',kept,rc,saved,all,fun wants fits => ?_,fun D k d fuel => ?_,fun header tail wants is code length loadable marked fits => ?_⟩
    · rw [readBack_frames fits start stands,zero]
      rfl
    · rcases ends with ⟨rfl,more,rfl⟩ | ⟨rfl,short⟩
      · exact loadLoop_marked k fuel d behind moved
      · exact loadLoop_short k fuel d moved short
    · rcases ends with ⟨_,more,rfl⟩ | ⟨not,_⟩
      · subst is
        have loaded := hvmLoad_frames header code length fits loadable start stands
        rw [zero] at loaded
        exact loaded
      · rw [marked] at not
        exact absurd not (by decide)

end XenAet.HvmRecords
