import XenAet.ShadowEntry
import XenAet.Library.Run

namespace XenAet.AetMark
open AetControl PageEntry Propagate ShadowEntry Library

-- The slow path of `sh_page_fault` calls `track_aet_fault` for an entry that
-- looks marked and whose frame number is not zero below bit 39.
def frameMask : U64 := 0x7fffffffff

def slowPathTracks (sl1e : U64) : Bool := shL1eIsAetMagic sl1e && (l1eGetPfn sl1e &&& frameMask) != 0

structure Life where
  entry : U64
  wasMarked : Bool
  deriving DecidableEq,Repr

def fresh : Life := ⟨shadowL1eEmpty,false⟩

inductive Event where
  | write (cx : Context) (intpte mfn : U64) (ft : FetchType) (p2mt : P2mType) (refused : Bool)
  | mark
  | visit

def step (s : Life) : Event → Option Life
  | .write cx intpte mfn ft p2mt refused =>
    let done := shadowSetL1e cx.d.refcounts refused s.entry (shPropagate cx intpte mfn 1 ft p2mt).sp
    some ⟨done.entry,if done.changed then false else s.wasMarked⟩
  | .mark => some (if markable s.entry then ⟨marked s.entry,true⟩ else s)
  | .visit => some (if shL1eIsAetMagic s.entry then ⟨reverseEntry s.entry,false⟩ else s)

def Collides (cx : Context) (intpte : U64) (p2mt : P2mType) : Prop :=
  p2mt = .mmioDm ∧ Masks.anyOf (guestL1eGetFlags cx.levels intpte) pagePresent = true ∧
    (guestL1eGetGfn cx.levels intpte).getLsbD 6 = true

instance : Decidable (Collides cx intpte p2mt) := inferInstanceAs (Decidable (_ ∧ _ ∧ _))

theorem mmio_bit_ten (gfn : U64) (gflags : Flags) : (shL1eMmio gfn gflags).getLsbD 10 = gfn.getLsbD 6 := by
  simp [shL1eMmio,magic_bit,pageUser,pageRw,-BitVec.getLsbD_eq_getElem]

-- The twelve high bits of the mark are part of the magic of MMIO entries, so
-- bit 10, which there is bit 6 of the frame number, decides alone.
theorem mmio_is_aet_magic (gfn : U64) (gflags : Flags) :
    shL1eIsAetMagic (shL1eMmio gfn gflags) = gfn.getLsbD 6 := by
  rw [Bool.eq_iff_iff,shL1eIsAetMagic,Masks.allOf_iff]
  constructor
  · intro covered
    rw [← mmio_bit_ten gfn gflags]
    exact covered 10 (by decide)
  · intro six i here
    rw [aetMagic_bit,decide_eq_true_iff] at here
    rcases here with rfl | high
    · rw [mmio_bit_ten]; exact six
    · have part : shL1eMagic.getLsbD i = true := by rw [magic_bit,decide_eq_true_iff]; omega
      simp [shL1eMmio,part]

theorem ordinary_bit_ten : (l1eFromPfn mfn (shadowFlags cx gflags gfn mfn level ft p2mt)).getLsbD 10 = false := by
  rw [from_pfn_low _ _ (by decide)]
  simp [shadowFlags,passThruFlags,cache_clear,pageAccessed,pageDirty,pagePresent,pageUser,pageRw,pageNxBit,
    pagePat,pagePwt,pagePcd,-BitVec.getLsbD_eq_getElem]

theorem aet_magic_bit_ten (looks : shL1eIsAetMagic sl1e = true) : sl1e.getLsbD 10 = true :=
  Masks.allOf_iff.mp looks 10 (by decide)

theorem mmio_propagated (cx : Context) (intpte mfn : U64) (ft : FetchType)
    (present : Masks.anyOf (guestL1eGetFlags cx.levels intpte) pagePresent = true) :
    (shPropagate cx intpte mfn 1 ft .mmioDm).sp =
      shL1eMmio (guestL1eGetGfn cx.levels intpte) (guestL1eGetFlags cx.levels intpte) := by
  simp [shPropagate,present,p2mIsValid,p2mIsMmio,plain]

theorem propagated_aet_magic_iff (cx : Context) (intpte mfn : U64) (ft : FetchType) (p2mt : P2mType) :
    shL1eIsAetMagic (shPropagate cx intpte mfn 1 ft p2mt).sp = true ↔ Collides cx intpte p2mt := by
  constructor
  · intro looks
    rcases propagate_cases cx intpte mfn 1 ft p2mt with empty | ⟨_,mmio,present,magic⟩ | entry
    · rw [empty,empty_not_aet_magic] at looks; cases looks
    · rw [magic,mmio_is_aet_magic] at looks
      exact ⟨mmio,by rw [pagePresent,Masks.anyOf_bit]; exact present,looks⟩
    · have ten := aet_magic_bit_ten looks
      rw [entry,ordinary_bit_ten] at ten
      cases ten
  · rintro ⟨rfl,present,six⟩
    rw [mmio_propagated cx intpte mfn ft present,mmio_is_aet_magic]
    exact six

def Apart (_ : Life) : Event → Prop
  | .write cx intpte _ _ p2mt _ => ¬ Collides cx intpte p2mt
  | _ => True

instance (s : Life) : ∀ event, Decidable (Apart s event)
  | .write cx intpte _ _ p2mt _ => inferInstanceAs (Decidable (¬ Collides cx intpte p2mt))
  | .mark => .isTrue trivial
  | .visit => .isTrue trivial

theorem set_entry (refcounts refused : Bool) (old new : U64) :
    ((shadowSetL1e refcounts refused old new).changed = false ∧
      (shadowSetL1e refcounts refused old new).entry = old) ∨
    ((shadowSetL1e refcounts refused old new).changed = true ∧
      ((shadowSetL1e refcounts refused old new).entry = new ∨
        (shadowSetL1e refcounts refused old new).entry = shadowL1eEmpty)) := by
  by_cases same : old = new
  · left; simp [shadowSetL1e,same]
  · right
    cases decision : (refcounts && isMapping new && refused) with
    | true => exact ⟨by simp [shadowSetL1e,same],.inr (by simp [shadowSetL1e,same,decision])⟩
    | false => exact ⟨by simp [shadowSetL1e,same],.inl (by simp [shadowSetL1e,same,decision])⟩

theorem step_marked (s : Life) (event : Event) (next : Life)
    (held : shL1eIsAetMagic s.entry = true → s.wasMarked = true) (apart : Apart s event)
    (ran : step s event = some next) : shL1eIsAetMagic next.entry = true → next.wasMarked = true := by
  intro looks
  cases event with
  | write cx intpte mfn ft p2mt refused =>
    cases ran
    rcases set_entry cx.d.refcounts refused s.entry (shPropagate cx intpte mfn 1 ft p2mt).sp with
      ⟨kept,same⟩ | ⟨_,wrote | empty⟩
    · rw [same] at looks
      simpa [kept] using held looks
    · rw [wrote] at looks
      exact absurd ((propagated_aet_magic_iff cx intpte mfn ft p2mt).mp looks) apart
    · rw [empty,empty_not_aet_magic] at looks; cases looks
  | mark =>
    cases ran
    split
    · rfl
    · rename_i plain
      rw [if_neg plain] at looks
      exact held looks
  | visit =>
    cases ran
    split
    · rename_i magic
      rw [if_pos magic,reverseEntry,if_pos magic] at looks
      exact absurd looks (by decide)
    · rename_i plain
      rw [if_neg plain] at looks
      exact absurd looks plain

-- An entry looks marked as it is written exactly when it collides, and in a
-- run without such a write the slow path tracks marked entries only.
theorem tracked_entries_marked (events : List Event) (s : Life) :
    (∀ cx intpte mfn ft p2mt, shL1eIsAetMagic (shPropagate cx intpte mfn 1 ft p2mt).sp = true ↔
      Collides cx intpte p2mt) ∧
    (Run.Guarded Apart step fresh events → Run.run step fresh events = some s →
      slowPathTracks s.entry = true → s.wasMarked = true) := by
  refine ⟨propagated_aet_magic_iff,fun apart ran tracks => ?_⟩
  have kept := Run.guarded_invariant (P:=fun s : Life => shL1eIsAetMagic s.entry = true → s.wasMarked = true)
    step_marked (fun looks => by rw [fresh,empty_not_aet_magic] at looks; cases looks) apart ran
  rw [slowPathTracks,Bool.and_eq_true] at tracks
  exact kept tracks.1

def ramWrite : Event := .write (hvmContext .four false true) 0x5067 0x80 .demandWrite .ramRw false

theorem tracked_entries_marked_ram :
    ∃ s, Run.run step fresh [ramWrite,.mark] = some s ∧ slowPathTracks s.entry = true ∧ s.wasMarked = true := by
  have ran : Run.run step fresh [ramWrite,.mark] = some ⟨0x7ff8000000080423,true⟩ := by decide
  have apart : Run.Guarded Apart step fresh [ramWrite,.mark] := by decide
  have tracks : slowPathTracks 0x7ff8000000080423 = true := by decide
  exact ⟨_,ran,tracks,(tracked_entries_marked _ _).2 apart ran tracks⟩

def deviceWrite : Event := .write (hvmContext .four false true) 0xfed40067 0xfed40 .demandRead .mmioDm false

theorem device_entry_tracked :
    ∃ s, Run.run step fresh [deviceWrite] = some s ∧ slowPathTracks s.entry = true ∧ s.wasMarked = false :=
  ⟨⟨0xffffffff00fed407,false⟩,by decide,by decide,rfl⟩

end XenAet.AetMark
