import XenAet.Propagate

namespace XenAet.ShadowEntry
open AetControl PageEntry Propagate Library

-- The mark of `multi.c` and `aet.c`: bits 51..62 and the software bit 10.
def shL1eAetMagic : U64 := 0x7ff8000000000400

def shL1eIsAetMagic (sl1e : U64) : Bool := Masks.allOf sl1e shL1eAetMagic

def isPresent (sl1e : U64) : Bool := Masks.anyOf (getPteFlags sl1e) pagePresent

def isMapping (sl1e : U64) : Bool := isPresent sl1e && !shL1eIsMagic sl1e

def userBit : U64 := 0x4

-- `set_pending_page` marks user, writable, present entries that share no bit
-- with the mark, and takes the user bit away.
def markable (sl1e : U64) : Bool :=
  Masks.anyOf (getPteFlags sl1e) pageUser && Masks.anyOf (getPteFlags sl1e) pageRw && isPresent sl1e &&
    !Masks.anyOf sl1e shL1eAetMagic

def marked (sl1e : U64) : U64 := (sl1e ||| shL1eAetMagic) &&& ~~~userBit

def markEntry (sl1e : U64) : U64 := if markable sl1e then marked sl1e else sl1e

def reverseEntry (sl1e : U64) : U64 := if shL1eIsAetMagic sl1e then 0 else sl1e

-- What one `shadow_set_l1e` did: the entry it left, the entry whose page it
-- got and the entry whose page it put. `refused` is a negative answer of
-- `shadow_get_page_from_l1e`. The answer 1 is meant to make the entry
-- read-only, but the result of `shadow_l1e_remove_flags` is thrown away, so
-- it does what 0 does.
structure SetL1e where
  entry : U64
  got : Option U64
  put : Option U64
  changed : Bool
  error : Bool
  deriving DecidableEq,Repr

def shadowSetL1e (refcounts refused : Bool) (old new : U64) : SetL1e :=
  if old = new then ⟨old,none,none,false,false⟩
  else
    let counted := refcounts && isMapping new
    { entry := if counted && refused then shadowL1eEmpty else new
      got := if counted && !refused then some new else none
      put := if refcounts && isMapping old then some old else none
      changed := true
      error := counted && refused }

theorem aetMagic_bit (i : Nat) : shL1eAetMagic.getLsbD i = decide (i = 10 ∨ (51 ≤ i ∧ i < 63)) :=
  Masks.getLsbD_constant (p:=fun i => i = 10 ∨ (51 ≤ i ∧ i < 63)) (by decide) (fun _ _ => by omega) i

theorem magic_bit (i : Nat) : shL1eMagic.getLsbD i = decide (i = 0 ∨ (32 ≤ i ∧ i < 64)) :=
  Masks.getLsbD_constant (p:=fun i => i = 0 ∨ (32 ≤ i ∧ i < 64)) (by decide) (fun _ _ => by omega) i

theorem userBit_bit (i : Nat) : userBit.getLsbD i = decide (i = 2) :=
  Masks.getLsbD_constant (p:=fun i => i = 2) (by decide) (fun _ _ => by omega) i

theorem marked_bit (sl1e : U64) (i : Nat) : (marked sl1e).getLsbD i =
    ((sl1e.getLsbD i || shL1eAetMagic.getLsbD i) && !decide (i = 2)) := by
  by_cases small : i < 64
  · simp [marked,userBit_bit,small,-BitVec.getLsbD_eq_getElem]
  · simp [BitVec.getLsbD_of_ge _ i (show 64 ≤ i by omega)]

theorem marked_is_aet_magic (sl1e : U64) : shL1eIsAetMagic (marked sl1e) = true := by
  rw [shL1eIsAetMagic,Masks.allOf_iff]
  intro i here
  have place : i ≠ 2 := by
    rintro rfl
    rw [aetMagic_bit] at here
    cases here
  simp [marked_bit,here,place]

theorem empty_not_aet_magic : shL1eIsAetMagic shadowL1eEmpty = false := by decide

end XenAet.ShadowEntry
