import XenAet.AetControl
import XenAet.Library.Bits

namespace XenAet.PageEntry
open AetControl Library

abbrev Flags := BitVec 32

def pagePresent : Flags := .twoPow 32 0
def pageRw : Flags := .twoPow 32 1
def pageUser : Flags := .twoPow 32 2
def pagePwt : Flags := .twoPow 32 3
def pagePcd : Flags := .twoPow 32 4
def pageAccessed : Flags := .twoPow 32 5
def pageDirty : Flags := .twoPow 32 6
def pagePat : Flags := .twoPow 32 7
def pagePse : Flags := .twoPow 32 7
def pageNxBit : Flags := .twoPow 32 23

def lowFlags : Flags := 0xFFF

-- Bits 52..63 of an entry are bits 12..23 of its flags.
def getPteFlags (x : U64) : Flags := ((x >>> 40).setWidth 32 &&& ~~~lowFlags) ||| (x.setWidth 32 &&& lowFlags)
def putPteFlags (f : Flags) : U64 := ((f &&& ~~~lowFlags).setWidth 64 <<< 40) ||| (f &&& lowFlags).setWidth 64

def addrMask : U64 := 0x000ffffffffff000

def l1eGetPfn (x : U64) : U64 := (x &&& addrMask) >>> 12
def l1eFromPfn (pfn : U64) (flags : Flags) : U64 := (pfn <<< 12) ||| putPteFlags flags

theorem lowFlags_bit (i : Nat) : lowFlags.getLsbD i = decide (i < 12) :=
  Masks.getLsbD_constant (p:=fun i => i < 12) (by decide) (fun _ _ => by omega) i

theorem put_low (f : Flags) (small : i < 12) : (putPteFlags f).getLsbD i = f.getLsbD i := by
  simp [putPteFlags,lowFlags_bit,small,show i < 64 by omega,show i < 40 by omega]

theorem put_high (f : Flags) (high : 12 ≤ i) (small : i < 24) :
    (putPteFlags f).getLsbD (i+40) = f.getLsbD i := by
  simp [putPteFlags,lowFlags_bit,show i+40 < 64 by omega,show i < 64 by omega,show i < 32 by omega,
    show ¬ i < 12 by omega,show ¬ i+40 < 40 by omega,-BitVec.getLsbD_eq_getElem]

theorem get_low (x : U64) (small : i < 12) : (getPteFlags x).getLsbD i = x.getLsbD i := by
  simp [getPteFlags,lowFlags_bit,small,show i < 32 by omega,-BitVec.getLsbD_eq_getElem]

theorem get_high (x : U64) (high : 12 ≤ i) (small : i < 24) :
    (getPteFlags x).getLsbD i = x.getLsbD (i+40) := by
  simp [getPteFlags,lowFlags_bit,show i < 32 by omega,show ¬ i < 12 by omega,Nat.add_comm 40 i,
    -BitVec.getLsbD_eq_getElem]

theorem from_pfn_high (pfn : U64) (f : Flags) (high : 12 ≤ i) (small : i < 24)
    (set : f.getLsbD i = true) : (l1eFromPfn pfn f).getLsbD (i+40) = true := by
  simp [l1eFromPfn,put_high f high small,set]

theorem from_pfn_low (pfn : U64) (f : Flags) (small : i < 12) :
    (l1eFromPfn pfn f).getLsbD i = f.getLsbD i := by
  simp [l1eFromPfn,put_low f small,small]

end XenAet.PageEntry
