import XenAet.Library.Bits

namespace XenAet.Vmap
open Library.Bitmaps

def pfnUp (x : Nat) : Nat := (x + 2^12 - 1) / 2^12

-- The pages of the bitmap, which are the first of the area, and those of
-- them that are there from the start.
def bitmapPages (vmEnd : Nat) : Nat := pfnUp ((vmEnd + 7) / 8)

def firstPages (vmEnd : Nat) : Nat := pfnUp ((bitmapPages vmEnd + 7) / 8)

-- What `arch_vmap_virt_end` gives: an area that the first part of the bitmap
-- does not cover.
structure Area where
  vmEnd : Nat
  room : firstPages vmEnd * 2^12 * 8 ≤ vmEnd
  small : vmEnd < 2^31
  nonempty : 0 < vmEnd

structure Vm where
  bitmap : Nat → Bool
  vmTop : Nat
  vmLow : Nat

def vmInit (a : Area) : Vm where
  bitmap i := decide (i < bitmapPages a.vmEnd)
  vmTop := firstPages a.vmEnd * 2^12 * 8
  vmLow := bitmapPages a.vmEnd

def findNextBit (v : Vm) (off : Nat) : Nat := next v.bitmap off (v.vmTop - off)

def findNextZeroBit (v : Vm) (off : Nat) : Nat := next (fun i => !v.bitmap i) off (v.vmTop - off)

-- `-align` and `~(align - 1)` in 32 bits.
def effectiveAlign (align : Nat) : Nat :=
  if align = 0 then 1 else if align &&& (align - 1) ≠ 0 then align &&& (2^32 - align) else align

def alignAbove (start align : Nat) : Nat := (start + align) % 2^32 &&& (2^32 - align)

-- The search for a gap. It is bounded by the bits that are left.
def search (v : Vm) (nr align : Nat) : Nat → Nat → Nat
  | 0,start => start
  | fuel + 1,start =>
    if v.vmTop ≤ start then start
    else
      let bit := min (findNextBit v (start + 1)) v.vmTop
      let start := alignAbove start align
      if bit < v.vmTop then
        if (start + nr) % 2^32 < bit then start else search v nr align fuel (findNextZeroBit v (bit + 1))
      else if (start + nr) % 2^32 ≤ bit then start
      else search v nr align fuel bit

-- How another page for the bitmap is come by.
inductive Growth where
  | noPage
  | notMapped
  | grown
  deriving DecidableEq

def grow (a : Area) (v : Vm) : Vm :=
  {v with bitmap := clear v.bitmap v.vmTop (v.vmTop + 2^12 * 8),vmTop := min (v.vmTop + 2^12 * 8) a.vmEnd}

def lowClear (v : Vm) : Bool := v.vmLow == v.vmTop || !v.bitmap v.vmLow

-- The outer loop, up to the start of the range; `none` is a failed ASSERT.
def findRange (a : Area) (nr align : Nat) : List Growth → Vm → Option (Vm × Option Nat)
  | growths,v =>
    if !lowClear v then none
    else
      let start := search v nr align v.vmTop v.vmLow
      if start < v.vmTop then some (v,some start)
      else if a.vmEnd ≤ v.vmTop then some (v,none)
      else
        match growths with
        | .grown :: rest => findRange a nr align rest (grow a v)
        | _ => some (v,none)

def vmAlloc (a : Area) (nr align : Nat) (growths : List Growth) (v : Vm) : Option (Vm × Option Nat) :=
  match findRange a nr (effectiveAlign align) growths v with
  | none => none
  | some (v,none) => some (v,none)
  | some (v,some start) =>
    let bit := max start ((start + nr) % 2^32)
    let v := {v with bitmap := fill v.bitmap start bit}
    if if bit < v.vmTop then v.bitmap bit else bit != v.vmTop then none
    else some ({v with vmLow := if start ≤ v.vmLow + 2 then bit else v.vmLow},some start)

-- Addresses are relative to the start of the area.
def vmIndex (a : Area) (v : Vm) (va : Nat) : Nat :=
  let addr := va / 2^12 * 2^12
  if addr < a.vmEnd / 8 || v.vmTop * 2^12 ≤ addr then 0
  else
    let idx := va / 2^12
    if !v.bitmap (idx - 1) && v.bitmap idx then idx else 0

def vmSize (a : Area) (v : Vm) (va : Nat) : Nat :=
  let start := vmIndex a v va
  if start = 0 then 0 else min (findNextZeroBit v (start + 1)) v.vmTop - start

def vmFree (a : Area) (v : Vm) (va : Nat) : Vm :=
  let bit := vmIndex a v va
  if bit = 0 then v
  else
    { bitmap := clearRun v.bitmap bit (v.vmTop - bit)
      vmTop := v.vmTop
      vmLow := if bit < v.vmLow then lowest v.bitmap (bit - 1) else v.vmLow }

end XenAet.Vmap
