import Mathlib.Data.Fintype.Prod
import Mathlib.Data.Fintype.Sum
import XenAet.Library.Counting
import XenAet.Library.Run

namespace XenAet.IrqLines
open Library

-- An INTx line is a device and one of its four pins; bit `device*4 + intx` of
-- `pci_intx`.
abbrev Line := Fin 32 × Fin 4

def pins : Nat := 48

def hvmPciIntxGsi (line : Line) : Nat := (line.1.val * 4 + line.1.val / 8 + line.2.val) % 32 + 16

def hvmPciIntxLink (line : Line) : Fin 4 := ⟨(line.1.val + line.2.val) % 4,Nat.mod_lt _ (by decide)⟩

def hvmIsaIrqToGsi (isaIrq : Fin 16) : Nat := if isaIrq.val = 0 then 2 else isaIrq.val

-- `callback_via_type` with the member of the union that was written with it.
inductive CallbackVia where
  | none
  | gsi (gsi : Nat)
  | pciIntx (line : Line)
  | vector (vector : Nat)
deriving DecidableEq

-- What is told to the interrupt controllers. `assertGsi` may take the pirq
-- route instead of the IO-APIC, and `deassertIrq` leaves the PIC alone then.
inductive Edge where
  | assertGsi (gsi : Nat)
  | deassertIrq (isaIrq : Nat)
  | vioapicPositive (gsi : Nat)
  | vpicPositive (irq : Nat)
  | vpicNegative (irq : Nat)
deriving DecidableEq

-- `wrapped` is not in the source: it records that a count went past either end
-- of its byte.
structure State where
  pciIntx : Line → Bool
  isaIrq : Fin 16 → Bool
  route : Fin 4 → Nat
  callbackViaAsserted : Bool
  callbackVia : CallbackVia
  pciLinkAssertCount : Fin 4 → Nat
  gsiAssertCount : Nat → Nat
  edges : List Edge
  wrapped : Bool

def initial : State := ⟨fun _ => false,fun _ => false,fun _ => 0,false,.none,fun _ => 0,fun _ => 0,[],false⟩

def assertIrq (gsi picIrq : Nat) : List Edge := [.assertGsi gsi,.vpicPositive picIrq]

def vpicBelow (gsi : Nat) (edge : Edge) : List Edge := if gsi ≤ 15 then [edge] else []

-- `gsi_assert_count[gsi]++ == 0` and `--gsi_assert_count[gsi] == 0`, with what
-- is done when they hold. The counters are bytes.
def gsiUp (s : State) (gsi : Nat) (first : List Edge) : State :=
  {s with
    gsiAssertCount := WiredOr.bump 256 s.gsiAssertCount gsi
    edges := if s.gsiAssertCount gsi = 0 then s.edges ++ first else s.edges
    wrapped := s.wrapped || decide (s.gsiAssertCount gsi = 255)}

def gsiDown (s : State) (gsi : Nat) (last : List Edge) : State :=
  {s with
    gsiAssertCount := Function.update s.gsiAssertCount gsi ((s.gsiAssertCount gsi + 255) % 256)
    edges := if (s.gsiAssertCount gsi + 255) % 256 = 0 then s.edges ++ last else s.edges
    wrapped := s.wrapped || decide (s.gsiAssertCount gsi = 0)}

def setLine (s : State) (line : Line) (level : Bool) : State :=
  {s with pciIntx := Function.update s.pciIntx line level}

def linkUp (s : State) (link : Fin 4) : State :=
  {s with
    pciLinkAssertCount := WiredOr.bump 256 s.pciLinkAssertCount link
    wrapped := s.wrapped || decide (s.pciLinkAssertCount link = 255)}

def linkDown (s : State) (link : Fin 4) : State :=
  {s with
    pciLinkAssertCount := Function.update s.pciLinkAssertCount link ((s.pciLinkAssertCount link + 255) % 256)
    wrapped := s.wrapped || decide (s.pciLinkAssertCount link = 0)}

def pciIntxAssert (s : State) (line : Line) : State :=
  if s.pciIntx line then s
  else
    let gsi := hvmPciIntxGsi line
    let link := hvmPciIntxLink line
    let isaIrq := s.route link
    let raised := gsiUp (setLine s line true) gsi [.assertGsi gsi]
    let linked := linkUp raised link
    if s.pciLinkAssertCount link = 0 ∧ isaIrq ≠ 0 then gsiUp linked isaIrq (assertIrq isaIrq isaIrq) else linked

def pciIntxDeassert (s : State) (line : Line) : State :=
  if s.pciIntx line then
    let gsi := hvmPciIntxGsi line
    let link := hvmPciIntxLink line
    let isaIrq := s.route link
    let lowered := gsiDown (setLine s line false) gsi []
    let linked := linkDown lowered link
    if linked.pciLinkAssertCount link = 0 ∧ isaIrq ≠ 0 then gsiDown linked isaIrq [.deassertIrq isaIrq]
    else linked
  else s

def setIsa (s : State) (isaIrq : Fin 16) (level : Bool) : State :=
  {s with isaIrq := Function.update s.isaIrq isaIrq level}

def isaIrqAssert (s : State) (isaIrq : Fin 16) : State :=
  if s.isaIrq isaIrq then s
  else gsiUp (setIsa s isaIrq true) (hvmIsaIrqToGsi isaIrq) (assertIrq (hvmIsaIrqToGsi isaIrq) isaIrq.val)

def isaIrqDeassert (s : State) (isaIrq : Fin 16) : State :=
  if s.isaIrq isaIrq then gsiDown (setIsa s isaIrq false) (hvmIsaIrqToGsi isaIrq) [.deassertIrq isaIrq.val]
  else s

def callbackUp (s : State) (gsi : Nat) : State :=
  gsiUp s gsi (.vioapicPositive gsi :: vpicBelow gsi (.vpicPositive gsi))

def callbackDown (s : State) (gsi : Nat) : State := gsiDown s gsi (vpicBelow gsi (.vpicNegative gsi))

-- `asserted` is vCPU 0's `evtchn_upcall_pending`, which the guest writes too.
def setCallbackIrqLevel (s : State) (asserted : Bool) : State :=
  if s.callbackViaAsserted = asserted then s
  else
    let changed := {s with callbackViaAsserted := asserted}
    match s.callbackVia with
    | .gsi gsi => if asserted then callbackUp changed gsi else callbackDown changed gsi
    | .pciIntx line => if asserted then pciIntxAssert changed line else pciIntxDeassert changed line
    | _ => changed

def setPciLinkRoute (s : State) (link : Fin 4) (isaIrq : Fin 16) : State :=
  let old := s.route link
  if old = isaIrq.val then s
  else
    let routed := {s with route := Function.update s.route link isaIrq.val}
    if s.pciLinkAssertCount link = 0 then routed
    else
      let lowered := if old ≠ 0 then gsiDown routed old [.vpicNegative old] else routed
      if isaIrq.val ≠ 0 then gsiUp lowered isaIrq.val [.vioapicPositive isaIrq.val,.vpicPositive isaIrq.val]
      else lowered

-- The callback `via` names: its top byte is the type, less one. A GSI that is
-- zero or has no counter is no callback.
def callbackOf (via : BitVec 64) : CallbackVia :=
  let viaType := ((via.toNat >>> 56) % 256 + 1) % 256
  let low := via.toNat % 256
  if viaType = 1 then (if via = 0 ∨ low = 0 ∨ pins ≤ low then .none else .gsi low)
  else if viaType = 2 then
    .pciIntx (⟨(via.toNat >>> 11) % 256 % 32,Nat.mod_lt _ (by decide)⟩,⟨low % 4,Nat.mod_lt _ (by decide)⟩)
  else if viaType = 3 then .vector low
  else .none

def tearDown (s : State) : State :=
  match s.callbackVia with
  | .gsi gsi => callbackDown s gsi
  | .pciIntx line => pciIntxDeassert s line
  | _ => s

def setUp (s : State) (via : CallbackVia) : State :=
  let changed := {s with callbackVia := via}
  if s.callbackViaAsserted then
    match via with
    | .gsi gsi => callbackUp changed gsi
    | .pciIntx line => pciIntxAssert changed line
    | _ => changed
  else changed

def setCallbackVia (s : State) (via : BitVec 64) : State :=
  setUp (if s.callbackViaAsserted then tearDown s else s) (callbackOf via)

-- The saved lines leave out the callback's: its status is not saved.
def irqSavePci (s : State) : (Line → Bool) × State :=
  match s.callbackViaAsserted,s.callbackVia with
  | true,.pciIntx line =>
    let lowered := pciIntxDeassert s line
    (lowered.pciIntx,pciIntxAssert lowered line)
  | _,_ => (s.pciIntx,s)

inductive Event where
  | pciIntxAssert (line : Line)
  | pciIntxDeassert (line : Line)
  | isaIrqAssert (isaIrq : Fin 16)
  | isaIrqDeassert (isaIrq : Fin 16)
  | setPciLinkRoute (link : Fin 4) (isaIrq : Fin 16)
  | setCallbackVia (via : BitVec 64)
  | setCallbackIrqLevel (asserted : Bool)
  | irqSavePci

def step (s : State) : Event → State
  | .pciIntxAssert line => pciIntxAssert s line
  | .pciIntxDeassert line => pciIntxDeassert s line
  | .isaIrqAssert isaIrq => isaIrqAssert s isaIrq
  | .isaIrqDeassert isaIrq => isaIrqDeassert s isaIrq
  | .setPciLinkRoute link isaIrq => setPciLinkRoute s link isaIrq
  | .setCallbackVia via => setCallbackVia s via
  | .setCallbackIrqLevel asserted => setCallbackIrqLevel s asserted
  | .irqSavePci => (irqSavePci s).2

def allLines : List Line := (List.finRange 32).flatMap fun dev => (List.finRange 4).map fun intx => (dev,intx)

def loadLine (s : State) (line : Line) : State :=
  if s.pciIntx line then
    {s with
      gsiAssertCount := WiredOr.bump 256 s.gsiAssertCount (hvmPciIntxGsi line)
      pciLinkAssertCount := WiredOr.bump 256 s.pciLinkAssertCount (hvmPciIntxLink line)}
  else s

def irqLoadPci (s : State) (lines : Line → Bool) : State :=
  allLines.foldl loadLine
    {s with
      pciIntx := lines
      pciLinkAssertCount := fun _ => 0
      gsiAssertCount := fun gsi => if gsi < pins then 0 else s.gsiAssertCount gsi}

def loadIsa (s : State) (irq : Fin 16) : State :=
  if s.isaIrq irq then {s with gsiAssertCount := WiredOr.bump 256 s.gsiAssertCount (hvmIsaIrqToGsi irq)} else s

def irqLoadIsa (s : State) (lines : Fin 16 → Bool) : State :=
  (List.finRange 16).foldl loadIsa {s with isaIrq := lines}

def loadLink (s : State) (link : Fin 4) : State :=
  if s.pciLinkAssertCount link ≠ 0 ∧ s.route link ≠ 0 then
    {s with gsiAssertCount := WiredOr.bump 256 s.gsiAssertCount (s.route link)}
  else s

-- A route out of range is stored and then refused; the load as a whole fails.
def irqLoadLink (s : State) (route : Fin 4 → Nat) : Except Int State :=
  if (List.finRange 4).any fun link => decide (15 < route link) then .error (-22)
  else .ok ((List.finRange 4).foldl loadLink {s with route := route})

def irqLoad (s : State) (lines : Line → Bool) (isa : Fin 16 → Bool) (route : Fin 4 → Nat) : Except Int State :=
  irqLoadLink (irqLoadIsa (irqLoadPci s lines) isa) route

end XenAet.IrqLines
