import XenAet.IrqCounts
import XenAet.PicOutput

namespace XenAet.PicRequests
open XenAet.IrqLines XenAet.IrqCounts Library
open XenAet.VirtualPic (Pic Vpic picOf bit vpicUpdateIntOutput vpicIrqEdge vpicIrqPositiveEdge vpicIrqNegativeEdge)
open XenAet.PicOutput (updateMaster_eq bit_getLsbD edge_other)

-- `usePirq` is `hvm_domain_use_pirq` of the pirq that an emulated irq is
-- mapped to.
structure System where
  lines : IrqLines.State
  pic : VirtualPic.State
  usePirq : Nat → Bool

-- What an edge is for the PIC. `assert_irq` raises its line whatever becomes
-- of the GSI, `deassert_irq` leaves it alone where the pirq is in use.
def tellPic (usePirq : Nat → Bool) (pic : VirtualPic.State) : Edge → VirtualPic.State
  | .assertGsi _ => pic
  | .vioapicPositive _ => pic
  | .deassertIrq isaIrq => if usePirq isaIrq then pic else vpicIrqNegativeEdge isaIrq pic
  | .vpicPositive irq => vpicIrqPositiveEdge irq pic
  | .vpicNegative irq => vpicIrqNegativeEdge irq pic

inductive Event where
  | line (op : IrqLines.Event)
  | write (p : Pic) (odd : Bool) (val : BitVec 8)
  | read (p : Pic) (odd : Bool)
  | writeElcr (p : Pic) (val : BitVec 8)
  | ack (accepts : Bool)
  | remap (emuirq : Nat) (used : Bool)

-- The lines after an operation, with the edges of this operation only.
def operated (s : System) (op : IrqLines.Event) : IrqLines.State := IrqLines.step {s.lines with edges := []} op

def step (s : System) : Event → Option System
  | .line op => some {s with lines := operated s op,pic := (operated s op).edges.foldl (tellPic s.usePirq) s.pic}
  | .write p odd val => some {s with pic := VirtualPic.vpicIoportWrite p odd val s.pic}
  | .read p odd => (VirtualPic.vpicIoportRead p odd s.pic).map fun (pic,_) => {s with pic}
  | .writeElcr p val => some {s with pic := VirtualPic.writeElcr p val s.pic}
  | .ack accepts => (VirtualPic.vpicAckPendingIrq accepts s.pic).map fun (pic,_) => {s with pic}
  | .remap emuirq used => some {s with usePirq := Function.update s.usePirq emuirq used}

def reset : System := ⟨IrqLines.initial,VirtualPic.vpicReset,fun _ => false⟩

-- The bit of IRR of PIC line `irq`.
def requested (pic : VirtualPic.State) (irq : Fin 16) : Bool := (pic.get (picOf irq)).irr.getLsbD (irq % 8)

def Backed (s : System) : Prop :=
  ∀ irq : Fin 16, irq ≠ 2 → requested s.pic irq = true → s.lines.gsiAssertCount (hvmIsaIrqToGsi irq) ≠ 0

section Pic
variable {pic : VirtualPic.State} {irq : Fin 16} {p : Pic} {v : Vpic}

theorem get_set (pic : VirtualPic.State) (p q : Pic) (v : Vpic) : (pic.set_ p v).get q = if q = p then v else pic.get q := by
  cases p <;> cases q <;> rfl

theorem get_master (other : irq ≠ 2) (is : picOf irq = .master) : irq.val % 8 ≠ 2 := by
  have small : irq.val < 8 := by
    by_contra large
    rw [picOf,if_neg large] at is
    cases is
  intro two
  exact other (Fin.ext (by rw [Nat.mod_eq_of_lt small] at two; exact two))

-- Bringing an output up to date moves line 2 of the master only.
theorem requested_update (other : irq ≠ 2) : requested (vpicUpdateIntOutput pic p) irq = requested pic irq := by
  unfold requested
  cases p with
  | master =>
    rw [vpicUpdateIntOutput,updateMaster_eq]
    cases picOf irq <;> rfl
  | slave =>
    rw [vpicUpdateIntOutput]
    split
    · rfl
    · rw [updateMaster_eq]
      cases is : picOf irq with
      | slave => rfl
      | master => exact edge_other (!pic.slave.intOutput) pic.master.irr (Nat.mod_lt _ (by decide)) (get_master other is)

theorem requested_set (same : v.irr = (pic.get p).irr) : requested (pic.set_ p v) irq = requested pic irq := by
  rw [requested,requested,get_set]
  split
  · next is => rw [same,is]
  · rfl

theorem line_eq {irq line : Fin 16} (pics : picOf irq = picOf line) (bits : irq.val % 8 = line.val % 8) : irq = line := by
  refine Fin.ext ?_
  unfold picOf at pics
  split at pics <;> split at pics <;> first | omega | cases pics

theorem requested_edge (positive : Bool) (line : Fin 16) (other : irq ≠ 2) :
    requested (vpicIrqEdge positive line pic) irq = if irq = line then positive else requested pic irq := by
  rw [vpicIrqEdge]
  split
  · next two =>
    have differ : irq ≠ line := fun same => other (same.trans (Fin.ext two))
    rw [if_neg differ]
  · have stored : requested (pic.set_ (picOf line) {pic.get (picOf line) with
        irr := if positive then (pic.get (picOf line)).irr ||| bit (line % 8) else (pic.get (picOf line)).irr &&& ~~~bit (line % 8)}) irq =
        if irq = line then positive else requested pic irq := by
      rw [requested,get_set]
      by_cases pics : picOf irq = picOf line
      · rw [if_pos pics]
        by_cases same : irq = line
        · subst same
          have low : irq.val % 8 < 8 := Nat.mod_lt _ (by decide)
          cases positive <;> simp [bit_getLsbD _ _ low,low]
        · rw [if_neg same,edge_other positive _ (Nat.mod_lt _ (by decide)) fun bits => same (line_eq pics bits),requested,pics]
      · rw [if_neg pics,if_neg fun same => pics (congrArg (fun x : Fin 16 => picOf x) same)]
        rfl
    dsimp only
    split
    · rw [requested_update other]
      exact stored
    · exact stored

-- No access of the guest makes a request.
def Fewer (pic pic' : VirtualPic.State) : Prop := ∀ irq : Fin 16, irq ≠ 2 → requested pic' irq = true → requested pic irq = true

theorem fewer_updated (subset : ∀ i, v.irr.getLsbD i = true → (pic.get p).irr.getLsbD i = true) :
    Fewer pic (vpicUpdateIntOutput (pic.set_ p v) p) := by
  intro irq other set_
  rw [requested_update other,requested,get_set] at set_
  rw [requested]
  split at set_
  · next is =>
    rw [is]
    exact subset _ set_
  · exact set_

theorem writeOcw2_irr (v : Vpic) (val : BitVec 8) : (VirtualPic.writeOcw2 v val).irr = v.irr := by
  have eoi (irq : Nat) (rotate : Bool) : (VirtualPic.eoi v irq rotate).irr = v.irr := by
    cases rotate <;> rfl
  have nonSpecific (rotate : Bool) : (VirtualPic.writeOcw2.nonSpecific v rotate).irr = v.irr := by
    rw [VirtualPic.writeOcw2.nonSpecific]
    generalize VirtualPic.vpicGetPriority v _ = priority
    split
    · rfl
    · exact eoi _ _
  rw [VirtualPic.writeOcw2]
  split
  · rfl
  · rfl
  · exact nonSpecific false
  · exact nonSpecific true
  · exact eoi _ _
  · exact eoi _ _
  · rfl
  · rfl

theorem writeOdd_irr (v : Vpic) (val : BitVec 8) : (VirtualPic.writeOdd v val).irr = v.irr := by
  have icw3 (u : Vpic) (same : u.irr = v.irr) : (VirtualPic.writeOdd.icw3 u).irr = v.irr := by
    rw [VirtualPic.writeOdd.icw3]
    dsimp only
    split
    · exact same
    · exact same
  rw [VirtualPic.writeOdd]
  split
  · rfl
  · dsimp only
    split
    · rfl
    · exact icw3 _ rfl
  · exact icw3 v rfl
  · rfl

theorem writeRegister_irr (v : Vpic) (odd : Bool) (val : BitVec 8) (i : Nat)
    (set_ : (VirtualPic.writeRegister v odd val).irr.getLsbD i = true) : v.irr.getLsbD i = true := by
  rw [VirtualPic.writeRegister] at set_
  split at set_
  · rwa [writeOdd_irr] at set_
  · split at set_
    · have both : (v.irr &&& v.elcr).getLsbD i = true := set_
      rw [BitVec.getLsbD_and,Bool.and_eq_true] at both
      exact both.1
    · split at set_
      · exact set_
      · rwa [writeOcw2_irr] at set_

theorem writeElcr_fewer (p : Pic) (val : BitVec 8) : Fewer pic (VirtualPic.writeElcr p val pic) := by
  intro irq other set_
  unfold VirtualPic.writeElcr at set_
  rw [requested_set] at set_
  · exact set_
  · rfl

theorem Fewer.trans {first second third : VirtualPic.State} (one : Fewer first second) (two : Fewer second third) : Fewer first third :=
  fun irq other set_ => one irq other (two irq other set_)

theorem intackOne_fewer (line : Nat) : Fewer pic (VirtualPic.intackOne p line pic) := by
  rw [VirtualPic.intackOne]
  refine fewer_updated fun i set_ => ?_
  have cleared : (if (pic.get p).elcr &&& bit line = 0#8 then {pic.get p with irr := (pic.get p).irr &&& ~~~bit line} else pic.get p).irr.getLsbD i =
      true → (pic.get p).irr.getLsbD i = true := by
    split
    · intro kept
      have both : ((pic.get p).irr &&& ~~~bit line).getLsbD i = true := kept
      rw [BitVec.getLsbD_and,Bool.and_eq_true] at both
      exact both.1
    · exact id
  refine cleared ?_
  generalize (if (pic.get p).elcr &&& bit line = 0#8 then {pic.get p with irr := (pic.get p).irr &&& ~~~bit line} else pic.get p) = u at set_ ⊢
  split at set_
  · exact set_
  · split at set_
    · exact set_
    · exact set_

theorem intack_fewer {pic' : VirtualPic.State} {line : Int} (done : VirtualPic.vpicIntack p pic = some (pic',line)) : Fewer pic pic' := by
  rw [VirtualPic.vpicIntack] at done
  split at done
  · cases done
    exact fun irq other set_ => set_
  · dsimp only at done
    split at done
    · cases done
    · split at done
      · split at done
        · cases done
        · cases done
          exact (intackOne_fewer _).trans (intackOne_fewer _)
      · cases done
        exact intackOne_fewer _

theorem read_fewer {pic' : VirtualPic.State} {odd : Bool} {val : BitVec 8}
    (done : VirtualPic.vpicIoportRead p odd pic = some (pic',val)) : Fewer pic pic' := by
  rw [VirtualPic.vpicIoportRead] at done
  dsimp only at done
  split at done
  · obtain ⟨⟨pic'',line⟩,acked,same⟩ := Option.map_eq_some_iff.mp done
    cases same
    refine Fewer.trans (fun irq other set_ => ?_) (intack_fewer acked)
    rwa [requested_set] at set_
    rfl
  · split at done
    · cases done
      exact fun irq other set_ => set_
    · cases done
      exact fun irq other set_ => set_

theorem ack_fewer {pic' : VirtualPic.State} {accepts : Bool} {vector : Int}
    (done : VirtualPic.vpicAckPendingIrq accepts pic = some (pic',vector)) : Fewer pic pic' := by
  rw [VirtualPic.vpicAckPendingIrq] at done
  split at done
  · cases done
    exact fun irq other set_ => set_
  · obtain ⟨⟨pic'',line⟩,acked,same⟩ := Option.map_eq_some_iff.mp done
    dsimp only at same
    split at same
    · cases same
      exact intack_fewer acked
    · cases same
      exact intack_fewer acked

end Pic

section Lines
variable {l m l' t : IrqLines.State} {line : Line} {g : Nat} {e : Edge}

def Bytes (l : IrqLines.State) : Prop := ∀ g, l.gsiAssertCount g < 256

-- The configuration that the levels of the lines leave alone.
structure Same (l l' : IrqLines.State) : Prop where
  isa : l'.isaIrq = l.isaIrq
  route : l'.route = l.route
  callback : l'.callbackVia = l.callbackVia

-- A source that is taken from a GSI of the PIC's, with the edge that is sent if
-- it was the last.
abbrev Fall := Option (Nat × Edge)

def linkFall (l : IrqLines.State) (line : Line) : Fall :=
  let link := hvmPciIntxLink line
  if l.pciIntx line ∧ l.pciLinkAssertCount link = 1 ∧ l.route link ≠ 0 then some (l.route link,.deassertIrq (l.route link)) else none

def callbackFall (l : IrqLines.State) : Fall :=
  match l.callbackViaAsserted,l.callbackVia with
  | true,.gsi gsi => if gsi ≤ 15 then some (gsi,.vpicNegative gsi) else none
  | true,.pciIntx line => linkFall l line
  | _,_ => none

def fall (l : IrqLines.State) : IrqLines.Event → Fall
  | .pciIntxDeassert line => linkFall l line
  | .isaIrqDeassert isaIrq => if l.isaIrq isaIrq then some (hvmIsaIrqToGsi isaIrq,.deassertIrq isaIrq) else none
  | .setPciLinkRoute link isaIrq =>
    if l.route link ≠ isaIrq ∧ l.pciLinkAssertCount link ≠ 0 ∧ l.route link ≠ 0 then some (l.route link,.vpicNegative (l.route link)) else none
  | .setCallbackVia _ => callbackFall l
  | .setCallbackIrqLevel asserted => if asserted then none else callbackFall l
  | .irqSavePci =>
    match l.callbackViaAsserted,l.callbackVia with
    | true,.pciIntx line => linkFall l line
    | _,_ => none
  | _ => none

-- The operation gives the GSI a source again: a new callback, or the one that
-- was down while the lines were saved.
def Again (l : IrqLines.State) (g : Nat) : IrqLines.Event → Prop
  | .setCallbackVia via => callbackOf via = .gsi g ∨ ∃ line, callbackOf via = .pciIntx line ∧ l.route (hvmPciIntxLink line) = g
  | .irqSavePci => True
  | _ => False

-- The operation takes the last source of a GSI away.
structure Last (l : IrqLines.State) (op : IrqLines.Event) (g : Nat) (e : Edge) : Prop where
  one : l.gsiAssertCount g = 1
  falls : fall l op = some (g,e)
  gone : ¬Again l g op

def Falling (e : Edge) : Prop := ∃ irq : Fin 16, e = .deassertIrq irq ∨ e = .vpicNegative irq

def told (l : IrqLines.State) : Fall → List Edge
  | some (g,e) => if l.gsiAssertCount g = 1 then [e] else []
  | none => []

structure Lowered (l l' : IrqLines.State) (f : Fall) : Prop where
  edges : l'.edges = l.edges ++ told l f
  falling : ∀ e ∈ told l f, Falling e
  own : ∀ g e, f = some (g,e) → l'.gsiAssertCount g + 1 = l.gsiAssertCount g
  other : ∀ g < 16, (∀ e, f ≠ some (g,e)) → l'.gsiAssertCount g = l.gsiAssertCount g

-- Lines that go up: what is raised at the PIC is counted.
def Rising (l' : IrqLines.State) (e : Edge) : Prop :=
  (∃ g, e = .assertGsi g ∨ e = .vioapicPositive g) ∨
    ∃ irq : Fin 16, e = .vpicPositive irq ∧ l'.gsiAssertCount (hvmIsaIrqToGsi irq) ≠ 0

structure Raised (l l' : IrqLines.State) (ups : List Edge) : Prop where
  edges : l'.edges = l.edges ++ ups
  rising : ∀ e ∈ ups, Rising l' e
  more : ∀ g, l.gsiAssertCount g ≤ l'.gsiAssertCount g

structure Up (l l' : IrqLines.State) : Prop where
  bytes : Bytes l → Bytes l'
  unwrapped : l'.wrapped = false → l.wrapped = false
  raised : Bytes l → l'.wrapped = false → ∃ ups, Raised l l' ups

theorem Up.trans (first : Up l m) (second : Up m l') : Up l l' := by
  refine ⟨fun bytes => second.bytes (first.bytes bytes),fun after => first.unwrapped (second.unwrapped after),fun bytes after => ?_⟩
  obtain ⟨ups,one⟩ := first.raised bytes (second.unwrapped after)
  obtain ⟨more,two⟩ := second.raised (first.bytes bytes) after
  refine ⟨ups ++ more,by rw [two.edges,one.edges,List.append_assoc],fun e member => ?_,
    fun g => (one.more g).trans (two.more g)⟩
  rcases List.mem_append.mp member with early | late
  · rcases one.rising e early with other | ⟨irq,is,counted⟩
    · exact .inl other
    · refine .inr ⟨irq,is,fun gone => counted ?_⟩
      have grown := two.more (hvmIsaIrqToGsi irq)
      omega
  · exact two.rising e late

-- A change of anything but the counts and the edges.
theorem Up.still (counts : l'.gsiAssertCount = l.gsiAssertCount) (edges : l'.edges = l.edges)
    (unwrapped : l'.wrapped = false → l.wrapped = false) : Up l l' := by
  refine ⟨fun bytes g => ?_,unwrapped,fun _ _ => ⟨[],by rw [edges,List.append_nil],by simp,fun g => ?_⟩⟩
  · rw [counts]
    exact bytes g
  · rw [counts]

theorem Lowered.still (counts : l'.gsiAssertCount = l.gsiAssertCount) (edges : l'.edges = l.edges) : Lowered l l' none :=
  ⟨by rw [edges,told,List.append_nil],List.forall_mem_nil _,fun _ _ is => (by cases is),fun g _ _ => congrFun counts g⟩

theorem Lowered.same (still : Lowered l t none) (low : g < 16) : t.gsiAssertCount g = l.gsiAssertCount g :=
  still.other g low fun _ is => by cases is

theorem Lowered.zero_iff {f : Fall} (lowered : Lowered l l' f) (low : g < 16) (counted : l.gsiAssertCount g ≠ 0) :
    l'.gsiAssertCount g = 0 ↔ l.gsiAssertCount g = 1 ∧ ∃ e, f = some (g,e) := by
  by_cases held : ∃ e, f = some (g,e)
  · obtain ⟨e,is⟩ := held
    have taken := lowered.own g e is
    exact ⟨fun gone => ⟨by omega,e,is⟩,fun ⟨one,_⟩ => by omega⟩
  · have same := lowered.other g low fun e is => held ⟨e,is⟩
    exact ⟨fun gone => absurd (same ▸ gone) counted,fun ⟨_,is⟩ => absurd is held⟩

theorem last_iff {n : Nat} (byte : n < 256) : (n + 255) % 256 = 0 ↔ n = 1 := by omega

theorem ite_append {c : Prop} [Decidable c] (first second : List Edge) :
    (if c then first ++ second else first) = first ++ if c then second else [] := by
  split
  · rfl
  · rw [List.append_nil]

theorem gsiDown_edges {g : Nat} {last : List Edge} (byte : l.gsiAssertCount g < 256) :
    (gsiDown l g last).edges = l.edges ++ if l.gsiAssertCount g = 1 then last else [] :=
  (ite_append _ _).trans (congrArg _ (if_congr (last_iff byte) rfl rfl))

theorem gsiUp_edges {g : Nat} {first : List Edge} : (gsiUp l g first).edges = l.edges ++ if l.gsiAssertCount g = 0 then first else [] :=
  ite_append _ _

theorem gsiUp_up {g : Nat} {first : List Edge}
    (rising : ∀ l', l'.gsiAssertCount g ≠ 0 → ∀ e ∈ first, Rising l' e) : Up l (gsiUp l g first) := by
  refine ⟨fun bytes x => ?_,fun after => ?_,fun bytes after => ?_⟩
  · change Function.update l.gsiAssertCount g ((l.gsiAssertCount g + 1) % 256) x < 256
    by_cases here : x = g
    · rw [here,Function.update_self]
      exact Nat.mod_lt _ (by decide)
    · rw [Function.update_of_ne here]
      exact bytes x
  · exact (Bool.or_eq_false_iff.mp after).1
  · have room : l.gsiAssertCount g ≠ 255 := of_decide_eq_false (Bool.or_eq_false_iff.mp after).2
    have byte := bytes g
    have counted : (gsiUp l g first).gsiAssertCount g = l.gsiAssertCount g + 1 := by
      change Function.update l.gsiAssertCount g ((l.gsiAssertCount g + 1) % 256) g = _
      rw [Function.update_self]
      omega
    refine ⟨if l.gsiAssertCount g = 0 then first else [],?_,fun e member => ?_,fun x => ?_⟩
    · exact gsiUp_edges
    · split at member
      · exact rising _ (by rw [counted]; omega) e member
      · cases member
    · by_cases here : x = g
      · subst here
        rw [counted]
        omega
      · exact (Function.update_of_ne here ((l.gsiAssertCount g + 1) % 256) l.gsiAssertCount).ge

theorem exact_bytes (exact_ : Exact l) : Bytes l := fun g => by
  rw [exact_.gsi]
  exact Nat.lt_of_le_of_lt (WiredOr.driven_le _ _) wires_small

theorem gsiDown_high (high : 16 ≤ g) (still : Lowered l t none) : Lowered l (gsiDown t g []) none := by
  refine ⟨by simpa [gsiDown,told] using still.edges,still.falling,fun _ _ is => (by cases is),fun x low _ => ?_⟩
  have differ : x ≠ g := by omega
  exact (Function.update_of_ne differ ..).trans (still.same low)

theorem gsiDown_lowered {w : Wire} (exact_ : Exact l) (on : load l w = some g) (low : g < 16) (falling : Falling e)
    (still : Lowered l t none) : Lowered l (gsiDown t g [e]) (some (g,e)) := by
  have counted := count_not_zero exact_.gsi on
  have byte := exact_bytes exact_ g
  refine ⟨?_,fun x member => ?_,fun _ _ is => ?_,fun x below other => ?_⟩
  · have edges : t.edges = l.edges := still.edges.trans (List.append_nil _)
    rw [gsiDown_edges (still.same low ▸ byte),told,still.same low,edges]
  · rw [told] at member
    split at member
    · rwa [List.mem_singleton.mp member]
    · cases member
  · cases is
    have own : (gsiDown t g [e]).gsiAssertCount g = (t.gsiAssertCount g + 255) % 256 := Function.update_self ..
    rw [own,still.same low]
    omega
  · have differ : x ≠ g := fun is => other e (by rw [is])
    exact (Function.update_of_ne differ ..).trans (still.same below)

theorem gsiUp_silent (silent : ∃ x, e = .assertGsi x ∨ e = .vioapicPositive x) : Up l (gsiUp l g [e]) := by
  refine gsiUp_up fun l' _ e' member => ?_
  rw [List.mem_singleton.mp member]
  exact .inl silent

theorem gsiUp_pic (irq : Fin 16) (gsi : hvmIsaIrqToGsi irq = g) (silent : ∃ x, e = .assertGsi x ∨ e = .vioapicPositive x) :
    Up l (gsiUp l g [e,.vpicPositive irq]) := by
  refine gsiUp_up fun l' counted e' member => ?_
  rcases List.mem_cons.mp member with rfl | late
  · exact .inl silent
  · rw [List.mem_singleton.mp late]
    exact .inr ⟨irq,rfl,by rwa [gsi]⟩

theorem isaGsi_ne {irq : Fin 16} (some_ : irq ≠ 0) : hvmIsaIrqToGsi irq = irq :=
  if_neg fun zero => some_ (Fin.ext zero)

theorem isaGsi_low : ∀ irq : Fin 16, hvmIsaIrqToGsi irq < 16 ∧ hvmIsaIrqToGsi irq ≠ 0 := by decide

-- The fields that a wire does not touch.
structure Wired (l : IrqLines.State) : Prop where
  route : ∀ link, l.route link < 16
  callback : l.callbackVia ≠ .gsi 0

theorem Wired.same (wired : Wired l) (same : Same l l') : Wired l' := by
  refine ⟨fun link => ?_,?_⟩
  · rw [same.route]
    exact wired.route link
  · rw [same.callback]
    exact wired.callback

-- Both counters of a line.
def lowered (l : IrqLines.State) (line : Line) : IrqLines.State :=
  linkDown (gsiDown (setLine l line false) (hvmPciIntxGsi line) []) (hvmPciIntxLink line)

def raised (l : IrqLines.State) (line : Line) : IrqLines.State :=
  linkUp (gsiUp (setLine l line true) (hvmPciIntxGsi line) [.assertGsi (hvmPciIntxGsi line)]) (hvmPciIntxLink line)

def isaOf (l : IrqLines.State) (line : Line) : Nat := l.route (hvmPciIntxLink line)

theorem deassert_eq (up : l.pciIntx line = true) : pciIntxDeassert l line =
    if (l.pciLinkAssertCount (hvmPciIntxLink line) + 255) % 256 = 0 ∧ isaOf l line ≠ 0 then gsiDown (lowered l line) (isaOf l line) [.deassertIrq (isaOf l line)]
    else lowered l line := by
  have count : (lowered l line).pciLinkAssertCount (hvmPciIntxLink line) = (l.pciLinkAssertCount (hvmPciIntxLink line) + 255) % 256 :=
    Function.update_self ..
  rw [pciIntxDeassert,if_pos up,← count]
  rfl

theorem assert_eq (down : l.pciIntx line = false) : pciIntxAssert l line =
    if l.pciLinkAssertCount (hvmPciIntxLink line) = 0 ∧ isaOf l line ≠ 0 then gsiUp (raised l line) (isaOf l line) (assertIrq (isaOf l line) (isaOf l line))
    else raised l line := by
  rw [pciIntxAssert,down,if_neg Bool.false_ne_true]
  rfl

theorem intxAssert_same (l : IrqLines.State) (line : Line) : Same l (pciIntxAssert l line) := by
  rw [pciIntxAssert]
  split
  · exact ⟨rfl,rfl,rfl⟩
  · dsimp only
    split
    · exact ⟨rfl,rfl,rfl⟩
    · exact ⟨rfl,rfl,rfl⟩

theorem intxDeassert_same (l : IrqLines.State) (line : Line) : Same l (pciIntxDeassert l line) := by
  rw [pciIntxDeassert]
  split
  · dsimp only
    split
    · exact ⟨rfl,rfl,rfl⟩
    · exact ⟨rfl,rfl,rfl⟩
  · exact ⟨rfl,rfl,rfl⟩

theorem wrapped_or {a b : Bool} (after : (a || b) = false) : a = false := (Bool.or_eq_false_iff.mp after).1

theorem intxAssert_up (wired : Wired l) (line : Line) : Up l (pciIntxAssert l line) := by
  by_cases up : l.pciIntx line = true
  · rw [pciIntxAssert,if_pos up]
    exact .still rfl rfl id
  · have rises : Up l (raised l line) :=
      Up.trans (m:=setLine l line true) (.still rfl rfl id) (Up.trans (gsiUp_silent ⟨_,.inl rfl⟩) (.still rfl rfl wrapped_or))
    rw [assert_eq (Bool.eq_false_iff.mpr up)]
    split
    · next first => exact rises.trans (gsiUp_pic ⟨_,wired.route _⟩ (isaGsi_ne fun zero => first.2 (congrArg Fin.val zero)) ⟨_,.inl rfl⟩)
    · exact rises

theorem assert_bit : (pciIntxAssert l line).pciIntx line = true := by
  by_cases up : l.pciIntx line = true
  · rw [pciIntxAssert,if_pos up]
    exact up
  · rw [assert_eq (Bool.eq_false_iff.mpr up)]
    split
    · exact Function.update_self ..
    · exact Function.update_self ..

theorem pciGsi_high (line : Line) : 16 ≤ hvmPciIntxGsi line := Nat.le_add_left ..

theorem linkFall_some (fell : linkFall l line = some (g,e)) : l.route (hvmPciIntxLink line) = g ∧ e = .deassertIrq g := by
  dsimp only [linkFall] at fell
  split at fell
  · cases fell
    exact ⟨rfl,rfl⟩
  · cases fell

theorem exact_links (exact_ : Exact l) (link : Fin 4) : l.pciLinkAssertCount link < 256 := by
  rw [exact_.link]
  exact Nat.lt_of_le_of_lt (WiredOr.driven_le _ _) lines_small

theorem link_on {link : Fin 4} (counted : l.pciLinkAssertCount link ≠ 0) (some_ : l.route link ≠ 0) :
    load l (.inr (.inl link)) = some (l.route link) := by
  rw [load,loads_at_link,linkLoad,if_pos ⟨counted,some_⟩]

theorem intxDeassert_lowered (exact_ : Exact l) (wired : Wired l) (line : Line) : Lowered l (pciIntxDeassert l line) (linkFall l line) := by
  dsimp only [linkFall]
  by_cases up : l.pciIntx line = true
  · have falls : Lowered l (gsiDown (setLine l line false) (hvmPciIntxGsi line) []) none := gsiDown_high (pciGsi_high line) (.still rfl rfl)
    have linked : Lowered l (lowered l line) none := ⟨falls.edges,falls.falling,falls.own,falls.other⟩
    rw [deassert_eq up]
    simp only [last_iff (exact_links exact_ _)]
    split
    · next last =>
      have small := wired.route (hvmPciIntxLink line)
      rw [if_pos ⟨up,last⟩]
      exact gsiDown_lowered exact_ (link_on (link_counted exact_ up) last.2) small ⟨⟨_,small⟩,.inl rfl⟩ linked
    · next more =>
      rw [if_neg fun is => more is.2]
      exact linked
  · rw [pciIntxDeassert,if_neg up,if_neg fun is => up is.1]
    exact .still rfl rfl

theorem isaAssert_up (l : IrqLines.State) (irq : Fin 16) : Up l (isaIrqAssert l irq) := by
  rw [isaIrqAssert]
  split
  · exact .still rfl rfl id
  · exact Up.trans (m:=setIsa l irq true) (.still rfl rfl id) (gsiUp_pic irq rfl ⟨_,.inl rfl⟩)

theorem isaDeassert_lowered (exact_ : Exact l) (irq : Fin 16) : Lowered l (isaIrqDeassert l irq) (fall l (.isaIrqDeassert irq)) := by
  rw [isaIrqDeassert,fall]
  split
  · next on =>
    have isaOn : load l (.inr (.inr (.inl irq))) = some (hvmIsaIrqToGsi irq) := by rw [load,loads_at_isa,isaLoad,if_pos on]
    exact gsiDown_lowered exact_ isaOn (isaGsi_low irq).1 ⟨irq,.inl rfl⟩ (.still rfl rfl)
  · exact .still rfl rfl

theorem callbackUp_up {g : Nat} (some_ : g ≠ 0) : Up l (callbackUp l g) := by
  rw [callbackUp,vpicBelow]
  split
  · next low => exact gsiUp_pic ⟨g,Nat.lt_succ_of_le low⟩ (isaGsi_ne fun zero => some_ (congrArg Fin.val zero)) ⟨_,.inr rfl⟩
  · exact gsiUp_silent ⟨_,.inr rfl⟩

theorem callbackDown_lowered (exact_ : Exact l) (asserted : l.callbackViaAsserted = true) (via : l.callbackVia = .gsi g)
    (still : Lowered l t none) : Lowered l (callbackDown t g) (callbackFall l) := by
  rw [callbackDown,vpicBelow,callbackFall,asserted,via]
  dsimp only
  split
  · next low =>
    have on : load l (.inr (.inr (.inr ()))) = some g := by
      rw [load,loads_at_callback,asserted,via]
      rfl
    exact gsiDown_lowered exact_ on (Nat.lt_succ_of_le low) ⟨⟨g,Nat.lt_succ_of_le low⟩,.inr rfl⟩ still
  · next high => exact gsiDown_high (Nat.lt_of_not_le high) still

theorem callbackOf_ne (via : BitVec 64) : callbackOf via ≠ .gsi 0 := by
  unfold callbackOf
  dsimp only
  repeat' split
  all_goals try exact CallbackVia.noConfusion
  next some_ =>
    intro zero
    injection zero with low
    exact some_ (.inr (.inl low))

theorem tearDown_lowered (exact_ : Exact l) (wired : Wired l) (asserted : l.callbackViaAsserted = true) :
    Lowered l (tearDown l) (callbackFall l) := by
  rw [tearDown]
  cases via : l.callbackVia with
  | gsi g => exact callbackDown_lowered exact_ asserted via (.still rfl rfl)
  | pciIntx line =>
    rw [callbackFall,asserted,via]
    exact intxDeassert_lowered exact_ wired line
  | none | vector v =>
    rw [callbackFall,asserted,via]
    exact .still rfl rfl

theorem tearDown_same (l : IrqLines.State) : Same l (tearDown l) := by
  rw [tearDown]
  cases l.callbackVia with
  | pciIntx line => exact intxDeassert_same l line
  | gsi g | none | vector v => exact ⟨rfl,rfl,rfl⟩

theorem setUp_up {via : CallbackVia} (wired : Wired l) (some_ : via ≠ .gsi 0) : Up l (setUp l via) := by
  unfold setUp
  dsimp only
  split
  · cases via with
    | gsi g =>
      have nonzero : g ≠ 0 := fun zero => some_ (by rw [zero])
      exact Up.trans (m:={l with callbackVia := .gsi g}) (.still rfl rfl id) (callbackUp_up nonzero)
    | pciIntx line =>
      have wired' : Wired {l with callbackVia := .pciIntx line} := ⟨wired.route,some_⟩
      exact Up.trans (m:={l with callbackVia := .pciIntx line}) (.still rfl rfl id) (intxAssert_up wired' line)
    | none => exact .still rfl rfl id
    | vector v => exact .still rfl rfl id
  · exact .still rfl rfl id

theorem setUp_fields (l : IrqLines.State) (via : CallbackVia) :
    (setUp l via).isaIrq = l.isaIrq ∧ (setUp l via).route = l.route ∧ (setUp l via).callbackVia = via := by
  unfold setUp
  dsimp only
  split
  · cases via with
    | pciIntx line =>
      have same := intxAssert_same {l with callbackVia := .pciIntx line} line
      exact ⟨same.isa,same.route,same.callback⟩
    | gsi g | none | vector v => exact ⟨rfl,rfl,rfl⟩
  · exact ⟨rfl,rfl,rfl⟩

theorem level_same (l : IrqLines.State) (asserted : Bool) : Same l (setCallbackIrqLevel l asserted) := by
  rw [setCallbackIrqLevel]
  split
  · exact ⟨rfl,rfl,rfl⟩
  · dsimp only
    split
    · split
      · exact ⟨rfl,rfl,rfl⟩
      · exact ⟨rfl,rfl,rfl⟩
    · split
      · have same := intxAssert_same {l with callbackViaAsserted := asserted} ‹_›
        exact ⟨same.isa,same.route,same.callback⟩
      · have same := intxDeassert_same {l with callbackViaAsserted := asserted} ‹_›
        exact ⟨same.isa,same.route,same.callback⟩
    · exact ⟨rfl,rfl,rfl⟩

theorem assert_counted (exact_ : Exact (pciIntxAssert l line)) (some_ : g ≠ 0) (routed : l.route (hvmPciIntxLink line) = g) :
    (pciIntxAssert l line).gsiAssertCount g ≠ 0 := by
  have same : (pciIntxAssert l line).route (hvmPciIntxLink line) = g := by rw [(intxAssert_same l line).route,routed]
  rw [← same] at some_ ⊢
  exact count_not_zero exact_.gsi (link_on (link_counted exact_ assert_bit) some_)

theorem intxAssert_other (low : g < 16) (differ : l.route (hvmPciIntxLink line) ≠ g) :
    (pciIntxAssert l line).gsiAssertCount g = l.gsiAssertCount g := by
  have high := pciGsi_high line
  have below : g ≠ hvmPciIntxGsi line := by omega
  rw [pciIntxAssert]
  split
  · rfl
  · dsimp only
    split
    · exact (Function.update_of_ne differ.symm ..).trans (Function.update_of_ne below ..)
    · exact Function.update_of_ne below ..

-- What a callback that is set up is counted for.
theorem setUp_counted {via : CallbackVia} (exact_ : Exact (setUp l via)) (asserted : l.callbackViaAsserted = true) (low : g < 16) (some_ : g ≠ 0)
    (none_ : l.gsiAssertCount g = 0) :
    (setUp l via).gsiAssertCount g = 0 ↔ ¬(via = .gsi g ∨ ∃ line, via = .pciIntx line ∧ l.route (hvmPciIntxLink line) = g) := by
  cases via with
  | gsi x =>
    have is : setUp l (.gsi x) = callbackUp {l with callbackVia := .gsi x} x := if_pos asserted
    rw [is] at exact_ ⊢
    by_cases same : x = g
    · subst same
      refine iff_of_false (count_not_zero exact_.gsi (w:=.inr (.inr (.inr ()))) ?_) fun other => other (.inl rfl)
      exact if_pos asserted
    · refine iff_of_true ((Function.update_of_ne (Ne.symm same) ..).trans none_) ?_
      simp [same]
  | pciIntx line =>
    have is : setUp l (.pciIntx line) = pciIntxAssert {l with callbackVia := .pciIntx line} line := if_pos asserted
    rw [is] at exact_ ⊢
    by_cases same : l.route (hvmPciIntxLink line) = g
    · exact iff_of_false (assert_counted exact_ some_ same) fun other => other (.inr ⟨line,rfl,same⟩)
    · refine iff_of_true ((intxAssert_other (l:={l with callbackVia := .pciIntx line}) low same).trans none_) ?_
      simp [same]
  | none | vector v =>
    unfold setUp
    dsimp only
    rw [if_pos asserted]
    exact iff_of_true none_ (by simp)

theorem tearDown_asserted (l : IrqLines.State) : (tearDown l).callbackViaAsserted = l.callbackViaAsserted := by
  rw [tearDown]
  cases l.callbackVia with
  | pciIntx line => exact (deassert_callback l line).2
  | gsi g | none | vector v => rfl

-- In every operation what goes down goes down before anything goes up.
structure Parts (l : IrqLines.State) (op : IrqLines.Event) (m : IrqLines.State) : Prop where
  lowered : Lowered l m (fall l op)
  bytes : Bytes m
  up : Up m (IrqLines.step l op)
  again : ∀ g < 16, g ≠ 0 → l.gsiAssertCount g ≠ 0 → m.gsiAssertCount g = 0 → ((IrqLines.step l op).gsiAssertCount g = 0 ↔ ¬Again l g op)

theorem Parts.rises {op : IrqLines.Event} (exact_ : Exact l) (stays : fall l op = none) (up : Up l (IrqLines.step l op)) : Parts l op l :=
  ⟨by rw [stays]; exact .still rfl rfl,exact_bytes exact_,up,fun _ _ _ counted gone => absurd gone counted⟩

theorem Parts.falls {op : IrqLines.Event} (exact_ : Exact l) (lowered : Lowered l (IrqLines.step l op) (fall l op))
    (gone : ∀ g, ¬Again l g op) : Parts l op (IrqLines.step l op) :=
  ⟨lowered,exact_bytes (step_exact exact_ op),.still rfl rfl id,fun g _ _ _ none_ => iff_of_true none_ (gone g)⟩

theorem via_parts (exact_ : Exact l) (wired : Wired l) (via : BitVec 64) : ∃ m, Parts l (.setCallbackVia via) m := by
  have up {t : IrqLines.State} (same : Same l t) : Up t (setUp t (callbackOf via)) := setUp_up (wired.same same) (callbackOf_ne via)
  have after := step_exact exact_ (.setCallbackVia via)
  cases asserted : l.callbackViaAsserted with
  | false =>
    have is : IrqLines.step l (.setCallbackVia via) = setUp l (callbackOf via) := by rw [IrqLines.step,setCallbackVia,asserted]; rfl
    refine ⟨l,.rises exact_ ?_ (is ▸ up ⟨rfl,rfl,rfl⟩)⟩
    rw [fall,callbackFall,asserted]
  | true =>
    have is : IrqLines.step l (.setCallbackVia via) = setUp (tearDown l) (callbackOf via) := by rw [IrqLines.step,setCallbackVia,asserted]; rfl
    have same := tearDown_same l
    have torn := exact_bytes (tearDown_exact exact_ asserted)
    refine ⟨tearDown l,tearDown_lowered exact_ wired asserted,torn,is ▸ up same,fun g low some_ _ none_ => ?_⟩
    rw [is] at after ⊢
    rw [setUp_counted after ((tearDown_asserted l).trans asserted) low some_ none_,same.route]
    rfl

theorem save_parts (exact_ : Exact l) (wired : Wired l) : ∃ m, Parts l .irqSavePci m := by
  have stays (falls : fall l .irqSavePci = none) (is : (irqSavePci l).2 = l) : ∃ m, Parts l .irqSavePci m := by
    refine ⟨l,.rises exact_ falls ?_⟩
    rw [IrqLines.step,is]
    exact .still rfl rfl id
  cases asserted : l.callbackViaAsserted with
  | false => exact stays (by rw [fall,asserted]) (by rw [irqSavePci,asserted])
  | true =>
    cases via : l.callbackVia with
    | gsi g | none | vector v => exact stays (by rw [fall,asserted,via]) (by rw [irqSavePci,asserted,via])
    | pciIntx line =>
      have is : IrqLines.step l .irqSavePci = pciIntxAssert (pciIntxDeassert l line) line := by rw [IrqLines.step,irqSavePci,asserted,via]
      have falls : fall l .irqSavePci = linkFall l line := by rw [fall,asserted,via]
      have lowered := intxDeassert_lowered exact_ wired line
      have same := intxDeassert_same l line
      refine ⟨pciIntxDeassert l line,falls ▸ lowered,exact_bytes (deassert_exact exact_ line),is ▸ intxAssert_up (wired.same same) line,
        fun g low some_ counted none_ => iff_of_false ?_ fun again => again trivial⟩
      obtain ⟨_,e,fell⟩ := (lowered.zero_iff low counted).mp none_
      have after := step_exact exact_ .irqSavePci
      rw [is] at after ⊢
      exact assert_counted after some_ (by rw [same.route,(linkFall_some fell).1])

theorem route_parts (exact_ : Exact l) (wired : Wired l) (link : Fin 4) (irq : Fin 16) : ∃ m, Parts l (.setPciLinkRoute link irq) m := by
  have is : IrqLines.step l (.setPciLinkRoute link irq) = setPciLinkRoute l link irq := rfl
  by_cases moves : l.route link ≠ irq ∧ l.pciLinkAssertCount link ≠ 0
  · have left := unroute exact_ moves.2 irq.val
    have lowered : Lowered l (if l.route link ≠ 0 then
        gsiDown {l with route := Function.update l.route link irq} (l.route link) [.vpicNegative (l.route link)]
        else {l with route := Function.update l.route link irq}) (fall l (.setPciLinkRoute link irq)) := by
      rw [fall]
      split
      · next some_ =>
        rw [if_pos ⟨moves.1,moves.2,some_⟩]
        exact gsiDown_lowered exact_ (link_on moves.2 some_) (wired.route link) ⟨⟨_,wired.route link⟩,.inr rfl⟩ (.still rfl rfl)
      · next none_ =>
        rw [if_neg fun is => none_ is.2.2]
        exact .still rfl rfl
    rw [setPciLinkRoute,if_neg moves.1,if_neg moves.2] at is
    dsimp only at is
    generalize (if l.route link ≠ 0 then _ else _ : IrqLines.State) = m at left lowered is
    refine ⟨m,lowered,fun g => ?_,?_,fun g low some_ counted none_ => iff_of_true ?_ id⟩
    · rw [left.gsi]
      exact Nat.lt_of_le_of_lt (WiredOr.driven_le _ _) wires_small
    · rw [is]
      split
      · next some_ => exact gsiUp_pic irq (isaGsi_ne fun zero => some_ (congrArg Fin.val zero)) ⟨_,.inr rfl⟩
      · exact .still rfl rfl id
    · obtain ⟨_,e,fell⟩ := (lowered.zero_iff low counted).mp none_
      have own : l.route link = g := by
        rw [fall] at fell
        split at fell
        · cases fell
          rfl
        · cases fell
      rw [is]
      split
      · exact (Function.update_of_ne (fun same => moves.1 (own.trans same)) ..).trans none_
      · exact none_
  · refine ⟨l,.rises exact_ (if_neg fun is => moves ⟨is.1,is.2.1⟩) ?_⟩
    rw [is,setPciLinkRoute]
    dsimp only
    split
    · exact .still rfl rfl id
    · next differ =>
      rw [if_pos (not_not.mp fun counted => moves ⟨differ,counted⟩)]
      exact .still rfl rfl id

theorem level_parts (exact_ : Exact l) (wired : Wired l) (asserted : Bool) : ∃ m, Parts l (.setCallbackIrqLevel asserted) m := by
  have is : IrqLines.step l (.setCallbackIrqLevel asserted) = setCallbackIrqLevel l asserted := rfl
  cases asserted with
  | true =>
    refine ⟨l,.rises exact_ rfl ?_⟩
    rw [is,setCallbackIrqLevel]
    split
    · exact .still rfl rfl id
    · have changed : Up l {l with callbackViaAsserted := true} := .still rfl rfl id
      dsimp only
      split
      · next g via => exact changed.trans (callbackUp_up fun zero => wired.callback (by rw [via,zero]))
      · next line via => exact changed.trans (intxAssert_up (l:={l with callbackViaAsserted := true}) ⟨wired.route,wired.callback⟩ line)
      · exact changed
  | false =>
    cases was : l.callbackViaAsserted with
    | false =>
      refine ⟨l,.rises exact_ (by rw [fall,callbackFall,was]; rfl) ?_⟩
      rw [is,setCallbackIrqLevel,if_pos was]
      exact .still rfl rfl id
    | true =>
      refine ⟨_,.falls exact_ ?_ fun _ => id⟩
      have quiet {v : CallbackVia} : Lowered l {l with callbackViaAsserted := false,callbackVia := v} none := .still rfl rfl
      rw [is,setCallbackIrqLevel,was,if_neg (by decide)]
      cases via : l.callbackVia with
      | gsi g => exact callbackDown_lowered exact_ was via quiet
      | pciIntx line =>
        have lowered := intxDeassert_lowered (exact_.callback false (.pciIntx line) (by rw [via]; rfl)) ⟨wired.route,CallbackVia.noConfusion⟩ line
        rw [fall,callbackFall,was,via]
        exact ⟨lowered.edges,lowered.falling,lowered.own,lowered.other⟩
      | none | vector v =>
        rw [fall,callbackFall,was,via]
        exact quiet

theorem op_parts (exact_ : Exact l) (wired : Wired l) (op : IrqLines.Event) : ∃ m, Parts l op m := by
  cases op with
  | pciIntxAssert line => exact ⟨l,.rises exact_ rfl (intxAssert_up wired line)⟩
  | isaIrqAssert irq => exact ⟨l,.rises exact_ rfl (isaAssert_up l irq)⟩
  | pciIntxDeassert line => exact ⟨_,.falls exact_ (intxDeassert_lowered exact_ wired line) fun _ => id⟩
  | isaIrqDeassert irq => exact ⟨_,.falls exact_ (isaDeassert_lowered exact_ irq) fun _ => id⟩
  | setCallbackVia via => exact via_parts exact_ wired via
  | setCallbackIrqLevel asserted => exact level_parts exact_ wired asserted
  | setPciLinkRoute link irq => exact route_parts exact_ wired link irq
  | irqSavePci => exact save_parts exact_ wired

-- Who may come to use a GSI by an operation.
structure Joins (l : IrqLines.State) (op : IrqLines.Event) (l' : IrqLines.State) : Prop where
  isa : ∀ irq, l'.isaIrq irq = true → l.isaIrq irq = true ∨ op = .isaIrqAssert irq
  route : ∀ link, l'.route link = l.route link ∨ ∃ irq : Fin 16, op = .setPciLinkRoute link irq ∧ l'.route link = irq
  callback : l'.callbackVia = l.callbackVia ∨ ∃ via, op = .setCallbackVia via ∧ l'.callbackVia = callbackOf via

theorem Same.joins {op : IrqLines.Event} (same : Same l l') : Joins l op l' :=
  ⟨fun irq on => .inl (same.isa ▸ on),fun link => .inl (by rw [same.route]),.inl same.callback⟩

theorem op_joins (l : IrqLines.State) (op : IrqLines.Event) : Joins l op (IrqLines.step l op) := by
  have stays : Same l l := ⟨rfl,rfl,rfl⟩
  cases op with
  | pciIntxAssert line => exact (intxAssert_same l line).joins
  | pciIntxDeassert line => exact (intxDeassert_same l line).joins
  | setCallbackIrqLevel asserted => exact (level_same l asserted).joins
  | isaIrqAssert irq =>
    rw [IrqLines.step,isaIrqAssert]
    split
    · exact stays.joins
    · refine ⟨fun other on => ?_,fun link => .inl rfl,.inl rfl⟩
      by_cases same : other = irq
      · exact .inr (by rw [same])
      · change Function.update l.isaIrq irq true other = true at on
        rw [Function.update_of_ne same] at on
        exact .inl on
  | isaIrqDeassert irq =>
    rw [IrqLines.step,isaIrqDeassert]
    split
    · refine ⟨fun other on => .inl ?_,fun link => .inl rfl,.inl rfl⟩
      change Function.update l.isaIrq irq false other = true at on
      by_cases same : other = irq
      · rw [same,Function.update_self] at on
        cases on
      · rwa [Function.update_of_ne same] at on
    · exact stays.joins
  | setCallbackVia via =>
    rw [IrqLines.step,setCallbackVia]
    split
    · obtain ⟨isa,route,callback⟩ := setUp_fields (tearDown l) (callbackOf via)
      have same := tearDown_same l
      exact ⟨fun irq on => .inl (by rwa [isa,same.isa] at on),fun link => .inl (by rw [route,same.route]),.inr ⟨via,rfl,callback⟩⟩
    · obtain ⟨isa,route,callback⟩ := setUp_fields l (callbackOf via)
      exact ⟨fun irq on => .inl (by rwa [isa] at on),fun link => .inl (by rw [route]),.inr ⟨via,rfl,callback⟩⟩
  | irqSavePci =>
    change Joins l _ (irqSavePci l).2
    unfold irqSavePci
    split
    · next line _ _ =>
      have first := intxDeassert_same l line
      have second := intxAssert_same (pciIntxDeassert l line) line
      exact Same.joins ⟨second.isa.trans first.isa,second.route.trans first.route,second.callback.trans first.callback⟩
    · exact stays.joins
  | setPciLinkRoute link irq =>
    have routed (other : Fin 4) : Function.update l.route link irq.val other = l.route other ∨
        ∃ irq' : Fin 16, IrqLines.Event.setPciLinkRoute link irq = .setPciLinkRoute other irq' ∧ Function.update l.route link irq.val other = irq' := by
      by_cases same : other = link
      · subst same
        exact .inr ⟨irq,rfl,Function.update_self ..⟩
      · exact .inl (Function.update_of_ne same ..)
    rw [IrqLines.step,setPciLinkRoute]
    dsimp only
    repeat' split
    all_goals first | exact stays.joins | exact ⟨fun _ on => .inl on,routed,.inl rfl⟩

theorem op_wired (wired : Wired l) (op : IrqLines.Event) : Wired (IrqLines.step l op) := by
  have joins := op_joins l op
  refine ⟨fun link => ?_,fun zero => ?_⟩
  · rcases joins.route link with same | ⟨irq,_,new⟩
    · rw [same]
      exact wired.route link
    · rw [new]
      exact irq.isLt
  · rcases joins.callback with same | ⟨via,_,new⟩
    · exact wired.callback (same.symm.trans zero)
    · exact callbackOf_ne via (new.symm.trans zero)

end Lines

section Runs
variable {s s' : System} {l : IrqLines.State} {pic : VirtualPic.State} {usePirq : Nat → Bool} {irq : Fin 16} {downs ups : List Edge}

-- An edge that withdraws the request of line `irq`.
def withdraws (usePirq : Nat → Bool) (irq : Fin 16) : Edge → Bool
  | .deassertIrq isaIrq => isaIrq == irq.val && !usePirq isaIrq
  | .vpicNegative line => line == irq.val
  | _ => false

theorem requested_falling {e : Edge} (falling : Falling e) (other : irq ≠ 2) :
    requested (tellPic usePirq pic e) irq = (requested pic irq && !withdraws usePirq irq e) := by
  have negative (line : Fin 16) : requested (vpicIrqNegativeEdge line pic) irq = (requested pic irq && !(line.val == irq.val)) := by
    rw [vpicIrqNegativeEdge,requested_edge false line other]
    by_cases same : irq = line
    · simp [same]
    · have differ : line.val ≠ irq.val := fun eq => same (Fin.ext eq.symm)
      simp [same,differ]
  obtain ⟨line,rfl | rfl⟩ := falling
  · rw [tellPic,withdraws]
    cases used : usePirq line with
    | true => simp
    | false =>
      rw [if_neg (by decide),negative line]
      simp
  · exact negative line

theorem requested_told (l : IrqLines.State) (usePirq : Nat → Bool) (pic : VirtualPic.State) {f : Fall} (falling : ∀ e ∈ told l f, Falling e) (other : irq ≠ 2) :
    requested ((told l f).foldl (tellPic usePirq) pic) irq = (requested pic irq && !(told l f).any (withdraws usePirq irq)) := by
  rcases f with _ | ⟨g,e⟩
  · simp [told]
  · rw [told] at falling ⊢
    split at falling
    · simp [*,requested_falling (falling e (by simp)) other]
    · simp [*]

theorem requested_ups (rising : ∀ e ∈ ups, Rising l e) (other : irq ≠ 2)
    (set_ : requested (ups.foldl (tellPic usePirq) pic) irq = true) :
    requested pic irq = true ∨ l.gsiAssertCount (hvmIsaIrqToGsi irq) ≠ 0 := by
  induction ups generalizing pic with
  | nil => exact .inl set_
  | cons e rest ih =>
    rcases ih (fun e later => rising e (List.mem_cons_of_mem _ later)) set_ with before | counted
    · rcases rising e (by simp) with ⟨g,rfl | rfl⟩ | ⟨line,rfl,counted⟩
      · exact .inl before
      · exact .inl before
      · rw [tellPic,vpicIrqPositiveEdge,requested_edge true line other] at before
        split at before
        · next same => exact .inr (by rw [same]; exact counted)
        · exact .inl before
    · exact .inr counted

-- Nothing but a positive edge of its own line keeps a request from being
-- withdrawn.
theorem ups_keep (rising : ∀ e ∈ ups, Rising l e) (other : irq ≠ 2) (set_ : requested pic irq = true) :
    requested (ups.foldl (tellPic usePirq) pic) irq = true := by
  induction ups generalizing pic with
  | nil => exact set_
  | cons e rest ih =>
    refine ih (fun e later => rising e (List.mem_cons_of_mem _ later)) ?_
    rcases rising e (by simp) with ⟨g,rfl | rfl⟩ | ⟨line,rfl,counted⟩
    · exact set_
    · exact set_
    · rw [tellPic,vpicIrqPositiveEdge,requested_edge true line other,set_,ite_self]

structure Good (s : System) : Prop where
  exact_ : Exact s.lines
  wired : Wired s.lines
  backed : Backed s

-- What takes the last source of a requested line away withdraws the request.
def Withdraws (s : System) : Event → Prop
  | .line op => ∀ irq : Fin 16, irq ≠ 2 → requested s.pic irq = true →
      ∀ e, Last s.lines op (hvmIsaIrqToGsi irq) e → withdraws s.usePirq irq e = true
  | _ => True

theorem exact_quiet (exact_ : Exact l) : Exact {l with edges := []} := ⟨exact_.gsi,exact_.link,exact_.unwrapped⟩

-- What an operation sends: the edge of the source it takes away, then those of
-- the sources it gives.
structure Sends (s : System) (op : IrqLines.Event) (ups : List Edge) : Prop where
  edges : (operated s op).edges = told s.lines (fall s.lines op) ++ ups
  falling : ∀ e ∈ told s.lines (fall s.lines op), Falling e
  rising : ∀ e ∈ ups, Rising (operated s op) e
  last : ∀ irq : Fin 16, s.lines.gsiAssertCount (hvmIsaIrqToGsi irq) ≠ 0 →
    ((operated s op).gsiAssertCount (hvmIsaIrqToGsi irq) = 0 ↔ ∃ e, Last s.lines op (hvmIsaIrqToGsi irq) e)

theorem op_sends (exact_ : Exact s.lines) (wired : Wired s.lines) (op : IrqLines.Event) : ∃ ups, Sends s op ups := by
  obtain ⟨m,parts⟩ := op_parts (exact_quiet exact_) ⟨wired.route,wired.callback⟩ op
  obtain ⟨ups,raised⟩ := parts.up.raised parts.bytes (step_exact (exact_quiet exact_) op).unwrapped
  refine ⟨ups,raised.edges.trans (by rw [parts.lowered.edges]; rfl),parts.lowered.falling,raised.rising,fun irq counted => ?_⟩
  obtain ⟨low,some_⟩ := isaGsi_low irq
  have zero := parts.lowered.zero_iff low counted
  have again := parts.again _ low some_ counted
  constructor
  · intro gone
    have none_ : m.gsiAssertCount (hvmIsaIrqToGsi irq) = 0 := Nat.le_zero.mp (gone ▸ raised.more _)
    obtain ⟨one,e,fell⟩ := zero.mp none_
    exact ⟨e,one,fell,(again none_).mp gone⟩
  · intro ⟨e,last⟩
    exact (again (zero.mpr ⟨last.one,e,last.falls⟩)).mpr last.gone

theorem line_backed (good : Good s) (op : IrqLines.Event) (taken : step s (.line op) = some s') : Backed s' ↔ Withdraws s (.line op) := by
  cases taken
  obtain ⟨ups,sends⟩ := op_sends good.exact_ good.wired op
  unfold Backed Withdraws
  dsimp only
  rw [sends.edges,List.foldl_append]
  refine forall_congr' fun irq => forall_congr' fun other => ?_
  have fallen := requested_told s.lines s.usePirq s.pic sends.falling other
  have told_last {e : Edge} (last : Last s.lines op (hvmIsaIrqToGsi irq) e) : told s.lines (fall s.lines op) = [e] := by
    rw [last.falls]
    exact if_pos last.one
  constructor
  · intro backed set_ e last
    by_contra silent
    refine backed (ups_keep sends.rising other ?_) ((sends.last irq (good.backed irq other set_)).mpr ⟨e,last⟩)
    rw [fallen,told_last last,set_]
    simpa using silent
  · intro withdrawn set_ gone
    rcases requested_ups sends.rising other set_ with before | counted
    · rw [fallen,Bool.and_eq_true] at before
      obtain ⟨e,last⟩ := (sends.last irq (good.backed irq other before.1)).mp gone
      have kept := before.2
      rw [told_last last,List.any_cons,withdrawn before.1 e last] at kept
      cases kept
    · exact counted gone

-- An operation on the lines, an access that makes no request, or a pirq.
theorem step_cases {event : Event} (taken : step s event = some s') :
    (∃ op, event = .line op ∧ s' = {s with lines := operated s op,pic := (operated s op).edges.foldl (tellPic s.usePirq) s.pic}) ∨
      (∃ pic, s' = {s with pic} ∧ Fewer s.pic pic) ∨
      ∃ emuirq used, event = .remap emuirq used ∧ s' = {s with usePirq := Function.update s.usePirq emuirq used} := by
  cases event with
  | line op => exact .inl ⟨op,rfl,(Option.some.inj taken).symm⟩
  | write p odd val => exact .inr (.inl ⟨_,(Option.some.inj taken).symm,fewer_updated (writeRegister_irr _ odd val)⟩)
  | read p odd =>
    obtain ⟨⟨pic,val⟩,done,same⟩ := Option.map_eq_some_iff.mp taken
    exact .inr (.inl ⟨pic,same.symm,read_fewer done⟩)
  | writeElcr p val => exact .inr (.inl ⟨_,(Option.some.inj taken).symm,writeElcr_fewer p val⟩)
  | ack accepts =>
    obtain ⟨⟨pic,vector⟩,done,same⟩ := Option.map_eq_some_iff.mp taken
    exact .inr (.inl ⟨pic,same.symm,ack_fewer done⟩)
  | remap emuirq used => exact .inr (.inr ⟨emuirq,used,rfl,(Option.some.inj taken).symm⟩)

theorem step_lines {event : Event} (exact_ : Exact s.lines) (wired : Wired s.lines) (taken : step s event = some s') :
    Exact s'.lines ∧ Wired s'.lines := by
  rcases step_cases taken with ⟨op,_,rfl⟩ | ⟨pic,rfl,_⟩ | ⟨_,_,_,rfl⟩
  · exact ⟨step_exact (exact_quiet exact_) op,op_wired (l:={s.lines with edges := []}) ⟨wired.route,wired.callback⟩ op⟩
  · exact ⟨exact_,wired⟩
  · exact ⟨exact_,wired⟩

theorem step_good {event : Event} (good : Good s) (withdraws : Withdraws s event) (taken : step s event = some s') : Good s' := by
  obtain ⟨exact_,wired⟩ := step_lines good.exact_ good.wired taken
  refine ⟨exact_,wired,?_⟩
  rcases step_cases taken with ⟨op,rfl,_⟩ | ⟨pic,rfl,fewer⟩ | ⟨_,_,_,rfl⟩
  · exact (line_backed good op taken).mpr withdraws
  · exact fun irq other set_ => good.backed irq other (fewer irq other set_)
  · exact good.backed

theorem reset_good : Good reset := by
  have routes : ∀ link, reset.lines.route link < 16 := by decide
  refine ⟨initial_exact,⟨routes,CallbackVia.noConfusion⟩,fun irq other set_ => ?_⟩
  have none_ : ∀ irq : Fin 16, requested VirtualPic.vpicReset irq = false := by decide
  rw [reset,none_ irq] at set_
  cases set_

-- No pirq is in use, and only ISA irq 0 comes to GSI 2.
def Plain : Event → Prop
  | .remap _ used => used = false
  | .line (.isaIrqAssert irq) => irq ≠ 2
  | .line (.setPciLinkRoute _ irq) => irq ≠ 2
  | .line (.setCallbackVia via) => callbackOf via ≠ .gsi 2
  | _ => True

structure Apart (s : System) : Prop where
  unused : ∀ irq, s.usePirq irq = false
  isa : s.lines.isaIrq 2 = false
  route : ∀ link, s.lines.route link ≠ 2
  callback : s.lines.callbackVia ≠ .gsi 2

-- GSI 2 falls for ISA irq 0 only, any other for its own line.
theorem fall_withdraws (apart : Apart s) (op : IrqLines.Event) (other : irq ≠ 2) {e : Edge}
    (fell : fall s.lines op = some (hvmIsaIrqToGsi irq,e)) : withdraws s.usePirq irq e = true := by
  have deasserts : withdraws s.usePirq irq (.deassertIrq irq) = true := by simp [withdraws,apart.unused]
  have lowers : withdraws s.usePirq irq (.vpicNegative irq) = true := by simp [withdraws]
  have direct (differ : hvmIsaIrqToGsi irq ≠ 2) : hvmIsaIrqToGsi irq = irq := isaGsi_ne fun zero => differ (by rw [zero]; rfl)
  have parts {c : Prop} [Decidable c] {g : Nat} {e' : Edge} (fell : (if c then some (g,e') else none) = some (hvmIsaIrqToGsi irq,e)) :
      c ∧ g = hvmIsaIrqToGsi irq ∧ e' = e := by simpa using fell
  have linked {line : Line} (fell : linkFall s.lines line = some (hvmIsaIrqToGsi irq,e)) : withdraws s.usePirq irq e = true := by
    obtain ⟨_,routed,rfl⟩ := parts fell
    rwa [routed,direct (routed ▸ apart.route _)]
  have called (fell : callbackFall s.lines = some (hvmIsaIrqToGsi irq,e)) : withdraws s.usePirq irq e = true := by
    rw [callbackFall] at fell
    split at fell
    · next g _ via =>
      obtain ⟨_,own,rfl⟩ := parts fell
      rwa [own,direct fun two => apart.callback (by rw [via,own,two])]
    · exact linked fell
    · cases fell
  cases op with
  | pciIntxAssert | isaIrqAssert => cases fell
  | pciIntxDeassert line => exact linked fell
  | isaIrqDeassert line =>
    obtain ⟨on,own,rfl⟩ := parts fell
    have differ : line ≠ 2 := by
      rintro rfl
      rw [apart.isa] at on
      cases on
    have own_line : ∀ i j : Fin 16, i ≠ 2 → j ≠ 2 → hvmIsaIrqToGsi j = hvmIsaIrqToGsi i → j = i := by decide
    rwa [own_line irq line other differ own]
  | setPciLinkRoute link line =>
    obtain ⟨_,own,rfl⟩ := parts fell
    rwa [own,direct (own ▸ apart.route link)]
  | setCallbackVia via => exact called fell
  | setCallbackIrqLevel asserted =>
    cases asserted with
    | true => cases fell
    | false => exact called fell
  | irqSavePci =>
    rw [fall] at fell
    split at fell
    · exact linked fell
    · cases fell

theorem apart_withdraws (apart : Apart s) (event : Event) : Withdraws s event := by
  cases event with
  | line op => exact fun irq other _ e last => fall_withdraws apart op other last.falls
  | write | read | writeElcr | ack | remap => trivial

theorem step_apart {event : Event} (apart : Apart s) (plain : Plain event) (taken : step s event = some s') : Apart s' := by
  rcases step_cases taken with ⟨op,rfl,rfl⟩ | ⟨pic,rfl,_⟩ | ⟨emuirq,used,rfl,rfl⟩
  · have joins := op_joins {s.lines with edges := []} op
    refine ⟨apart.unused,?_,fun link => ?_,?_⟩
    · by_contra on
      rcases joins.isa 2 (Bool.not_eq_false _ ▸ on) with before | rfl
      · exact absurd (before.symm.trans apart.isa) (by decide)
      · exact plain rfl
    · rcases joins.route link with same | ⟨irq,rfl,new⟩
      · exact fun two => apart.route link (same.symm.trans two)
      · exact fun two => plain (Fin.ext (new.symm.trans two))
    · rcases joins.callback with same | ⟨via,rfl,new⟩
      · exact fun two => apart.callback (same.symm.trans two)
      · exact fun two => plain (new.symm.trans two)
  · exact ⟨apart.unused,apart.isa,apart.route,apart.callback⟩
  · refine ⟨fun irq => ?_,apart.isa,apart.route,apart.callback⟩
    dsimp only
    by_cases same : irq = emuirq
    · rw [same,Function.update_self]
      exact plain
    · rw [Function.update_of_ne same]
      exact apart.unused irq

-- A request is backed by a count throughout a run exactly when every operation
-- that takes the last source of a requested line away also withdraws the
-- request. Without pirqs and with GSI 2 left to the timer all of them do.
theorem requests_backed_exactly (events : List Event) :
    ((∀ first, first <+: events → ∀ s, Run.run step reset first = some s → Backed s) ↔ Run.Guarded Withdraws step reset events) ∧
      ((∀ event ∈ events, Plain event) → ∀ s, Run.run step reset events = some s → Backed s) := by
  constructor
  · refine Run.guarded_exact_refusing (P:=Good) (fun s good => good.backed) (fun s event => ?_)
      (fun s event next good allowed taken => step_good good allowed taken) (fun s event next good taken backed => ?_) reset_good
    · cases event with
      | line op => exact .inl ⟨_,rfl⟩
      | write | read | writeElcr | ack | remap => exact .inr trivial
    · cases event with
      | line op => exact (line_backed good op taken).mp backed
      | write | read | writeElcr | ack | remap => trivial
  · intro plain s ran
    have guarded : Run.Guarded (fun _ event => Plain event) step reset events := Run.guarded_of_mem fun _ event listed => plain event listed
    have kept : Good s ∧ Apart s := by
      refine Run.guarded_invariant (P:=fun s => Good s ∧ Apart s) (fun s event next held plain taken => ?_) ⟨reset_good,?_⟩ guarded ran
      · exact ⟨step_good held.1 (apart_withdraws held.2 event) taken,step_apart held.2 plain taken⟩
      · have routes : ∀ link, reset.lines.route link ≠ 2 := by decide
        exact ⟨fun _ => rfl,rfl,routes,CallbackVia.noConfusion⟩
    exact kept.1.backed

-- Line 5 with a pirq in use, and the timer with the callback on GSI 2.
theorem requests_stuck :
    (∃ s, Run.run step reset [.remap 5 true,.line (.isaIrqAssert 5),.line (.isaIrqDeassert 5)] = some s ∧
      requested s.pic 5 = true ∧ s.lines.gsiAssertCount (hvmIsaIrqToGsi 5) = 0) ∧
    ∃ s, Run.run step reset [.line (.isaIrqAssert 0),.line (.setCallbackVia 2#64),.line (.setCallbackIrqLevel true),.line (.isaIrqDeassert 0),
        .line (.setCallbackIrqLevel false)] = some s ∧
      requested s.pic 0 = true ∧ s.lines.gsiAssertCount (hvmIsaIrqToGsi 0) = 0 :=
  ⟨Run.run_reaches (by decide +kernel),Run.run_reaches (by decide +kernel)⟩

end Runs

end XenAet.PicRequests
