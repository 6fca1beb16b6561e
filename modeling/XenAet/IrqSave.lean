import XenAet.PicRequests

namespace XenAet.IrqSave
open XenAet.IrqLines hiding step Event
open XenAet.PicRequests Library
open XenAet.VirtualPic (Pic Vpic vpicIrqEdge vpicIrqPositiveEdge vpicIrqNegativeEdge vpicUpdateIntOutput picOf)
open XenAet.PicOutput (Consistent updateMaster_eq edge_consistent)

variable {s : System} {l : IrqLines.State} {pic pic' : VirtualPic.State} {irq : Fin 16} {line : Line}

-- `irq_save_pci`: what is written to the image, and what it leaves behind.
def image (s : System) : Line → Bool := (irqSavePci {s.lines with edges := []}).1

def saved (s : System) : System := {s with
  lines := operated s .irqSavePci
  pic := (operated s .irqSavePci).edges.foldl (tellPic s.usePirq) s.pic}

def callbackOn (l : IrqLines.State) (line : Line) : Bool := l.callbackViaAsserted && decide (l.callbackVia = .pciIntx line)

structure Unobserved (s s' : System) : Prop where
  bits : s'.lines.pciIntx = s.lines.pciIntx
  links : s'.lines.pciLinkAssertCount = s.lines.pciLinkAssertCount
  gsis : s'.lines.gsiAssertCount = s.lines.gsiAssertCount
  irr : ∀ p, (s'.pic.get p).irr = (s.pic.get p).irr
  isr : ∀ p, (s'.pic.get p).isr = (s.pic.get p).isr

-- The counters are bytes, a route is an ISA irq, and the outputs of the PIC are
-- up to date.
structure Sound (s : System) : Prop where
  gsis : Bytes s.lines
  links : ∀ link, s.lines.pciLinkAssertCount link < 256
  route : ∀ link, s.lines.route link < 16
  outputs : Consistent s.pic

-- The line is the only one that holds up its link, and the link the only
-- source of the ISA irq it is routed to.
def Alone (l : IrqLines.State) (line : Line) : Prop :=
  l.pciLinkAssertCount (hvmPciIntxLink line) = 1 ∧ l.route (hvmPciIntxLink line) ≠ 0 ∧ l.gsiAssertCount (l.route (hvmPciIntxLink line)) = 1

instance (l : IrqLines.State) (line : Line) : Decidable (Alone l line) := inferInstanceAs (Decidable (_ ∧ _ ∧ _))

section Lines

theorem down_up {G : Type} [DecidableEq G] (count : G → Nat) (g : G) (byte : count g < 256) :
    WiredOr.bump 256 (Function.update count g ((count g + 255) % 256)) g = count := by
  rw [WiredOr.bump,Function.update_self,Function.update_idem]
  refine (congrArg (Function.update count g) ?_).trans (Function.update_eq_self g count)
  omega

theorem down_up_other {G : Type} [DecidableEq G] (count : G → Nat) {g h : G} (differ : h ≠ g) (n : Nat) :
    WiredOr.bump 256 (Function.update count g n) h = Function.update (WiredOr.bump 256 count h) g n := by
  rw [WiredOr.bump,WiredOr.bump,Function.update_of_ne differ,Function.update_comm differ]

-- What the PIC hears of the line going down and up.
def heard (l : IrqLines.State) (line : Line) : List Edge :=
  (if Alone l line then [Edge.deassertIrq (isaOf l line)] else []) ++
    (if l.gsiAssertCount (hvmPciIntxGsi line) = 1 then [.assertGsi (hvmPciIntxGsi line)] else []) ++
    if Alone l line then assertIrq (isaOf l line) (isaOf l line) else []

structure Restored (l l' : IrqLines.State) (heard : List Edge) : Prop where
  bits : l'.pciIntx = l.pciIntx
  links : l'.pciLinkAssertCount = l.pciLinkAssertCount
  gsis : l'.gsiAssertCount = l.gsiAssertCount
  edges : l'.edges = l.edges ++ heard

theorem bits_restored (up : l.pciIntx line = true) : Function.update (Function.update l.pciIntx line false) line true = l.pciIntx := by
  rw [Function.update_idem,← up,Function.update_eq_self]

theorem lowered_edges (l : IrqLines.State) (line : Line) : (lowered l line).edges = l.edges := by
  change (if _ then l.edges ++ [] else l.edges) = l.edges
  rw [List.append_nil,ite_self]

theorem raised_edges (l : IrqLines.State) (line : Line) : (raised l line).edges =
    l.edges ++ if l.gsiAssertCount (hvmPciIntxGsi line) = 0 then [.assertGsi (hvmPciIntxGsi line)] else [] := gsiUp_edges

theorem line_restored (up : l.pciIntx line = true) (gsis : Bytes l) (links : ∀ link, l.pciLinkAssertCount link < 256)
    (low : isaOf l line < 16) : Restored l (pciIntxAssert (pciIntxDeassert l line) line) (heard l line) := by
  have differ : hvmPciIntxGsi line ≠ isaOf l line := by
    have high := pciGsi_high line
    omega
  have count : (lowered l line).pciLinkAssertCount (hvmPciIntxLink line) = (l.pciLinkAssertCount (hvmPciIntxLink line) + 255) % 256 :=
    Function.update_self ..
  have counted : (lowered l line).gsiAssertCount (isaOf l line) = l.gsiAssertCount (isaOf l line) := Function.update_of_ne differ.symm ..
  have own : (lowered l line).gsiAssertCount (hvmPciIntxGsi line) = (l.gsiAssertCount (hvmPciIntxGsi line) + 255) % 256 :=
    Function.update_self ..
  rw [deassert_eq up]
  by_cases last : (l.pciLinkAssertCount (hvmPciIntxLink line) + 255) % 256 = 0 ∧ isaOf l line ≠ 0
  · have down : (gsiDown (lowered l line) (isaOf l line) [.deassertIrq (isaOf l line)]).pciIntx line = false := Function.update_self ..
    rw [if_pos last,assert_eq down,if_pos ⟨count.trans last.1,last.2⟩]
    refine ⟨bits_restored up,down_up _ _ (links _),?_,?_⟩
    · change WiredOr.bump 256 (WiredOr.bump 256 (Function.update (Function.update l.gsiAssertCount (hvmPciIntxGsi line)
        ((l.gsiAssertCount (hvmPciIntxGsi line) + 255) % 256)) (isaOf l line) (((lowered l line).gsiAssertCount (isaOf l line) + 255) % 256)) (hvmPciIntxGsi line)) (isaOf l line) = l.gsiAssertCount
      rw [down_up_other _ differ,down_up _ _ (gsis _),counted,down_up _ _ (gsis _)]
    · have alone : Alone l line ↔ l.gsiAssertCount (isaOf l line) = 1 :=
        ⟨fun alone => alone.2.2,fun one => ⟨(last_iff (links _)).mp last.1,last.2,one⟩⟩
      have ownAfter : (gsiDown (lowered l line) (isaOf l line) [.deassertIrq (isaOf l line)]).gsiAssertCount (hvmPciIntxGsi line) =
          (l.gsiAssertCount (hvmPciIntxGsi line) + 255) % 256 := (Function.update_of_ne differ ..).trans own
      have isaAfter : (raised (gsiDown (lowered l line) (isaOf l line) [.deassertIrq (isaOf l line)]) line).gsiAssertCount (isaOf l line) =
          (l.gsiAssertCount (isaOf l line) + 255) % 256 := by
        refine (Function.update_of_ne differ.symm ..).trans ((Function.update_self ..).trans ?_)
        rw [counted]
      change (gsiUp _ _ _).edges = _
      rw [gsiUp_edges,raised_edges,gsiDown_edges (counted ▸ gsis _),lowered_edges,counted]
      change ((l.edges ++ _) ++ if (gsiDown (lowered l line) (isaOf l line) [.deassertIrq (isaOf l line)]).gsiAssertCount (hvmPciIntxGsi line) = 0
        then _ else _) ++ (if (raised (gsiDown (lowered l line) (isaOf l line) [.deassertIrq (isaOf l line)]) line).gsiAssertCount (isaOf l line) = 0
        then _ else _) = _
      rw [ownAfter,isaAfter,heard]
      simp only [last_iff (gsis _),alone,List.append_assoc]
      rfl
  · have alone : ¬ Alone l line := fun alone => last ⟨(last_iff (links _)).mpr alone.1,alone.2.1⟩
    have down : (lowered l line).pciIntx line = false := Function.update_self ..
    rw [if_neg last,assert_eq down,if_neg fun is => last ⟨count.symm.trans is.1,is.2⟩]
    refine ⟨bits_restored up,down_up _ _ (links _),down_up _ _ (gsis _),?_⟩
    rw [raised_edges,lowered_edges,own,heard,if_neg alone,if_neg alone,List.nil_append,List.append_nil]
    simp only [last_iff (gsis _)]

end Lines

section Pic

-- Only the requests and the output differ.
def Requests (pic pic' : VirtualPic.State) : Prop := ∀ p, pic'.get p = {pic.get p with irr := (pic'.get p).irr,intOutput := (pic'.get p).intOutput}

theorem Requests.trans {pic'' : VirtualPic.State} (first : Requests pic pic') (second : Requests pic' pic'') : Requests pic pic'' := by
  intro p
  rw [second p,first p]

theorem requests_set (p : Pic) (irr : BitVec 8) : Requests pic (pic.set_ p {pic.get p with irr}) := by
  intro q
  rw [get_set]
  split
  · next same => rw [same]
  · rfl

theorem requests_update (p : Pic) : Requests pic (vpicUpdateIntOutput pic p) := by
  intro q
  cases p with
  | master =>
    rw [vpicUpdateIntOutput,updateMaster_eq]
    cases q <;> rfl
  | slave =>
    rw [vpicUpdateIntOutput]
    split
    · rfl
    · rw [updateMaster_eq]
      cases q <;> rfl

theorem requests_edge (positive : Bool) (line : Nat) : Requests pic (vpicIrqEdge positive line pic) := by
  rw [vpicIrqEdge]
  split
  · exact fun p => rfl
  · dsimp only
    split
    · exact (requests_set _ _).trans (requests_update _)
    · exact requests_set _ _

theorem bit_requested (p : Pic) {i : Nat} (low : i < 8) (other : p = .master → i ≠ 2) :
    ∃ irq : Fin 16, irq ≠ 2 ∧ ∀ pic, requested pic irq = (pic.get p).irr.getLsbD i := by
  cases p with
  | master =>
    refine ⟨⟨i,by omega⟩,fun two => other rfl (congrArg Fin.val two),fun pic => ?_⟩
    rw [requested,picOf,if_pos low,Nat.mod_eq_of_lt low]
  | slave =>
    refine ⟨⟨i + 8,by omega⟩,fun two => absurd (congrArg Fin.val two) (by change i + 8 ≠ 2; omega),fun pic => ?_⟩
    rw [requested,picOf,if_neg (by change ¬ i + 8 < 8; omega),Nat.add_mod_right,Nat.mod_eq_of_lt low]

-- The line from the slave follows the others, so that equal requests on them
-- are equal requests.
theorem irr_same (held : Consistent pic) (held' : Consistent pic') (requests : Requests pic pic')
    (same : ∀ irq : Fin 16, irq ≠ 2 → requested pic' irq = requested pic irq) (p : Pic) : (pic'.get p).irr = (pic.get p).irr := by
  have slave : pic'.slave.irr = pic.slave.irr := by
    refine BitVec.eq_of_getLsbD_eq fun i low => ?_
    obtain ⟨irq,other,is⟩ := bit_requested .slave low Pic.noConfusion
    exact (is pic').symm.trans ((same irq other).trans (is pic))
  cases p with
  | slave => exact slave
  | master =>
    have output : pic'.slave.intOutput = pic.slave.intOutput := by
      have registers : pic'.slave = {pic.slave with irr := pic'.slave.irr,intOutput := pic'.slave.intOutput} := requests .slave
      rw [held'.slave,held.slave,registers,slave]
      rfl
    refine BitVec.eq_of_getLsbD_eq fun i low => ?_
    by_cases two : i = 2
    · rw [two]
      exact held'.cascade.trans (output.trans held.cascade.symm)
    · obtain ⟨irq,other,is⟩ := bit_requested .master low fun _ => two
      exact (is pic').symm.trans ((same irq other).trans (is pic))

end Pic

section Save

theorem callbackOn_spec : callbackOn l line = true ↔ l.callbackViaAsserted = true ∧ l.callbackVia = .pciIntx line := by
  rw [callbackOn,Bool.and_eq_true,decide_eq_true_iff]

theorem save_on (on : callbackOn l line = true) :
    irqSavePci l = ((pciIntxDeassert l line).pciIntx,pciIntxAssert (pciIntxDeassert l line) line) := by
  obtain ⟨asserted,via⟩ := callbackOn_spec.mp on
  rw [irqSavePci,asserted,via]

theorem save_off (off : ∀ line, callbackOn l line = false) : irqSavePci l = (l.pciIntx,l) := by
  unfold irqSavePci
  split
  · next line asserted via => exact absurd (callbackOn_spec.mpr ⟨asserted,via⟩) (by rw [off line]; decide)
  · rfl

theorem callback_cases (l : IrqLines.State) : (∃ line, callbackOn l line = true) ∨ ∀ line, callbackOn l line = false := by
  by_cases some_ : ∃ line, callbackOn l line = true
  · exact .inl some_
  · exact .inr fun line => Bool.eq_false_iff.mpr fun on => some_ ⟨line,on⟩

theorem callbackOn_other {other : Line} (on : callbackOn l line = true) : callbackOn l other = decide (other = line) := by
  obtain ⟨asserted,via⟩ := callbackOn_spec.mp on
  rw [callbackOn,asserted,via,Bool.true_and]
  exact decide_eq_decide.mpr ⟨fun same => (CallbackVia.pciIntx.inj same).symm,fun same => congrArg _ same.symm⟩

theorem deassert_bits : (pciIntxDeassert l line).pciIntx = Function.update l.pciIntx line false := by
  by_cases up : l.pciIntx line = true
  · rw [deassert_eq up]
    split
    · rfl
    · rfl
  · have down := Bool.eq_false_iff.mpr up
    rw [pciIntxDeassert,if_neg up,← down,Function.update_eq_self]

theorem image_eq (s : System) : image s = fun line => s.lines.pciIntx line && !callbackOn s.lines line := by
  rw [image]
  rcases callback_cases {s.lines with edges := []} with ⟨line,on⟩ | off
  · rw [save_on on]
    dsimp only
    rw [deassert_bits]
    funext other
    have is : callbackOn s.lines other = decide (other = line) := callbackOn_other on
    rw [is]
    by_cases same : other = line
    · rw [same,Function.update_self]
      simp
    · rw [Function.update_of_ne same]
      simp [same]
  · rw [save_off off]
    funext line
    rw [show callbackOn s.lines line = false from off line]
    simp

-- The request is withdrawn, or is not where a pirq is in use, and made again.
theorem heard_pic (usePirq : Nat → Bool) (pic : VirtualPic.State) : (heard l line).foldl (tellPic usePirq) pic =
    if Alone l line then vpicIrqPositiveEdge (isaOf l line) (tellPic usePirq pic (.deassertIrq (isaOf l line))) else pic := by
  rw [heard]
  by_cases alone : Alone l line
  · simp only [if_pos alone]
    split
    · rfl
    · rfl
  · simp only [if_neg alone]
    split
    · rfl
    · rfl

theorem deassertIrq_requests (usePirq : Nat → Bool) (isa : Nat) : Requests pic (tellPic usePirq pic (.deassertIrq isa)) := by
  rw [tellPic]
  split
  · exact fun p => rfl
  · exact requests_edge false isa

theorem deassertIrq_consistent (usePirq : Nat → Bool) (held : Consistent pic) (irq : Fin 16) : Consistent (tellPic usePirq pic (.deassertIrq irq)) := by
  rw [tellPic]
  split
  · exact held
  · exact edge_consistent held false irq irq.isLt

theorem deassertIrq_other (usePirq : Nat → Bool) {other : Fin 16} (some_ : other ≠ 2) (differ : other ≠ irq) :
    requested (tellPic usePirq pic (.deassertIrq irq)) other = requested pic other := by
  rw [tellPic]
  split
  · rfl
  · rw [vpicIrqNegativeEdge,requested_edge false irq some_,if_neg differ]

def again (usePirq : Nat → Bool) (pic : VirtualPic.State) (irq : Fin 16) : VirtualPic.State :=
  vpicIrqPositiveEdge irq (tellPic usePirq pic (.deassertIrq irq))

theorem again_requests (usePirq : Nat → Bool) : Requests pic (again usePirq pic irq) :=
  (deassertIrq_requests usePirq irq).trans (requests_edge true irq)

theorem again_requested (usePirq : Nat → Bool) {other : Fin 16} (some_ : other ≠ 2) :
    requested (again usePirq pic irq) other = if other = irq then true else requested pic other := by
  rw [again,vpicIrqPositiveEdge,requested_edge true irq some_]
  by_cases same : other = irq
  · rw [if_pos same,if_pos same]
  · rw [if_neg same,if_neg same,deassertIrq_other usePirq some_ same]

-- Line 2 has no edges.
theorem again_two (usePirq : Nat → Bool) : again usePirq pic 2 = pic := by
  have still (positive : Bool) (pic : VirtualPic.State) : vpicIrqEdge positive ((2 : Fin 16) : Nat) pic = pic := if_pos rfl
  rw [again,vpicIrqPositiveEdge,still,tellPic,vpicIrqNegativeEdge,still,ite_self]

theorem again_irr (usePirq : Nat → Bool) (held : Consistent pic) :
    (∀ p, ((again usePirq pic irq).get p).irr = (pic.get p).irr) ↔ (irq ≠ 2 → requested pic irq = true) := by
  constructor
  · intro same some_
    have set_ : requested (again usePirq pic irq) irq = true := (again_requested usePirq some_).trans (if_pos rfl)
    rw [requested,same] at set_
    exact set_
  · intro set_ p
    by_cases two : irq = 2
    · rw [two,again_two]
    · have after : Consistent (again usePirq pic irq) := edge_consistent (deassertIrq_consistent usePirq held irq) true irq irq.isLt
      refine irr_same held after (again_requests usePirq) (fun other some_ => ?_) p
      rw [again_requested usePirq some_]
      split
      · next same => rw [same,set_ two]
      · rfl

theorem save_quiet (off : ∀ line, callbackOn s.lines line = false) : Unobserved s (saved s) := by
  have still : operated s .irqSavePci = {s.lines with edges := []} :=
    congrArg Prod.snd (save_off (l:={s.lines with edges := []}) off)
  rw [saved,still]
  exact ⟨rfl,rfl,rfl,fun _ => rfl,fun _ => rfl⟩

def cascade : Fin 16 := ⟨2,by decide⟩

-- What an acknowledged or withdrawn request would need.
def Pending (s : System) (line : Line) : Prop :=
  s.lines.pciIntx line = true ∧
    (Alone s.lines line → ∀ irq : Fin 16, irq ≠ cascade → irq.val = s.lines.route (hvmPciIntxLink line) → requested s.pic irq = true)

instance (s : System) (line : Line) : Decidable (Pending s line) := inferInstanceAs (Decidable (_ ∧ (_ → _)))

theorem save_cycled (sound : Sound s) (on : callbackOn s.lines line = true) : Unobserved s (saved s) ↔ Pending s line := by
  have cycled : operated s .irqSavePci = pciIntxAssert (pciIntxDeassert {s.lines with edges := []} line) line :=
    congrArg Prod.snd (save_on (l:={s.lines with edges := []}) on)
  by_cases up : s.lines.pciIntx line = true
  · have restored := line_restored (l:={s.lines with edges := []}) up sound.gsis sound.links (sound.route _)
    rw [← cycled] at restored
    obtain ⟨isa,routed⟩ : ∃ isa : Fin 16, isa.val = s.lines.route (hvmPciIntxLink line) := ⟨⟨_,sound.route _⟩,rfl⟩
    have pic : (saved s).pic = if Alone s.lines line then again s.usePirq s.pic isa else s.pic := by
      change (operated s .irqSavePci).edges.foldl (tellPic s.usePirq) s.pic = _
      rw [restored.edges,again,routed]
      exact heard_pic (l:={s.lines with edges := []}) s.usePirq s.pic
    by_cases alone : Alone s.lines line
    · rw [if_pos alone] at pic
      have exactly : (∀ p, (((saved s).pic).get p).irr = (s.pic.get p).irr) ↔ (isa ≠ 2 → requested s.pic isa = true) := by
        rw [pic]
        exact again_irr s.usePirq sound.outputs
      constructor
      · intro same
        refine ⟨up,fun _ irq some_ is => ?_⟩
        have here : irq = isa := Fin.ext (is.trans routed.symm)
        rw [here] at some_ ⊢
        exact exactly.mp same.irr some_
      · intro pending
        refine ⟨restored.bits,restored.links,restored.gsis,exactly.mpr fun some_ => pending.2 alone isa some_ routed,fun p => ?_⟩
        rw [pic,again_requests s.usePirq p]
    · rw [if_neg alone] at pic
      refine ⟨fun _ => ⟨up,fun is => absurd is alone⟩,fun _ => ⟨restored.bits,restored.links,restored.gsis,fun p => ?_,fun p => ?_⟩⟩
      · rw [pic]
      · rw [pic]
  · refine ⟨fun same => absurd ?_ up,fun pending => absurd pending.1 up⟩
    -- The callback's assertion sets the bit that a device had cleared.
    have set_ : (operated s .irqSavePci).pciIntx line = true := by
      rw [cycled]
      exact assert_bit
    exact (congrFun same.bits line).symm.trans set_

-- The save goes unobserved exactly where the callback's line is up and the
-- request it would make is there already, and the image is the devices'
-- exactly where the callback shares no line with one of them.
theorem save_unobserved_exactly (sound : Sound s) (devices : Line → Bool) :
    (Unobserved s (saved s) ∧ image s = devices) ↔
      (∀ line, callbackOn s.lines line = true → Pending s line) ∧
        ∀ line, devices line = (s.lines.pciIntx line && !callbackOn s.lines line) := by
  refine and_congr ?_ ?_
  · rcases callback_cases s.lines with ⟨line,on⟩ | off
    · rw [save_cycled sound on]
      refine ⟨fun pending other also => ?_,fun pending => pending line on⟩
      rw [callbackOn_other on] at also
      rw [of_decide_eq_true also]
      exact pending
    · exact ⟨fun _ line on => absurd on (by rw [off line]; decide),fun _ => save_quiet off⟩
  · rw [image_eq]
    exact ⟨fun same line => (congrFun same line).symm,fun same => funext fun line => (same line).symm⟩

end Save

section Runs
open XenAet.IrqCounts
variable {s' : System}

theorem edge_heard {e : Edge} {usePirq : Nat → Bool} (held : Consistent pic) (told : Falling e ∨ Rising l e) : Consistent (tellPic usePirq pic e) := by
  rcases told with ⟨line,rfl | rfl⟩ | ⟨g,rfl | rfl⟩ | ⟨line,rfl,_⟩
  · exact deassertIrq_consistent usePirq held line
  · exact edge_consistent held false line line.isLt
  · exact held
  · exact held
  · exact edge_consistent held true line line.isLt

theorem edges_heard {edges : List Edge} {usePirq : Nat → Bool} (held : Consistent pic) (told : ∀ e ∈ edges, Falling e ∨ Rising l e) :
    Consistent (edges.foldl (tellPic usePirq) pic) := by
  induction edges generalizing pic with
  | nil => exact held
  | cons e rest ih => exact ih (edge_heard held (told e (by simp))) fun e later => told e (List.mem_cons_of_mem _ later)

structure Reached (s : System) : Prop where
  exact_ : Exact s.lines
  wired : Wired s.lines
  outputs : Consistent s.pic

theorem step_reached {event : Event} (reached : Reached s) (taken : step s event = some s') : Reached s' := by
  obtain ⟨exact_,wired⟩ := step_lines reached.exact_ reached.wired taken
  refine ⟨exact_,wired,?_⟩
  cases event with
  | line op =>
    obtain ⟨ups,sends⟩ := op_sends reached.exact_ reached.wired op
    cases taken
    refine edges_heard (l:=operated s op) reached.outputs fun e member => ?_
    rw [sends.edges] at member
    exact (List.mem_append.mp member).imp (sends.falling e) (sends.rising e)
  | write p odd val =>
    cases taken
    exact PicOutput.update_consistent reached.outputs (PicOutput.write_changes _ val odd fun is => reached.outputs.level_of is)
  | read p odd =>
    obtain ⟨pic,val,done,kept⟩ := PicOutput.read_consistent (p:=p) reached.outputs odd
    rw [step,done] at taken
    cases taken
    exact kept
  | writeElcr p val =>
    cases taken
    exact PicOutput.elcr_consistent reached.outputs val
  | ack accepts =>
    obtain ⟨pic,vector,done,kept⟩ := PicOutput.ack_consistent reached.outputs accepts
    rw [step,done] at taken
    cases taken
    exact kept
  | remap emuirq used =>
    cases taken
    exact reached.outputs

-- Whatever the guest and the devices do, the save starts from a sound state.
theorem run_sound {events : List Event} (ran : Run.run step reset events = some s) : Sound s := by
  have start : Reached reset := ⟨reset_good.exact_,reset_good.wired,PicOutput.reset_consistent⟩
  have reached := Run.run_history (P:=fun _ s => Reached s) (fun _ s event next held taken => step_reached held taken) start ran
  exact ⟨exact_bytes reached.exact_,exact_links reached.exact_,reached.wired.route,reached.outputs⟩

-- Link 0 is routed to irq 5, and the callback is pin 0 of device 0.
def callbackRouted : List Event :=
  [.line (.setPciLinkRoute ⟨0,by decide⟩ ⟨5,by decide⟩),.line (.setCallbackVia (BitVec.ofNat 64 (2 ^ 56))),.line (.setCallbackIrqLevel true)]

theorem save_unobserved_pending : ∃ s, Run.run step reset callbackRouted = some s ∧ callbackOn s.lines (0,0) = true ∧
    Unobserved s (saved s) ∧ image s = fun _ => false := by
  obtain ⟨s,ran,on,met⟩ : ∃ s, Run.run step reset callbackRouted = some s ∧ callbackOn s.lines (0,0) = true ∧
      (∀ line, callbackOn s.lines line = true → Pending s line) ∧ ∀ line, false = (s.lines.pciIntx line && !callbackOn s.lines line) :=
    Run.run_reaches (by decide +kernel)
  exact ⟨s,ran,on,(save_unobserved_exactly (run_sound ran) fun _ => false).mpr met⟩

-- The guest acknowledges the request while the callback stays up: the save
-- makes it once more. A device that shares the line lowers it, and the save
-- raises it; and where a device holds it up the image leaves it out.
theorem save_observed :
    (∃ s, Run.run step reset (callbackRouted ++ [.ack true]) = some s ∧ s.pic.master.irr = 0#8 ∧ (saved s).pic.master.irr = 32#8) ∧
    (∃ s, Run.run step reset (callbackRouted ++ [.line (.pciIntxAssert (0,0)),.line (.pciIntxDeassert (0,0))]) = some s ∧
      s.lines.pciIntx (0,0) = false ∧ (saved s).lines.pciIntx (0,0) = true) ∧
    ∃ s, Run.run step reset (.line (.pciIntxAssert (0,0)) :: callbackRouted) = some s ∧ image s (0,0) = false :=
  ⟨Run.run_reaches (by decide +kernel),Run.run_reaches (by decide +kernel),Run.run_reaches (by decide +kernel)⟩

end Runs

end XenAet.IrqSave
