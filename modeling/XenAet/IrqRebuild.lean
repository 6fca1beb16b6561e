import XenAet.IrqCounts

namespace XenAet.IrqRebuild
open XenAet.IrqLines
open XenAet.IrqCounts
open Library
open Library.WiredOr

-- The lines that hold up link `link`, and what holds up GSI `gsi`: its INTx
-- lines, the links with an asserted line that are routed to it, its ISA lines.
def linkLines (s : State) (link : Fin 4) : Finset Line :=
  Finset.univ.filter fun line => s.pciIntx line = true ∧ hvmPciIntxLink line = link

def gsiLines (s : State) (gsi : Nat) : Finset Line :=
  Finset.univ.filter fun line => s.pciIntx line = true ∧ hvmPciIntxGsi line = gsi

def gsiLinks (s : State) (gsi : Nat) : Finset (Fin 4) :=
  Finset.univ.filter fun link => s.pciLinkAssertCount link ≠ 0 ∧ s.route link = gsi ∧ gsi ≠ 0

def gsiIsa (s : State) (gsi : Nat) : Finset (Fin 16) :=
  Finset.univ.filter fun irq => s.isaIrq irq = true ∧ hvmIsaIrqToGsi irq = gsi

def callbackOn (s : State) (gsi : Nat) : Nat := if s.callbackViaAsserted = true ∧ s.callbackVia = .gsi gsi then 1 else 0

def lineCount (s : State) (gsi : Nat) : Nat := (gsiLines s gsi).card + (gsiLinks s gsi).card + (gsiIsa s gsi).card

theorem driven_eq_card {W G : Type} [Fintype W] [DecidableEq G] (load : W → Option G) (g : G) {holds : W → Prop} [DecidablePred holds]
    (same : ∀ w, load w = some g ↔ holds w) : driven load g = (Finset.univ.filter holds).card := by
  rw [driven,← Finset.card_filter]
  exact congrArg Finset.card (Finset.filter_congr fun w _ => same w)

theorem driven_linkOfLine (s : State) (link : Fin 4) : driven (linkOfLine s.pciIntx) link = (linkLines s link).card :=
  driven_eq_card _ _ fun line => by simp [linkOfLine]

theorem driven_lineLoad (s : State) (gsi : Nat) : driven (lineLoad s.pciIntx) gsi = (gsiLines s gsi).card :=
  driven_eq_card _ _ fun line => by simp [lineLoad]

theorem driven_linkLoad (s : State) (gsi : Nat) :
    driven (linkLoad s.pciLinkAssertCount s.route) gsi = (gsiLinks s gsi).card := by
  refine driven_eq_card _ _ fun link => ?_
  rw [linkLoad,Option.ite_none_right_eq_some,Option.some.injEq]
  constructor
  · rintro ⟨⟨counted,routed⟩,rfl⟩
    exact ⟨counted,rfl,routed⟩
  · rintro ⟨counted,rfl,routed⟩
    exact ⟨⟨counted,routed⟩,rfl⟩

theorem driven_isaLoad (s : State) (gsi : Nat) : driven (isaLoad s.isaIrq) gsi = (gsiIsa s gsi).card :=
  driven_eq_card _ _ fun irq => by simp [isaLoad]

theorem driven_load (s : State) (gsi : Nat) : driven (load s) gsi = lineCount s gsi + callbackOn s gsi := by
  have callback : (if callbackLoad s.callbackViaAsserted s.callbackVia = some gsi then 1 else 0) = callbackOn s gsi := by
    rw [callbackOn]
    refine if_congr ?_ rfl rfl
    cases s.callbackVia <;> simp [callbackLoad]
  have parts : driven (load s) gsi = driven (lineLoad s.pciIntx) gsi + (driven (linkLoad s.pciLinkAssertCount s.route) gsi +
      (driven (isaLoad s.isaIrq) gsi + if callbackLoad s.callbackViaAsserted s.callbackVia = some gsi then 1 else 0)) := by
    simp only [driven,load,loads,Fintype.sum_sum_type,Sum.elim_inl,Sum.elim_inr,Finset.univ_unique,Finset.sum_singleton]
    rfl
  rw [parts,driven_lineLoad,driven_linkLoad,driven_isaLoad,callback,lineCount]
  omega

-- The loops of the three loads are counting loops.

theorem loadLine_all (s : State) (lines : List Line) : lines.foldl loadLine s =
    {s with
      gsiAssertCount := tallyUp 256 (lineLoad s.pciIntx) s.gsiAssertCount lines
      pciLinkAssertCount := tallyUp 256 (linkOfLine s.pciIntx) s.pciLinkAssertCount lines} := by
  induction lines generalizing s with
  | nil => rfl
  | cons line rest ih =>
    rw [List.foldl_cons,ih]
    cases on : s.pciIntx line <;>
      simp [loadLine,tallyUp,lineLoad,linkOfLine,on]

theorem loadIsa_all (s : State) (irqs : List (Fin 16)) : irqs.foldl loadIsa s =
    {s with gsiAssertCount := tallyUp 256 (isaLoad s.isaIrq) s.gsiAssertCount irqs} := by
  induction irqs generalizing s with
  | nil => rfl
  | cons irq rest ih =>
    rw [List.foldl_cons,ih]
    cases on : s.isaIrq irq <;> simp [loadIsa,tallyUp,isaLoad,on]

theorem loadLink_all (s : State) (links : List (Fin 4)) : links.foldl loadLink s =
    {s with gsiAssertCount := tallyUp 256 (linkLoad s.pciLinkAssertCount s.route) s.gsiAssertCount links} := by
  induction links generalizing s with
  | nil => rfl
  | cons link rest ih =>
    rw [List.foldl_cons,ih]
    by_cases on : s.pciLinkAssertCount link ≠ 0 ∧ s.route link ≠ 0
    · simp only [loadLink,tallyUp,linkLoad,if_pos on,List.foldl_cons]
    · simp only [loadLink,tallyUp,linkLoad,if_neg on,List.foldl_cons]

theorem tallyUp_driven {W G : Type} [Fintype W] [DecidableEq W] [DecidableEq G] {load : W → Option G} {count : G → Nat}
    {wires : List W} {g : G} (distinct : wires.Nodup) (all : ∀ w, w ∈ wires) (small : count g + driven load g < 256) :
    tallyUp 256 load count wires g = count g + driven load g := by
  have length := filter_length_eq_driven (g:=g) load distinct all
  rw [← length] at small ⊢
  exact tallyUp_eq 256 load count wires small

theorem allLines_nodup : allLines.Nodup :=
  List.Nodup.product (List.nodup_finRange 32) (List.nodup_finRange 4)

theorem mem_allLines (line : Line) : line ∈ allLines := by simp [allLines]

def loaded (s : State) (lines : Line → Bool) (isa : Fin 16 → Bool) (route : Fin 4 → Nat) : State :=
  (List.finRange 4).foldl loadLink {irqLoadIsa (irqLoadPci s lines) isa with route := route}

def cleared (s : State) (gsi : Nat) : Nat := if gsi < pins then 0 else s.gsiAssertCount gsi

def linkCounts (lines : Line → Bool) : Fin 4 → Nat := tallyUp 256 (linkOfLine lines) (fun _ => 0) allLines

theorem loaded_eq (s : State) (lines : Line → Bool) (isa : Fin 16 → Bool) (route : Fin 4 → Nat) : loaded s lines isa route =
    {s with
      pciIntx := lines
      isaIrq := isa
      route := route
      pciLinkAssertCount := linkCounts lines
      gsiAssertCount := tallyUp 256 (linkLoad (linkCounts lines) route) (tallyUp 256 (isaLoad isa)
        (tallyUp 256 (lineLoad lines) (cleared s) allLines) (List.finRange 16)) (List.finRange 4)} := by
  have clear : cleared s = fun gsi => if gsi < pins then 0 else s.gsiAssertCount gsi := rfl
  rw [loaded,loadLink_all,irqLoadIsa,loadIsa_all,irqLoadPci,loadLine_all,linkCounts,clear]

theorem linkCounts_eq (lines : Line → Bool) (link : Fin 4) : linkCounts lines link = driven (linkOfLine lines) link := by
  have small := Nat.lt_of_le_of_lt (driven_le (linkOfLine lines) link) lines_small
  rw [linkCounts,tallyUp_driven allLines_nodup mem_allLines (by rw [Nat.zero_add]; exact small),Nat.zero_add]

theorem loaded_gsi (s : State) (lines : Line → Bool) (isa : Fin 16 → Bool) (route : Fin 4 → Nat) {gsi : Nat} (pin : gsi < pins) :
    (loaded s lines isa route).gsiAssertCount gsi = driven (lineLoad lines) gsi + driven (isaLoad isa) gsi +
      driven (linkLoad (linkCounts lines) route) gsi := by
  have fromLines := driven_le (lineLoad lines) gsi
  have fromIsa := driven_le (isaLoad isa) gsi
  have fromLinks := driven_le (linkLoad (linkCounts lines) route) gsi
  simp only [Fintype.card_prod,Fintype.card_fin] at fromLines fromIsa fromLinks
  have zero : cleared s gsi = 0 := if_pos pin
  have first : tallyUp 256 (lineLoad lines) (cleared s) allLines gsi = driven (lineLoad lines) gsi := by
    rw [tallyUp_driven allLines_nodup mem_allLines (by omega),zero,Nat.zero_add]
  have second : tallyUp 256 (isaLoad isa) (tallyUp 256 (lineLoad lines) (cleared s) allLines) (List.finRange 16) gsi =
      driven (lineLoad lines) gsi + driven (isaLoad isa) gsi := by
    rw [tallyUp_driven (List.nodup_finRange _) List.mem_finRange (by omega),first]
  rw [loaded_eq]
  dsimp only
  rw [tallyUp_driven (List.nodup_finRange _) List.mem_finRange (by omega),second]

theorem load_counts (s : State) (lines : Line → Bool) (isa : Fin 16 → Bool) (route : Fin 4 → Nat) :
    match irqLoad s lines isa route with
    | .error _ => ∃ link, 15 < route link
    | .ok t => t.pciIntx = lines ∧ t.isaIrq = isa ∧ t.route = route ∧
      (∀ link, t.pciLinkAssertCount link = (linkLines t link).card) ∧
      ∀ gsi : Fin pins, t.gsiAssertCount gsi = lineCount t gsi := by
  by_cases far : (List.finRange 4).any fun link => decide (15 < route link)
  · rw [irqLoad,irqLoadLink,if_pos far]
    simpa using far
  · have near : irqLoad s lines isa route = .ok (loaded s lines isa route) := by
      rw [irqLoad,irqLoadLink,if_neg far]
      rfl
    rw [near]
    have gsis (gsi : Fin pins) := loaded_gsi s lines isa route gsi.isLt
    dsimp only
    have fields := loaded_eq s lines isa route
    generalize loaded s lines isa route = t at fields gsis ⊢
    have lineField : t.pciIntx = lines := by rw [fields]
    have isaField : t.isaIrq = isa := by rw [fields]
    have routeField : t.route = route := by rw [fields]
    have countField : t.pciLinkAssertCount = linkCounts lines := by rw [fields]
    refine ⟨lineField,isaField,routeField,fun link => ?_,fun gsi => ?_⟩
    · rw [countField,linkCounts_eq,← lineField,driven_linkOfLine]
    · rw [gsis,← countField,← lineField,← isaField,← routeField,driven_lineLoad,driven_isaLoad,driven_linkLoad,lineCount]
      omega

-- The loads recount the lines and not the callback, whose status is not saved:
-- a callback that is asserted in the restore context is left uncounted.
theorem irq_counts_exact (events : List Event) :
    let s := events.foldl step initial
    (∀ link, s.pciLinkAssertCount link = (linkLines s link).card) ∧
      (∀ gsi, s.gsiAssertCount gsi = lineCount s gsi + callbackOn s gsi) ∧ s.wrapped = false ∧
      ∀ target lines isa route, match irqLoad target lines isa route with
        | .error _ => ∃ link, 15 < route link
        | .ok t => t.pciIntx = lines ∧ t.isaIrq = isa ∧ t.route = route ∧
          (∀ link, t.pciLinkAssertCount link = (linkLines t link).card) ∧
          ∀ gsi : Fin pins, t.gsiAssertCount gsi = lineCount t gsi := by
  have exact_ := run_exact initial_exact events
  refine ⟨fun link => ?_,fun gsi => ?_,exact_.unwrapped,load_counts⟩
  · rw [exact_.link,driven_linkOfLine]
  · rw [exact_.gsi,driven_load]

def callbackRaised : State := [.setCallbackVia 20#64,.setCallbackIrqLevel true].foldl step initial

def reloaded : State := loaded callbackRaised (fun _ => false) (fun _ => false) fun _ => 0

theorem load_omits_callback :
    irqLoad callbackRaised (fun _ => false) (fun _ => false) (fun _ => 0) = .ok reloaded ∧
      reloaded.gsiAssertCount 20 = 0 ∧ lineCount reloaded 20 + callbackOn reloaded 20 = 1 ∧
      (setCallbackIrqLevel reloaded false).gsiAssertCount 20 = 255 := by
  refine ⟨?_,by decide +kernel,by decide +kernel,by decide +kernel⟩
  rw [irqLoad,irqLoadLink,if_neg (by decide)]
  rfl

end XenAet.IrqRebuild
