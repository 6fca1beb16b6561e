import XenAet.IrqLines

namespace XenAet.IrqCounts
open XenAet.IrqLines
open Library
open Library.WiredOr

variable {s : State} {line : Line} {lines : Line → Bool} {counts route : Fin 4 → Nat} {isa : Fin 16 → Bool}

-- Everything that can hold up a GSI: an INTx line, a link's routed output, an
-- ISA line, the callback.
abbrev Wire := Line ⊕ Fin 4 ⊕ Fin 16 ⊕ Unit

def lineLoad (lines : Line → Bool) (line : Line) : Option Nat := if lines line then some (hvmPciIntxGsi line) else none

def linkLoad (counts route : Fin 4 → Nat) (link : Fin 4) : Option Nat :=
  if counts link ≠ 0 ∧ route link ≠ 0 then some (route link) else none

def isaLoad (lines : Fin 16 → Bool) (irq : Fin 16) : Option Nat := if lines irq then some (hvmIsaIrqToGsi irq) else none

def callbackLoad (asserted : Bool) : CallbackVia → Option Nat
  | .gsi gsi => if asserted then some gsi else none
  | _ => none

def loads (lines : Line → Bool) (counts route : Fin 4 → Nat) (isa : Fin 16 → Bool) (callback : Option Nat) : Wire → Option Nat :=
  Sum.elim (lineLoad lines) (Sum.elim (linkLoad counts route) (Sum.elim (isaLoad isa) fun _ => callback))

def load (s : State) : Wire → Option Nat :=
  loads s.pciIntx s.pciLinkAssertCount s.route s.isaIrq (callbackLoad s.callbackViaAsserted s.callbackVia)

-- The second level: the INTx lines that hold up a link.
def linkOfLine (lines : Line → Bool) (line : Line) : Option (Fin 4) := if lines line then some (hvmPciIntxLink line) else none

structure Exact (s : State) : Prop where
  gsi : ∀ gsi, s.gsiAssertCount gsi = driven (load s) gsi
  link : ∀ link, s.pciLinkAssertCount link = driven (linkOfLine s.pciIntx) link
  unwrapped : s.wrapped = false

-- There are 149 wires and 128 lines, so a byte holds every count.
theorem wires_small : Fintype.card Wire < 256 := by simp

theorem lines_small : Fintype.card Line < 256 := by simp

section
variable {W G : Type} [Fintype W] [DecidableEq W] [DecidableEq G] {before after : W → Option G} {w : W} {g : G} {count : G → Nat}

theorem bump_driven (small : Fintype.card W < 256) (tracks : ∀ x, count x = driven before x) (off : before w = none)
    (changed : after = Function.update before w (some g)) (x : G) : bump 256 count g x = driven after x := by
  subst changed
  have total := driven_raise (g:=g) (x:=x) off
  have bound := driven_le (Function.update before w (some g)) x
  rw [bump_eq 256 count (by rw [tracks]; omega),tracks,total]

theorem drop_driven (small : Fintype.card W < 256) (tracks : ∀ x, count x = driven before x) (on : before w = some g)
    (changed : after = Function.update before w none) (x : G) :
    Function.update count g ((count g + 255) % 256) x = driven after x := by
  subst changed
  have total := driven_lower (x:=x) on
  have bound := driven_le before x
  by_cases same : x = g
  · subst same
    rw [one,if_pos rfl] at total
    rw [Function.update_self,tracks]
    omega
  · rw [one,if_neg (Ne.symm same),Nat.add_zero] at total
    rw [Function.update_of_ne same,tracks,total]

theorem count_not_full (small : Fintype.card W < 256) (tracks : ∀ x, count x = driven before x) (off : before w = none) :
    count g ≠ 255 := by
  have raised := driven_raise (g:=g) (x:=g) off
  have bound := driven_le (Function.update before w (some g)) g
  rw [one,if_pos rfl,← tracks] at raised
  omega

theorem count_not_zero (tracks : ∀ x, count x = driven before x) (on : before w = some g) : count g ≠ 0 := by
  have lowered := driven_lower (x:=g) on
  rw [one,if_pos rfl,← tracks] at lowered
  omega

end

-- One wire changes.

theorem loads_line (level : Bool) : loads (Function.update lines line level) counts route isa callback =
    Function.update (loads lines counts route isa callback) (.inl line) (if level then some (hvmPciIntxGsi line) else none) := by
  rw [loads,loads,Sum.update_elim_inl]
  congr 1
  funext x
  by_cases same : x = line
  · subst same
    rw [lineLoad,Function.update_self,Function.update_self]
  · rw [lineLoad,Function.update_of_ne same,Function.update_of_ne same,lineLoad]

theorem loads_isa {irq : Fin 16} (level : Bool) : loads lines counts route (Function.update isa irq level) callback =
    Function.update (loads lines counts route isa callback) (.inr (.inr (.inl irq)))
      (if level then some (hvmIsaIrqToGsi irq) else none) := by
  rw [loads,loads,Sum.update_elim_inr,Sum.update_elim_inr,Sum.update_elim_inl]
  congr 3
  funext x
  by_cases same : x = irq
  · subst same
    rw [isaLoad,Function.update_self,Function.update_self]
  · rw [isaLoad,Function.update_of_ne same,Function.update_of_ne same,isaLoad]

theorem loads_callback (now : Option Nat) : loads lines counts route isa now =
    Function.update (loads lines counts route isa callback) (.inr (.inr (.inr ()))) now := by
  rw [loads,loads,Sum.update_elim_inr,Sum.update_elim_inr,Sum.update_elim_inr]
  congr 3

theorem loads_link {link : Fin 4} {counts' route' : Fin 4 → Nat}
    (others : ∀ x, x ≠ link → linkLoad counts' route' x = linkLoad counts route x) : loads lines counts' route' isa callback =
    Function.update (loads lines counts route isa callback) (.inr (.inl link)) (linkLoad counts' route' link) := by
  rw [loads,loads,Sum.update_elim_inr,Sum.update_elim_inl]
  congr 2
  funext x
  by_cases same : x = link
  · subst same
    rw [Function.update_self]
  · rw [Function.update_of_ne same,others x same]

theorem loads_count {link : Fin 4} (count : Nat) : loads lines (Function.update counts link count) route isa callback =
    Function.update (loads lines counts route isa callback) (.inr (.inl link))
      (if count ≠ 0 ∧ route link ≠ 0 then some (route link) else none) := by
  have others (x) (other : x ≠ link) : linkLoad (Function.update counts link count) route x = linkLoad counts route x := by
    rw [linkLoad,Function.update_of_ne other,linkLoad]
  rw [loads_link others,linkLoad,Function.update_self]

theorem loads_route {link : Fin 4} (irq : Nat) : loads lines counts (Function.update route link irq) isa callback =
    Function.update (loads lines counts route isa callback) (.inr (.inl link))
      (if counts link ≠ 0 ∧ irq ≠ 0 then some irq else none) := by
  have others (x) (other : x ≠ link) : linkLoad counts (Function.update route link irq) x = linkLoad counts route x := by
    rw [linkLoad,Function.update_of_ne other,linkLoad]
  rw [loads_link others,linkLoad,Function.update_self]

@[simp] theorem loads_at_line : loads lines counts route isa callback (.inl line) = lineLoad lines line := rfl

@[simp] theorem loads_at_isa : loads lines counts route isa callback (.inr (.inr (.inl irq))) = isaLoad isa irq := rfl

@[simp] theorem loads_at_callback : loads lines counts route isa callback (.inr (.inr (.inr ()))) = callback := rfl

@[simp] theorem loads_at_link : loads lines counts route isa callback (.inr (.inl link)) = linkLoad counts route link := rfl

theorem linkOfLine_update (level : Bool) : linkOfLine (Function.update lines line level) =
    Function.update (linkOfLine lines) line (if level then some (hvmPciIntxLink line) else none) := by
  funext x
  by_cases same : x = line
  · subst same
    rw [linkOfLine,Function.update_self,Function.update_self]
  · rw [linkOfLine,Function.update_of_ne same,Function.update_of_ne same,linkOfLine]

theorem links_assert (exact_ : Exact s) (off : s.pciIntx line = false) (link : Fin 4) :
    bump 256 s.pciLinkAssertCount (hvmPciIntxLink line) link = driven (linkOfLine (Function.update s.pciIntx line true)) link :=
  bump_driven lines_small exact_.link (by rw [linkOfLine,off]; rfl) (linkOfLine_update true) link

theorem links_deassert (exact_ : Exact s) (on : s.pciIntx line = true) (link : Fin 4) :
    Function.update s.pciLinkAssertCount (hvmPciIntxLink line) ((s.pciLinkAssertCount (hvmPciIntxLink line) + 255) % 256) link =
      driven (linkOfLine (Function.update s.pciIntx line false)) link :=
  drop_driven lines_small exact_.link (by rw [linkOfLine,on]; rfl) (linkOfLine_update false) link

theorem link_counted (exact_ : Exact s) (on : s.pciIntx line = true) : s.pciLinkAssertCount (hvmPciIntxLink line) ≠ 0 :=
  count_not_zero exact_.link (w:=line) (by rw [linkOfLine,on]; rfl)

theorem link_not_full (exact_ : Exact s) (off : s.pciIntx line = false) : s.pciLinkAssertCount (hvmPciIntxLink line) ≠ 255 :=
  count_not_full lines_small exact_.link (w:=line) (by rw [linkOfLine,off]; rfl)

-- A link's count that goes from one non-zero value to another, or a link that
-- is routed nowhere, leaves the load alone.
theorem loads_count_same {link : Fin 4} (count : Nat) (same : route link = 0 ∨ (count ≠ 0 ∧ counts link ≠ 0)) :
    loads lines (Function.update counts link count) route isa callback = loads lines counts route isa callback := by
  rw [loads_count]
  refine Function.update_eq_self_iff.mpr ?_
  rw [loads_at_link,linkLoad]
  cases same with
  | inl nowhere => rw [if_neg (fun both => both.2 nowhere),if_neg (fun both => both.2 nowhere)]
  | inr counted =>
    by_cases routed : route link = 0
    · rw [if_neg (fun both => both.2 routed),if_neg (fun both => both.2 routed)]
    · rw [if_pos ⟨counted.1,routed⟩,if_pos ⟨counted.2,routed⟩]

theorem assert_exact (exact_ : Exact s) (line : Line) : Exact (pciIntxAssert s line) := by
  rw [pciIntxAssert]
  split
  · exact exact_
  · rename_i off
    rw [Bool.not_eq_true] at off
    have links := links_assert exact_ off
    have gsiOff : load s (.inl line) = none := by rw [load,loads_at_line,lineLoad,off]; rfl
    have raised := bump_driven wires_small exact_.gsi gsiOff (loads_line true)
    have room := count_not_full (g:=hvmPciIntxGsi line) wires_small exact_.gsi gsiOff
    have linkRoom := link_not_full exact_ off
    have count : (s.pciLinkAssertCount (hvmPciIntxLink line) + 1) % 256 ≠ 0 := by
      have after := count_not_zero links (w:=line) (g:=hvmPciIntxLink line) (by rw [linkOfLine,Function.update_self]; rfl)
      rwa [bump,Function.update_self] at after
    dsimp only
    split
    · rename_i first
      have linkOff : loads (Function.update s.pciIntx line true) s.pciLinkAssertCount s.route s.isaIrq
          (callbackLoad s.callbackViaAsserted s.callbackVia) (.inr (.inl (hvmPciIntxLink line))) = none := by
        rw [loads_at_link,linkLoad,if_neg (fun both => both.1 first.1)]
      have isaRoom := count_not_full (g:=s.route (hvmPciIntxLink line)) wires_small raised linkOff
      refine ⟨bump_driven wires_small raised linkOff ((loads_count _).trans ?_),links,?_⟩
      · rw [if_pos ⟨count,first.2⟩]
        rfl
      · simp [gsiUp,linkUp,setLine,exact_.unwrapped,room,linkRoom,isaRoom]
    · rename_i later
      refine ⟨fun gsi => (raised gsi).trans ?_,links,?_⟩
      · refine congrArg (driven · gsi) (loads_count_same _ ?_).symm
        by_cases routed : s.route (hvmPciIntxLink line) = 0
        · exact .inl routed
        · exact .inr ⟨count,fun zero => later ⟨zero,routed⟩⟩
      · simp [gsiUp,linkUp,setLine,exact_.unwrapped,room,linkRoom]

theorem deassert_exact (exact_ : Exact s) (line : Line) : Exact (pciIntxDeassert s line) := by
  rw [pciIntxDeassert]
  split
  · rename_i on
    have links := links_deassert exact_ on
    have counted := link_counted exact_ on
    have gsiOn : load s (.inl line) = some (hvmPciIntxGsi line) := by rw [load,loads_at_line,lineLoad,on]; rfl
    have lowered := drop_driven wires_small exact_.gsi gsiOn (loads_line false)
    have room := count_not_zero exact_.gsi gsiOn
    dsimp only
    split
    · rename_i last
      simp only [linkDown,gsiDown,setLine,Function.update_self] at last
      have linkOn : loads (Function.update s.pciIntx line false) s.pciLinkAssertCount s.route s.isaIrq
          (callbackLoad s.callbackViaAsserted s.callbackVia) (.inr (.inl (hvmPciIntxLink line))) =
          some (s.route (hvmPciIntxLink line)) := by
        rw [loads_at_link,linkLoad,if_pos ⟨counted,last.2⟩]
      have isaRoom := count_not_zero lowered linkOn
      refine ⟨drop_driven wires_small lowered linkOn ((loads_count _).trans ?_),links,?_⟩
      · rw [if_neg (fun both => both.1 last.1)]
        rfl
      · simp [gsiDown,linkDown,setLine,exact_.unwrapped,room,counted,isaRoom]
    · rename_i more
      simp only [linkDown,gsiDown,setLine,Function.update_self] at more
      refine ⟨fun gsi => (lowered gsi).trans ?_,links,?_⟩
      · refine congrArg (driven · gsi) (loads_count_same _ ?_).symm
        by_cases routed : s.route (hvmPciIntxLink line) = 0
        · exact .inl routed
        · exact .inr ⟨fun zero => more ⟨zero,routed⟩,counted⟩
      · simp [gsiDown,linkDown,setLine,exact_.unwrapped,room,counted]
  · exact exact_

theorem isaAssert_exact (exact_ : Exact s) (irq : Fin 16) : Exact (isaIrqAssert s irq) := by
  rw [isaIrqAssert]
  split
  · exact exact_
  · rename_i off
    have isaOff : load s (.inr (.inr (.inl irq))) = none := by rw [load,loads_at_isa,isaLoad,if_neg off]
    have raised := bump_driven wires_small exact_.gsi isaOff (loads_isa true)
    have room := count_not_full (g:=hvmIsaIrqToGsi irq) wires_small exact_.gsi isaOff
    exact ⟨raised,exact_.link,by simp [gsiUp,setIsa,exact_.unwrapped,room]⟩

theorem isaDeassert_exact (exact_ : Exact s) (irq : Fin 16) : Exact (isaIrqDeassert s irq) := by
  rw [isaIrqDeassert]
  split
  · rename_i on
    have isaOn : load s (.inr (.inr (.inl irq))) = some (hvmIsaIrqToGsi irq) := by rw [load,loads_at_isa,isaLoad,if_pos on]
    have lowered := drop_driven wires_small exact_.gsi isaOn (loads_isa false)
    have room := count_not_zero exact_.gsi isaOn
    exact ⟨lowered,exact_.link,by simp [gsiDown,setIsa,exact_.unwrapped,room]⟩
  · exact exact_

theorem Exact.callback (exact_ : Exact s) (asserted : Bool) (via : CallbackVia)
    (same : callbackLoad asserted via = callbackLoad s.callbackViaAsserted s.callbackVia) :
    Exact {s with callbackViaAsserted := asserted, callbackVia := via} := by
  refine ⟨fun gsi => (exact_.gsi gsi).trans ?_,exact_.link,exact_.unwrapped⟩
  rw [load,load,same]

theorem callbackUp_exact {gsi : Nat} (exact_ : Exact s) (asserted : Bool) (via : CallbackVia)
    (silent : callbackLoad s.callbackViaAsserted s.callbackVia = none)
    (now : callbackLoad asserted via = some gsi) :
    Exact (callbackUp {s with callbackViaAsserted := asserted, callbackVia := via} gsi) := by
  have off : load s (.inr (.inr (.inr ()))) = none := by rw [load,loads_at_callback,silent]
  have raised := bump_driven wires_small exact_.gsi off (loads_callback (some gsi))
  have room := count_not_full (g:=gsi) wires_small exact_.gsi off
  refine ⟨fun x => (raised x).trans ?_,exact_.link,by simp [callbackUp,gsiUp,exact_.unwrapped,room]⟩
  exact congrArg (fun callback => driven (loads s.pciIntx s.pciLinkAssertCount s.route s.isaIrq callback) x) now.symm

theorem callbackDown_exact {gsi : Nat} (exact_ : Exact s) (asserted : Bool) (via : CallbackVia)
    (held : callbackLoad s.callbackViaAsserted s.callbackVia = some gsi)
    (now : callbackLoad asserted via = none) :
    Exact (callbackDown {s with callbackViaAsserted := asserted, callbackVia := via} gsi) := by
  have on : load s (.inr (.inr (.inr ()))) = some gsi := by rw [load,loads_at_callback,held]
  have lowered := drop_driven wires_small exact_.gsi on (loads_callback none)
  have room := count_not_zero exact_.gsi on
  refine ⟨fun x => (lowered x).trans ?_,exact_.link,by simp [callbackDown,gsiDown,exact_.unwrapped,room]⟩
  exact congrArg (fun callback => driven (loads s.pciIntx s.pciLinkAssertCount s.route s.isaIrq callback) x) now.symm

theorem callbackLoad_false (via : CallbackVia) : callbackLoad false via = none := by cases via <;> rfl

theorem level_exact (exact_ : Exact s) (asserted : Bool) : Exact (setCallbackIrqLevel s asserted) := by
  rw [setCallbackIrqLevel]
  split
  · exact exact_
  · rename_i changes
    have silent {v : CallbackVia} (via : s.callbackVia = v) (quiet : ∀ level, callbackLoad level v = none) :
        Exact {s with callbackViaAsserted := asserted, callbackVia := v} := by
      refine exact_.callback asserted v ?_
      rw [via,quiet,quiet]
    cases via : s.callbackVia with
    | none => exact silent via fun _ => rfl
    | vector _ => exact silent via fun _ => rfl
    | pciIntx line =>
      cases asserted with
      | true => exact assert_exact (silent via fun _ => rfl) line
      | false => exact deassert_exact (silent via fun _ => rfl) line
    | gsi gsi =>
      cases asserted with
      | true =>
        rw [Bool.not_eq_true] at changes
        exact callbackUp_exact exact_ true (.gsi gsi) (by rw [changes,callbackLoad_false]) rfl
      | false =>
        rw [Bool.not_eq_false] at changes
        exact callbackDown_exact exact_ false (.gsi gsi) (by rw [changes,via]; rfl) (callbackLoad_false _)

theorem deassert_callback (s : State) (line : Line) : (pciIntxDeassert s line).callbackVia = s.callbackVia ∧
    (pciIntxDeassert s line).callbackViaAsserted = s.callbackViaAsserted := by
  rw [pciIntxDeassert]
  split
  · dsimp only
    split <;> exact ⟨rfl,rfl⟩
  · exact ⟨rfl,rfl⟩

-- Between the two halves no callback is set up, whatever `callback_via_type`
-- still says.
theorem tearDown_exact (exact_ : Exact s) (asserted : s.callbackViaAsserted = true) :
    Exact {tearDown s with callbackVia := .none} := by
  rw [tearDown]
  cases via : s.callbackVia with
  | none => exact exact_.callback s.callbackViaAsserted .none (by rw [via])
  | vector v => exact exact_.callback s.callbackViaAsserted .none (by rw [via]; rfl)
  | gsi gsi => exact callbackDown_exact exact_ s.callbackViaAsserted .none (by rw [asserted,via]; rfl) rfl
  | pciIntx line =>
    refine (deassert_exact exact_ line).callback _ .none ?_
    rw [(deassert_callback s line).1,via]
    rfl

theorem setUp_exact (exact_ : Exact {s with callbackVia := .none}) (via : CallbackVia) : Exact (setUp s via) := by
  unfold setUp
  dsimp only
  split
  · rename_i asserted
    cases via with
    | none => exact exact_
    | vector v => exact exact_.callback s.callbackViaAsserted (.vector v) rfl
    | gsi gsi => exact callbackUp_exact exact_ s.callbackViaAsserted (.gsi gsi) rfl (by rw [asserted]; rfl)
    | pciIntx line => exact assert_exact (exact_.callback s.callbackViaAsserted (.pciIntx line) rfl) line
  · rename_i quiet
    rw [Bool.not_eq_true] at quiet
    refine exact_.callback s.callbackViaAsserted via ?_
    rw [quiet,callbackLoad_false]
    rfl

theorem setCallbackVia_exact (exact_ : Exact s) (via : BitVec 64) : Exact (setCallbackVia s via) := by
  rw [setCallbackVia]
  split
  · rename_i asserted
    exact setUp_exact (tearDown_exact exact_ asserted) _
  · rename_i quiet
    rw [Bool.not_eq_true] at quiet
    refine setUp_exact (exact_.callback s.callbackViaAsserted .none ?_) _
    rw [quiet,callbackLoad_false,callbackLoad_false]

-- The old route given up: the link drives nothing, and the new route is in
-- place but not counted.
structure Unrouted (s t : State) (link : Fin 4) (irq : Nat) : Prop where
  gsi : ∀ gsi, t.gsiAssertCount gsi = driven (Function.update (load s) (.inr (.inl link)) none) gsi
  links : ∀ link, t.pciLinkAssertCount link = driven (linkOfLine t.pciIntx) link
  unwrapped : t.wrapped = false
  loads : load t = Function.update (load s) (.inr (.inl link)) (if irq ≠ 0 then some irq else none)

theorem unroute (exact_ : Exact s) {link : Fin 4} (counted : s.pciLinkAssertCount link ≠ 0) (irq : Nat) :
    Unrouted s (if s.route link ≠ 0 then
      gsiDown {s with route := Function.update s.route link irq} (s.route link) [.vpicNegative (s.route link)]
      else {s with route := Function.update s.route link irq}) link irq := by
  have held : load s (.inr (.inl link)) = if s.route link ≠ 0 then some (s.route link) else none := by
    rw [load,loads_at_link,linkLoad]
    simp only [counted,ne_eq,not_false_eq_true,true_and]
  have changed : loads s.pciIntx s.pciLinkAssertCount (Function.update s.route link irq) s.isaIrq
      (callbackLoad s.callbackViaAsserted s.callbackVia) =
      Function.update (load s) (.inr (.inl link)) (if irq ≠ 0 then some irq else none) := by
    rw [loads_route,load]
    simp only [counted,ne_eq,not_false_eq_true,true_and]
  split
  · rename_i routed
    rw [if_pos routed] at held
    have room := count_not_zero exact_.gsi held
    exact ⟨drop_driven wires_small exact_.gsi held rfl,exact_.link,by simp [gsiDown,exact_.unwrapped,room],changed⟩
  · rename_i nowhere
    rw [if_neg nowhere] at held
    have same : Function.update (load s) (.inr (.inl link)) none = load s := Function.update_eq_self_iff.mpr held.symm
    exact ⟨fun gsi => by rw [same]; exact exact_.gsi gsi,exact_.link,exact_.unwrapped,changed⟩

theorem route_exact (exact_ : Exact s) (link : Fin 4) (irq : Fin 16) : Exact (setPciLinkRoute s link irq) := by
  rw [setPciLinkRoute]
  dsimp only
  split
  · exact exact_
  · split
    · rename_i idle
      refine ⟨fun gsi => (exact_.gsi gsi).trans (congrArg (driven · gsi) ?_),exact_.link,exact_.unwrapped⟩
      refine ((loads_route irq.val).trans ?_).symm
      rw [if_neg (fun both => both.1 idle)]
      refine Function.update_eq_self_iff.mpr ?_
      rw [loads_at_link,linkLoad,if_neg (fun both => both.1 idle)]
    · rename_i counted
      have left := unroute exact_ counted irq.val
      generalize (if s.route link ≠ 0 then _ else _ : State) = t at left ⊢
      have loaded := left.loads
      split
      · rename_i goes
        have off : Function.update (load s) (.inr (.inl link)) none (.inr (.inl link)) = none := Function.update_self _ _ _
        have room := count_not_full (g:=irq.val) wires_small left.gsi off
        rw [if_pos goes] at loaded
        refine ⟨bump_driven wires_small left.gsi off ?_,left.links,by simp [gsiUp,left.unwrapped,room]⟩
        rw [Function.update_idem]
        exact loaded
      · rename_i stays
        rw [if_neg stays] at loaded
        refine ⟨fun gsi => ?_,left.links,left.unwrapped⟩
        rw [left.gsi,loaded]

theorem save_exact (exact_ : Exact s) : Exact (irqSavePci s).2 := by
  unfold irqSavePci
  split
  · exact assert_exact (deassert_exact exact_ _) _
  · exact exact_

theorem step_exact (exact_ : Exact s) (event : Event) : Exact (step s event) := by
  cases event with
  | pciIntxAssert line => exact assert_exact exact_ line
  | pciIntxDeassert line => exact deassert_exact exact_ line
  | isaIrqAssert irq => exact isaAssert_exact exact_ irq
  | isaIrqDeassert irq => exact isaDeassert_exact exact_ irq
  | setPciLinkRoute link irq => exact route_exact exact_ link irq
  | setCallbackVia via => exact setCallbackVia_exact exact_ via
  | setCallbackIrqLevel asserted => exact level_exact exact_ asserted
  | irqSavePci => exact save_exact exact_

theorem initial_exact : Exact initial := by
  refine ⟨fun gsi => ?_,fun link => ?_,rfl⟩
  · refine (Finset.sum_eq_zero fun w _ => ?_).symm
    rcases w with _ | _ | _ | _ <;> exact if_neg (by simp [load,loads,lineLoad,linkLoad,isaLoad,callbackLoad,initial])
  · exact (Finset.sum_eq_zero fun line _ => if_neg (by simp [linkOfLine,initial])).symm

theorem run_exact (exact_ : Exact s) (events : List Event) : Exact (events.foldl step s) := by
  induction events generalizing s with
  | nil => exact exact_
  | cons event rest ih => exact ih (step_exact exact_ event)

end XenAet.IrqCounts
