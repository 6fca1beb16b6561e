import XenAet.VirtualIoapic

namespace XenAet.LevelInterrupts
open XenAet.VirtualIoapic
open XenAet.IrqLines (Edge gsiUp gsiDown setLine setIsa linkUp linkDown)
open XenAet.IrqCounts (Exact)
open Library

-- The lines: a count leaves zero with an edge.

def Raises (edges : List Edge) (gsi : Nat) : Prop := .assertGsi gsi ∈ edges ∨ .vioapicPositive gsi ∈ edges

theorem Raises.left {first second : List Edge} (raises : Raises first gsi) : Raises (first ++ second) gsi :=
  raises.imp (List.mem_append_left second) (List.mem_append_left second)

theorem Raises.right {first second : List Edge} (raises : Raises second gsi) : Raises (first ++ second) gsi :=
  raises.imp (List.mem_append_right first) (List.mem_append_right first)

-- The edges that are told on the way from one line state to another account
-- for every count that was zero and is not, unless a byte went past its end.
def Covers (a b : IrqLines.State) : Prop :=
  ∃ new, b.edges = a.edges ++ new ∧ (b.wrapped = false → a.wrapped = false ∧
    ∀ gsi, b.gsiAssertCount gsi ≠ 0 → a.gsiAssertCount gsi ≠ 0 ∨ Raises new gsi)

theorem covers_same {a b : IrqLines.State} (edges : b.edges = a.edges) (counts : b.gsiAssertCount = a.gsiAssertCount)
    (wrapped : b.wrapped = false → a.wrapped = false) : Covers a b := by
  refine ⟨[],by rw [edges,List.append_nil],fun fits => ⟨wrapped fits,fun gsi up => ?_⟩⟩
  rw [counts] at up
  exact .inl up

theorem covers_refl (a : IrqLines.State) : Covers a a := covers_same rfl rfl id

theorem Covers.trans {a b c : IrqLines.State} (first : Covers a b) (second : Covers b c) : Covers a c := by
  obtain ⟨new,edges,up⟩ := first
  obtain ⟨later,edges',up'⟩ := second
  refine ⟨new ++ later,by rw [edges',edges,List.append_assoc],fun fits => ?_⟩
  obtain ⟨fits,up'⟩ := up' fits
  obtain ⟨fits,up⟩ := up fits
  refine ⟨fits,fun gsi counted => ?_⟩
  rcases up' gsi counted with counted | raises
  · rcases up gsi counted with counted | raises
    · exact .inl counted
    · exact .inr raises.left
  · exact .inr raises.right

theorem covers_up (a : IrqLines.State) {first : List Edge} (raises : Raises first gsi) : Covers a (gsiUp a gsi first) := by
  refine ⟨if a.gsiAssertCount gsi = 0 then first else [],?_,fun fits => ?_⟩
  · change (if a.gsiAssertCount gsi = 0 then a.edges ++ first else a.edges) = _
    split
    · rfl
    · rw [List.append_nil]
  · have fits : (a.wrapped || decide (a.gsiAssertCount gsi = 255)) = false := fits
    refine ⟨(Bool.or_eq_false_iff.mp fits).1,fun x counted => ?_⟩
    by_cases here : x = gsi
    · subst here
      by_cases zero : a.gsiAssertCount x = 0
      · rw [if_pos zero]
        exact .inr raises
      · exact .inl zero
    · have same : (gsiUp a gsi first).gsiAssertCount x = a.gsiAssertCount x := Function.update_of_ne here ..
      rw [same] at counted
      exact .inl counted

theorem covers_down (a : IrqLines.State) (gsi : Nat) (last : List Edge) : Covers a (gsiDown a gsi last) := by
  refine ⟨if (a.gsiAssertCount gsi + 255) % 256 = 0 then last else [],?_,fun fits => ?_⟩
  · change (if (a.gsiAssertCount gsi + 255) % 256 = 0 then a.edges ++ last else a.edges) = _
    split
    · rfl
    · rw [List.append_nil]
  · have fits : (a.wrapped || decide (a.gsiAssertCount gsi = 0)) = false := fits
    obtain ⟨before,counted⟩ := Bool.or_eq_false_iff.mp fits
    refine ⟨before,fun x up => ?_⟩
    by_cases here : x = gsi
    · subst here
      exact .inl (of_decide_eq_false counted)
    · have same : (gsiDown a gsi last).gsiAssertCount x = a.gsiAssertCount x := Function.update_of_ne here ..
      rw [same] at up
      exact .inl up

theorem covers_linkUp (a : IrqLines.State) (link : Fin 4) : Covers a (linkUp a link) :=
  covers_same rfl rfl fun fits => (Bool.or_eq_false_iff.mp fits).1

theorem covers_linkDown (a : IrqLines.State) (link : Fin 4) : Covers a (linkDown a link) :=
  covers_same rfl rfl fun fits => (Bool.or_eq_false_iff.mp fits).1

theorem raises_assertIrq (gsi picIrq : Nat) : Raises (IrqLines.assertIrq gsi picIrq) gsi := .inl List.mem_cons_self

theorem raises_one (gsi : Nat) : Raises [.assertGsi gsi] gsi := .inl List.mem_cons_self

theorem raises_positive (gsi : Nat) (rest : List Edge) : Raises (.vioapicPositive gsi :: rest) gsi := .inr List.mem_cons_self

theorem covers_assert (a : IrqLines.State) (line : IrqLines.Line) : Covers a (IrqLines.pciIntxAssert a line) := by
  unfold IrqLines.pciIntxAssert
  split
  · exact covers_refl a
  have raised : Covers a (gsiUp (setLine a line true) (IrqLines.hvmPciIntxGsi line) [.assertGsi (IrqLines.hvmPciIntxGsi line)]) :=
    (covers_same rfl rfl id).trans (covers_up (setLine a line true) (raises_one _))
  have linked := raised.trans (covers_linkUp _ (IrqLines.hvmPciIntxLink line))
  dsimp only
  split
  · exact linked.trans (covers_up _ (raises_assertIrq _ _))
  · exact linked

theorem covers_deassert (a : IrqLines.State) (line : IrqLines.Line) : Covers a (IrqLines.pciIntxDeassert a line) := by
  unfold IrqLines.pciIntxDeassert
  split
  · have lowered : Covers a (gsiDown (setLine a line false) (IrqLines.hvmPciIntxGsi line) []) :=
      (covers_same rfl rfl id).trans (covers_down (setLine a line false) _ _)
    have linked := lowered.trans (covers_linkDown _ (IrqLines.hvmPciIntxLink line))
    dsimp only
    split
    · exact linked.trans (covers_down _ _ _)
    · exact linked
  · exact covers_refl a

theorem covers_callbackUp (a : IrqLines.State) (gsi : Nat) : Covers a (IrqLines.callbackUp a gsi) :=
  covers_up a (raises_positive gsi _)

theorem covers_callbackDown (a : IrqLines.State) (gsi : Nat) : Covers a (IrqLines.callbackDown a gsi) := covers_down a gsi _

theorem covers_level (a : IrqLines.State) (asserted : Bool) : Covers a (IrqLines.setCallbackIrqLevel a asserted) := by
  unfold IrqLines.setCallbackIrqLevel
  split
  · exact covers_refl a
  have changed : Covers a {a with callbackViaAsserted := asserted} := covers_same rfl rfl id
  dsimp only
  split
  · split
    · exact changed.trans (covers_callbackUp _ _)
    · exact changed.trans (covers_callbackDown _ _)
  · split
    · exact changed.trans (covers_assert _ _)
    · exact changed.trans (covers_deassert _ _)
  · exact changed

theorem covers_tearDown (a : IrqLines.State) : Covers a (IrqLines.tearDown a) := by
  unfold IrqLines.tearDown
  split
  · exact covers_callbackDown a _
  · exact covers_deassert a _
  · exact covers_refl a

theorem covers_setUp (a : IrqLines.State) (via : IrqLines.CallbackVia) : Covers a (IrqLines.setUp a via) := by
  have changed : Covers a {a with callbackVia := via} := covers_same rfl rfl id
  unfold IrqLines.setUp
  dsimp only
  split
  · split
    · exact changed.trans (covers_callbackUp _ _)
    · exact changed.trans (covers_assert _ _)
    · exact changed
  · exact changed

theorem covers_via (a : IrqLines.State) (via : BitVec 64) : Covers a (IrqLines.setCallbackVia a via) := by
  unfold IrqLines.setCallbackVia
  refine Covers.trans ?_ (covers_setUp _ _)
  split
  · exact covers_tearDown a
  · exact covers_refl a

theorem covers_route (a : IrqLines.State) (link : Fin 4) (isaIrq : Fin 16) : Covers a (IrqLines.setPciLinkRoute a link isaIrq) := by
  unfold IrqLines.setPciLinkRoute
  dsimp only
  split
  · exact covers_refl a
  have routed : Covers a {a with route := Function.update a.route link isaIrq.val} := covers_same rfl rfl id
  split
  · exact routed
  have lowered : Covers a (if a.route link ≠ 0 then gsiDown {a with route := Function.update a.route link isaIrq.val} (a.route link)
      [.vpicNegative (a.route link)] else {a with route := Function.update a.route link isaIrq.val}) := by
    split
    · exact routed.trans (covers_down _ _ _)
    · exact routed
  by_cases on : isaIrq.val ≠ 0
  · rw [if_pos on]
    exact lowered.trans (covers_up _ (raises_positive _ _))
  · rw [if_neg on]
    exact lowered

theorem covers_step (a : IrqLines.State) (event : IrqLines.Event) : Covers a (IrqLines.step a event) := by
  cases event with
  | pciIntxAssert line => exact covers_assert a line
  | pciIntxDeassert line => exact covers_deassert a line
  | isaIrqAssert isaIrq =>
    unfold IrqLines.step IrqLines.isaIrqAssert
    dsimp only
    split
    · exact covers_refl a
    · exact (covers_same rfl rfl id).trans (covers_up (setIsa a isaIrq true) (raises_assertIrq _ _))
  | isaIrqDeassert isaIrq =>
    unfold IrqLines.step IrqLines.isaIrqDeassert
    dsimp only
    split
    · exact (covers_same rfl rfl id).trans (covers_down (setIsa a isaIrq false) _ _)
    · exact covers_refl a
  | setPciLinkRoute link isaIrq => exact covers_route a link isaIrq
  | setCallbackVia via => exact covers_via a via
  | setCallbackIrqLevel asserted => exact covers_level a asserted
  | irqSavePci =>
    unfold IrqLines.step IrqLines.irqSavePci
    dsimp only
    split
    · exact (covers_deassert a _).trans (covers_assert _ _)
    · exact covers_refl a

-- The entries.

variable {s t : State} {e : Env} {pin : Nat} {ent : Entry}

@[simp] theorem store_self : (s.store pin ent).redirtbl pin = ent := Function.update_self ..

theorem store_other (other : p ≠ pin) : (s.store pin ent).redirtbl p = s.redirtbl p := Function.update_of_ne other ..

@[simp] theorem remoteIrr_set (ent : Entry) (value : Bool) : remoteIrr (setBit ent 14 value) = value := by
  cases value <;> simp [remoteIrr,setBit]

@[simp] theorem level_set (ent : Entry) (value : Bool) : level (setBit ent 14 value) = level ent := by
  cases value <;> simp [level,setBit]

@[simp] theorem masked_set (ent : Entry) (value : Bool) : masked (setBit ent 14 value) = masked ent := by
  cases value <;> simp [masked,setBit]

theorem remoteIrr_withLow (ent : Entry) (val : BitVec 32) : remoteIrr (withLow ent val) = remoteIrr ent := remoteIrr_set _ _

theorem remoteIrr_withTop (ent : Entry) (val : BitVec 32) : remoteIrr (withTop ent val) = remoteIrr ent := by
  simp [remoteIrr,withTop]

-- A pin that is level-triggered, unmasked and held up has its flag set.
def Lit (s : State) (pin : Nat) : Prop :=
  level (s.redirtbl pin) = true → masked (s.redirtbl pin) = false → s.irq.gsiAssertCount pin ≠ 0 →
    remoteIrr (s.redirtbl pin) = true

-- The table as the stores so far have left it.
def Action.apply (table : Nat → Entry) : Action → Nat → Entry
  | .lowered pin => Function.update table pin (setBit (table pin) 14 false)
  | .raised pin => Function.update table pin (setBit (table pin) 14 true)
  | .stored pin ent => Function.update table pin ent
  | .delivered .. => table

def tableOf (log : List Action) : Nat → Entry := log.foldl Action.apply fun _ => setBit 0#64 16 true

theorem tableOf_concat (log : List Action) (a : Action) : tableOf (log ++ [a]) = Action.apply (tableOf log) a := List.foldl_concat ..

theorem table_delivered (log : List Action) (pin : Nat) (ent : Entry) (sent : List Sent) :
    tableOf (log ++ [.delivered pin ent sent]) = tableOf log := tableOf_concat ..

-- The modes that inject a vector, with somebody to inject it into.
def Targeted (e : Env) (pin : Nat) (ent : Entry) : Prop :=
  deliveryMode ent = destLowestPrio ∧ (if timerOnly e pin then e.vcpus.head? else e.lowestPrio (destId ent) (destMode ent)).isSome ∨
    deliveryMode ent = destFixed ∧
      if timerOnly e pin then e.vcpus ≠ [] else ∃ v ∈ e.vcpus, e.matchDest v (destId ent) (destMode ent) = true

theorem sent_iff (e : Env) (pin : Nat) (ent : Entry) : (∃ v, .setIrq v (vector ent) (level ent) ∈ sentFor e pin ent) ↔ Targeted e pin ent := by
  unfold sentFor Targeted
  dsimp only
  by_cases lowest : deliveryMode ent = destLowestPrio
  · have other : deliveryMode ent ≠ destFixed := by rw [lowest]; decide
    rw [if_pos lowest,or_iff_left fun both => other both.1,and_iff_right lowest]
    cases (if timerOnly e pin then e.vcpus.head? else e.lowestPrio (destId ent) (destMode ent)) <;> simp
  · rw [if_neg lowest,or_iff_right fun both => lowest both.1]
    by_cases fixed : deliveryMode ent = destFixed
    · rw [if_pos fixed,and_iff_right fixed]
      split
      · cases e.vcpus <;> simp
      · simp
    · rw [if_neg fixed]
      split <;> simp [fixed]

-- The flag was last set with a delivery of the entry as it was then, to the
-- local APICs as one of `envs` has them: a delivery of its vector just where
-- it has a target.
def Served (envs : Env → Prop) (log : List Action) (pin : Nat) : Prop :=
  ∃ before ent sent after e, log = before ++ .raised pin :: .delivered pin ent sent :: after ∧ ent = tableOf (before ++ [.raised pin]) pin ∧
    envs e ∧ sent = sentFor e pin ent ∧ ((∃ v, .setIrq v (vector ent) (level ent) ∈ sent) ↔ Targeted e pin ent) ∧ .lowered pin ∉ after

structure Told (envs : Env → Prop) (s : State) : Prop where
  table : s.redirtbl = tableOf s.log
  served : ∀ pin, remoteIrr (s.redirtbl pin) = true → Served envs s.log pin

variable {envs : Env → Prop}

theorem Served.append {log more : List Action} (served : Served envs log pin) (kept : .lowered pin ∉ more) : Served envs (log ++ more) pin := by
  obtain ⟨before,ent,sent,after,e,rfl,is,known,targets,vector,still⟩ := served
  refine ⟨before,ent,sent,after ++ more,e,by simp,is,known,targets,vector,fun lowered => ?_⟩
  rcases List.mem_append.mp lowered with early | late
  · exact still early
  · exact kept late

theorem told_deliver (told : Told envs s) : Told envs (vioapicDeliver e s pin) :=
  ⟨told.table.trans (table_delivered ..).symm,fun p set_ => (told.served p set_).append (by simp)⟩

theorem table_raise (pin : Nat) (table : s.redirtbl = tableOf s.log) : (raise s pin).redirtbl = tableOf (s.log ++ [.raised pin]) := by
  rw [tableOf_concat,← table]
  rfl

theorem told_serve (told : Told envs s) (known : envs e) : Told envs (vioapicDeliver e (raise s pin) pin) := by
  have raised := table_raise pin told.table
  have grown : (vioapicDeliver e (raise s pin) pin).log =
      s.log ++ .raised pin :: .delivered pin ((raise s pin).redirtbl pin) (sentFor e pin ((raise s pin).redirtbl pin)) :: [] := by
    simp [vioapicDeliver,raise]
  refine ⟨raised.trans (table_delivered ..).symm,fun p set_ => ?_⟩
  by_cases here : p = pin
  · subst here
    exact ⟨s.log,_,_,[],e,grown,congrFun raised p,known,rfl,sent_iff ..,List.not_mem_nil⟩
  · have same : (vioapicDeliver e (raise s pin) pin).redirtbl p = s.redirtbl p := store_other here
    rw [same] at set_
    rw [grown]
    exact (told.served p set_).append (by simp)

theorem told_lower (told : Told envs s) : Told envs (lower s pin) := by
  refine ⟨?_,fun p set_ => ?_⟩
  · change _ = tableOf (s.log ++ [_])
    rw [tableOf_concat,← told.table]
    rfl
  · by_cases here : p = pin
    · subst here
      have cleared : remoteIrr ((lower s p).redirtbl p) = false := by simp [lower]
      rw [cleared] at set_
      cases set_
    · have same : (lower s pin).redirtbl p = s.redirtbl p := store_other here
      rw [same] at set_
      exact (told.served p set_).append (by simpa using here)

theorem told_store (told : Told envs s) (kept : remoteIrr ent = remoteIrr (s.redirtbl pin)) : Told envs (writeEntry s pin ent) := by
  refine ⟨?_,fun p set_ => Served.append (told.served p ?_) (by simp)⟩
  · change _ = tableOf (s.log ++ [_])
    rw [tableOf_concat,← told.table]
    rfl
  · by_cases here : p = pin
    · subst here
      rw [← kept]
      simpa [writeEntry] using set_
    · have same : (writeEntry s pin ent).redirtbl p = s.redirtbl p := store_other here
      rwa [same] at set_

-- A rising edge sets flags and changes no other bit that matters.
structure Grows (s t : State) : Prop where
  irq : t.irq = s.irq
  level : ∀ pin, level (t.redirtbl pin) = level (s.redirtbl pin)
  masked : ∀ pin, masked (t.redirtbl pin) = masked (s.redirtbl pin)
  remote : ∀ pin, remoteIrr (s.redirtbl pin) = true → remoteIrr (t.redirtbl pin) = true

theorem grows_refl (s : State) : Grows s s := ⟨rfl,fun _ => rfl,fun _ => rfl,fun _ => id⟩

theorem Grows.trans (first : Grows s t) (second : Grows t u) : Grows s u :=
  ⟨second.irq.trans first.irq,fun pin => (second.level pin).trans (first.level pin),
    fun pin => (second.masked pin).trans (first.masked pin),fun pin set_ => second.remote pin (first.remote pin set_)⟩

theorem grows_serve (pin : Nat) : Grows s (vioapicDeliver e (raise s pin) pin) := by
  have at_ (p : Nat) : (vioapicDeliver e (raise s pin) pin).redirtbl p =
      if p = pin then setBit (s.redirtbl pin) 14 true else s.redirtbl p := by
    split
    · next here =>
      subst here
      exact store_self
    · next other => exact store_other other
  refine ⟨rfl,fun p => ?_,fun p => ?_,fun p set_ => ?_⟩
  · rw [at_]
    split
    · next here => rw [level_set,here]
    · rfl
  · rw [at_]
    split
    · next here => rw [masked_set,here]
    · rfl
  · rw [at_]
    split
    · exact remoteIrr_set _ _
    · exact set_

theorem grows_positiveEdge : Grows s (vioapicIrqPositiveEdge e s pin) := by
  unfold vioapicIrqPositiveEdge
  dsimp only
  split
  · exact grows_refl s
  · split
    · split
      · exact grows_refl s
      · exact grows_serve pin
    · exact ⟨rfl,fun _ => rfl,fun _ => rfl,fun _ => id⟩

theorem told_positiveEdge (told : Told envs s) (known : envs e) : Told envs (vioapicIrqPositiveEdge e s pin) := by
  unfold vioapicIrqPositiveEdge
  dsimp only
  split
  · exact told
  · split
    · split
      · exact told
      · exact told_serve told known
    · exact told_deliver told

theorem positiveEdge_lit (trig : level (s.redirtbl pin) = true) (open_ : masked (s.redirtbl pin) = false) :
    remoteIrr ((vioapicIrqPositiveEdge e s pin).redirtbl pin) = true := by
  unfold vioapicIrqPositiveEdge
  dsimp only
  rw [open_,if_neg Bool.false_ne_true,if_pos trig]
  split
  · next set_ => exact set_
  · simp [vioapicDeliver,raise]

theorem edges_told {edges : List Edge} (told : Told envs s) (known : envs e) : Told envs (edges.foldl (edge e) s) := by
  induction edges generalizing s with
  | nil => exact told
  | cons first rest ih =>
    apply ih
    cases first with
    | assertGsi gsi => exact told_positiveEdge told known
    | vioapicPositive gsi => exact told_positiveEdge told known
    | _ => exact told

theorem grows_edge (first : Edge) : Grows s (edge e s first) := by
  cases first with
  | assertGsi gsi => exact grows_positiveEdge
  | vioapicPositive gsi => exact grows_positiveEdge
  | _ => exact grows_refl s

theorem edges_grow (edges : List Edge) : Grows s (edges.foldl (edge e) s) := by
  induction edges generalizing s with
  | nil => exact grows_refl s
  | cons first rest ih => exact (grows_edge first).trans ih

theorem edges_lit {edges : List Edge} (raises : Raises edges pin) (trig : level (s.redirtbl pin) = true)
    (open_ : masked (s.redirtbl pin) = false) : remoteIrr ((edges.foldl (edge e) s).redirtbl pin) = true := by
  induction edges generalizing s with
  | nil => exact absurd raises (by simp [Raises])
  | cons first rest ih =>
    by_cases here : first = .assertGsi pin ∨ first = .vioapicPositive pin
    · have set_ : remoteIrr ((edge e s first).redirtbl pin) = true := by
        rcases here with rfl | rfl <;> exact positiveEdge_lit trig open_
      exact (edges_grow rest).remote pin set_
    · have later : Raises rest pin := by
        rw [not_or] at here
        refine raises.imp (fun at_ => ?_) fun at_ => ?_
        · exact (List.mem_cons.mp at_).resolve_left (Ne.symm here.1)
        · exact (List.mem_cons.mp at_).resolve_left (Ne.symm here.2)
      have grown := grows_edge (s:=s) (e:=e) first
      exact ih later ((grown.level pin).trans trig) ((grown.masked pin).trans open_)

-- The invariant, but for the pins that are being dealt with.
structure Inv (envs : Env → Prop) (skip : Nat → Prop) (s : State) : Prop where
  counts : Exact s.irq
  lit : ∀ pin, pin ≠ 0 → ¬skip pin → Lit s pin
  told : Told envs s

theorem Inv.done {skip : Nat → Prop} (inv : Inv envs (fun p => skip p ∨ p = pin) s) (lit : pin ≠ 0 → Lit s pin) : Inv envs skip s := by
  refine ⟨inv.counts,fun p nonzero free => ?_,inv.told⟩
  by_cases here : p = pin
  · subst here
    exact lit nonzero
  · exact inv.lit p nonzero fun busy => busy.elim free here

theorem store_inv {skip : Nat → Prop} (inv : Inv envs skip s) (kept : remoteIrr ent = remoteIrr (s.redirtbl pin)) :
    Inv envs (fun p => skip p ∨ p = pin) (writeEntry s pin ent) := by
  refine ⟨inv.counts,fun p nonzero free => ?_,told_store inv.told kept⟩
  rw [not_or] at free
  have same : (writeEntry s pin ent).redirtbl p = s.redirtbl p := store_other free.2
  rw [Lit,same]
  exact inv.lit p nonzero free.1

theorem lower_inv {skip : Nat → Prop} (inv : Inv envs skip s) (pin : Nat) : Inv envs (fun p => skip p ∨ p = pin) (lower s pin) := by
  refine ⟨inv.counts,fun p nonzero free => ?_,told_lower inv.told⟩
  rw [not_or] at free
  have same : (lower s pin).redirtbl p = s.redirtbl p := store_other free.2
  rw [Lit,same]
  exact inv.lit p nonzero free.1

theorem serve_inv {skip : Nat → Prop} (inv : Inv envs (fun p => skip p ∨ p = pin) s) (known : envs e) : Inv envs skip (vioapicDeliver e (raise s pin) pin) := by
  have grown : Grows s (vioapicDeliver e (raise s pin) pin) := grows_serve pin
  refine ⟨inv.counts,fun p nonzero free trig open_ up => ?_,told_serve inv.told known⟩
  by_cases here : p = pin
  · subst here
    simp [vioapicDeliver,raise]
  · have busy : ¬(skip p ∨ p = pin) := fun busy => busy.elim free here
    refine grown.remote p (inv.lit p nonzero busy ?_ ?_ up)
    · exact (grown.level p).symm.trans trig
    · exact (grown.masked p).symm.trans open_

theorem redirent_inv {skip : Nat → Prop} (inv : Inv envs skip s) (known : envs e) (idx : Nat) (topWord : Bool) (val : BitVec 32) :
    Inv envs skip (vioapicWriteRedirent e s idx topWord val) := by
  have kept : remoteIrr (if topWord then withTop (s.redirtbl idx) val else withLow (s.redirtbl idx) val) =
      remoteIrr (s.redirtbl idx) := by
    split
    · exact remoteIrr_withTop _ _
    · exact remoteIrr_withLow _ _
  have stored := store_inv inv kept
  unfold vioapicWriteRedirent
  generalize (if topWord then withTop (s.redirtbl idx) val else withLow (s.redirtbl idx) val) = ent at kept stored ⊢
  dsimp only
  split
  · next zero => exact stored.done fun nonzero => absurd zero nonzero
  split
  · next edgeTrig =>
    have lowered := lower_inv stored idx
    refine (lowered.done fun _ trig => ?_).done fun _ trig => ?_
    all_goals
      simp only [lower,writeEntry,store_self,level_set] at trig
      simp [trig] at edgeTrig
  split
  · exact serve_inv stored known
  · next handled =>
    refine stored.done fun _ trig open_ up => ?_
    simp only [writeEntry,store_self] at open_ ⊢
    by_contra clear
    exact handled (by simp [open_,Bool.eq_false_iff.mpr clear,up])

theorem line_inv {skip : Nat → Prop} (inv : Inv envs skip s) (known : envs e) (event : IrqLines.Event) : Inv envs skip (line e s event) := by
  have blank : Exact {s.irq with edges := []} := ⟨inv.counts.gsi,inv.counts.link,inv.counts.unwrapped⟩
  have counts := IrqCounts.step_exact blank event
  obtain ⟨new,edges,covers⟩ := covers_step {s.irq with edges := []} event
  have covers := (covers counts.unwrapped).2
  have edges : (IrqLines.step {s.irq with edges := []} event).edges = new := edges
  unfold line
  dsimp only
  rw [edges]
  generalize IrqLines.step {s.irq with edges := []} event = irq at counts covers
  have grown := edges_grow (s:={s with irq := irq}) (e:=e) new
  have told : Told envs {s with irq := irq} := ⟨inv.told.table,inv.told.served⟩
  refine ⟨?_,fun pin nonzero free trig open_ up => ?_,edges_told told known⟩
  · rw [grown.irq]
    exact counts
  · rw [grown.irq] at up
    rw [grown.level] at trig
    rw [grown.masked] at open_
    rcases covers pin up with before | raises
    · exact grown.remote pin (inv.lit pin nonzero free trig open_ before)
    · exact edges_lit raises trig open_

theorem indirect_inv {skip : Nat → Prop} (inv : Inv envs skip s) (known : envs e) (val : BitVec 32) : Inv envs skip (vioapicWriteIndirect e s val) := by
  unfold vioapicWriteIndirect
  split
  · exact inv
  split
  · exact ⟨inv.counts,inv.lit,inv.told.table,inv.told.served⟩
  split
  · exact inv
  dsimp only
  split
  · exact inv
  · exact redirent_inv inv known _ _ _

theorem perform_inv {skip : Nat → Prop} (inv : Inv envs skip s) (call : Env × Op) (known : envs call.1) : Inv envs skip (perform s call) := by
  obtain ⟨e,op⟩ := call
  cases op with
  | line event => exact line_inv inv known event
  | write addr val =>
    change Inv envs skip (vioapicWrite e s addr val)
    unfold vioapicWrite
    split
    · exact ⟨inv.counts,inv.lit,inv.told.table,inv.told.served⟩
    · split
      · exact indirect_inv inv known val
      · exact inv

theorem window_inv {skip : Nat → Prop} (inv : Inv envs skip s) (calls : List (Env × Op)) (known : ∀ call ∈ calls, envs call.1) : Inv envs skip (calls.foldl perform s) := by
  induction calls generalizing s with
  | nil => exact inv
  | cons call rest ih => exact ih (perform_inv inv call (known call List.mem_cons_self)) fun call later => known call (List.mem_cons_of_mem _ later)

-- The flag of a matching pin is clear while the lock is dropped; it is the
-- one pin that the window leaves out.
theorem eoiPin_inv {skip : Nat → Prop} {window : Nat → List (Env × Op)} (inv : Inv envs skip s) (known : envs e)
    (during : ∀ gsi, ∀ call ∈ window gsi, envs call.1) (vec : Int) (gsi : Nat) : Inv envs skip (eoiPin e vec window s gsi) := by
  unfold eoiPin
  split
  · exact inv
  have after := window_inv (lower_inv inv gsi) (window gsi) (during gsi)
  generalize (window gsi).foldl perform (lower s gsi) = s at after
  dsimp only
  split
  · exact serve_inv after known
  · next handled =>
    refine after.done fun _ trig open_ up => ?_
    exact absurd (by simp [trig,open_,up]) handled

-- The local APICs that an event is about.
def Event.Uses : Event → Env → Prop
  | .op e _,x => x = e
  | .eoi e _ window,x => x = e ∨ ∃ gsi, ∃ call ∈ window gsi, x = call.1

theorem step_inv {skip : Nat → Prop} (inv : Inv envs skip s) (event : Event) (known : ∀ e, Event.Uses event e → envs e) :
    Inv envs skip (step s event) := by
  cases event with
  | op e op => exact perform_inv inv (e,op) (known e rfl)
  | eoi e vec window =>
    change Inv envs skip (((List.range IrqLines.pins).foldl (eoiPin e vec window)) s)
    generalize List.range IrqLines.pins = gsis
    induction gsis generalizing s with
    | nil => exact inv
    | cons gsi rest ih => exact ih (eoiPin_inv inv (known e (.inl rfl)) (fun gsi call during => known _ (.inr ⟨gsi,call,during,rfl⟩)) vec gsi)

theorem reset_inv : Inv envs (fun _ => False) vioapicReset := by
  refine ⟨IrqCounts.initial_exact,fun pin _ _ trig => ?_,rfl,fun pin set_ => ?_⟩
  · have edgeTrig : level (setBit 0#64 16 true) = false := by decide
    exact absurd (edgeTrig.symm.trans trig) Bool.false_ne_true
  · have clear : remoteIrr (setBit 0#64 16 true) = false := by decide
    exact absurd (clear.symm.trans set_) Bool.false_ne_true

def Used (events : List Event) (e : Env) : Prop := ∃ event ∈ events, Event.Uses event e

theorem run_inv (events : List Event) : Inv (Used events) (fun _ => False) (events.foldl step vioapicReset) := by
  have kept (rest : List Event) (of : ∀ event ∈ rest, event ∈ events) (s : State) (inv : Inv (Used events) (fun _ => False) s) :
      Inv (Used events) (fun _ => False) (rest.foldl step s) := by
    induction rest generalizing s with
    | nil => exact inv
    | cons event rest ih =>
      refine ih (fun event later => of event (List.mem_cons_of_mem _ later)) _ (step_inv inv event fun e uses => ?_)
      exact ⟨event,of event List.mem_cons_self,uses⟩
  exact kept events (fun _ => id) vioapicReset reset_inv

theorem level_interrupt_kept (events : List Event) (pin : Nat) (nonzero : pin ≠ 0)
    (trig : level ((events.foldl step vioapicReset).redirtbl pin) = true)
    (open_ : masked ((events.foldl step vioapicReset).redirtbl pin) = false)
    (up : (events.foldl step vioapicReset).irq.gsiAssertCount pin ≠ 0) :
    remoteIrr ((events.foldl step vioapicReset).redirtbl pin) = true ∧ Served (Used events) (events.foldl step vioapicReset).log pin := by
  have inv := run_inv events
  have set_ := inv.lit pin nonzero id trig open_ up
  exact ⟨set_,inv.told.served pin set_⟩

def oneVcpu : Env := ⟨[0],fun _ _ _ => true,fun _ _ => some 0,false,fun _ => false⟩

-- Pin 18 is made level-triggered with vector 0x31, its line rises, and the
-- guest sends an EOI before the line has fallen.
def stillUp : List Event :=
  [.op oneVcpu (.write 0x00#64 0x34#32),.op oneVcpu (.write 0x10#64 0x8031#32),
   .op oneVcpu (.line (.pciIntxAssert (Fin.last 31,Fin.last 3))),.eoi oneVcpu 0x31 fun _ => []]

theorem level_interrupt_kept_stillUp : remoteIrr ((stillUp.foldl step vioapicReset).redirtbl 18) = true ∧
    Served (Used stillUp) (stillUp.foldl step vioapicReset).log 18 :=
  level_interrupt_kept stillUp 18 (by decide) (by decide +kernel) (by decide +kernel) (by decide +kernel)

-- The same pin with a delivery mode that is not supported: the flag is set, and
-- nothing is sent.
def unsupported : List Event :=
  [.op oneVcpu (.write 0x00#64 0x34#32),.op oneVcpu (.write 0x10#64 0x8231#32),.op oneVcpu (.line (.pciIntxAssert (Fin.last 31,Fin.last 3)))]

theorem unsupported_not_sent : level ((unsupported.foldl step vioapicReset).redirtbl 18) = true ∧
    masked ((unsupported.foldl step vioapicReset).redirtbl 18) = false ∧ (unsupported.foldl step vioapicReset).irq.gsiAssertCount 18 ≠ 0 ∧
    remoteIrr ((unsupported.foldl step vioapicReset).redirtbl 18) = true ∧
    (unsupported.foldl step vioapicReset).log = [.stored 18 0x8231,.raised 18,.delivered 18 0xc231 []] := by decide +kernel

end XenAet.LevelInterrupts
