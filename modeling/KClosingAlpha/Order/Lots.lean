import KClosingAlpha.Order.Finality
import KClosingAlpha.Order.Totals
/-!
# Lots — no entry is sold twice, and the journal never locks itself out

`open_lots` raises once the exits of an entry have filled more than the entry.  What an exit may still fill is its
whole quantity while it is ACKED or UNKNOWN, and nothing more once it is settled; the bound on the sum of these is kept
by every record but a SEND and an operator's adoption of a NOT_FOUND exit, which the runs here make only when the lot
covers them.
-/
namespace Order

open Py (Value Dict)

/-! ## What exits may fill -/

def isExitOf (parent : String) (i : OrderIntent) : Bool := i.phase == .exit && i.parentIntentId == some parent

/-- What an order has filled or may still fill. -/
def mayFill (st : IntentState) : Int :=
  max st.filledQty (if st.status = .acked ∨ st.status = .unknown then st.intent.elim 0 (·.qty) else 0)

def exitFilled (parent : String) (st : IntentState) : Int := if st.intent.any (isExitOf parent) then st.filledQty else 0

def exitMayFill (parent : String) (st : IntentState) : Int := if st.intent.any (isExitOf parent) then mayFill st else 0

/-- The fills of an entry; nothing of any other intent. -/
def entryFilled (st : IntentState) : Int := if st.intent.any (·.phase == .entry) then st.filledQty else 0

/-- The lot of an exit covers it beside all the other exits of the lot. -/
def covers (j : Journal) (i : OrderIntent) : Bool :=
  i.phase != .exit || decide (i.qty + totalOthers j (exitMayFill (i.parentIntentId.getD "")) i.intentId ≤
    entryFilled (stateOf j (i.parentIntentId.getD "")))

/-- Every SEND, and every adoption of a NOT_FOUND intent by an operator, is covered; and the reader accepts the baseline
of every SEND. -/
def coverRules : Rules
  | .append .send id payload _, w, _ =>
    (payloadBaseline payload).toOption.isSome = true ∧ (view w.journal id).intent.all (covers w.journal) = true
  | .append .operatorResolve id payload _, w, _ =>
    payload.lookup "resolution" = some (.str "adopt") → (view w.journal id).status.1 = .notFound →
      (view w.journal id).intent.all (covers w.journal) = true
  | _, _, _ => True

structure Covered (j : Journal) : Prop where
  sound : Sound j
  fits : ∀ id, (view j id).Fits
  exits : ∀ parent, total j (exitMayFill parent) ≤ entryFilled (stateOf j parent)

theorem exitsByParent_statesOf (j : Journal) (parent : String) :
    exitsByParent (statesOf j) parent = total j (exitFilled parent) := by
  unfold exitsByParent
  rw [← sum_statesOf]
  induction statesOf j with
  | nil => rfl
  | cons p sts ih =>
    have hx : exitFilled parent p.2 =
        if p.2.intent.any (fun i => i.phase == .exit && i.parentIntentId == some parent) then p.2.filledQty else 0 := rfl
    rw [List.map_cons, List.sum_cons, ← ih, List.filter_cons, hx]
    split_ifs <;> simp

theorem mayFill_le {st : IntentState} {i : OrderIntent} (hi : st.intent = some i) (h : st.filledQty ≤ i.qty) :
    mayFill st ≤ i.qty := by
  have hq := i.qty_pos
  unfold mayFill
  rw [hi, Option.elim_some]
  split_ifs <;> omega

theorem filledQty_le {v : View} (h : v.Fits) {i : OrderIntent} (hi : v.intent = some i) : v.state.filledQty ≤ i.qty := by
  have hq := i.qty_pos
  simp only [View.state]
  cases hf : v.fills with
  | none => exact Int.le_of_lt hq
  | some f =>
    have := h f hf
    have := this.2.2 i hi
    dsimp only [Option.elim]
    omega

/-! ## One record -/

section steps

variable {R : Rules} {g : OrderGateway} {c : Call} {start : Journal} {w w' : World} {e : JournalEvent}

/-- **Every record keeps the journal sound**, given that a SEND's baseline can be read back. -/
theorem Writes.sound (h : Writes R g c start w e) (happ : Appended R w e) (hs : Sound w.journal)
    (hb : e.kind = .send → ∃ b, payloadBaseline e.payload = .ok b) : Sound (w.journal ++ [e]) := by
  have hadmits (hid : e.intentId ∈ idsOf w.journal) (hk : e.kind ≠ .intent)
      (had : (view w.journal e.intentId).Admits e) : Sound (w.journal ++ [e]) :=
    hs.snoc_admits (append_loads happ.appended happ.tsText (.inr hid)) hid hk had
  cases h with
  | intent i hk hid hp hnew => exact sound_wrote_new hs happ hnew (.inl ⟨i, hk, hid, hp⟩)
  | skip hk hnew => exact sound_wrote_new hs happ hnew (.inr hk)
  | refuse hk hid hst => exact hadmits hid (by simp [hk]) (by simp [View.Admits, hk])
  | send i b hk hp hi hst hrisk hcall =>
    exact hadmits (mem_idsOf_of_intent hi) (by simp [hk]) (by simpa only [View.Admits, hk] using hb hk)
  | resend i hk hp hi hexit hflag hst hnf hop hlast hstart hcall =>
    exact hadmits (mem_idsOf_of_intent hi) (by simp [hk]) (by simpa only [View.Admits, hk] using hb hk)
  | result i n r hk hp hi hn hlast hr hst hres hconf =>
    exact hadmits (mem_idsOf_of_intent hi) (by simp [hk]) (by simp [View.Admits, hk, hp, verdictOf_resultPayload])
  | notFound i hk hi hst hs hfirst =>
    exact hadmits (mem_idsOf_of_intent hi) (by simp [hk]) (by simp [View.Admits, hk])
  | adopt i o hk hp hi hst hm => exact hadmits (mem_idsOf_of_intent hi) (by simp [hk]) (by simp [View.Admits, hk])
  | conflict i hk hi hst => exact hadmits (mem_idsOf_of_intent hi) (by simp [hk]) (by simp [View.Admits, hk])
  | operatorAdopt i a o hk hp hi hst hm hno hne hval hcall =>
    exact hadmits (mem_idsOf_of_intent hi) (by simp [hk]) (by simpa only [View.Admits, hk] using ⟨hval, hst⟩)
  | operatorNotFound i a hk hp hi hst hval hcall =>
    exact hadmits (mem_idsOf_of_intent hi) (by simp [hk]) (by simpa only [View.Admits, hk] using ⟨hval, .inl hst⟩)
  | brokerState i o final hk hp hi hno hfin hfill =>
    exact hadmits (mem_idsOf_of_intent hi) (by simp [hk]) (by simpa only [View.Admits, hk, hi] using hfill)
  | cancel hk hst hid =>
    refine hadmits hid ?_ ?_ <;> rcases hk with hk | hk <;> simp [View.Admits, hk]

/-- The fills of an entry only grow. -/
theorem entryFilled_mono (h : Writes R g c start w e) (id : String) :
    entryFilled (stateOf w.journal id) ≤ entryFilled (stateOf (w.journal ++ [e]) id) := by
  rw [stateOf, stateOf, view_snoc]
  split_ifs with hid
  · subst hid
    have hl := h.later.filled
    by_cases hk : e.kind = .intent
    · have hnew : e.intentId ∉ idsOf w.journal := by
        cases h with
        | intent i hk' hid hp hnew => exact hnew
        | cancel hk' => rcases hk' with hk' | hk' <;> simp [hk'] at hk
        | _ => simp_all
      rw [view_of_not_mem hnew] at hl ⊢
      unfold entryFilled
      split_ifs with h1 h2 h2
      · cases h1
      · cases h1
      · exact hl
      · exact Int.le_refl _
    · have hi : ((view w.journal e.intentId).push e).state.intent = (view w.journal e.intentId).state.intent :=
        View.push_intent hk
      unfold entryFilled
      rw [hi]
      split_ifs
      · exact hl
      · exact Int.le_refl _
  · exact Int.le_refl _

/-- A record that fills nothing, on an intent that is neither ACKED nor UNKNOWN after it or was before. -/
theorem mayFill_push {v : View} (hk : e.kind ≠ .brokerState) (hki : e.kind ≠ .intent)
    (h : (v.push e).status.1 = .acked ∨ (v.push e).status.1 = .unknown → v.status.1 = .acked ∨ v.status.1 = .unknown)
    {i : OrderIntent} (hi : v.intent = some i) : mayFill (v.push e).state ≤ mayFill v.state := by
  have hf : (v.push e).fills = v.fills := by simp [View.push, hk]
  have hq := i.qty_pos
  simp only [mayFill, View.state, hf, View.push_intent hki, hi, Option.elim_some]
  split_ifs with h1 h2
  · exact Int.le_refl _
  · exact absurd (h h1) h2
  · omega
  · exact Int.le_refl _

/-- An order about to be covered: a SEND, or an operator's adoption of a NOT_FOUND intent. -/
def takesCover (j : Journal) (e : JournalEvent) : Prop :=
  e.kind = .send ∨ (isAdoption e = true ∧ (view j e.intentId).status.1 = .notFound)

/-- **What an intent may fill grows only where the lot has to cover it.** -/
theorem Writes.mayFill_le (h : Writes R g c start w e) (ht : ¬ takesCover w.journal e) (parent : String) :
    exitMayFill parent (stateOf (w.journal ++ [e]) e.intentId) ≤ exitMayFill parent (stateOf w.journal e.intentId) := by
  rw [stateOf, stateOf, view_snoc_self]
  have hsend : e.kind ≠ .send := fun hk => ht (.inl hk)
  have hplain (hk : e.kind ≠ .brokerState) (hki : e.kind ≠ .intent)
      (hst : ((view w.journal e.intentId).push e).status.1 = .acked ∨
          ((view w.journal e.intentId).push e).status.1 = .unknown →
        (view w.journal e.intentId).status.1 = .acked ∨ (view w.journal e.intentId).status.1 = .unknown) :
      exitMayFill parent ((view w.journal e.intentId).push e).state ≤
        exitMayFill parent (view w.journal e.intentId).state := by
    have hsame : ((view w.journal e.intentId).push e).state.intent = (view w.journal e.intentId).state.intent :=
      View.push_intent hki
    unfold exitMayFill
    rw [hsame]
    split_ifs with hx
    · obtain ⟨i, hi, -⟩ := (Option.any_eq_true _ _).1 hx
      exact mayFill_push hk hki hst hi
    · exact Int.le_refl _
  cases h with
  | intent i hk hid hp hnew =>
    rw [view_of_not_mem hnew]
    have hm : mayFill (View.start.push e).state = 0 := by
      simp [mayFill, View.state, View.push, View.start, hk, View.status, View.openStatus, View.verdict, binds, isVerdict,
        isAdoption, isFinalState, isOperatorNotFound]
    rw [show exitMayFill parent View.start.state = 0 from rfl, exitMayFill, hm, ite_self]
  | skip hk hnew =>
    refine hplain (by simp [hk]) (by simp [hk]) (fun hst => ?_)
    rw [view_of_not_mem hnew] at hst
    have := View.push_skip hk View.sendable_start
    rcases hst with hst | hst <;> rw [hst] at this <;> cases this
  | refuse hk hid hst =>
    refine hplain (by simp [hk]) (by simp [hk]) (fun hst' => ?_)
    have := View.push_skip hk hst
    rcases hst' with hst' | hst' <;> rw [hst'] at this <;> cases this
  | send i b hk => exact absurd hk hsend
  | resend i hk => exact absurd hk hsend
  | result i n r hk hp hi hn hlast hr hst hres hconf => exact hplain (by simp [hk]) (by simp [hk]) (fun _ => .inr hst)
  | notFound i hk hi hst hs hfirst => exact hplain (by simp [hk]) (by simp [hk]) (fun _ => .inr hst)
  | adopt i o hk hp hi hst hm => exact hplain (by simp [hk]) (by simp [hk]) (fun _ => .inr hst)
  | conflict i hk hi hst => exact hplain (by simp [hk]) (by simp [hk]) (fun _ => .inr hst)
  | operatorAdopt i a o hk hp hi hst hm hno hne hval hcall =>
    refine hplain (by simp [hk]) (by simp [hk]) (fun _ => .inr (hst.resolve_right (fun hst => ht (.inr ⟨?_, hst⟩))))
    simp [isAdoption, hk, hp, ResolveArgs.adoptPayload]
  | operatorNotFound i a hk hp hi hst hval hcall => exact hplain (by simp [hk]) (by simp [hk]) (fun _ => .inr hst)
  | brokerState i o final hk hp hi hno hfin hfill =>
    -- an ACKED exit already counts in full, and a row never fills more than the intent
    have hst := acked_of_number hno hfin
    obtain ⟨f, hfill⟩ := hfill
    have hpush : ((view w.journal e.intentId).push e).fills = some f := by
      simp [View.push, hk, hi, hfill, Except.toOption]
    obtain ⟨h1, -, h3, h4, -⟩ := View.checkFills_bounds hfill
    have h5 := h4 i rfl
    have hle : mayFill ((view w.journal e.intentId).push e).state ≤ i.qty := by
      refine Order.mayFill_le (i := i) (by simp [View.state, View.push_intent, hk, hi]) ?_
      simp only [View.state, hpush, Option.elim_some]
      omega
    have hge : i.qty ≤ mayFill (view w.journal e.intentId).state := by
      simp [mayFill, View.state, hst, hi]
    have hsame : ((view w.journal e.intentId).push e).state.intent = (view w.journal e.intentId).state.intent :=
      View.push_intent (by simp [hk])
    unfold exitMayFill
    rw [hsame]
    split_ifs
    · omega
    · exact Int.le_refl _
  | cancel hk hst hid =>
    rw [View.push_cancel hk]

theorem coverRules_send {k : JournalEventKind} {id run : String} {p : Payload} {r : Except OrderError JournalEvent}
    (h : coverRules (.append k id p run) w r) (hk : k = .send) : (∃ b, payloadBaseline p = .ok b) ∧
      ∀ i, (view w.journal id).intent = some i → covers w.journal i = true := by
  subst hk
  obtain ⟨hb, hc⟩ := h
  refine ⟨?_, fun i hi => by rwa [hi] at hc⟩
  cases hp : payloadBaseline p with
  | ok b => exact ⟨b, rfl⟩
  | error err => simp [hp, Except.toOption] at hb

theorem coverRules_adopt {k : JournalEventKind} {id run : String} {p : Payload} {r : Except OrderError JournalEvent}
    (h : coverRules (.append k id p run) w r) (hk : k = .operatorResolve) (hp : p.lookup "resolution" = some (.str "adopt"))
    (hst : (view w.journal id).status.1 = .notFound) {i : OrderIntent} (hi : (view w.journal id).intent = some i) :
    covers w.journal i = true := by
  subst hk
  have := h hp hst
  rwa [hi] at this

/-- A record that takes cover is of an intent the rules find covered. -/
theorem Writes.covers (h : Writes coverRules g c start w e) (happ : Appended coverRules w e)
    (ht : takesCover w.journal e) :
    ∃ i, (view w.journal e.intentId).intent = some i ∧ Order.covers w.journal i = true ∧ e.kind ≠ .intent ∧
      e.kind ≠ .brokerState := by
  rcases ht with hk | ⟨ha, hst⟩
  · have hc := (coverRules_send happ.allowed hk).2
    cases h with
    | send i b hk' hp hi => exact ⟨i, hi, hc i hi, by simp [hk], by simp [hk]⟩
    | resend i hk' hp hi => exact ⟨i, hi, hc i hi, by simp [hk], by simp [hk]⟩
    | cancel hk' => rcases hk' with hk' | hk' <;> simp [hk'] at hk
    | _ => simp_all
  · have hop : e.kind = .operatorResolve ∧ e.payload.lookup "resolution" = some (.str "adopt") := by
      simp only [isAdoption, Bool.or_eq_true, beq_iff_eq, Bool.and_eq_true] at ha
      refine ha.resolve_left (fun hk => ?_)
      cases h with
      | adopt i o hk' hp hi hst' => rw [hst'] at hst; cases hst
      | cancel hk' => rcases hk' with hk' | hk' <;> simp [hk'] at hk
      | _ => simp_all
    have hc := fun i hi => coverRules_adopt happ.allowed hop.1 hop.2 hst (i := i) hi
    cases h with
    | operatorAdopt i a o hk hp hi => exact ⟨i, hi, hc i hi, by simp [hk], by simp [hk]⟩
    | operatorNotFound i a hk hp hi => exact ⟨i, hi, hc i hi, by simp [hk], by simp [hk]⟩
    | cancel hk' => rcases hk' with hk' | hk' <;> simp [hk'] at hop
    | _ => simp_all

/-- **Every record within the rules keeps the lots covered.** -/
theorem covered_wrote (h : Writes coverRules g c start w e) (happ : Appended coverRules w e)
    (hc : Covered w.journal) : Covered (w.journal ++ [e]) := by
  refine ⟨h.sound happ hc.sound (fun hk => (coverRules_send happ.allowed hk).1), fun id => ?_, fun parent => ?_⟩
  · rw [view_snoc]
    split_ifs with hid
    · subst hid
      exact h.fits (hc.fits _)
    · exact hc.fits id
  · refine Int.le_trans ?_ (entryFilled_mono h parent)
    by_cases ht : takesCover w.journal e
    · obtain ⟨i, hi, hcov, hk1, hk2⟩ := h.covers happ ht
      have hsame : (stateOf (w.journal ++ [e]) e.intentId).intent = some i := by
        rw [stateOf, view_snoc_self]
        exact (View.push_intent hk1).trans hi
      by_cases hx : isExitOf parent i = true
      · -- the exit's own term becomes its quantity, which the lot covers beside the others
        simp only [isExitOf, Bool.and_eq_true, beq_iff_eq] at hx
        simp only [Order.covers, hx.1, hx.2, bne_self_eq_false, Bool.false_or, decide_eq_true_eq, Option.getD_some,
          view_intentId hi] at hcov
        rw [total_snoc (mem_idsOf_of_intent hi)]
        have hle : mayFill (stateOf (w.journal ++ [e]) e.intentId) ≤ i.qty := by
          refine Order.mayFill_le hsame ?_
          have hf : (stateOf (w.journal ++ [e]) e.intentId).filledQty = (stateOf w.journal e.intentId).filledQty := by
            simp [stateOf, view_snoc_self, View.state, View.push, hk2]
          rw [hf]
          exact filledQty_le (hc.fits _) hi
        have hterm : exitMayFill parent (stateOf (w.journal ++ [e]) e.intentId) ≤ i.qty := by
          unfold exitMayFill
          split_ifs
          · exact hle
          · exact Int.le_of_lt i.qty_pos
        omega
      · refine Int.le_trans (total_snoc_le rfl (Int.le_of_eq ?_)) (hc.exits parent)
        have h1 : exitMayFill parent (stateOf (w.journal ++ [e]) e.intentId) = 0 := by
          rw [exitMayFill, hsame, Option.any_some, if_neg hx]
        have h2 : exitMayFill parent (stateOf w.journal e.intentId) = 0 := by
          rw [exitMayFill, show (stateOf w.journal e.intentId).intent = some i from hi, Option.any_some, if_neg hx]
        rw [h1, h2]
    · exact Int.le_trans (total_snoc_le rfl (h.mayFill_le ht parent)) (hc.exits parent)

end steps

/-! ## Lots -/

/-- The lots of states whose entries have filled at least what their exits have. -/
theorem lotFold_ok {sold : String → Int} : ∀ {sts : Dict IntentState} (lots : List OpenLot),
    (∀ p ∈ sts, ∀ i, p.2.intent = some i → i.phase = .entry → sold p.1 ≤ p.2.filledQty) →
    ∃ lots', sts.foldlM (lotStep sold) lots = .ok lots'
  | [], lots, _ => ⟨lots, rfl⟩
  | p :: sts, lots, h => by
    have hstep : ∃ lots', lotStep sold lots p = .ok lots' := by
      unfold lotStep
      cases hi : p.2.intent with
      | none => exact ⟨lots, rfl⟩
      | some i =>
        by_cases he : i.phase = .entry
        · have := h p List.mem_cons_self i hi he
          simp only [he, ne_eq, not_true_eq_false, if_false]
          rw [if_neg (by omega)]
          split_ifs
          · exact ⟨_, rfl⟩
          · exact ⟨_, rfl⟩
        · exact ⟨lots, by simp [he]⟩
    obtain ⟨lots', hl⟩ := hstep
    rw [List.foldlM_cons, hl, Exc.ok_bind]
    exact lotFold_ok lots' (fun q hq => h q (List.mem_cons_of_mem _ hq))

theorem Covered.exits_le {j : Journal} (h : Covered j) {id : String} {i : OrderIntent}
    (hi : (stateOf j id).intent = some i) (he : i.phase = .entry) :
    exitsByParent (statesOf j) id ≤ (stateOf j id).filledQty := by
  rw [exitsByParent_statesOf]
  have hmono : total j (exitFilled id) ≤ total j (exitMayFill id) := by
    refine total_mono (fun x => ?_)
    unfold exitFilled exitMayFill
    split_ifs
    · exact le_max_left _ _
    · exact Int.le_refl _
  have hentry : entryFilled (stateOf j id) = (stateOf j id).filledQty := by
    simp [entryFilled, hi, he]
  exact hentry ▸ Int.le_trans hmono (h.exits id)

theorem Covered.lots {j : Journal} (h : Covered j) : ∃ lots, openLots j = .ok lots := by
  have hl : ∃ lots, lotsOf (statesOf j) = .ok lots := by
    refine lotFold_ok [] (fun p hp i hi he => ?_)
    obtain ⟨id, -, rfl⟩ := List.mem_map.1 hp
    exact h.exits_le hi he
  obtain ⟨lots, hl⟩ := hl
  exact ⟨_, by rw [openLots, states_eq_ok.2 ⟨h.sound, rfl⟩, Exc.ok_bind, hl, Exc.ok_bind]; rfl⟩

/-- **No oversell and no self-corruption**: in every run in which each SEND and each adoption of a NOT_FOUND intent is
covered and each baseline readable, the exits of an entry never fill more than it has, and the journal loads, derives
and gives its open lots wherever the run is cut. -/
theorem no_oversell {A : OrderGateway → Call → Prop} {w : World}
    (h : Session (fun _ _ => coverRules) A World.empty w) :
    (∀ id i, (stateOf w.journal id).intent = some i → i.phase = .entry →
      exitsByParent (statesOf w.journal) id ≤ (stateOf w.journal id).filledQty) ∧
    load w.journal = .ok w.journal ∧ states w.journal = .ok (statesOf w.journal) ∧
      ∃ lots, openLots w.journal = .ok lots := by
  have hI := (session_invariant (I := fun x => Covered x.journal) (fun _ _ _ h => h)
    (fun g c start x y _ hI hs => by
      cases hs with
      | quiet y hj hp hh => rw [hj]; exact hI
      | wrote e happ hs hw => exact covered_wrote hw happ hI
      | posted i hd s hlast hk hid hi hst hnew hcall => exact hI)
    timely_empty ⟨sound_nil, (fun _ _ hf => nomatch hf), fun _ => Int.le_refl 0⟩ h).1
  exact ⟨fun id i => hI.exits_le, load_eq_ok.2 ⟨hI.sound.loads, rfl⟩, states_eq_ok.2 ⟨hI.sound, rfl⟩, hI.lots⟩

/-! ## The exits a session plans -/

/-- The lots an exit session of a date may sell, `open_lots` from before the date. -/
def freshLots (tradingDate : String) (lots : List OpenLot) : List OpenLot :=
  (lots.filter (fun l => decide (l.tradingDate < tradingDate))).insertionSort
    (fun a b => a.tradingDate < b.tradingDate ∨ (a.tradingDate = b.tradingDate ∧ a.entryIntentId ≤ b.entryIntentId))

def sellableOf (positions : List BrokerPosition) : Dict Int :=
  positions.foldl (fun d p => Dict.set d p.symbol p.sellableQty) []

/-- An exit for each lot, within what the broker lets be sold of its symbol. -/
def exitIntents (tradingDate : String) : Dict Int → List OpenLot → Except OrderError (List OrderIntent × List PlannedSkip)
  | _, [] => .ok ([], [])
  | sellable, lot :: lots => do
    let available := Dict.getD sellable lot.symbol 0
    let qty := min lot.qty available
    let (intents, skips) ← exitIntents tradingDate (Dict.set sellable lot.symbol (available - qty)) lots
    let intentId := exitIntentId lot.entryIntentId tradingDate
    if qty ≤ 0 then
      return (intents, ⟨intentId, lot.symbol, tradingDate, .exit, "not_sellable"⟩ :: skips)
    else do
      let i ← OrderIntent.make
        { intentId, tradingDate, phase := .exit, symbol := lot.symbol, side := .sell, orderType := .market, qty,
          limitPrice := none, decisionPrice := .none, parentIntentId := some lot.entryIntentId }
      return (i :: intents, skips)

/-- **An exit session plans one exit a lot, named after it, of at most its quantity.** -/
theorem exitIntents_within {d : String} : ∀ {lots : List OpenLot} {sellable : Dict Int} {intents : List OrderIntent}
    {skips : List PlannedSkip}, exitIntents d sellable lots = .ok (intents, skips) →
    ∀ i ∈ intents, i.phase = .exit ∧ i.tradingDate = d ∧ ∃ l ∈ lots, i.intentId = exitIntentId l.entryIntentId d ∧
      i.parentIntentId = some l.entryIntentId ∧ i.qty ≤ l.qty
  | [], _, intents, skips, h => by
    cases h
    intro i hi
    cases hi
  | lot :: lots, sellable, intents, skips, h => by
    rw [exitIntents, Exc.bind_eq_ok] at h
    obtain ⟨⟨more, mskips⟩, hmore, h⟩ := h
    have hrest : ∀ i ∈ more, i.phase = .exit ∧ i.tradingDate = d ∧ ∃ l ∈ lot :: lots,
        i.intentId = exitIntentId l.entryIntentId d ∧ i.parentIntentId = some l.entryIntentId ∧ i.qty ≤ l.qty := by
      intro i hi
      obtain ⟨hexit, hdate, l, hl, hrest⟩ := exitIntents_within hmore i hi
      exact ⟨hexit, hdate, l, List.mem_cons_of_mem _ hl, hrest⟩
    dsimp only at h
    split_ifs at h with hq
    · cases h
      exact hrest
    · obtain ⟨x, hx, h⟩ := (Exc.bind_eq_ok _ _ _).1 h
      cases h
      intro i hi
      rcases List.mem_cons.1 hi with rfl | hi
      · have hf := OrderIntent.make_eq_ok hx
        refine ⟨by rw [hf], by rw [hf], lot, List.mem_cons_self, by rw [hf], by rw [hf], ?_⟩
        rw [hf]
        exact min_le_left _ _
      · exact hrest i hi

namespace Sample

/-- The account holds more of the symbol than the journal bought. -/
def holdings : List BrokerPosition := [⟨"005930", 20, 20⟩]

/-- The exits planned on a date from the journal's lots. -/
def exitsOn (w : World) (tradingDate : String) : List OrderIntent :=
  match openLots w.journal with
  | .ok lots =>
    match exitIntents tradingDate (sellableOf holdings) (freshLots tradingDate lots) with
    | .ok (intents, _) => intents
    | .error _ => []
  | .error _ => []

def lateExit : OrderIntent := ⟨exitFields samsung.intentId "2025-01-03" "005930" 10, rfl⟩

def secondExit : OrderIntent := ⟨exitFields samsung.intentId "2025-01-06" "005930" 10, rfl⟩

/-- The entry and the second exit are accepted and fill; the first exit's POST is lost, and the daily list of its date is
unreadable until the second exit has filled. -/
def lateMarket : Oracle :=
  { Oracle.fixed (fun _ => []) holdings with
    submit := fun w _ => .ok (if w.posts.length = 1 then verdict .ambiguous none
      else verdict .accepted (some (toString (w.posts.length + 1))))
    orders := fun w d =>
      if d = "2025-01-02" then .ok [row "1" samsung 10]
      else if d = "2025-01-03" then (if w.posts.length < 3 then .error (.brokerRead "") else .ok [row "2" lateExit 10])
      else .ok (if w.posts.length < 3 then [] else [row "3" secondExit 10]) }

def step (c : Call) (w : World) : World := lateMarket.after gateway c (w.enter 0 false)

/-- The entry's day. -/
def held : World :=
  step (.reconcile "2025-01-02" true) (step (.submit samsung.intentId 1) (step (.plan [samsung] []) World.empty))

/-- The exit planned the next day is lost. -/
def exitLost : World :=
  step (.reconcile "2025-01-03" false) (step (.submit lateExit.intentId 1) (step (.plan (exitsOn held "2025-01-03") []) held))

/-- The day after, its list is still unreadable; a second exit is planned and fills. -/
def soldAgain : World :=
  let w := step (.resolveCarryover "2025-01-06") exitLost
  step (.reconcile "2025-01-06" false) (step (.submit secondExit.intentId 1) (step (.plan (exitsOn w "2025-01-06") []) w))

/-- The next carry-over adopts the first exit with its fill. -/
def oversold : World := step (.resolveCarryover "2025-01-07") soldAgain

theorem session_step {w : World} (h : FreeSession World.empty w) (c : Call) : FreeSession World.empty (step c w) :=
  .tail h (Oracle.called_free _ _ _ _ _ _)

end Sample

/-- A lost exit that fills late oversells the lot, and `open_lots` raises from then on. -/
theorem oversold_by_late_exit : FreeSession World.empty Sample.oversold ∧
    (stateOf Sample.oversold.journal Sample.samsung.intentId).filledQty = 10 ∧
    exitsByParent (statesOf Sample.oversold.journal) Sample.samsung.intentId = 20 ∧
    openLots Sample.oversold.journal = .error (corrupt "exits exceed entry fills") := by
  refine ⟨?_, by decide +kernel, by decide +kernel, by decide +kernel⟩
  iterate 11 refine Sample.session_step ?_ _
  exact .refl

namespace Sample

instance (op : GatewayOp) (w : World) (r : Answer op) : Decidable (coverRules op w r) := by
  induction op using GatewayOp.casesOn
  case append k id payload run => induction k using JournalEventKind.casesOn <;> dsimp only [coverRules] <;> infer_instance
  all_goals exact .isTrue trivial

theorem covered_step {w : World} {c : Call} (h : Session (fun _ _ => coverRules) (fun _ _ => True) World.empty w)
    (hR : Prog.runKeeps lateMarket.answer coverRules (c.prog gateway) (w.enter 0 false) = true) :
    Session (fun _ _ => coverRules) (fun _ _ => True) World.empty (step c w) :=
  .tail h (Oracle.called_kept _ trivial _ _ _ hR)

end Sample

/-- While the first exit is lost, its lot still covers it. -/
theorem no_oversell_exitLost : exitsByParent (statesOf Sample.exitLost.journal) Sample.samsung.intentId ≤ 10 ∧
    ∃ lots, openLots Sample.exitLost.journal = .ok lots := by
  have hrun : Session (fun _ _ => coverRules) (fun _ _ => True) World.empty Sample.exitLost := by
    iterate 6 refine Sample.covered_step ?_ (by decide +kernel)
    exact .refl
  have hi : (stateOf Sample.exitLost.journal Sample.samsung.intentId).intent = some Sample.samsung := by decide +kernel
  have hf : (stateOf Sample.exitLost.journal Sample.samsung.intentId).filledQty = 10 := by decide +kernel
  exact ⟨hf ▸ (no_oversell hrun).1 _ _ hi rfl, (no_oversell hrun).2.2.2⟩

end Order
