import KClosingAlpha.Order.Finality
import KClosingAlpha.Order.Totals
/-!
# Seed — the buys of a date that hold capital stay within the seed capital

The cap is checked before an intent's first SEND against the other intents that hold capital then.  A later attempt of
a throttled intent is not checked again, so the runs here are those in which the check would still pass.
-/
namespace Order

open Py (Value Dict)

/-! ## Capital held -/

/-- What a state holds of a date's capital. -/
def heldOn (st : IntentState) (tradingDate : String) : Int :=
  (st.intent.bind (fun i =>
    if i.side = .buy ∧ i.tradingDate = tradingDate ∧ st.status.exposed = true then some (notional i) else none)).getD 0

/-- The notional of the date's buys that are ACKED, UNKNOWN, FILLED or PARTIAL. -/
def exposureOn (sts : Dict IntentState) (tradingDate : String) : Int := (sts.map (fun p => heldOn p.2 tradingDate)).sum

theorem notional_nonneg {i : OrderIntent} (hb : i.side = .buy) : 0 ≤ notional i := by
  obtain ⟨-, hq, -, ht, hp⟩ := i.valid_parts
  have hprice : 0 ≤ i.limitPrice.getD ((i.decisionPrice.toInt).getD 0) := by
    cases hl : i.limitPrice with
    | some p =>
      simp only [IntentFields.checkType, hl] at ht
      cases hot : i.orderType <;> simp [hot] at ht
      exact Int.le_of_lt ht
    | none =>
      simp only [IntentFields.checkPhase, (OrderIntent.buy_iff_entry i).1 hb, Exc.bind_eq_ok, Exc.raiseIf_eq_ok] at hp
      obtain ⟨_, -, _, -, hd⟩ := hp
      cases hv : i.decisionPrice <;> simp [isPositiveInt, hv] at hd
      simp [Py.Value.toInt]
      omega
  exact Int.mul_nonneg (Int.le_of_lt hq) hprice

theorem heldOn_nonneg (st : IntentState) (d : String) : 0 ≤ heldOn st d := by
  unfold heldOn
  cases st.intent with
  | none => exact Int.le_refl 0
  | some i =>
    simp only [Option.bind_some]
    split_ifs with h
    · exact notional_nonneg h.1
    · exact Int.le_refl 0

theorem heldOn_of_not_exposed {st : IntentState} (h : st.status.exposed = false) (d : String) : heldOn st d = 0 := by
  unfold heldOn
  cases st.intent <;> simp [h]

theorem exposureOn_statesOf (j : Journal) (d : String) : exposureOn (statesOf j) d = total j (heldOn · d) :=
  sum_statesOf (f := fun st => heldOn st d)

/-- **The gateway's check looks at what the others hold.** -/
theorem othersExposure_eq (j : Journal) (i : OrderIntent) :
    othersExposure (statesOf j) i = totalOthers j (heldOn · i.tradingDate) i.intentId := by
  unfold othersExposure totalOthers statesOf
  rw [sum_filterMap, List.map_map]
  refine congrArg List.sum (List.map_congr_left (fun x _ => ?_))
  simp only [Function.comp_apply, heldOn]
  cases hi : (stateOf j x).intent with
  | none => simp
  | some other =>
    have hx : other.intentId = x := view_intentId hi
    subst hx
    by_cases hid : other.intentId = i.intentId
    · simp [hid]
    · by_cases hb : other.side = .buy <;> by_cases hd : other.tradingDate = i.tradingDate <;> simp [hid, hb, hd]

/-! ## Which records take up capital -/

section steps

variable {R : Rules} {g : OrderGateway} {c : Call} {start : Journal} {w w' : World} {e : JournalEvent}

/-- **Only a SEND, or an operator's adoption, takes up capital.** -/
theorem Writes.exposed (h : Writes R g c start w e) (hk : e.kind ≠ .send)
    (hop : ∀ en a, c ≠ .resolveUnknownIntent en a e.intentId)
    (hx : ((view w.journal e.intentId).push e).status.1.exposed = true) :
    (view w.journal e.intentId).status.1.exposed = true ∧ e.kind ≠ .intent := by
  cases h with
  | intent i hk' hid hp hnew =>
    rw [view_of_not_mem hnew] at hx
    simp [View.push, View.start, hk', View.status, View.openStatus, View.verdict, binds, isVerdict, isAdoption, isFinalState,
      isOperatorNotFound, IntentStatus.exposed] at hx
  | skip hk' hnew =>
    rw [view_of_not_mem hnew, View.push_skip hk' rfl] at hx
    cases hx
  | refuse hk' hid hst =>
    rw [View.push_skip hk' hst] at hx
    cases hx
  | send i b hk' => exact absurd hk' hk
  | resend i hk' => exact absurd hk' hk
  | operatorAdopt i a o hk' hp hi hst hm hno hne hval hcall =>
    obtain ⟨en, hc⟩ := hcall
    exact absurd hc (hop en a)
  | operatorNotFound i a hk' hp hi hst hval hcall =>
    obtain ⟨en, hc⟩ := hcall
    exact absurd hc (hop en a)
  | brokerState i o final hk' hp hi hno hfin hfill => exact ⟨by rw [acked_of_number hno hfin]; rfl, by simp [hk']⟩
  | cancel hk' hst hid =>
    refine ⟨by rw [hst]; rfl, ?_⟩
    rcases hk' with hk' | hk' <;> simp [hk']
  | result i n r hk' hp hi hn hlast hr hst hres hconf => exact ⟨by rw [hst]; rfl, by simp [hk']⟩
  | notFound i hk' hi hst hs hfirst => exact ⟨by rw [hst]; rfl, by simp [hk']⟩
  | adopt i o hk' hp hi hst hm => exact ⟨by rw [hst]; rfl, by simp [hk']⟩
  | conflict i hk' hi hst => exact ⟨by rw [hst]; rfl, by simp [hk']⟩

/-- The bounds that hold of every journal. -/
structure WithinSeed (seed cap : Int) (j : Journal) : Prop where
  total : ∀ d, exposureOn (statesOf j) d ≤ seed
  each : ∀ id i, (view j id).intent = some i → i.side = .buy →
    0 < (view j id).sends ∨ (view j id).status.1.exposed = true → notional i ≤ cap

/-- The calls of gateways with one seed capital and one cap, operator resolutions apart. -/
def Sharing (seed cap : Int) (g : OrderGateway) (c : Call) : Prop :=
  g.limits.seedCapitalKrw = seed ∧ g.limits.maxNotionalPerOrderKrw = cap ∧ ∀ en a id, c ≠ .resolveUnknownIntent en a id

/-- Every later SEND of a buy is one the check before the first would let through. -/
def retryRules (seed : Int) : Rules
  | .append .send id _ _, w, _ => 0 < (view w.journal id).sends → (view w.journal id).intent.all (fun i =>
      i.side != .buy || decide (notional i + othersExposure (statesOf w.journal) i ≤ seed)) = true
  | _, _, _ => True

theorem retryRules_send {seed : Int} {k : JournalEventKind} {id run : String} {p : Payload} {r : Except OrderError JournalEvent}
    (h : retryRules seed (.append k id p run) w r) (hk : k = .send) (hpos : 0 < (view w.journal id).sends)
    {i : OrderIntent} (hi : (view w.journal id).intent = some i) (hb : i.side = .buy) :
    notional i + othersExposure (statesOf w.journal) i ≤ seed := by
  subst hk
  have := h hpos
  rw [hi] at this
  simpa only [Option.all_some, hb, bne_self_eq_false, Bool.false_or, decide_eq_true_eq] using this

theorem heldOn_le {j : Journal} (hx : ((view j e.intentId).push e).status.1.exposed = true →
    (view j e.intentId).status.1.exposed = true ∧ e.kind ≠ .intent) (d : String) :
    heldOn (stateOf (j ++ [e]) e.intentId) d ≤ heldOn (stateOf j e.intentId) d := by
  rw [stateOf, view_snoc_self]
  by_cases h : ((view j e.intentId).push e).status.1.exposed = true
  · obtain ⟨hold, hk⟩ := hx h
    refine Int.le_of_eq ?_
    simp only [heldOn, View.state, h, hold, View.push_intent hk]
  · rw [heldOn_of_not_exposed (by simpa [View.state] using h)]
    exact heldOn_nonneg _ d

/-- A SEND that passes the check keeps the total. -/
theorem total_send {seed : Int} {i : OrderIntent} (hk : e.kind = .send) (hi : (view w.journal e.intentId).intent = some i)
    (hcheck : i.side = .buy → notional i + othersExposure (statesOf w.journal) i ≤ seed)
    (h : ∀ d, exposureOn (statesOf w.journal) d ≤ seed) (d : String) : exposureOn (statesOf (w.journal ++ [e])) d ≤ seed := by
  have hid := mem_idsOf_of_intent hi
  rw [exposureOn_statesOf, total_snoc hid]
  have hi' : (stateOf (w.journal ++ [e]) e.intentId).intent = some i := by
    rw [stateOf, view_snoc_self]
    simp only [View.state]
    rw [View.push_intent (by simp [hk]), hi]
  by_cases hd : i.side = .buy ∧ i.tradingDate = d
  · have hle : heldOn (stateOf (w.journal ++ [e]) e.intentId) d ≤ notional i := by
      unfold heldOn
      rw [hi', Option.bind_some]
      split_ifs with hx
      · exact Int.le_refl _
      · exact notional_nonneg hd.1
    have hc := hcheck hd.1
    rw [othersExposure_eq, hd.2, view_intentId hi] at hc
    omega
  · have h0 : heldOn (stateOf (w.journal ++ [e]) e.intentId) d = 0 := by
      unfold heldOn
      rw [hi', Option.bind_some, if_neg (fun hx => hd ⟨hx.1, hx.2.1⟩)]
      rfl
    have hold := h d
    rw [exposureOn_statesOf, total_split hid] at hold
    have := heldOn_nonneg (stateOf w.journal e.intentId) d
    omega

theorem withinSeed_wrote {seed cap : Int} (hA : Sharing seed cap g c) (happ : Appended (retryRules seed) w e)
    (hw : Writes (retryRules seed) g c start w e) (h : WithinSeed seed cap w.journal) :
    WithinSeed seed cap (w.journal ++ [e]) := by
  obtain ⟨hseed, hcap, hop⟩ := hA
  by_cases hk : e.kind = .send
  · -- a first SEND has just been checked, a later one keeps the rule
    have hsend : ∃ i, (view w.journal e.intentId).intent = some i ∧
        (i.side = .buy → notional i + othersExposure (statesOf w.journal) i ≤ seed ∧ notional i ≤ cap) := by
      have hretry : 0 < (view w.journal e.intentId).sends → ∀ i, (view w.journal e.intentId).intent = some i →
          i.side = .buy → notional i + othersExposure (statesOf w.journal) i ≤ seed ∧ notional i ≤ cap :=
        fun hpos i hi hb => ⟨retryRules_send happ.allowed hk hpos hi hb, h.each _ i hi hb (.inl hpos)⟩
      cases hw with
      | send i b hk' hp hi hst hrisk hcall =>
        refine ⟨i, hi, fun hb => ?_⟩
        rcases Nat.eq_zero_or_pos (view w.journal e.intentId).sends with h0 | hpos
        · have := hrisk h0
          simp only [RiskOk, hb] at this
          exact ⟨hseed ▸ this.2, hcap ▸ this.1⟩
        · exact hretry hpos i hi hb
      | resend i hk' hp hi hexit hflag hst hnf hop' hlast hstart hcall =>
        refine ⟨i, hi, fun hb => ?_⟩
        rw [OrderIntent.buy_iff_entry, hexit] at hb
        cases hb
      | cancel hk' => rcases hk' with hk' | hk' <;> simp [hk'] at hk
      | _ => simp_all
    obtain ⟨i, hi, hboth⟩ := hsend
    refine ⟨total_send hk hi (fun hb => (hboth hb).1) h.total, fun id i' hi' hb hx => ?_⟩
    rw [view_snoc] at hi' hx
    split_ifs at hi' hx with hid
    · subst hid
      rw [View.push_intent (by simp [hk]), hi] at hi'
      cases hi'
      exact (hboth hb).2
    · exact h.each id i' hi' hb hx
  · have hexp := hw.exposed hk (fun en a => hop en a _)
    refine ⟨fun d => ?_, fun id i hi hb hx => ?_⟩
    · have hold := h.total d
      rw [exposureOn_statesOf] at hold ⊢
      exact Int.le_trans (total_snoc_le rfl (heldOn_le hexp d)) hold
    · rw [view_snoc] at hi hx
      split_ifs at hi hx with hid
      · subst hid
        rw [View.push_sends hk] at hx
        have hx' : 0 < (view w.journal e.intentId).sends ∨ (view w.journal e.intentId).status.1.exposed = true :=
          hx.imp_right (fun h => (hexp h).1)
        have hki : e.kind ≠ .intent := by
          rintro hki
          have hnew : e.intentId ∉ idsOf w.journal := by
            cases hw with
            | intent i hk' hid hp hnew => exact hnew
            | cancel hk' => rcases hk' with hk' | hk' <;> simp [hk'] at hki
            | _ => simp_all
          rw [view_of_not_mem hnew] at hx'
          rcases hx' with hx' | hx' <;> cases hx'
        rw [View.push_intent hki] at hi
        exact h.each _ i hi hb hx'
      · exact h.each id i hi hb hx

end steps

/-- **The seed capital bounds the buys of every date**, and the cap each of them, in every run of gateways with one seed
capital (which the settings require to be positive) in which every repeated SEND is one the first check would pass. -/
theorem exposure_within_seed {seed cap : Int} (hseed : 0 ≤ seed) {w : World}
    (h : Session (fun _ _ => retryRules seed) (Sharing seed cap) World.empty w) {sts : Dict IntentState}
    (hsts : states w.journal = .ok sts) : (∀ d, exposureOn sts d ≤ seed) ∧
      ∀ p ∈ sts, ∀ i, p.2.intent = some i → i.side = .buy → p.2.status.exposed = true → notional i ≤ cap := by
  have hI := (session_invariant (I := fun x => WithinSeed seed cap x.journal) (fun _ _ _ h => h)
    (fun g c start x y hA hI hs => by
      cases hs with
      | quiet y hj hp hh => rw [hj]; exact hI
      | wrote e happ hs hw => exact withinSeed_wrote hA happ hw hI
      | posted i hd s hlast hk hid hi hst hnew hcall => exact hI)
    timely_empty ⟨fun _ => hseed, fun id i hi => by cases hi⟩ h).1
  obtain ⟨-, rfl⟩ := states_eq_ok.1 hsts
  refine ⟨hI.total, fun p hp i hi hb hx => ?_⟩
  obtain ⟨id, -, rfl⟩ := List.mem_map.1 hp
  exact hI.each id i hi hb (.inr hx)

namespace Sample

/-- The first two POSTs are throttled, the later ones accepted. -/
def throttling : Oracle :=
  broker (fun n => if n < 2 then verdict .throttled none else verdict .accepted (some (toString n))) (fun _ => false)

/-- One buy is throttled, and the other then takes up its capital. -/
def overtaken : World :=
  throttling.after gateway (.submit hynix.intentId 1)
    ((throttling.after gateway (.submit samsung.intentId 1)
      ((throttling.after gateway (.plan [samsung, hynix] []) (World.empty.enter 0 false)).enter 0 false)).enter 0 false)

def retried : World := throttling.after gateway (.submit samsung.intentId 1) (overtaken.enter 0 false)

theorem sharing_submit (id : String) : Sharing 1000000 1000000 gateway (.submit id 1) := ⟨rfl, rfl, fun _ _ _ h => by cases h⟩

theorem sharing_plan (intents : List OrderIntent) : Sharing 1000000 1000000 gateway (.plan intents []) :=
  ⟨rfl, rfl, fun _ _ _ h => by cases h⟩

instance (op : GatewayOp) (w : World) (r : Answer op) : Decidable (retryRules 1000000 op w r) := by
  induction op using GatewayOp.casesOn
  case append k id payload run => induction k using JournalEventKind.casesOn <;> dsimp only [retryRules] <;> infer_instance
  all_goals exact .isTrue trivial

end Sample

/-- The repeated attempt is not checked again, and the two buys exceed the seed capital. -/
theorem exposure_exceeds_seed : Session (fun _ _ => anything) (Sharing 1000000 1000000) World.empty Sample.retried ∧
    ∃ sts, states Sample.retried.journal = .ok sts ∧ 1000000 < exposureOn sts "2025-01-02" := by
  refine ⟨?_, statesOf Sample.retried.journal, by decide +kernel, by decide +kernel⟩
  have hR (op : GatewayOp) (w : World) : anything op w (Sample.throttling.answer op w).1 := trivial
  exact .tail (.tail (.tail (.single (Oracle.called _ (Sample.sharing_plan _) hR _ _ _))
    (Oracle.called _ (Sample.sharing_submit _) hR _ _ _)) (Oracle.called _ (Sample.sharing_submit _) hR _ _ _))
    (Oracle.called _ (Sample.sharing_submit _) hR _ _ _)

/-- Without the repeated submit the run stays within the seed capital. -/
theorem exposure_within_seed_overtaken : exposureOn (statesOf Sample.overtaken.journal) "2025-01-02" ≤ 1000000 := by
  have hrun : Session (fun _ _ => retryRules 1000000) (Sharing 1000000 1000000) World.empty Sample.overtaken :=
    .tail (.tail (.single (Oracle.called_kept _ (Sample.sharing_plan _) _ _ _ (by decide +kernel)))
      (Oracle.called_kept _ (Sample.sharing_submit _) _ _ _ (by decide +kernel)))
      (Oracle.called_kept _ (Sample.sharing_submit _) _ _ _ (by decide +kernel))
  have hsts : states Sample.overtaken.journal = .ok (statesOf Sample.overtaken.journal) := by decide +kernel
  exact (exposure_within_seed (by decide) hrun hsts).1 _

end Order
