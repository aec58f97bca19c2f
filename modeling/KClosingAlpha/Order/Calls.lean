import KClosingAlpha.Order.Steps
import Mathlib.Data.List.Dedup
/-!
# Calls — every operation, under any crash, takes the steps of `Step` and no others
-/
namespace Order

open Py (Value Dict)
open Prog (wp Exec Reach)

section calls

variable {R : Rules} {g : OrderGateway} {c : Call} {start : Journal} {w : World}

/-! ## Submit -/

theorem ok_readBaseline {d : String} {Q : Option (List String) → World → Prop}
    (h : ∀ b hd, Q b { w with halted := hd }) : Ok R g c start (OrderGateway.readBaseline d) Q w := by
  refine ok_bind (ok_fetchDailyOrders (fun r hd _ => ?_))
  cases r with
  | error _ => exact ok_pure (h none hd)
  | ok rows => exact ok_pure (h _ hd)

theorem ok_runCapRefusal {Q : Option String → World → Prop} (h : ∀ r, Q r w) :
    Ok R g c start g.runCapRefusal Q w :=
  ok_bind (ok_sendsMade (ok_pure (h _)))

/-- The checks before a first SEND, and what they have established when they refuse nothing. -/
theorem ok_riskRefusal {i : OrderIntent} {Q : Option String → World → Prop}
    (h : ∀ r, (r = none → RiskOk g w.journal i) → Q r w) : Ok R g c start (g.riskRefusal i) Q w := by
  unfold OrderGateway.riskRefusal
  cases hs : i.side with
  | buy =>
    dsimp only
    split_ifs with h1
    · exact ok_pure (h _ (fun h => by cases h))
    · refine ok_bind (ok_readStates (fun _ => ?_))
      split_ifs with h2
      · exact ok_pure (h _ (fun h => by cases h))
      · exact ok_runCapRefusal (fun r => h r (fun _ => by simp only [RiskOk, hs]; omega))
  | sell =>
    refine ok_bind (ok_readLots (fun lots hlots => ?_))
    split_ifs with h1
    · exact ok_pure (h _ (fun h => by cases h))
    · exact ok_runCapRefusal (fun r => h r (fun _ => by simp only [RiskOk, hs]; exact ⟨lots, hlots, by omega⟩))

theorem ok_firstSend {i : OrderIntent} {deadline : Int} (hc : c = .submit i.intentId deadline) (hs : Sound w.journal)
    (hi : (view w.journal i.intentId).intent = some i)
    (hst : (view w.journal i.intentId).status.1.sendable = true)
    (hstart : (view start i.intentId).status.1 ≠ .notFound) :
    Ok R g c start (g.firstSend i.intentId i deadline) (fun _ _ => True) w := by
  have hid := mem_idsOf_of_intent hi
  refine ok_bind (ok_riskRefusal (fun r hr => ?_))
  cases r with
  | some refusal => exact ok_refuse hs hid hst
  | none =>
    refine ok_bind (ok_readBaseline (fun b hd => ok_bind (ok_isHalted ?_)))
    split_ifs
    · exact ok_refuse (w := { w with halted := hd }) hs hid hst
    · exact ok_sendLoop (w := { w with halted := hd }) hc ⟨hi, hst, fun _ => hr rfl, hstart⟩

theorem ok_submit {id : String} {deadline : Int} (hc : c = .submit id deadline) :
    Ok R g c w.journal (g.submit id deadline) (fun _ _ => True) w := by
  refine ok_bind (ok_readStates (fun hs => ?_))
  rw [statesOf_lookup]
  by_cases hid : id ∈ idsOf w.journal
  · rw [if_pos hid]
    dsimp only
    by_cases hst : (stateOf w.journal id).status.sendable = false
    · rw [if_pos hst]
      exact ok_pure trivial
    · rw [if_neg hst]
      rw [Bool.not_eq_false] at hst
      cases hi : (stateOf w.journal id).intent with
      | none => trivial
      | some i =>
        obtain rfl := view_intentId hi
        have hstart : (view w.journal i.intentId).status.1 ≠ .notFound := fun h => by
          rw [show (stateOf w.journal i.intentId).status = .notFound from h] at hst
          cases hst
        refine ok_bind (ok_isHalted ?_)
        split_ifs with _ h0
        · exact ok_refuse hs hid hst
        · exact ok_firstSend hc hs hi hst hstart
        · exact ok_sendLoop hc ⟨hi, hst, fun h => absurd h h0, hstart⟩
  · rw [if_neg hid]
    trivial

/-! ## Plan -/

theorem sound_wrote_new {e : JournalEvent} (hs : Sound w.journal) (happ : Appended R w e)
    (hnew : e.intentId ∉ idsOf w.journal)
    (hk : (∃ i : OrderIntent, e.kind = .intent ∧ e.intentId = i.intentId ∧ e.payload = intentToPayload i) ∨
      e.kind = .skip) : Sound (w.wrote e).journal := by
  have ho : opens e = true := by
    rcases hk with ⟨i, hk, -⟩ | hk <;> simp [opens, hk]
  refine hs.snoc (append_loads happ.appended happ.tsText (.inl ho)) ?_
  rw [mem_idsOf_iff_ne_nil, not_not] at hnew
  rw [hnew]
  exact derive_single hk

theorem ok_planIntents {Q : List String → World → Prop} : ∀ {intents : List OrderIntent} {recorded : List String}
    {w : World}, Sound w.journal → (∀ id ∈ idsOf w.journal, id ∈ recorded) →
      (∀ rec' w', Sound w'.journal → (∀ id ∈ idsOf w'.journal, id ∈ rec') → Q rec' w') →
      Ok R g c start (g.planIntents recorded intents) Q w
  | [], recorded, w, hs, hrec, hQ => hQ recorded w hs hrec
  | i :: intents, recorded, w, hs, hrec, hQ => by
    rw [OrderGateway.planIntents]
    split_ifs with hc
    · exact ok_planIntents hs hrec hQ
    · refine ok_bind (ok_writeAs (fun e _ happ hk hid hp _ => ?_))
      have hnew : e.intentId ∉ idsOf w.journal := fun h => hc (by rw [← hid]; exact List.contains_iff_mem.2 (hrec _ h))
      refine ⟨.inl hs, .intent i hk hid hp hnew, ok_planIntents (sound_wrote_new hs happ hnew (.inl ⟨i, hk, hid, hp⟩))
        (fun id h => ?_) hQ⟩
      rcases mem_idsOf_snoc.1 h with h | rfl
      · exact List.mem_cons_of_mem _ (hrec _ h)
      · exact hid ▸ List.mem_cons_self

theorem ok_planSkips : ∀ {skips : List PlannedSkip} {recorded : List String} {w : World}, Sound w.journal →
    (∀ id ∈ idsOf w.journal, id ∈ recorded) → Ok R g c start (g.planSkips recorded skips) (fun _ _ => True) w
  | [], _, _, _, _ => trivial
  | s :: skips, recorded, w, hs, hrec => by
    rw [OrderGateway.planSkips]
    split_ifs with hc
    · exact ok_planSkips hs hrec
    · refine ok_bind (ok_writeAs (fun e _ happ hk hid _ _ => ?_))
      have hnew : e.intentId ∉ idsOf w.journal := fun h => hc (by rw [← hid]; exact List.contains_iff_mem.2 (hrec _ h))
      refine ⟨.inl hs, .skip hk hnew, ok_planSkips (sound_wrote_new hs happ hnew (.inr hk)) (fun id h => ?_)⟩
      rcases mem_idsOf_snoc.1 h with h | rfl
      · exact List.mem_cons_of_mem _ (hrec _ h)
      · exact hid ▸ List.mem_cons_self

theorem ok_plan {intents : List OrderIntent} {skips : List PlannedSkip} :
    Ok R g c start (g.plan intents skips) (fun _ _ => True) w := by
  refine ok_bind (ok_readStates (fun hs => ok_bind (ok_planIntents hs (fun id hid => ?_) (fun rec' w' hs' hrec' => ?_))))
  · rw [statesOf, List.map_map]
    exact List.mem_map.2 ⟨id, hid, rfl⟩
  · exact ok_planSkips hs' hrec'

/-! ## Bound numbers -/

theorem mem_boundOf_snoc {j : Journal} {e : JournalEvent} (hb : binds e = false) {n : String}
    (h : n ∈ boundOf (j ++ [e])) : n ∈ boundOf j := by
  obtain ⟨id, no, hno, h0, hn⟩ := mem_boundOf.1 h
  refine mem_boundOf.2 ⟨id, no, ?_, h0, hn⟩
  rw [view_snoc] at hno
  split_ifs at hno with hid
  · rwa [View.push_numbers hb] at hno
  · exact hno

theorem mem_boundOf_snoc_adoption {j : Journal} {e : JournalEvent} {no : String} (ha : isAdoption e = true)
    (hno : numberOf e.payload "broker_order_no" = some no) {n : String} (h : n ∈ boundOf (j ++ [e])) :
    n = normalizeOrderNo no ∨ n ∈ boundOf j := by
  obtain ⟨id, m, hm, h0, hn⟩ := mem_boundOf.1 h
  rw [view_snoc] at hm
  split_ifs at hm with hid
  · simp only [View.push, binds, ha, Bool.or_true, if_true, hno, Option.some.injEq] at hm
    exact .inl (hm ▸ hn.symm)
  · exact .inr (mem_boundOf.2 ⟨id, m, hm, h0, hn⟩)

theorem numberOf_adoptPayload (o : BrokerOrder) : numberOf (adoptPayload o) "broker_order_no" = some o.orderNo := rfl

theorem isAdoption_of_adopt {e : JournalEvent} (h : e.kind = .adopt) : isAdoption e = true := by simp [isAdoption, h]

theorem mem_dayIds {j : Journal} {d id : String} (h : id ∈ OrderGateway.dayIds (statesOf j) d) :
    id ∈ idsOf j ∧ ∃ i, (view j id).intent = some i ∧ i.tradingDate = d := by
  obtain ⟨p, hp, rfl⟩ := List.mem_map.1 h
  obtain ⟨hp, hd⟩ := List.mem_filter.1 hp
  obtain ⟨k, hk, rfl⟩ := List.mem_map.1 hp
  refine ⟨hk, ?_⟩
  simp only [stateDate, beq_iff_eq, Option.map_eq_some_iff] at hd
  exact hd

theorem dayIds_nodup (j : Journal) (d : String) : (OrderGateway.dayIds (statesOf j) d).Nodup := by
  have h : (OrderGateway.dayIds (statesOf j) d).Sublist ((statesOf j).map (·.1)) := List.filter_sublist.map _
  refine h.nodup ?_
  rw [statesOf, List.map_map]
  exact (List.map_id (idsOf j)).symm ▸ idsOf_nodup j

/-! ## Reconcile -/

theorem view_intent_snoc {j : Journal} {e : JournalEvent} (hk : e.kind ≠ .intent) (id : String) :
    (view (j ++ [e]) id).intent = (view j id).intent := by
  rw [view_snoc]
  split_ifs
  · exact View.push_intent hk
  · rfl

/-- The adoption pass of a day, its rows read under the rules. -/
theorem ok_adoptDay {rows : List BrokerOrder} {d : String} {w0 : World} (hR : R (.fetchDailyOrders d) w0 (.ok rows)) :
    ∀ {ids bound : List String} {w : World}, (∀ n ∈ boundOf w.journal, n ∈ bound) →
      (∀ id ∈ ids, ∀ i, (view w.journal id).intent = some i → i.tradingDate = d) →
      Ok R g c start (g.adoptDay rows bound ids)
        (fun _ w' => ∀ k, (view w'.journal k).intent = (view w.journal k).intent) w
  | [], _, _, _, _ => fun _ => rfl
  | id :: ids, bound, w, hb, hd => by
    have hd' : ∀ k ∈ ids, ∀ i, (view w.journal k).intent = some i → i.tradingDate = d :=
      fun k hk => hd k (List.mem_cons_of_mem _ hk)
    -- the rest of the pass after one more record, which is no INTENT
    have hrest (e : JournalEvent) (bound' : List String) (hk : e.kind ≠ .intent)
        (hb' : ∀ n ∈ boundOf (w.journal ++ [e]), n ∈ bound') : Ok R g c start (g.adoptDay rows bound' ids)
          (fun _ w' => ∀ k, (view w'.journal k).intent = (view w.journal k).intent) (w.wrote e) := by
      refine Prog.wp_post (ok_adoptDay (w := w.wrote e) hR hb' (fun k hkm i hi => hd' k hkm i ?_)) (fun _ w' h k => ?_)
      · rwa [World.wrote_journal, view_intent_snoc hk] at hi
      · rw [h k, World.wrote_journal, view_intent_snoc hk]
    refine ok_bind (ok_stateAt (fun hs hid => ?_))
    split
    · rename_i i hst hi
      have hdate := hd id List.mem_cons_self i hi
      obtain rfl := view_intentId hi
      split
      · exact ok_adoptDay hR hb hd'
      · rename_i o hc
        have ho : o ∈ matchCandidates i rows bound (stateOf w.journal i.intentId).baselineOrderNos := by
          rw [show matchCandidates i rows bound (stateOf w.journal i.intentId).baselineOrderNos = [o] from hc]
          exact List.mem_singleton.2 rfl
        refine ok_bind (ok_writeAs (fun e _ _ hk heid hp _ => ⟨.inl hs, ?_, ?_⟩))
        · exact .adopt i o hk hp (heid ▸ hi) (heid ▸ hst) (matched_of_candidate (hdate ▸ hR) hb ho)
        · refine hrest e _ (by simp [hk]) (fun n hn => ?_)
          have hno : numberOf e.payload "broker_order_no" = some o.orderNo := hp ▸ numberOf_adoptPayload o
          rcases mem_boundOf_snoc_adoption (isAdoption_of_adopt hk) hno hn with rfl | hn
          · exact List.mem_cons_self
          · exact List.mem_cons_of_mem _ (hb n hn)
      · refine ok_bind (ok_writeAs (fun e _ _ hk heid _ _ => ⟨.inl hs, ?_, ?_⟩))
        · exact .conflict i hk (heid ▸ hi) (heid ▸ hst)
        · have hbe : binds e = false := View.binds_false (by simp [hk]) (by simp [hk]) (by simp [hk])
          exact hrest e _ (by simp [hk]) (fun n hn => hb n (mem_boundOf_snoc hbe hn))
    · exact ok_adoptDay hR hb hd'

theorem increasing_snoc_nextSeq {l : List JournalEvent} (h : Increasing l) {e : JournalEvent} (he : e.seq = nextSeq l) :
    Increasing (l ++ [e]) := by
  refine List.pairwise_append.2 ⟨h, List.pairwise_singleton _ _, fun x hx y hy => ?_⟩
  rw [List.mem_singleton.1 hy, he]
  rcases l.eq_nil_or_concat with rfl | ⟨t, z, rfl⟩
  · cases hx
  · rw [List.concat_eq_append] at hx h ⊢
    have hz : z.seq < nextSeq (t ++ [z]) := seq_lt_nextSeq (by simp)
    rcases List.mem_append.1 hx with hx | hx
    · exact Nat.lt_trans (h.snoc.2 x hx) hz
    · rwa [List.mem_singleton.1 hx]

/-- **The probe asks exactly whether the fills of the row are admissible.** -/
theorem probeFills_eq {j : Journal} (hs : Sound j) {id run : String} {p : Payload} (hid : id ∈ idsOf j) :
    ((∃ f, checkFills (view j id).intent (view j id).fills p = .ok f) ∧
        probeFills (eventsOf j id) id run p = .record p) ∨
      ((¬ ∃ f, checkFills (view j id).intent (view j id).fills p = .ok f) ∧
        probeFills (eventsOf j id) id run p = .contradicts) := by
  have hinc : Increasing (eventsOf j id ++ [probeEvent (eventsOf j id) id run p]) :=
    increasing_snoc_nextSeq (eventsOf_increasing hs.loads.increasing id) rfl
  have hiff := deriveIntentState_snoc hinc (mem_idsOf_iff_ne_nil.1 hid) (by simp [probeEvent])
  have had : (view j id).Admits (probeEvent (eventsOf j id) id run p) ↔
      ∃ f, checkFills (view j id).intent (view j id).fills p = .ok f := Iff.rfl
  unfold probeFills
  cases hd : deriveIntentState (eventsOf j id ++ [probeEvent (eventsOf j id) id run p]) with
  | ok s => exact .inl ⟨had.1 ((hiff s).1 hd).2.1, rfl⟩
  | error err =>
    refine .inr ⟨fun hf => ?_, rfl⟩
    rw [(hiff _).2 ⟨hs.derives id hid, had.2 hf, rfl⟩] at hd
    cases hd

theorem fillStep_record {rows : List BrokerOrder} {finalize : Bool} {run id : String} {st : IntentState}
    {events : List JournalEvent} {p : Payload} (h : fillStep rows finalize run id st events = .record p) :
    st.final = false ∧ st.brokerOrderNo.isSome = true ∧ probeFills events id run p = .record p ∧
      ∃ o f, o ∈ rows ∧ p = brokerStatePayload o f := by
  unfold fillStep at h
  split at h
  · cases h
  · rename_i no hno
    split_ifs at h with hf
    split at h
    · cases h
    · rename_i o ho
      dsimp only at h
      split_ifs at h with hp
      have hprobe : p = brokerStatePayload o (isFinalRow o finalize) := by
        unfold probeFills at h
        split at h <;> cases h
        rfl
      exact ⟨by simpa using hf, by simp [hno], hprobe ▸ h, o, _, List.mem_of_find?_eq_some ho, hprobe⟩

theorem sound_wrote_fill {e : JournalEvent} (hs : Sound w.journal) (happ : Appended R w e)
    (hid : e.intentId ∈ idsOf w.journal) (hk : e.kind = .brokerState)
    (hf : ∃ f, checkFills (view w.journal e.intentId).intent (view w.journal e.intentId).fills e.payload = .ok f) :
    Sound (w.wrote e).journal := by
  refine hs.snoc_admits (append_loads happ.appended happ.tsText (.inr hid)) hid (by simp [hk]) ?_
  simpa only [View.Admits, hk] using hf

/-- The fill pass of a day, against the states and events it read before it. -/
theorem ok_fillDay {rows : List BrokerOrder} {finalize : Bool} {j0 : Journal} (hs0 : Sound j0) :
    ∀ {ids : List String} {w : World}, Sound w.journal → ids.Nodup →
      (∀ id ∈ ids, view w.journal id = view j0 id ∧ ∃ i, (view j0 id).intent = some i) →
      Ok R g c start (g.fillDay rows finalize (statesOf j0) j0 ids) (fun _ _ => True) w
  | [], _, _, _, _ => trivial
  | id :: ids, w, hs, hnd, hv => by
    obtain ⟨hview, i, hi⟩ := hv id List.mem_cons_self
    have hid0 := mem_idsOf_of_intent hi
    have hid : id ∈ idsOf w.journal := mem_idsOf_of_intent (hview ▸ hi)
    obtain ⟨hnot, hnd'⟩ := List.nodup_cons.1 hnd
    have hv' := fun k (hk : k ∈ ids) => hv k (List.mem_cons_of_mem _ hk)
    rw [OrderGateway.fillDay, statesOf_lookup, if_pos hid0]
    dsimp only
    split
    · exact ok_fillDay hs0 hs hnd' hv'
    · exact ok_bind (Prog.wp_post (ok_fillDay hs0 hs hnd' hv') (fun _ _ _ => ok_pure trivial))
    · rename_i p hp
      obtain ⟨hfin, hno, hprobe, o, f, -, rfl⟩ := fillStep_record hp
      have hfill : ∃ f', checkFills (view j0 id).intent (view j0 id).fills (brokerStatePayload o f) = .ok f' := by
        rcases @probeFills_eq _ hs0 _ g.runId (brokerStatePayload o f) hid0 with ⟨hf, -⟩ | ⟨-, hc⟩
        · exact hf
        · rw [hc] at hprobe
          cases hprobe
      refine ok_bind (ok_writeAs (fun e _ happ hk heid hpe _ => ⟨.inl hs, ?_, ?_⟩))
      · subst heid
        rw [← hview] at hfill hi
        have hno' : (view w.journal e.intentId).numbers.1.isSome = true := hview ▸ hno
        have hfin' : (view w.journal e.intentId).status.2 = false := hview ▸ hfin
        refine .brokerState i o f hk hpe hi hno' hfin' ?_
        rw [hpe, ← hi]
        exact hfill
      · subst heid
        rw [← hview, ← hpe] at hfill
        refine ok_fillDay hs0 (sound_wrote_fill hs happ hid hk hfill) hnd' (fun k hk' => ?_)
        have hne : e.intentId ≠ k := fun h => hnot (h ▸ hk')
        exact ⟨by rw [World.wrote_journal, view_snoc_of_ne hne, (hv' k hk').1], (hv' k hk').2⟩

theorem ok_finishReconcile {d : String} {ids : List String} {rows : List BrokerOrder} :
    Ok R g c start (OrderGateway.finishReconcile d ids rows) (fun _ _ => True) w := by
  refine ok_bind (ok_readStates (fun _ => ok_bind (ok_fetchPositions (fun r hd => ?_))))
  cases r with
  | error _ => trivial
  | ok ps => exact ok_bind (ok_readLots (fun _ _ => ok_bind (ok_readStates (fun _ => ok_pure trivial))))

theorem ok_reconcile {d : String} {finalize : Bool} :
    Ok R g c start (g.reconcile d finalize) (fun _ _ => True) w := by
  refine ok_bind (ok_fetchDailyOrders (fun r hd hR => ?_))
  cases r with
  | error _ => trivial
  | ok rows =>
    refine ok_bind (ok_readStates (fun hs => ok_bind (Prog.wp_post (ok_adoptDay (w := { w with halted := hd }) hR
      (fun _ h => h) (fun id hid i hi => ?_)) (fun _ w' hint => ?_))))
    · obtain ⟨-, i', hi', hd'⟩ := mem_dayIds hid
      rw [hi'] at hi
      cases hi
      exact hd'
    · refine ok_bind (ok_readStates (fun hs' => ok_bind (ok_loadEvents (fun _ => ok_bind (Prog.wp_post
        (ok_fillDay hs' hs' (dayIds_nodup _ _) (fun id hid => ⟨rfl, ?_⟩)) (fun bad w'' _ => ?_))))))
      · obtain ⟨-, i, hi, -⟩ := mem_dayIds hid
        exact ⟨i, by rw [hint id]; exact hi⟩
      · split_ifs
        · exact ok_finishReconcile
        · trivial

/-! ## Carry-over -/

open OrderGateway (Target Carry carryTargets carryDatesOf targetsOn)

theorem carryTargets_ids (sts : Dict IntentState) (asOf lookback : Int) :
    ((carryTargets sts asOf lookback).map (·.intentId)).Sublist (sts.map (·.1)) := by
  induction sts with
  | nil => exact .slnil
  | cons p sts ih =>
    unfold carryTargets at ih ⊢
    rw [List.filterMap_cons]
    split
    · exact ih.cons _
    · rename_i t ht
      obtain ⟨i, -, ht⟩ := Option.bind_eq_some_iff.1 ht
      split_ifs at ht
      cases ht
      exact ih.cons_cons _

theorem mem_carryTargets {j : Journal} {asOf lookback : Int} {t : Target}
    (h : t ∈ carryTargets (statesOf j) asOf lookback) : (view j t.intentId).intent = some t.intent ∧
      (view j t.intentId).status.1 = .unknown ∧ (view j t.intentId).baseline = t.baseline := by
  obtain ⟨p, hp, ht⟩ := List.mem_filterMap.1 h
  obtain ⟨id, -, rfl⟩ := List.mem_map.1 hp
  obtain ⟨i, hi, ht⟩ := Option.bind_eq_some_iff.1 ht
  split_ifs at ht with hc
  cases ht
  exact ⟨hi, hc.1, rfl⟩

theorem mem_targetsOn {ts : List Target} {d : String} {t : Target} :
    t ∈ targetsOn ts d ↔ t ∈ ts ∧ t.intent.tradingDate = d := by
  simp [targetsOn, List.mem_insertionSort, List.mem_filter]

theorem carryDatesOf_nodup (ts : List Target) : (carryDatesOf ts).Nodup :=
  (List.perm_insertionSort _ _).nodup_iff.2 (List.nodup_dedup _)

/-- The targets of all dates, one after the other, are distinct intents. -/
theorem targets_nodup {ts : List Target} (hnd : (ts.map (·.intentId)).Nodup) :
    (((carryDatesOf ts).flatMap (targetsOn ts)).map (·.intentId)).Nodup := by
  have hinj := List.inj_on_of_nodup_map hnd
  rw [List.map_flatMap, List.nodup_flatMap]
  refine ⟨fun d _ => ?_, (carryDatesOf_nodup ts).imp (fun {d d'} hne => ?_)⟩
  · have hperm : (targetsOn ts d).Perm (ts.filter (·.intent.tradingDate == d)) := List.perm_insertionSort _ _
    exact (hperm.map _).nodup_iff.2 (hnd.sublist (List.filter_sublist.map _))
  · intro id h h'
    obtain ⟨t, ht, rfl⟩ := List.mem_map.1 h
    obtain ⟨t', ht', he⟩ := List.mem_map.1 h'
    obtain ⟨hm, hd⟩ := mem_targetsOn.1 ht
    obtain ⟨hm', hd'⟩ := mem_targetsOn.1 ht'
    rw [hinj hm' hm he] at hd'
    exact hne (hd.symm.trans hd')

theorem carryTargets_nodup (j : Journal) (asOf lookback : Int) :
    (((carryDatesOf (carryTargets (statesOf j) asOf lookback)).flatMap
      (targetsOn (carryTargets (statesOf j) asOf lookback))).map (·.intentId)).Nodup := by
  refine targets_nodup ((carryTargets_ids (statesOf j) asOf lookback).nodup ?_)
  rw [statesOf, List.map_map]
  exact (List.map_id (idsOf j)).symm ▸ idsOf_nodup j

/-- What holds between two targets: those to come are still UNKNOWN, those adopted are bound and open. -/
structure Carrying (j : Journal) (c : Carry) (pending : List Target) : Prop where
  bound : ∀ n ∈ boundOf j, n ∈ c.bound
  distinct : (c.adopted.map (·.1) ++ pending.map (·.intentId)).Nodup
  pending : ∀ t ∈ pending, (view j t.intentId).intent = some t.intent ∧ (view j t.intentId).status.1 = .unknown
  adopted : ∀ a ∈ c.adopted, (∃ i, (view j a.1).intent = some i) ∧ (view j a.1).status.1 = .acked ∧
    (view j a.1).numbers.1 = some a.2.orderNo

theorem Carrying.skip {j : Journal} {c : Carry} {t : Target} {rest : List Target} (h : Carrying j c (t :: rest)) :
    Carrying j c rest := by
  refine ⟨h.bound, h.distinct.sublist ?_, fun x hx => h.pending x (List.mem_cons_of_mem _ hx), h.adopted⟩
  rw [List.map_cons]
  exact (List.sublist_cons_self _ _).append_left _

/-- Another intent's record changes nothing of it, when it binds no number. -/
theorem Carrying.wrote {j : Journal} {c : Carry} {t : Target} {rest : List Target} {e : JournalEvent}
    (h : Carrying j c (t :: rest)) (he : e.intentId = t.intentId) :
    (∀ x ∈ rest, view (j ++ [e]) x.intentId = view j x.intentId) ∧
      ∀ a ∈ c.adopted, view (j ++ [e]) a.1 = view j a.1 := by
  have hd := h.distinct
  rw [List.map_cons, List.nodup_append] at hd
  obtain ⟨-, hd2, hd3⟩ := hd
  refine ⟨fun x hx => view_snoc_of_ne fun hx' => ?_, fun a ha => view_snoc_of_ne fun ha' => ?_⟩
  · exact (List.nodup_cons.1 hd2).1 (List.mem_map.2 ⟨x, hx, hx'.symm.trans he⟩)
  · exact hd3 a.1 (List.mem_map.2 ⟨a, ha, rfl⟩) t.intentId List.mem_cons_self (ha'.symm.trans he)

theorem Carrying.adopt {j : Journal} {c : Carry} {t : Target} {rest : List Target} {e : JournalEvent} {o : BrokerOrder}
    (h : Carrying j c (t :: rest)) (he : e.intentId = t.intentId) (hk : e.kind = .adopt) (hp : e.payload = adoptPayload o) :
    Carrying (j ++ [e]) { c with bound := normalizeOrderNo o.orderNo :: c.bound,
                                 adopted := c.adopted ++ [(t.intentId, o)] } rest := by
  obtain ⟨hrest, hadopted⟩ := h.wrote he
  have ha := isAdoption_of_adopt hk
  have hno : numberOf e.payload "broker_order_no" = some o.orderNo := hp ▸ numberOf_adoptPayload o
  obtain ⟨hi, hst⟩ := h.pending t List.mem_cons_self
  have hlive := View.live_of_unknown hst
  refine ⟨fun n hn => ?_, ?_, fun x hx => ?_, fun a hmem => ?_⟩
  · rcases mem_boundOf_snoc_adoption ha hno hn with rfl | hn
    · exact List.mem_cons_self
    · exact List.mem_cons_of_mem _ (h.bound n hn)
  · have := h.distinct
    rw [List.map_cons] at this
    simpa [List.append_assoc] using this
  · rw [hrest x hx]
    exact h.pending x (List.mem_cons_of_mem _ hx)
  · rcases List.mem_append.1 hmem with hmem | hmem
    · rw [hadopted a hmem]
      exact h.adopted a hmem
    · rw [List.mem_singleton.1 hmem]
      obtain ⟨h1, h2, -⟩ := View.push_adoption ha hlive.open_
      dsimp only
      rw [view_snoc, if_pos he]
      exact ⟨⟨t.intent, by rw [View.push_intent (by simp [hk])]; exact hi⟩, by rw [h1], by rw [h2]; exact hno⟩

theorem Carrying.conflict {j : Journal} {c : Carry} {t : Target} {rest : List Target} {e : JournalEvent}
    (h : Carrying j c (t :: rest)) (he : e.intentId = t.intentId) (hk : e.kind = .resolveConflict) (conflicted) :
    Carrying (j ++ [e]) { c with conflicted } rest := by
  obtain ⟨hrest, hadopted⟩ := h.wrote he
  have hb : binds e = false := View.binds_false (by simp [hk]) (by simp [hk]) (by simp [hk])
  refine ⟨fun n hn => h.bound n (mem_boundOf_snoc hb hn), h.skip.distinct, fun x hx => ?_, fun a ha => ?_⟩
  · rw [hrest x hx]
    exact h.skip.pending x hx
  · rw [hadopted a ha]
    exact h.adopted a ha

/-- A carry-over writes only in sound journals, and every record of its first pass keeps them sound. -/
theorem sound_wrote_plain {e : JournalEvent} (hs : Sound w.journal) (happ : Appended R w e)
    (hid : e.intentId ∈ idsOf w.journal) (hk : e.kind = .adopt ∨ e.kind = .resolveConflict ∨ e.kind = .cancelSend ∨
      e.kind = .cancelResult) : Sound (w.wrote e).journal := by
  refine hs.snoc_admits (append_loads happ.appended happ.tsText (.inr hid)) hid ?_ ?_
  · rcases hk with hk | hk | hk | hk <;> simp [hk]
  · unfold View.Admits
    rcases hk with hk | hk | hk | hk <;> simp [hk]

theorem ok_carryIntents {rows : List BrokerOrder} {d : String} {w0 : World}
    (hR : R (.fetchDailyOrders d) w0 (.ok rows)) {later : List Target} {Q : Carry → World → Prop} :
    ∀ {ts : List Target} {k : Carry} {w : World}, Sound w.journal → (∀ t ∈ ts, t.intent.tradingDate = d) →
      Carrying w.journal k (ts ++ later) →
      (∀ k' w', Sound w'.journal → Carrying w'.journal k' later → Q k' w') →
      Ok R g c start (g.carryIntents rows k ts) Q w
  | [], k, w, hs, _, hc, hQ => hQ k w hs hc
  | t :: ts, k, w, hs, hd, hc, hQ => by
    have hd' := fun x (hx : x ∈ ts) => hd x (List.mem_cons_of_mem _ hx)
    obtain ⟨hi, hst⟩ := hc.pending t List.mem_cons_self
    have hid := mem_idsOf_of_intent hi
    have hti := view_intentId hi
    rw [OrderGateway.carryIntents]
    split
    · exact ok_carryIntents hR hs hd' hc.skip hQ
    · rename_i o hcand
      have ho : o ∈ matchCandidates t.intent rows k.bound t.baseline := by
        rw [hcand]
        exact List.mem_singleton.2 rfl
      refine ok_bind (ok_writeAs (fun e _ happ hk heid hp _ => ⟨.inl hs, ?_, ?_⟩))
      · have hR' : R (.fetchDailyOrders t.intent.tradingDate) w0 (.ok rows) := by
          rw [hd t List.mem_cons_self]
          exact hR
        exact .adopt t.intent o hk hp (heid ▸ hi) (heid ▸ hst) (matched_of_candidate hR' hc.bound ho)
      · exact ok_carryIntents hR (sound_wrote_plain hs happ (heid ▸ hid) (.inl hk)) hd' (hc.adopt heid hk hp) hQ
    · split_ifs
      · exact ok_carryIntents hR hs hd' hc.skip hQ
      · refine ok_bind (ok_writeAs (fun e _ happ hk heid _ _ => ⟨.inl hs, ?_, ?_⟩))
        · exact .conflict t.intent hk (heid ▸ hi) (heid ▸ hst)
        · exact ok_carryIntents hR (sound_wrote_plain hs happ (heid ▸ hid) (.inr (.inl hk))) hd' (hc.conflict heid hk _) hQ

theorem ok_carryDates {targets : List Target} {Q : Carry → World → Prop} :
    ∀ {ds : List String} {k : Carry} {w : World}, Sound w.journal →
      Carrying w.journal k (ds.flatMap (targetsOn targets)) →
      (∀ k' w', Sound w'.journal → Carrying w'.journal k' [] → Q k' w') →
      Ok R g c start (g.carryDates targets k ds) Q w
  | [], k, w, hs, hc, hQ => hQ k w hs hc
  | d :: ds, k, w, hs, hc, hQ => by
    have hskip : Carrying w.journal k (ds.flatMap (targetsOn targets)) := by
      rw [List.flatMap_cons] at hc
      generalize targetsOn targets d = ts at hc
      induction ts with
      | nil => exact hc
      | cons t ts ih => exact ih hc.skip
    refine ok_bind (ok_fetchDailyOrders (fun r hd hR => ?_))
    split
    · exact ok_carryDates (w := { w with halted := hd }) hs hskip hQ
    · trivial
    · rename_i rows
      refine ok_bind (@ok_carryIntents _ _ _ _ _ _ _ hR (ds.flatMap (targetsOn targets)) _ _ _ { w with halted := hd } hs
        (fun t ht => (mem_targetsOn.1 ht).2) ?_ (fun c' w' hs' hc' => ok_carryDates hs' hc' hQ))
      rwa [List.flatMap_cons] at hc

/-- The fill pass of a carry-over, against the events it read after its adoptions. -/
theorem ok_carryFills {j0 : Journal} (hs0 : Sound j0) : ∀ {adopted : List (String × BrokerOrder)} {w : World},
    Sound w.journal → (adopted.map (·.1)).Nodup →
      (∀ a ∈ adopted, view w.journal a.1 = view j0 a.1 ∧ (∃ i, (view j0 a.1).intent = some i) ∧
        (view j0 a.1).status.1 = .acked ∧ (view j0 a.1).numbers.1 = some a.2.orderNo) →
      Ok R g c start (g.carryFills j0 adopted) (fun _ _ => True) w
  | [], _, _, _, _ => trivial
  | (id, o) :: rest, w, hs, hnd, hv => by
    obtain ⟨hview, ⟨i, hi⟩, hst, hno⟩ := hv (id, o) List.mem_cons_self
    dsimp only at hview hi hst hno
    have hid0 := mem_idsOf_of_intent hi
    have hid : id ∈ idsOf w.journal := mem_idsOf_of_intent (hview ▸ hi)
    rw [List.map_cons] at hnd
    obtain ⟨hnot, hnd'⟩ := List.nodup_cons.1 hnd
    have hv' := fun a (ha : a ∈ rest) => hv a (List.mem_cons_of_mem _ ha)
    rw [OrderGateway.carryFills]
    rcases @probeFills_eq _ hs0 _ g.runId (brokerStatePayload o true) hid0 with ⟨hfill, hp⟩ | ⟨-, hp⟩
    · rw [hp]
      refine ok_bind (ok_writeAs (fun e _ happ hk heid hpe _ => ⟨.inl hs, ?_, ?_⟩))
      · subst heid
        rw [← hview] at hfill hi hst hno
        refine .brokerState i o true hk hpe hi (by rw [hno]; rfl) (View.not_final_of_acked hst) ?_
        rw [hpe, ← hi]
        exact hfill
      · subst heid
        rw [← hview, ← hpe] at hfill
        refine ok_carryFills hs0 (sound_wrote_fill hs happ hid hk hfill) hnd' (fun a ha => ?_)
        have hne : e.intentId ≠ a.1 := fun h => hnot (List.mem_map.2 ⟨a, ha, h.symm⟩)
        exact ⟨by rw [World.wrote_journal, view_snoc_of_ne hne, (hv' a ha).1], (hv' a ha).2⟩
    · rw [hp]
      exact ok_bind (Prog.wp_post (ok_carryFills hs0 hs hnd' hv') (fun _ _ _ => ok_pure trivial))

theorem ok_resolveCarryover {d : String} : Ok R g c start (g.resolveCarryover d) (fun _ _ => True) w := by
  refine ok_bind (ok_except (fun asOf _ => ok_bind (ok_readStates (fun hs => ?_))))
  dsimp only
  split_ifs
  · exact ok_pure trivial
  · refine ok_bind (ok_loadEvents (fun _ => ok_bind (ok_carryDates hs ⟨fun _ h => h, ?_, fun t ht => ?_, ?_⟩
      (fun c w' hs' hc => ?_))))
    · simpa using carryTargets_nodup w.journal asOf g.limits.carryoverLookbackDays
    · obtain ⟨dd, -, ht⟩ := List.mem_flatMap.1 ht
      obtain ⟨h1, h2, -⟩ := mem_carryTargets (mem_targetsOn.1 ht).1
      exact ⟨h1, h2⟩
    · simp
    · split_ifs
      · exact ok_pure trivial
      · have hdist : (c.adopted.map (·.1)).Nodup := by simpa using hc.distinct
        refine ok_bind (ok_loadEvents (fun _ => ok_bind (Prog.wp_post (ok_carryFills hs' hs' hdist
          (fun a ha => ⟨rfl, hc.adopted a ha⟩)) (fun bad w'' _ => ?_))))
        split_ifs
        · exact ok_pure trivial
        · trivial

/-! ## Cancelling -/

theorem view_snoc_cancel {j : Journal} {e : JournalEvent} (hk : e.kind = .cancelSend ∨ e.kind = .cancelResult)
    (id : String) : view (j ++ [e]) id = view j id := by
  rw [view_snoc]
  split_ifs
  · exact View.push_cancel hk
  · rfl

theorem ok_cancelEach {events : List JournalEvent} : ∀ {targets : Dict IntentState} {w : World}, Sound w.journal →
    (∀ p ∈ targets, p.1 ∈ idsOf w.journal ∧ (view w.journal p.1).status.1 = .acked) →
    Ok R g c start (g.cancelEach events targets) (fun _ _ => True) w
  | [], _, _, _ => trivial
  | (id, st) :: rest, w, hs, hv => by
    obtain ⟨hid, hst⟩ := hv (id, st) List.mem_cons_self
    refine ok_bind (ok_writeAs (fun e _ happ hk heid _ _ =>
      ⟨.inl hs, .cancel (.inl hk) (heid ▸ hst) (heid ▸ hid), ok_bind (ok_cancelOrder (fun r hd => ?_))⟩))
    have hs' := sound_wrote_plain hs happ (heid ▸ hid) (.inr (.inr (.inl hk)))
    have hid' : id ∈ idsOf (w.wrote e).journal := mem_idsOf_snoc.2 (.inl hid)
    have hst' : (view (w.wrote e).journal id).status.1 = .acked := by
      rw [World.wrote_journal, view_snoc_cancel (.inl hk)]
      exact hst
    refine ok_bind (ok_writeAs (w := { w.wrote e with halted := hd }) (fun e' _ happ' hk' heid' _ _ =>
      ⟨.inl hs', .cancel (.inr hk') (heid' ▸ hst') (heid' ▸ hid'), ?_⟩))
    have hs'' := sound_wrote_plain (w := { w.wrote e with halted := hd }) hs' happ' (heid' ▸ hid')
      (.inr (.inr (.inr hk')))
    refine ok_bind (Prog.wp_post (ok_cancelEach hs'' (fun p hp => ?_)) (fun _ _ _ => ok_pure trivial))
    obtain ⟨h1, h2⟩ := hv p (List.mem_cons_of_mem _ hp)
    refine ⟨mem_idsOf_snoc.2 (.inl (mem_idsOf_snoc.2 (.inl h1))), ?_⟩
    rw [World.wrote_journal, view_snoc_cancel (.inr hk')]
    show (view (w.journal ++ [e]) p.1).status.1 = .acked
    rw [view_snoc_cancel (.inl hk)]
    exact h2

theorem ok_cancelWorking {d : String} : Ok R g c start (g.cancelWorking d) (fun _ _ => True) w := by
  refine ok_bind (ok_readStates (fun hs => ok_bind (ok_loadEvents (fun _ => ok_cancelEach hs (fun p hp => ?_)))))
  obtain ⟨hp, hc⟩ := List.mem_filter.1 hp
  obtain ⟨id, hid, rfl⟩ := List.mem_map.1 hp
  simp only [Bool.and_eq_true, beq_iff_eq] at hc
  exact ⟨hid, hc.1.1.2⟩

/-! ## Operator resolution -/

theorem ok_applyResolution {a : ResolveArgs} {id action : String} {p : Payload} {cs : List String}
    (h : ∀ e : JournalEvent, e.kind = .operatorResolve → e.intentId = id → e.payload = p → Writes R g c start w e)
    (hs : Sound w.journal) : Ok R g c start (applyResolution a id action p cs) (fun _ _ => True) w := by
  unfold applyResolution
  dsimp only
  split_ifs
  · exact ok_bind (ok_writeAs (fun e _ _ hk hid hp _ => ⟨.inl hs, h e hk hid hp, ok_pure trivial⟩))
  · exact ok_pure trivial

theorem isText_strip {s : String} (h : Py.isBlank s = false) : isText (some (.str (Py.strip s))) = true := by
  simp [isText, Py.isBlank_strip h]

theorem validate_adoptPayload {a : ResolveArgs} {o : BrokerOrder} (ha : a.wellFormed = true)
    (hno : normalizeOrderNo o.orderNo ≠ "") (horg : Py.isBlank o.orgNo = false) :
    validateOperatorPayload (a.adoptPayload o) = .ok () := by
  simp only [ResolveArgs.wellFormed, Bool.and_eq_true, Bool.not_eq_true'] at ha
  obtain ⟨⟨-, hop⟩, hre⟩ := ha
  have h1 := Py.isBlank_strip hop
  have h2 := Py.isBlank_strip hre
  have h3 := not_blank_of_normalize hno
  simp [validateOperatorPayload, ResolveArgs.adoptPayload, List.lookup, isText, h1, h2, h3, horg]

theorem validate_notFoundPayload {a : ResolveArgs} (ha : a.wellFormed = true) :
    validateOperatorPayload a.notFoundPayload = .ok () := by
  simp only [ResolveArgs.wellFormed, Bool.and_eq_true, Bool.not_eq_true'] at ha
  obtain ⟨⟨-, hop⟩, hre⟩ := ha
  have h1 := Py.isBlank_strip hop
  have h2 := Py.isBlank_strip hre
  simp [validateOperatorPayload, ResolveArgs.notFoundPayload, List.lookup, isText, h1, h2]

theorem ok_resolveOn {a : ResolveArgs} {id : String} {i : OrderIntent} {rows : List BrokerOrder} {w0 : World}
    (hs : Sound w.journal) (hR : R (.fetchDailyOrders i.tradingDate) w0 (.ok rows)) (ha : a.wellFormed = true)
    (hi : (view w.journal id).intent = some i) (hst : a.allows (view w.journal id).status.1 = true)
    (hno : ¬ (a.hasOrder = true ∧ a.targetNo = "")) (hcall : ∃ en, c = .resolveUnknownIntent en a id) :
    Ok R g c start (resolveOn a id i (view w.journal id).baseline (boundOf w.journal) rows) (fun _ _ => True) w := by
  unfold resolveOn
  by_cases ho : a.hasOrder = true
  · rw [if_pos ho]
    have hne : a.targetNo ≠ "" := fun h => hno ⟨ho, h⟩
    split
    · rename_i o hc
      have hmem := List.mem_singleton.2 (rfl : o = o)
      rw [← hc] at hmem
      obtain ⟨hnamed, -⟩ := mem_matchCandidates hmem
      obtain ⟨hrow, htarget⟩ := List.mem_filter.1 hnamed
      rw [beq_iff_eq] at htarget
      have hm : Matched R w.journal i o := by
        obtain ⟨-, h1, h2, h3, h4⟩ := mem_matchCandidates hmem
        exact ⟨⟨w0, rows, hR, hrow⟩, h1, h2, h3, h4⟩
      split_ifs with horg
      · exact ok_pure trivial
      · refine ok_applyResolution (fun e hk hid hp => ?_) hs
        have hval := validate_adoptPayload ha (htarget ▸ hne) (by simpa using horg)
        refine .operatorAdopt i a o hk hp (hid ▸ hi) ?_ hm htarget hne (hp ▸ hval) (hid ▸ hcall)
        rw [hid]
        cases hstat : (view w.journal id).status.1 <;> rw [hstat] at hst <;> simp_all [ResolveArgs.allows]
    · exact ok_pure trivial
  · rw [if_neg ho]
    split
    · refine ok_applyResolution (fun e hk hid hp => ?_) hs
      have hnf : a.notFound = true := by
        simp only [ResolveArgs.wellFormed, Bool.and_eq_true] at ha
        have := ha.1.1
        rw [Bool.not_eq_true] at ho
        simpa [ho] using this
      refine .operatorNotFound i a hk hp (hid ▸ hi) ?_ (hp ▸ validate_notFoundPayload ha) (hid ▸ hcall)
      rw [hid]
      cases hstat : (view w.journal id).status.1 <;> rw [hstat] at hst <;> simp_all [ResolveArgs.allows]
    · exact ok_pure trivial

theorem ok_resolveUnknownIntent {enabled : Bool} {a : ResolveArgs} {id : String}
    (hc : c = .resolveUnknownIntent enabled a id) :
    Ok R g c start (resolveUnknownIntent enabled a id) (fun _ _ => True) w := by
  unfold resolveUnknownIntent
  by_cases ha : a.wellFormed = false
  · rw [if_pos ha]
    exact ok_pure trivial
  rw [if_neg ha]
  rw [Bool.not_eq_false] at ha
  by_cases hen : enabled = false
  · rw [if_pos hen]
    exact ok_pure trivial
  rw [if_neg hen]
  refine ok_bind (ok_readStates (fun hs => ?_))
  rw [statesOf_lookup]
  by_cases hid : id ∈ idsOf w.journal
  · rw [if_pos hid]
    dsimp only
    cases hi : (stateOf w.journal id).intent with
    | none => exact ok_pure trivial
    | some i =>
      dsimp only
      split_ifs with hst hno
      · exact ok_pure trivial
      · exact ok_pure trivial
      · refine ok_bind (ok_ensureToken (fun r hd => ?_))
        split
        · exact ok_pure trivial
        · trivial
        · refine ok_bind (ok_fetchDailyOrders (fun r' hd' hR => ?_))
          split
          · exact ok_pure trivial
          · trivial
          · exact ok_resolveOn (w := { w with halted := hd' }) hs hR ha hi (Bool.not_eq_false _ ▸ hst) hno
              ⟨enabled, hc⟩
  · rw [if_neg hid]
    exact ok_pure trivial

/-! ## Every operation -/

theorem ok_call : Ok R g c w.journal (c.prog g) (fun _ _ => True) w := by
  cases c with
  | plan intents skips => exact ok_plan
  | submit id deadline => exact ok_bind (Prog.wp_post (ok_submit rfl) (fun _ _ _ => trivial))
  | reconcile d fin => exact ok_bind (Prog.wp_post ok_reconcile (fun _ _ _ => trivial))
  | resolveCarryover d => exact ok_bind (Prog.wp_post ok_resolveCarryover (fun _ _ _ => trivial))
  | cancelWorking d => exact ok_bind (Prog.wp_post ok_cancelWorking (fun _ _ _ => trivial))
  | resolveUnknownIntent en a id => exact ok_bind (Prog.wp_post (ok_resolveUnknownIntent rfl) (fun _ _ _ => trivial))

end calls

/-- **Every call of every operation, cut anywhere, is a run of steps.** -/
theorem call_steps {R : Rules} {g : OrderGateway} {c : Call} {w w' : World} (ht : Timely w)
    (h : Reach (under R) (c.prog g) w w') : Relation.ReflTransGen (Step R g c w.journal) w w' :=
  Prog.wp_reach (Prog.wp_of_invariant timely_step ht ok_call) h

theorem timely_called {R : OrderGateway → Call → Rules} {A : OrderGateway → Call → Prop} {w w' : World} (ht : Timely w)
    (h : Called R A w w') : Timely w' := by
  obtain ⟨g, c, n, hd, -, hr⟩ := h
  exact Prog.invariant_reach timely_step (call_steps (w := w.enter n hd) ht hr) ht

/-- **What every step keeps, every run of sessions keeps.** -/
theorem session_invariant {R : OrderGateway → Call → Rules} {A : OrderGateway → Call → Prop} {I : World → Prop}
    (henter : ∀ w n h, I w → I (w.enter n h))
    (hstep : ∀ g c start w w', A g c → I w → Step (R g c) g c start w w' → I w') {w w' : World} (ht : Timely w) (hw : I w)
    (h : Session R A w w') : I w' ∧ Timely w' := by
  induction h with
  | refl => exact ⟨hw, ht⟩
  | tail _ hc ih =>
    have ht' := timely_called ih.2 hc
    obtain ⟨g, c, n, hd, hA, hr⟩ := hc
    refine ⟨?_, ht'⟩
    exact Prog.invariant_reach (hstep g c _ · · hA) (call_steps (w := World.enter _ n hd) ih.2 hr) (henter _ n hd ih.1)

theorem timely_empty : Timely World.empty := fun p hp => by cases hp

end Order
