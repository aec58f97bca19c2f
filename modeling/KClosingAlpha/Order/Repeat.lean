import KClosingAlpha.Order.Acts
import KClosingAlpha.Order.Finality
/-!
# Repeat — when a second reconciliation finds nothing left to do

The fill pass never repeats itself: what it recorded is the last fills of its intent, or has closed it.  The adoption
pass does whenever an UNKNOWN intent it did not bind still has a candidate row, since it writes a conflict each time,
and a row bound to a later intent may leave an earlier one a single candidate.
-/
namespace Order

open Py (Value Dict)
open OrderGateway (dayIds)

/-- The rows the waiting intents of a day take: each in turn the one unbound candidate it has, if it has one. -/
def taken (rows : List BrokerOrder) : List String → List (String × IntentState) → List (String × BrokerOrder)
  | _, [] => []
  | bound, (id, st) :: rest =>
    match adopting rows bound st with
    | .bind o => (id, o) :: taken rows (normalizeOrderNo o.orderNo :: bound) rest
    | _ => taken rows bound rest

def takenNumbers (t : List (String × BrokerOrder)) : List String :=
  t.filterMap (fun p => if p.2.orderNo = "" then none else some (normalizeOrderNo p.2.orderNo))

/-- No waiting intent that takes no row has a candidate left. -/
def Settled (rows : List BrokerOrder) (bound : List String) (day : List (String × IntentState)) : Prop :=
  ∀ p ∈ day, p.2.status = .unknown → p.1 ∉ (taken rows bound day).map (·.1) → ∀ i ∈ p.2.intent,
    matchCandidates i rows (takenNumbers (taken rows bound day) ++ bound) p.2.baselineOrderNos = []

/-! ## The acts of one intent -/

theorem mem_taken {rows : List BrokerOrder} {id : String} {o : BrokerOrder} :
    ∀ {bound : List String} {day : List (String × IntentState)}, (id, o) ∈ taken rows bound day →
      ∃ st, (id, st) ∈ day ∧ st.status = .unknown
  | _, [], h => by cases h
  | bound, (x, st) :: rest, h => by
    have hrest {b : List String} (h : (id, o) ∈ taken rows b rest) : ∃ st', (id, st') ∈ (x, st) :: rest ∧ st'.status = .unknown :=
      (mem_taken h).imp (fun _ => And.imp_left (List.mem_cons_of_mem _))
    rw [taken] at h
    cases hx : adopting rows bound st with
    | nothing =>
      rw [hx] at h
      exact hrest h
    | conflict n =>
      rw [hx] at h
      exact hrest h
    | bind o' =>
      rw [hx] at h
      rcases List.mem_cons.1 h with he | h
      · cases he
        exact ⟨st, List.mem_cons_self, (adopting_eq_bind hx).1⟩
      · exact hrest h

theorem actsOf_adoptActs_of_not_mem {rows : List BrokerOrder} {bound : List String} {day : List (String × IntentState)}
    {id : String} (h : id ∉ day.map (·.1)) : actsOf id (adoptActs rows bound day) = [] := by
  refine List.filter_eq_nil_iff.2 (fun a ha => ?_)
  obtain ⟨⟨st, hm, -⟩, -⟩ := adopts_mem ha
  simp only [beq_iff_eq]
  rintro rfl
  exact h (List.mem_map.2 ⟨_, hm, rfl⟩)

theorem not_mem_taken {rows : List BrokerOrder} {bound : List String} {day : List (String × IntentState)} {id : String}
    (h : id ∉ day.map (·.1)) : id ∉ (taken rows bound day).map (·.1) := by
  intro hm
  obtain ⟨⟨x, o⟩, hxo, rfl⟩ := List.mem_map.1 hm
  obtain ⟨st, hst, -⟩ := mem_taken hxo
  exact h (List.mem_map.2 ⟨_, hst, rfl⟩)

/-- **The acts of one intent of the day**: the binding of the row it takes, or conflicts at most. -/
theorem actsOf_adoptActs {rows : List BrokerOrder} {id : String} :
    ∀ {bound : List String} {day : List (String × IntentState)}, (day.map (·.1)).Nodup →
      (∀ o, (id, o) ∈ taken rows bound day → actsOf id (adoptActs rows bound day) = [⟨.adopt, id, adoptPayload o⟩]) ∧
        (id ∉ (taken rows bound day).map (·.1) → ∀ a ∈ actsOf id (adoptActs rows bound day), a.kind = .resolveConflict)
  | _, [], _ => ⟨nofun, nofun⟩
  | bound, (x, st) :: rest, hnd => by
    obtain ⟨hnot, hnd'⟩ := List.nodup_cons.1 hnd
    rw [taken, adoptActs]
    cases adopting rows bound st with
    | nothing => exact actsOf_adoptActs hnd'
    | conflict n =>
      obtain ⟨h1, h2⟩ := @actsOf_adoptActs rows id bound rest hnd'
      dsimp only
      by_cases hx : x = id
      · subst hx
        have hnone := @actsOf_adoptActs_of_not_mem rows bound rest x hnot
        rw [actsOf, List.filter_cons_of_pos (by simp), ← actsOf, hnone]
        exact ⟨fun o ho => absurd (List.mem_map.2 ⟨_, ho, rfl⟩) (not_mem_taken hnot), fun _ a ha => by
          rw [List.mem_singleton.1 ha]⟩
      · rw [actsOf, List.filter_cons_of_neg (by simpa using hx)]
        exact ⟨h1, h2⟩
    | bind o =>
      obtain ⟨h1, h2⟩ := @actsOf_adoptActs rows id (normalizeOrderNo o.orderNo :: bound) rest hnd'
      dsimp only
      by_cases hx : x = id
      · subst hx
        have hnone := @actsOf_adoptActs_of_not_mem rows (normalizeOrderNo o.orderNo :: bound) rest x hnot
        rw [actsOf, List.filter_cons_of_pos (by simp), ← actsOf, hnone]
        refine ⟨fun o' ho' => ?_, fun hn => absurd (List.mem_map.2 ⟨(x, o), List.mem_cons_self, rfl⟩) hn⟩
        rcases List.mem_cons.1 ho' with he | ho'
        · cases he
          rfl
        · exact absurd (List.mem_map.2 ⟨_, ho', rfl⟩) (not_mem_taken hnot)
      · rw [actsOf, List.filter_cons_of_neg (by simpa using hx)]
        refine ⟨fun o' ho' => h1 o' ?_, fun hn => h2 (fun hm => hn (List.mem_cons_of_mem _ hm))⟩
        rcases List.mem_cons.1 ho' with he | ho'
        · exact absurd (congrArg Prod.fst he).symm hx
        · exact ho'

/-! ## Views after the two passes -/

/-- Conflicts leave an UNKNOWN intent what it was to the passes. -/
theorem View.act_conflicts : ∀ {acts : List Act} {v : View}, (∀ a ∈ acts, a.kind = .resolveConflict) →
    v.status.1 = .unknown → (acts.foldl View.act v).status.1 = .unknown ∧ (acts.foldl View.act v).intent = v.intent ∧
      (acts.foldl View.act v).baseline = v.baseline ∧ (acts.foldl View.act v).numbers = v.numbers
  | [], _, _, hst => ⟨hst, rfl, rfl, rfl⟩
  | a :: acts, v, h, hst => by
    have hk : (a.event "" []).kind = .resolveConflict := h a List.mem_cons_self
    have h1 : (v.act a).status.1 = .unknown := by rw [View.act, View.push_conflict hk hst]
    have h2 : (v.act a).intent = v.intent := View.push_intent (by simp [hk])
    have h3 : (v.act a).baseline = v.baseline := by simp [View.act, View.push, hk]
    have h4 : (v.act a).numbers = v.numbers :=
      View.push_numbers (View.binds_false (by simp [hk]) (by simp [hk]) (by simp [hk]))
    obtain ⟨i1, i2, i3, i4⟩ := View.act_conflicts (fun b (hb : b ∈ acts) => h b (List.mem_cons_of_mem _ hb)) h1
    rw [List.foldl_cons]
    exact ⟨i1, i2.trans h2, i3.trans h3, i4.trans h4⟩

theorem View.act_adopt {v : View} {id : String} {o : BrokerOrder} (h : v.status.1 = .unknown) :
    (v.act ⟨.adopt, id, adoptPayload o⟩).status.1 = .acked ∧
      (v.act ⟨.adopt, id, adoptPayload o⟩).numbers.1 = some o.orderNo := by
  have hpush := View.push_adoption (e := Act.event "" [] ⟨.adopt, id, adoptPayload o⟩)
    (isAdoption_of_adopt rfl) (View.live_of_unknown h).open_
  exact ⟨by rw [View.act, hpush.1], by rw [View.act, hpush.2.1]; rfl⟩

/-- Fills change neither the numbers nor the baseline nor the intent, and make no intent UNKNOWN. -/
theorem View.act_fill {v : View} {a : Act} (hk : a.kind = .brokerState) (hb : v.bound = true) :
    (v.act a).numbers = v.numbers ∧ (v.act a).status.1 ≠ .unknown := by
  have hk' : (a.event "" []).kind = .brokerState := hk
  refine ⟨View.push_numbers (View.binds_false (by simp [hk']) (by simp [hk']) (by simp [hk'])), fun hst => ?_⟩
  have := (View.live_of_unknown hst).unbound
  rw [View.act, View.push_bound (View.binds_false (by simp [hk']) (by simp [hk']) (by simp [hk'])), hb] at this
  cases this

theorem actsOf_recorded {F : String → FillStep} {id : String} : ∀ {ids : List String}, ids.Nodup →
    actsOf id (ids.filterMap (fun x => recorded x (F x))) = if id ∈ ids then (recorded id (F id)).toList else []
  | [], _ => rfl
  | x :: ids, hnd => by
    obtain ⟨hnot, hnd'⟩ := List.nodup_cons.1 hnd
    have ih := @actsOf_recorded F id ids hnd'
    by_cases hx : x = id
    · subst hx
      rw [if_neg hnot] at ih
      rw [if_pos List.mem_cons_self, List.filterMap_cons]
      cases F x with
      | record p =>
        change actsOf x (_ :: _) = [_]
        rw [actsOf, List.filter_cons_of_pos (by simp), ← actsOf, ih]
      | keep => exact ih
      | contradicts => exact ih
    · simp only [List.mem_cons, Ne.symm hx, false_or]
      rw [← ih, List.filterMap_cons]
      cases F x with
      | record p =>
        change actsOf id (_ :: _) = _
        rw [actsOf, List.filter_cons_of_neg (by simpa using hx)]
        rfl
      | keep => rfl
      | contradicts => rfl

section passes

variable {rows : List BrokerOrder} {run d : String} {finalize : Bool} {j : Journal}

/-- The rows the day's waiting intents take. -/
def dayTaken (rows : List BrokerOrder) (d : String) (j : Journal) : List (String × BrokerOrder) :=
  taken rows (boundOf j) (dayStates j (dayIds (statesOf j) d))

theorem dayStates_keys (j : Journal) (ids : List String) : (dayStates j ids).map (·.1) = ids := by
  rw [dayStates, List.map_map]
  exact List.map_id ids

theorem mem_dayTaken {id : String} {o : BrokerOrder} (h : (id, o) ∈ dayTaken rows d j) :
    id ∈ dayIds (statesOf j) d ∧ (view j id).status.1 = .unknown := by
  obtain ⟨st, hm, hst⟩ := mem_taken h
  obtain ⟨x, hx, he⟩ := List.mem_map.1 hm
  cases he
  exact ⟨hx, hst⟩

/-- The view of an intent between the passes. -/
theorem view_bindDay (id : String) :
    (∀ o, (id, o) ∈ dayTaken rows d j →
      view (bindDay run rows d j) id = (view j id).act ⟨.adopt, id, adoptPayload o⟩) ∧
    (id ∉ (dayTaken rows d j).map (·.1) → (view j id).status.1 = .unknown →
      (view (bindDay run rows d j) id).status.1 = .unknown ∧ (view (bindDay run rows d j) id).intent = (view j id).intent ∧
        (view (bindDay run rows d j) id).baseline = (view j id).baseline ∧
        (view (bindDay run rows d j) id).numbers = (view j id).numbers) ∧
    ((view j id).status.1 ≠ .unknown → view (bindDay run rows d j) id = view j id) := by
  have hnd : ((dayStates j (dayIds (statesOf j) d)).map (·.1)).Nodup := by
    rw [dayStates_keys]
    exact dayIds_nodup j d
  obtain ⟨h1, h2⟩ := @actsOf_adoptActs rows id (boundOf j) _ hnd
  refine ⟨fun o ho => ?_, fun hn hst => ?_, fun hst => ?_⟩
  · rw [bindDay, view_extend, dayAdoptions, h1 o ho]
    rfl
  · rw [bindDay, view_extend, dayAdoptions]
    exact View.act_conflicts (h2 hn) hst
  · rw [bindDay, view_extend_of_not_mem]
    rintro a ha rfl
    obtain ⟨⟨st, hm, hu⟩, -⟩ := adopts_mem ha
    obtain ⟨x, -, he⟩ := List.mem_map.1 hm
    cases he
    exact hst hu

/-- The view and last fills of an intent of the day after the fill pass. -/
theorem view_reconciled {id : String} (hid : id ∈ dayIds (statesOf j) d) :
    view (reconciled run rows d finalize j) id =
        (recorded id (fillOn rows finalize (view (bindDay run rows d j) id) (lastFill (bindDay run rows d j) id))).toList.foldl
          View.act (view (bindDay run rows d j) id) ∧
      lastFill (reconciled run rows d finalize j) id =
        (recorded id (fillOn rows finalize (view (bindDay run rows d j) id) (lastFill (bindDay run rows d j) id))).toList.foldl
          nextFill (lastFill (bindDay run rows d j) id) := by
  have h := @actsOf_recorded
    (fun x => fillOn rows finalize (view (bindDay run rows d j) x) (lastFill (bindDay run rows d j) x)) id _ (dayIds_nodup j d)
  rw [if_pos hid] at h
  exact ⟨by rw [reconciled, view_extend, dayFills, fillActs, h], by rw [reconciled, lastFill_extend, dayFills, fillActs, h]⟩

theorem view_reconciled_of_not_mem {id : String} (hid : id ∉ dayIds (statesOf j) d) :
    view (reconciled run rows d finalize j) id = view j id := by
  rw [reconciled, view_extend_of_not_mem, bindDay, view_extend_of_not_mem]
  · rintro a ha rfl
    exact hid (dayAdoptions_ids ha)
  · rintro a ha rfl
    exact hid (mem_fillActs ha).1

end passes
/-! ## The second pass -/

section second

variable {rows : List BrokerOrder} {run d : String} {finalize : Bool} {j : Journal}

theorem adoptActs_eq_nil {bound : List String} : ∀ {day : List (String × IntentState)},
    adoptActs rows bound day = [] ↔ ∀ p ∈ day, adopting rows bound p.2 = .nothing
  | [] => ⟨fun _ _ h => (nomatch h), fun _ => rfl⟩
  | (id, st) :: rest => by
    rw [adoptActs, List.forall_mem_cons]
    cases hx : adopting rows bound st with
    | nothing => simp only [@adoptActs_eq_nil bound rest, true_and]
    | bind o => simp
    | conflict n => simp

theorem dictEq_brokerStatePayload (o : BrokerOrder) (final : Bool) :
    Dict.eq (brokerStatePayload o final) (brokerStatePayload o final) = true := by
  simp [Dict.eq, brokerStatePayload, List.lookup, Value.eq_self_int, Value.eq_self_bool]

/-- **The fill pass does not repeat itself.** -/
theorem fillOn_again {v : View} {last : Option Payload} (id : String) :
    recorded id (fillOn rows finalize ((recorded id (fillOn rows finalize v last)).toList.foldl View.act v)
        ((recorded id (fillOn rows finalize v last)).toList.foldl nextFill last)) = none ∧
      contradicts (fillOn rows finalize ((recorded id (fillOn rows finalize v last)).toList.foldl View.act v)
        ((recorded id (fillOn rows finalize v last)).toList.foldl nextFill last)) =
        contradicts (fillOn rows finalize v last) := by
  cases hf : fillOn rows finalize v last with
  | keep =>
    change recorded id (fillOn rows finalize v last) = none ∧ contradicts (fillOn rows finalize v last) = _
    rw [hf]
    exact ⟨rfl, rfl⟩
  | contradicts =>
    change recorded id (fillOn rows finalize v last) = none ∧ contradicts (fillOn rows finalize v last) = _
    rw [hf]
    exact ⟨rfl, rfl⟩
  | record p =>
    obtain ⟨-, no, found, hno, hfound, hp, -⟩ := fillOn_record hf
    have hkeep : fillOn rows finalize (v.act ⟨.brokerState, id, p⟩) (some p) = .keep := by
      have hnum : (v.act ⟨.brokerState, id, p⟩).numbers = v.numbers :=
        View.push_numbers (View.binds_false (by simp [Act.event]) (by simp [Act.event]) (by simp [Act.event]))
      unfold fillOn
      rw [hnum, hno]
      dsimp only
      split_ifs
      · rfl
      · rw [hfound]
        dsimp only
        rw [hp, Option.any_some, if_pos (dictEq_brokerStatePayload _ _)]
    change recorded id (fillOn rows finalize (v.act ⟨.brokerState, id, p⟩) (some p)) = none ∧
      contradicts (fillOn rows finalize (v.act ⟨.brokerState, id, p⟩) (some p)) = _
    rw [hkeep]
    exact ⟨rfl, rfl⟩

theorem dayIds_eq (j : Journal) (d : String) :
    dayIds (statesOf j) d = (idsOf j).filter (fun id => (view j id).intent.map (·.tradingDate) == some d) := by
  unfold dayIds statesOf
  rw [List.filter_map, List.map_map]
  exact List.map_id _

/-- A bound intent of the day is bound after the passes. -/
theorem intent_reconciled (id : String) : (view (reconciled run rows d finalize j) id).intent = (view j id).intent := by
  have hfold : ∀ (acts : List Act) (v : View), (∀ a ∈ acts, a.kind ≠ .intent) → (acts.foldl View.act v).intent = v.intent := by
    intro acts
    induction acts with
    | nil => exact fun v _ => rfl
    | cons a acts ih =>
      intro v h
      rw [List.foldl_cons, ih _ (fun b hb => h b (List.mem_cons_of_mem _ hb))]
      exact View.push_intent (h a List.mem_cons_self)
  rw [reconciled, view_extend, hfold, bindDay, view_extend, hfold]
  · intro a ha
    obtain ⟨-, ⟨o, -, hk, -⟩ | ⟨n, hk, -⟩⟩ := adopts_mem (List.mem_of_mem_filter ha) <;> simp [hk]
  · intro a ha
    simp [(mem_fillActs (List.mem_of_mem_filter ha)).2.1]

theorem dayIds_reconciled : dayIds (statesOf (reconciled run rows d finalize j)) d = dayIds (statesOf j) d := by
  rw [dayIds_eq, dayIds_eq, idsOf_reconciled]
  refine List.filter_congr (fun id _ => ?_)
  rw [intent_reconciled]

/-- An intent the fill pass writes to is bound. -/
theorem bound_of_record {id : String} {last : Option Payload} {p : Payload}
    (h : fillOn rows finalize (view j id) last = .record p) : (view j id).status.1 = .acked ∧ (view j id).bound = true := by
  obtain ⟨hfin, no, found, hno, -⟩ := fillOn_record h
  have hacked := acked_of_number (by rw [hno]; rfl) hfin
  exact ⟨hacked, (View.acked_iff.1 hacked).2⟩

theorem numbers_reconciled (id : String) :
    (view (reconciled run rows d finalize j) id).numbers = (view (bindDay run rows d j) id).numbers := by
  by_cases hid : id ∈ dayIds (statesOf j) d
  · rw [(view_reconciled hid).1]
    cases hf : fillOn rows finalize (view (bindDay run rows d j) id) (lastFill (bindDay run rows d j) id) with
    | keep => rfl
    | contradicts => rfl
    | record p => exact (View.act_fill (a := ⟨.brokerState, id, p⟩) rfl (bound_of_record hf).2).1
  · rw [view_reconciled_of_not_mem hid, bindDay, view_extend_of_not_mem]
    rintro a ha rfl
    exact hid (dayAdoptions_ids ha)

/-- **The numbers after a reconciliation**: those before, and those of the rows taken. -/
theorem mem_boundOf_reconciled {n : String} : n ∈ boundOf (reconciled run rows d finalize j) ↔
    n ∈ takenNumbers (dayTaken rows d j) ++ boundOf j := by
  have htaken : n ∈ takenNumbers (dayTaken rows d j) ↔
      ∃ id o, (id, o) ∈ dayTaken rows d j ∧ o.orderNo ≠ "" ∧ normalizeOrderNo o.orderNo = n := by
    unfold takenNumbers
    simp only [List.mem_filterMap, Prod.exists]
    refine exists_congr (fun id => exists_congr (fun o => and_congr_right (fun _ => ?_)))
    by_cases h0 : o.orderNo = "" <;> simp [h0]
  rw [List.mem_append, htaken, mem_boundOf, mem_boundOf]
  constructor
  · rintro ⟨id, no, hno, h0, hn⟩
    rw [numbers_reconciled] at hno
    obtain ⟨h1, h2, h3⟩ := @view_bindDay rows run d j id
    by_cases hm : id ∈ (dayTaken rows d j).map (·.1)
    · obtain ⟨⟨x, o⟩, ho, rfl⟩ := List.mem_map.1 hm
      rw [h1 o ho, (View.act_adopt (mem_dayTaken ho).2).2] at hno
      cases hno
      exact .inl ⟨x, o, ho, h0, hn⟩
    · refine .inr ⟨id, no, ?_, h0, hn⟩
      by_cases hst : (view j id).status.1 = .unknown
      · rwa [(h2 hm hst).2.2.2] at hno
      · rwa [h3 hst] at hno
  · rintro (⟨id, o, ho, h0, hn⟩ | ⟨id, no, hno, h0, hn⟩)
    · refine ⟨id, o.orderNo, ?_, h0, hn⟩
      rw [numbers_reconciled, (view_bindDay id).1 o ho, (View.act_adopt (mem_dayTaken ho).2).2]
    · refine ⟨id, no, ?_, h0, hn⟩
      have hst : (view j id).status.1 ≠ .unknown := fun hu => by
        rw [view, numbers_of_unbound (View.live_of_unknown hu).unbound] at hno
        cases hno
      rw [numbers_reconciled, (view_bindDay id).2.2 hst, hno]

/-- **The UNKNOWN intents after a reconciliation**: those before that took no row. -/
theorem unknown_reconciled {id : String} (hid : id ∈ dayIds (statesOf j) d) :
    ((view (reconciled run rows d finalize j) id).status.1 = .unknown ↔
      (view j id).status.1 = .unknown ∧ id ∉ (dayTaken rows d j).map (·.1)) ∧
    ((view (reconciled run rows d finalize j) id).status.1 = .unknown →
      (view (reconciled run rows d finalize j) id).baseline = (view j id).baseline) := by
  obtain ⟨h1, h2, h3⟩ := @view_bindDay rows run d j id
  rw [(view_reconciled hid).1]
  cases hf : fillOn rows finalize (view (bindDay run rows d j) id) (lastFill (bindDay run rows d j) id) with
  | record p =>
    obtain ⟨hacked, hbound⟩ := bound_of_record hf
    have hne := (View.act_fill (a := ⟨.brokerState, id, p⟩) rfl hbound).2
    refine ⟨⟨fun h => absurd h hne, fun ⟨hu, hm⟩ => ?_⟩, fun h => absurd h hne⟩
    rw [(h2 hm hu).1] at hacked
    cases hacked
  | _ =>
    change ((view (bindDay run rows d j) id).status.1 = .unknown ↔ _) ∧
      ((view (bindDay run rows d j) id).status.1 = .unknown → (view (bindDay run rows d j) id).baseline = _)
    by_cases hu : (view j id).status.1 = .unknown
    · by_cases hm : id ∈ (dayTaken rows d j).map (·.1)
      · obtain ⟨⟨x, o⟩, ho, rfl⟩ := List.mem_map.1 hm
        have hacked : (view (bindDay run rows d j) x).status.1 = .acked := by
          rw [h1 o ho, (View.act_adopt hu).1]
        simp [hacked, hm]
      · obtain ⟨i1, -, i3, -⟩ := h2 hm hu
        exact ⟨⟨fun _ => ⟨hu, hm⟩, fun _ => i1⟩, fun _ => i3⟩
    · rw [h3 hu]
      exact ⟨⟨fun h => absurd h hu, fun h => h.1⟩, fun _ => rfl⟩

theorem matchCandidates_congr {i : OrderIntent} {b b' : List String} {baseline : Option (List String)}
    (h : ∀ o ∈ rows, normalizeOrderNo o.orderNo ∈ b ↔ normalizeOrderNo o.orderNo ∈ b') :
    matchCandidates i rows b baseline = matchCandidates i rows b' baseline := by
  refine List.filter_congr (fun o ho => ?_)
  have hc : b.contains (normalizeOrderNo o.orderNo) = b'.contains (normalizeOrderNo o.orderNo) := by
    rw [Bool.eq_iff_iff, List.contains_iff_mem, List.contains_iff_mem]
    exact h o ho
  dsimp only
  rw [hc]

/-- **The second adoption pass writes nothing exactly when the day is settled.** -/
theorem dayAdoptions_again : dayAdoptions rows d (reconciled run rows d finalize j) = [] ↔
    Settled rows (boundOf j) (dayStates j (dayIds (statesOf j) d)) := by
  have hcand (i : OrderIntent) (b : Option (List String)) :
      matchCandidates i rows (boundOf (reconciled run rows d finalize j)) b =
        matchCandidates i rows (takenNumbers (dayTaken rows d j) ++ boundOf j) b :=
    matchCandidates_congr (fun o _ => mem_boundOf_reconciled)
  rw [dayAdoptions, dayIds_reconciled, adoptActs_eq_nil]
  unfold Settled dayStates
  simp only [List.forall_mem_map, adopting_eq_nothing]
  refine forall₂_congr (fun id hid => ?_)
  obtain ⟨hu, hb⟩ := @unknown_reconciled rows run d finalize j id hid
  have hi := @intent_reconciled rows run d finalize j id
  simp only [View.state, hi, hcand]
  constructor
  · intro h hst hm i hii
    have hst' := hu.2 ⟨hst, hm⟩
    rw [← hb hst']
    exact h hst' i hii
  · intro h hst' i hii
    obtain ⟨hst, hm⟩ := hu.1 hst'
    rw [hb hst']
    exact h hst hm i hii

end second
/-- A second reconciliation of a settled day leaves the journal and contradicts the same intents. -/
theorem reconciled_again {rows : List BrokerOrder} {run d : String} {finalize : Bool} {j : Journal}
    (h : dayAdoptions rows d (reconciled run rows d finalize j) = []) :
    reconciled run rows d finalize (reconciled run rows d finalize j) = reconciled run rows d finalize j ∧
      contradicted rows finalize (bindDay run rows d (reconciled run rows d finalize j)) (dayIds (statesOf j) d) =
        contradicted rows finalize (bindDay run rows d j) (dayIds (statesOf j) d) := by
  have hbind : bindDay run rows d (reconciled run rows d finalize j) = reconciled run rows d finalize j := by
    rw [bindDay, h]
    rfl
  have hagain (id : String) (hid : id ∈ dayIds (statesOf j) d) :
      recorded id (fillOn rows finalize (view (reconciled run rows d finalize j) id)
          (lastFill (reconciled run rows d finalize j) id)) = none ∧
        contradicts (fillOn rows finalize (view (reconciled run rows d finalize j) id)
          (lastFill (reconciled run rows d finalize j) id)) =
          contradicts (fillOn rows finalize (view (bindDay run rows d j) id) (lastFill (bindDay run rows d j) id)) := by
    rw [(view_reconciled hid).1, (view_reconciled hid).2]
    exact fillOn_again id
  constructor
  · have hfills : dayFills run rows d finalize (reconciled run rows d finalize j) = [] := by
      rw [dayFills, hbind, dayIds_reconciled]
      exact List.filterMap_eq_nil_iff.2 (fun id hid => (hagain id hid).1)
    generalize reconciled run rows d finalize j = j' at *
    rw [reconciled, hbind, hfills]
    rfl
  · rw [hbind]
    exact List.filter_congr (fun id hid => (hagain id hid).2)

theorem run_reconcile_error {orders : String → List BrokerOrder} {positions : List BrokerPosition} {g : OrderGateway}
    {w : World} {d : String} {finalize : Bool} {err : OrderError} (h : states w.journal = .error err) :
    (Oracle.fixed orders positions).run (g.reconcile d finalize) w = (.error err, w) :=
  run_bind_ok (run_fetchDailyOrders d) (run_bind_error (by rw [run_readStates, h]))

/-- **When reconcile is idempotent.**  From a reachable journal a second reconciliation against the same lists appends
nothing and reports or raises the same if and only if the day is settled: taking its waiting intents in journal order,
each with the one unbound candidate it has if it has one, no intent left over still has a candidate. -/
theorem reconcile_idempotent_iff {w : World} (h : FreeSession World.empty w) (g : OrderGateway)
    (orders : String → List BrokerOrder) (positions : List BrokerPosition) (d : String) (finalize : Bool) :
    (((Oracle.fixed orders positions).run (g.reconcile d finalize)
        ((Oracle.fixed orders positions).run (g.reconcile d finalize) w).2).2.journal =
          ((Oracle.fixed orders positions).run (g.reconcile d finalize) w).2.journal ∧
      ((Oracle.fixed orders positions).run (g.reconcile d finalize)
        ((Oracle.fixed orders positions).run (g.reconcile d finalize) w).2).1 =
          ((Oracle.fixed orders positions).run (g.reconcile d finalize) w).1) ↔
    ∀ sts, states w.journal = .ok sts →
      Settled (orders d) (boundNumbers sts) (sts.filter (fun p => stateDate p.2 == some d)) := by
  cases hs : states w.journal with
  | error err =>
    rw [run_reconcile_error hs, run_reconcile_error hs]
    exact ⟨fun _ _ => nofun, fun _ => ⟨rfl, rfl⟩⟩
  | ok sts =>
    obtain ⟨hsound, rfl⟩ := states_eq_ok.1 hs
    have hday : (statesOf w.journal).filter (fun p => stateDate p.2 == some d) =
        dayStates w.journal (dayIds (statesOf w.journal) d) := by
      unfold dayStates dayIds
      rw [List.map_map]
      refine (List.map_id _).symm.trans (List.map_congr_left (fun p hp => ?_))
      obtain ⟨id, -, rfl⟩ := List.mem_map.1 (List.mem_filter.1 hp).1
      rfl
    have hcond : (∀ sts, Except.ok (statesOf w.journal) = (Except.ok sts : Except OrderError _) →
        Settled (orders d) (boundNumbers sts) (sts.filter (fun p => stateDate p.2 == some d))) ↔
        Settled (orders d) (boundOf w.journal) (dayStates w.journal (dayIds (statesOf w.journal) d)) := by
      rw [← hday]
      exact ⟨fun h => h _ rfl, fun h sts he => by cases he; exact h⟩
    rw [hcond, ← @dayAdoptions_again (orders d) g.runId d finalize w.journal]
    obtain ⟨hrun, hk⟩ := @run_reconcile orders positions g w d finalize ⟨hsound, session_text h⟩
    have hsecond := (@run_reconcile orders positions g (w.at (reconciled g.runId (orders d) d finalize w.journal)) d finalize hk).1
    rw [hrun, hsecond]
    dsimp only [World.at_journal]
    constructor
    · rintro ⟨hj, -⟩
      rw [reconciled, bindDay, ← extend_append] at hj
      exact (List.append_eq_nil_iff.1 (extend_eq_self hj)).1
    · intro hnil
      obtain ⟨h1, h2⟩ := reconciled_again hnil
      rw [h1, dayIds_reconciled, h2]
      exact ⟨rfl, rfl⟩

namespace Sample

/-- A POST is lost while the daily list cannot be read: the buy stays UNKNOWN, with no baseline. -/
def unread : World :=
  ordered { broker (fun _ => verdict .ambiguous none) (fun _ => false) with orders := fun _ _ => .error (.brokerRead "") } samsung

/-- The reconciliation of its day, against a list. -/
def reconcileUnread (rows : List BrokerOrder) (w : World) : Except OrderError ReconcileReport × World :=
  (Oracle.fixed (fun _ => rows) []).run (gateway.reconcile "2025-01-02" false) w

end Sample

/-- Against two rows like its order, every reconciliation writes one more conflict. -/
theorem reconcile_repeats_conflict : FreeSession World.empty Sample.unread ∧
    (Sample.reconcileUnread [Sample.row "1" Sample.samsung 10, Sample.row "2" Sample.samsung 0]
      (Sample.reconcileUnread [Sample.row "1" Sample.samsung 10, Sample.row "2" Sample.samsung 0] Sample.unread).2).2.journal ≠
    (Sample.reconcileUnread [Sample.row "1" Sample.samsung 10, Sample.row "2" Sample.samsung 0] Sample.unread).2.journal :=
  ⟨Sample.session_ordered _ _, by decide +kernel⟩

/-- Against one such row it binds the order, and the second reconciliation finds nothing to do. -/
theorem reconcile_idempotent_bound : (Sample.reconcileUnread [Sample.row "1" Sample.samsung 10] Sample.unread).2.journal.length =
      Sample.unread.journal.length + 2 ∧
    (Sample.reconcileUnread [Sample.row "1" Sample.samsung 10]
      (Sample.reconcileUnread [Sample.row "1" Sample.samsung 10] Sample.unread).2).2.journal =
    (Sample.reconcileUnread [Sample.row "1" Sample.samsung 10] Sample.unread).2.journal := by
  have hrun : FreeSession World.empty Sample.unread := Sample.session_ordered _ _
  have hsettled : ∀ sts, states Sample.unread.journal = .ok sts → Settled [Sample.row "1" Sample.samsung 10]
      (boundNumbers sts) (sts.filter (fun p => stateDate p.2 == some "2025-01-02")) := by
    intro sts hsts
    obtain rfl := (states_eq_ok.1 hsts).2
    unfold Settled
    decide +kernel
  have htwice := (reconcile_idempotent_iff hrun Sample.gateway (fun _ => [Sample.row "1" Sample.samsung 10]) [] "2025-01-02"
    false).2 hsettled
  refine ⟨by decide +kernel, ?_⟩
  unfold Sample.reconcileUnread
  exact htwice.1

end Order
