import KClosingAlpha.Order.Acts
/-!
# CarryActs — the records of a carry-over

The adoption pass of `resolve_carryover` goes through the UNKNOWN intents of the earlier dates in one line, date by date
and id by id, each beside the rows of its date; the fills of what it adopted follow.
-/
namespace Order

open Py (Value Dict)
open OrderGateway (Target Carry carryTargets carryDatesOf targetsOn conflictedIds)

/-- The carry after a row is bound. -/
def Carry.adopt (c : Carry) (id : String) (o : BrokerOrder) : Carry :=
  { c with bound := normalizeOrderNo o.orderNo :: c.bound, adopted := c.adopted ++ [(id, o)] }

/-- The carry after a conflict. -/
def Carry.conflict (c : Carry) (id : String) : Carry := { c with conflicted := id :: c.conflicted }

/-- The carry after a line of targets, each with the rows of its date, and the records written. -/
def carryLine : Carry → List (Target × List BrokerOrder) → Carry × List Act
  | c, [] => (c, [])
  | c, (t, rows) :: rest =>
    match Adopting.of (matchCandidates t.intent rows c.bound t.baseline) with
    | .nothing => carryLine c rest
    | .bind o =>
      let r := carryLine (Carry.adopt c t.intentId o) rest
      (r.1, ⟨.adopt, t.intentId, adoptPayload o⟩ :: r.2)
    | .conflict n =>
      if c.conflicted.contains t.intentId then carryLine c rest
      else
        let r := carryLine (Carry.conflict c t.intentId) rest
        (r.1, ⟨.resolveConflict, t.intentId, conflictPayload n⟩ :: r.2)

/-- The targets of some dates in the order the pass meets them. -/
def lineOf (orders : String → List BrokerOrder) (targets : List Target) (dates : List String) :
    List (Target × List BrokerOrder) := dates.flatMap (fun d => (targetsOn targets d).map (fun t => (t, orders d)))

/-- The records of the fills of adopted rows. -/
def carryFillActs (j : Journal) (adopted : List (String × BrokerOrder)) : List Act :=
  adopted.filterMap (fun p => recorded p.1 (recordFills (view j p.1) (brokerStatePayload p.2 true)))

/-- The adoption pass of a carry-over. -/
def carried (orders : String → List BrokerOrder) (asOf lookback : Int) (j : Journal) : Carry × List Act :=
  carryLine ⟨boundOf j, conflictedIds j, []⟩
    (lineOf orders (carryTargets (statesOf j) asOf lookback) (carryDatesOf (carryTargets (statesOf j) asOf lookback)))

/-- **The records of a carry-over.** -/
def carryActs (orders : String → List BrokerOrder) (asOf lookback : Int) (j : Journal) : List Act :=
  (carried orders asOf lookback j).2 ++
    carryFillActs (extend "" j (carried orders asOf lookback j).2) (carried orders asOf lookback j).1.adopted

theorem mem_lineOf {orders : String → List BrokerOrder} {ts : List Target} {dates : List String}
    {p : Target × List BrokerOrder} : p ∈ lineOf orders ts dates ↔
      p.1 ∈ ts ∧ p.1.intent.tradingDate ∈ dates ∧ p.2 = orders p.1.intent.tradingDate := by
  simp only [lineOf, List.mem_flatMap, List.mem_map, mem_targetsOn]
  constructor
  · rintro ⟨d, hd, t, ⟨ht, rfl⟩, rfl⟩
    exact ⟨ht, hd, rfl⟩
  · rintro ⟨ht, hd, he⟩
    exact ⟨_, hd, p.1, ⟨ht, rfl⟩, Prod.ext rfl he.symm⟩

theorem lineOf_ids (orders : String → List BrokerOrder) (ts : List Target) (dates : List String) :
    (lineOf orders ts dates).map (·.1.intentId) = (dates.flatMap (targetsOn ts)).map (·.intentId) := by
  rw [lineOf, List.map_flatMap, List.map_flatMap]
  simp only [List.map_map]
  rfl

theorem carryLine_append : ∀ {as bs : List (Target × List BrokerOrder)} {c : Carry},
    carryLine c (as ++ bs) =
      ((carryLine (carryLine c as).1 bs).1, (carryLine c as).2 ++ (carryLine (carryLine c as).1 bs).2)
  | [], _, _ => rfl
  | (t, rows) :: as, bs, c => by
    rw [List.cons_append, carryLine, carryLine]
    cases Adopting.of (matchCandidates t.intent rows c.bound t.baseline) with
    | nothing => exact carryLine_append
    | bind o => simp only [@carryLine_append as bs, List.cons_append]
    | conflict n =>
      dsimp only
      split_ifs
      · exact carryLine_append
      · simp only [@carryLine_append as bs, List.cons_append]

/-- What a record of the line is. -/
theorem mem_carryLine {a : Act} : ∀ {line : List (Target × List BrokerOrder)} {c : Carry}, a ∈ (carryLine c line).2 →
    ∃ t rows, (t, rows) ∈ line ∧ a.intentId = t.intentId ∧
      ((∃ o ∈ rows, a.kind = .adopt ∧ a.payload = adoptPayload o) ∨
        ∃ n, a.kind = .resolveConflict ∧ a.payload = conflictPayload n)
  | [], _, h => by cases h
  | (t, rows) :: rest, c, h => by
    have hrest {c' : Carry} (h : a ∈ (carryLine c' rest).2) := mem_carryLine h
    have hmore {t' : Target} {rows' : List BrokerOrder} (h : (t', rows') ∈ rest) := List.mem_cons_of_mem (t, rows) h
    rw [carryLine] at h
    cases hx : Adopting.of (matchCandidates t.intent rows c.bound t.baseline) with
    | nothing =>
      rw [hx] at h
      obtain ⟨t', rows', hm, hq⟩ := hrest h
      exact ⟨t', rows', hmore hm, hq⟩
    | bind o =>
      rw [hx] at h
      rcases List.mem_cons.1 h with rfl | h
      · have ho : o ∈ matchCandidates t.intent rows c.bound t.baseline :=
          Adopting.of_eq_bind hx ▸ List.mem_singleton.2 rfl
        exact ⟨t, rows, List.mem_cons_self, rfl, .inl ⟨o, (mem_matchCandidates ho).1, rfl, rfl⟩⟩
      · obtain ⟨t', rows', hm, hq⟩ := hrest h
        exact ⟨t', rows', hmore hm, hq⟩
    | conflict n =>
      rw [hx] at h
      dsimp only at h
      split_ifs at h
      · obtain ⟨t', rows', hm, hq⟩ := hrest h
        exact ⟨t', rows', hmore hm, hq⟩
      · rcases List.mem_cons.1 h with rfl | h
        · exact ⟨t, rows, List.mem_cons_self, rfl, .inr ⟨n, rfl, rfl⟩⟩
        · obtain ⟨t', rows', hm, hq⟩ := hrest h
          exact ⟨t', rows', hmore hm, hq⟩

/-- The adoptions of the line, in order. -/
theorem carryLine_adopted : ∀ {line : List (Target × List BrokerOrder)} {c : Carry}, ∃ l,
    (carryLine c line).1.adopted = c.adopted ++ l ∧ (l.map (·.1)).Sublist (line.map (·.1.intentId)) ∧
      ∀ p ∈ l, (⟨.adopt, p.1, adoptPayload p.2⟩ : Act) ∈ (carryLine c line).2
  | [], c => ⟨[], by simp [carryLine]⟩
  | (t, rows) :: rest, c => by
    rw [carryLine]
    cases Adopting.of (matchCandidates t.intent rows c.bound t.baseline) with
    | nothing =>
      obtain ⟨l, h1, h2, h3⟩ := @carryLine_adopted rest c
      exact ⟨l, h1, h2.cons _, h3⟩
    | bind o =>
      obtain ⟨l, h1, h2, h3⟩ := @carryLine_adopted rest (Carry.adopt c t.intentId o)
      refine ⟨(t.intentId, o) :: l, by rw [h1]; simp [Carry.adopt], h2.cons_cons _, fun p hp => ?_⟩
      rcases List.mem_cons.1 hp with rfl | hp
      · exact List.mem_cons_self
      · exact List.mem_cons_of_mem _ (h3 p hp)
    | conflict n =>
      dsimp only
      split_ifs
      · obtain ⟨l, h1, h2, h3⟩ := @carryLine_adopted rest c
        exact ⟨l, h1, h2.cons _, h3⟩
      · obtain ⟨l, h1, h2, h3⟩ := @carryLine_adopted rest (Carry.conflict c t.intentId)
        exact ⟨l, h1, h2.cons _, fun p hp => List.mem_cons_of_mem _ (h3 p hp)⟩

/-! ## The program writes these records -/

section runs

variable {orders : String → List BrokerOrder} {positions : List BrokerPosition} {g : OrderGateway}

theorem run_carryIntents {rows : List BrokerOrder} : ∀ {ts : List Target} {c : Carry} {w : World}, Kept w.journal →
    (∀ t ∈ ts, t.intentId ∈ idsOf w.journal) →
    (Oracle.fixed orders positions).run (g.carryIntents rows c ts) w =
        (.ok (carryLine c (ts.map (fun t => (t, rows)))).1,
          w.at (extend g.runId w.journal (carryLine c (ts.map (fun t => (t, rows)))).2)) ∧
      Kept (extend g.runId w.journal (carryLine c (ts.map (fun t => (t, rows)))).2)
  | [], c, w, hj, _ => ⟨rfl, hj⟩
  | t :: ts, c, w, hj, hids => by
    have hid := hids t List.mem_cons_self
    have hids' := fun x (hx : x ∈ ts) => hids x (List.mem_cons_of_mem _ hx)
    have hwrite (a : Act) (c' : Carry) (ha : a.intentId = t.intentId) (hl : a.Legal (view w.journal a.intentId)) :
        (Oracle.fixed orders positions).run (g.write a.kind a.intentId a.payload >>= fun _ => g.carryIntents rows c' ts) w =
            (.ok (carryLine c' (ts.map (fun t => (t, rows)))).1,
              w.at (extend g.runId w.journal (a :: (carryLine c' (ts.map (fun t => (t, rows)))).2))) ∧
          Kept (extend g.runId w.journal (a :: (carryLine c' (ts.map (fun t => (t, rows)))).2)) := by
      have hida : a.intentId ∈ idsOf w.journal := ha ▸ hid
      obtain ⟨hrun, hkept⟩ := @run_carryIntents rows ts c' (w.at (w.journal ++ [a.event g.runId w.journal]))
        (hj.act hida hl) (fun x hx => by rw [World.at_journal, idsOf_act hida]; exact hids' x hx)
      exact ⟨run_bind_ok (run_write hj hida hl) hrun, hkept⟩
    rw [OrderGateway.carryIntents, List.map_cons, carryLine]
    generalize matchCandidates t.intent rows c.bound t.baseline = cs
    rcases cs with - | ⟨o, - | ⟨p, ps⟩⟩
    · exact run_carryIntents hj hids'
    · exact hwrite ⟨.adopt, t.intentId, adoptPayload o⟩ (Carry.adopt c t.intentId o) rfl (legal_adopt _ _ _)
    · dsimp only [Adopting.of]
      split_ifs
      · exact run_carryIntents hj hids'
      · exact hwrite ⟨.resolveConflict, t.intentId, conflictPayload _⟩ (Carry.conflict c t.intentId) rfl (legal_conflict _ _ _)

theorem carryLine_ids {line : List (Target × List BrokerOrder)} {c : Carry} {j : Journal} {run : String}
    (h : ∀ p ∈ line, p.1.intentId ∈ idsOf j) : idsOf (extend run j (carryLine c line).2) = idsOf j := by
  refine idsOf_extend (fun a ha => ?_)
  obtain ⟨t, rows, hm, he, -⟩ := mem_carryLine ha
  rw [he]
  exact h _ hm

theorem run_carryDates {targets : List Target} : ∀ {dates : List String} {c : Carry} {w : World}, Kept w.journal →
    (∀ t ∈ targets, t.intentId ∈ idsOf w.journal) →
    (Oracle.fixed orders positions).run (g.carryDates targets c dates) w =
        (.ok (carryLine c (lineOf orders targets dates)).1,
          w.at (extend g.runId w.journal (carryLine c (lineOf orders targets dates)).2)) ∧
      Kept (extend g.runId w.journal (carryLine c (lineOf orders targets dates)).2)
  | [], c, w, hj, _ => ⟨rfl, hj⟩
  | d :: dates, c, w, hj, hids => by
    have hon : ∀ t ∈ targetsOn targets d, t.intentId ∈ idsOf w.journal := fun t ht => hids t (mem_targetsOn.1 ht).1
    obtain ⟨hrun1, hk1⟩ := @run_carryIntents orders positions g (orders d) (targetsOn targets d) c w hj hon
    have hids1 := @carryLine_ids ((targetsOn targets d).map (fun t => (t, orders d))) c w.journal g.runId (fun p hp => by
        obtain ⟨t, ht, rfl⟩ := List.mem_map.1 hp
        exact hon t ht)
    obtain ⟨hrun2, hk2⟩ := run_carryDates (c := (carryLine c ((targetsOn targets d).map (fun t => (t, orders d)))).1)
      (w := w.at (extend g.runId w.journal (carryLine c ((targetsOn targets d).map (fun t => (t, orders d)))).2)) hk1
      (fun t ht => by rw [World.at_journal, hids1]; exact hids t ht)
    rw [OrderGateway.carryDates, lineOf, List.flatMap_cons, carryLine_append, extend_append]
    exact ⟨run_bind_ok (run_fetchDailyOrders d) (run_bind_ok hrun1 hrun2), hk2⟩

theorem run_carryFills {j1 : Journal} (h1 : Sound j1) : ∀ {adopted : List (String × BrokerOrder)} {w : World},
    Kept w.journal → (adopted.map (·.1)).Nodup →
    (∀ p ∈ adopted, p.1 ∈ idsOf j1 ∧ p.1 ∈ idsOf w.journal ∧ view w.journal p.1 = view j1 p.1) →
    ∃ bad, (Oracle.fixed orders positions).run (g.carryFills j1 adopted) w =
        (.ok bad, w.at (extend g.runId w.journal (carryFillActs j1 adopted))) ∧
      Kept (extend g.runId w.journal (carryFillActs j1 adopted))
  | [], w, hj, _, _ => ⟨[], rfl, hj⟩
  | (id, o) :: adopted, w, hj, hnd, hv => by
    obtain ⟨hid1, hid, hview⟩ := hv _ List.mem_cons_self
    obtain ⟨hnot, hnd'⟩ := List.nodup_cons.1 hnd
    have hv' := fun p (hp : p ∈ adopted) => hv p (List.mem_cons_of_mem _ hp)
    obtain ⟨bad, hrun, hkept⟩ := run_carryFills h1 hj hnd' hv'
    rw [OrderGateway.carryFills, probeFills_recordFills h1 hid1, carryFillActs, List.filterMap_cons]
    dsimp only
    cases hf : recordFills (view j1 id) (brokerStatePayload o true) with
    | keep => exact ⟨id :: bad, run_bind_ok hrun rfl, hkept⟩
    | contradicts => exact ⟨id :: bad, run_bind_ok hrun rfl, hkept⟩
    | record p =>
      obtain ⟨rfl, f, hfill⟩ := recordFills_record hf
      let a : Act := ⟨.brokerState, id, brokerStatePayload o true⟩
      have hl : a.Legal (view w.journal id) := hview ▸ legal_fill hfill
      have hnext : ∀ q ∈ adopted, q.1 ∈ idsOf j1 ∧ q.1 ∈ idsOf (w.journal ++ [a.event g.runId w.journal]) ∧
          view (w.journal ++ [a.event g.runId w.journal]) q.1 = view j1 q.1 := by
        intro q hq
        obtain ⟨h2, h3, h4⟩ := hv' q hq
        refine ⟨h2, by rw [idsOf_act hid]; exact h3, ?_⟩
        rw [view_act_of_ne (fun h : id = q.1 => hnot (h ▸ List.mem_map.2 ⟨q, hq, rfl⟩)), h4]
      obtain ⟨bad, hrun, hkept⟩ := run_carryFills h1 (w := w.at (w.journal ++ [a.event g.runId w.journal]))
        (hj.act hid hl) hnd' hnext
      refine ⟨bad, ?_⟩
      change (Oracle.fixed orders positions).run (g.write a.kind a.intentId a.payload >>= fun _ => g.carryFills j1 adopted) w =
        (.ok bad, w.at (extend g.runId w.journal (a :: carryFillActs j1 adopted))) ∧
          Kept (extend g.runId w.journal (a :: carryFillActs j1 adopted))
      exact ⟨run_bind_ok (run_write hj hid hl) hrun, hkept⟩

/-- The gateway that writes the records does not show in the fills. -/
theorem carryFillActs_extend {run : String} {j : Journal} {acts : List Act} {adopted : List (String × BrokerOrder)} :
    carryFillActs (extend run j acts) adopted = carryFillActs (extend "" j acts) adopted := by
  unfold carryFillActs
  simp only [view_extend]

/-- **A carry-over writes `carryActs`.** -/
theorem run_resolveCarryover {w : World} {d : String} {asOf : Int} (hj : Kept w.journal)
    (hd : fromisoformat d = .ok asOf) : ∃ r,
    (Oracle.fixed orders positions).run (g.resolveCarryover d) w =
        (r, w.at (extend g.runId w.journal (carryActs orders asOf g.limits.carryoverLookbackDays w.journal))) ∧
      Kept (extend g.runId w.journal (carryActs orders asOf g.limits.carryoverLookbackDays w.journal)) := by
  have hnd := carryTargets_nodup w.journal asOf g.limits.carryoverLookbackDays
  have hids : ∀ t ∈ carryTargets (statesOf w.journal) asOf g.limits.carryoverLookbackDays,
      t.intentId ∈ idsOf w.journal := fun t ht => mem_idsOf_of_intent (mem_carryTargets ht).1
  have hstart {r : Except OrderError Nat × World} {p : Int → Dict IntentState → Gw Nat}
      (h : (Oracle.fixed orders positions).run (p asOf (statesOf w.journal)) w = r) :
      (Oracle.fixed orders positions).run (Prog.ofExcept (fromisoformat d) >>= fun x => readStates >>= p x) w = r :=
    run_bind_ok (by rw [hd]; exact run_except _) (run_bind_ok (run_states hj.sound) h)
  unfold carryActs carried OrderGateway.resolveCarryover
  -- the targets are a variable from here on
  generalize hts : carryTargets (statesOf w.journal) asOf g.limits.carryoverLookbackDays = ts at *
  obtain ⟨hrun, hkept⟩ := @run_carryDates orders positions g ts (carryDatesOf ts)
    ⟨boundOf w.journal, conflictedIds w.journal, []⟩ w hj hids
  have hline : ∀ p ∈ lineOf orders ts (carryDatesOf ts), p.1.intentId ∈ idsOf w.journal :=
    fun p hp => hids p.1 (mem_lineOf.1 hp).1
  have hkeep := @carryLine_ids _ ⟨boundOf w.journal, conflictedIds w.journal, []⟩ w.journal g.runId hline
  obtain ⟨l, hl, hsub, -⟩ := @carryLine_adopted (lineOf orders ts (carryDatesOf ts))
    ⟨boundOf w.journal, conflictedIds w.journal, []⟩
  have hdist : (l.map (·.1)).Nodup := hsub.nodup (by rw [lineOf_ids]; exact hnd)
  have hlids : ∀ p ∈ l, p.1 ∈ idsOf w.journal := by
    intro p hp
    obtain ⟨q, hq, he⟩ := List.mem_map.1 (hsub.subset (List.mem_map.2 ⟨p, hp, rfl⟩))
    exact he ▸ hline q hq
  rw [List.nil_append] at hl
  rw [← @carryFillActs_extend g.runId, extend_append]
  generalize hq : carryLine ⟨boundOf w.journal, conflictedIds w.journal, []⟩ (lineOf orders ts (carryDatesOf ts)) = q at *
  obtain ⟨c, acts⟩ := q
  dsimp only at *
  subst hl
  generalize hj1 : extend g.runId w.journal acts = j1 at *
  obtain ⟨bad, hfill, hk2⟩ := @run_carryFills orders positions g j1 hkept.sound c.adopted (w.at j1) hkept hdist
    (fun p hp => ⟨hkeep ▸ hlids p hp, by rw [World.at_journal, hkeep]; exact hlids p hp, rfl⟩)
  -- nothing to look at, nothing adopted, or fills to record
  have hend : ∃ r, (Oracle.fixed orders positions).run
      (if c.adopted.isEmpty then pure 0
        else do
          let events ← loadEvents
          let contradictions ← g.carryFills events c.adopted
          if contradictions.isEmpty then pure c.adopted.length else .raise (contradiction contradictions)) (w.at j1) =
      (r, w.at (extend g.runId j1 (carryFillActs j1 c.adopted))) := by
    cases hadopted : c.adopted with
    | nil => exact ⟨.ok 0, rfl⟩
    | cons p l =>
      rw [hadopted] at hfill
      cases bad with
      | nil => exact ⟨_, run_bind_ok (run_load hkept.sound) (run_bind_ok hfill rfl)⟩
      | cons x xs => exact ⟨_, run_bind_ok (run_load hkept.sound) (run_bind_ok hfill rfl)⟩
  obtain ⟨r, hend⟩ := hend
  cases ts with
  | nil =>
    obtain ⟨rfl, rfl⟩ := Prod.mk.inj hq.symm
    refine ⟨.ok 0, hstart ?_, hk2⟩
    subst hj1
    dsimp only
    rw [hts]
    rfl
  | cons t ts =>
    refine ⟨r, hstart ?_, hk2⟩
    rw [hts]
    exact run_bind_ok (run_load hj.sound) (run_bind_ok hrun hend)

end runs
end Order
