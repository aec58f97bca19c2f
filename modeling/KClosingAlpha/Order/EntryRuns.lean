import Mathlib
import KClosingAlpha.Order.EntrySession
import KClosingAlpha.Order.ExitRerun
/-!
# EntryRuns — what one entry run does to the journal

A plan is within the capital and the order cap.  A run, cut anywhere, plans at most once, and only where the journal has
no entry of the day.
-/
namespace Order

open Py (Dict)
open Prog (Reach Ends keeps)

/-! ## What a plan holds -/

section plan

variable {t : Terms} {capital cap : Int} {q : Dict Int} {d : String} {reads : EntryReads}

theorem checkPicks_eq_ok : ∀ {picks : List EntryPick} {seen : List String}, checkPicks seen picks = .ok () →
    (∀ p ∈ picks, p.symbol ∉ seen) ∧ (picks.map (·.symbol)).Nodup ∧
      (∀ p ∈ picks, ∃ a, p.allocation = .fin a ∧ 0 < a) ∧ ∀ p ∈ picks, 0 < p.limitPrice
  | [], _, _ => by simp
  | p :: picks, seen, h => by
    simp only [checkPicks, checkPick, Exc.bind_eq_ok, Exc.raiseIf_eq_ok] at h
    obtain ⟨_, ⟨_, hnew, _, halloc, hprice⟩, hrest⟩ := h
    obtain ⟨hseen, hnd, ha, hp⟩ := checkPicks_eq_ok hrest
    have hnot : p.symbol ∉ seen := fun hm => hnew (List.contains_iff_mem.2 hm)
    have hshare : ∃ a, p.allocation = .fin a ∧ 0 < a := by
      cases hpa : p.allocation with
      | fin a =>
        rw [hpa] at halloc
        simp only [Flt.isFinite, Flt.fin_le_fin, decide_eq_true_eq, not_or, not_le] at halloc
        exact ⟨a, rfl, halloc.2⟩
      | _ => simp [hpa, Flt.isFinite] at halloc
    refine ⟨fun x hx => ?_, ?_, fun x hx => ?_, fun x hx => ?_⟩
    · rcases List.mem_cons.1 hx with rfl | hx
      · exact hnot
      · exact fun hm => hseen x hx (List.mem_cons_of_mem _ hm)
    · rw [List.map_cons, List.nodup_cons]
      refine ⟨fun hm => ?_, hnd⟩
      obtain ⟨x, hx, heq⟩ := List.mem_map.1 hm
      exact hseen x hx (heq ▸ List.mem_cons_self)
    · rcases List.mem_cons.1 hx with rfl | hx
      · exact hshare
      · exact ha x hx
    · rcases List.mem_cons.1 hx with rfl | hx
      · omega
      · exact hp x hx

theorem validPicks_of_sized {picks : List EntryPick} (h : sizeEntryOrders t capital cap picks = .ok q) :
    ValidPicks picks capital cap := by
  simp only [sizeEntryOrders, Exc.bind_eq_ok, Exc.raiseIf_eq_ok] at h
  obtain ⟨_, hcapital, _, hcap, _, hcheck, -⟩ := h
  obtain ⟨-, hnd, ha, hp⟩ := checkPicks_eq_ok hcheck
  exact ⟨by omega, by omega, hnd, ha, hp⟩

/-- The sizes cost no more than the capital, and none is over the cap. -/
theorem sized_within {picks : List EntryPick} (h : sizeEntryOrders t capital cap picks = .ok q) :
    spent t q picks ≤ capital ∧ ∀ p ∈ picks, 0 ≤ q.getD p.symbol 0 ∧ q.getD p.symbol 0 * p.limitPrice ≤ cap := by
  have hv := validPicks_of_sized h
  have hperm := ranked_perm picks
  rw [sizeEntryOrders_eq hv] at h
  cases h
  obtain ⟨hspent, hgreatest⟩ := @allotted_greedy t capital cap hv.cap_pos hv.capital_nonneg (ranked picks) capital
    ((hperm.map _).nodup_iff.2 hv.symbols) (fun p hp => hv.allocations p (hperm.mem_iff.1 hp))
    (fun p hp => hv.prices p (hperm.mem_iff.1 hp)) hv.capital_nonneg
  constructor
  · have hsame : spent t (allotted t capital cap capital (ranked picks)) (ranked picks) =
        spent t (allotted t capital cap capital (ranked picks)) picks := (hperm.map _).sum_eq
    exact hsame ▸ hspent
  · intro p hp
    obtain ⟨before, after, heq⟩ := List.append_of_mem (hperm.mem_iff.2 hp)
    obtain ⟨hnonneg, hbudget, -⟩ := (hgreatest before p after heq).1
    exact ⟨hnonneg, hbudget.trans (min_le_right _ _)⟩

theorem notional_eq {pick : EntryPick} {i : OrderIntent} {qty : Int} (h : i.toIntentFields = entryFields d qty pick) :
    notional i = qty * pick.limitPrice := by
  rw [notional, h]
  rfl

/-- The intents are of picks that were sized, the others are skipped, and they cost what the sizes do. -/
theorem entryIntents_eq_ok : ∀ {picks : List EntryPick} {intents : List OrderIntent} {skips : List PlannedSkip},
    entryIntents d q picks = .ok (intents, skips) → (∀ p ∈ picks, 0 ≤ q.getD p.symbol 0) →
      (∀ i ∈ intents, ∃ p ∈ picks, i.toIntentFields = entryFields d (q.getD p.symbol 0) p) ∧
      (intents.map (·.symbol)).Sublist (picks.map (·.symbol)) ∧ intents.length + skips.length = picks.length ∧
      (intents.map (fun i => t.cost (notional i))).sum = spent t q picks
  | [], intents, skips, h, _ => by
    cases h
    simp [spent]
  | p :: picks, intents, skips, h, hq => by
    have hrest := fun x hx => hq x (List.mem_cons_of_mem p hx)
    have hspent : spent t q (p :: picks) = t.cost (q.getD p.symbol 0 * p.limitPrice) + spent t q picks := by
      rw [spent, List.map_cons, List.sum_cons]
      rfl
    rw [entryIntents] at h
    by_cases hzero : q.getD p.symbol 0 ≤ 0
    · rw [if_pos hzero] at h
      obtain ⟨⟨intents', skips'⟩, hok, heq⟩ := (Exc.bind_eq_ok _ _ _).1 h
      cases heq
      obtain ⟨hmem, hsub, hlen, hsum⟩ := entryIntents_eq_ok hok hrest
      have hnone : q.getD p.symbol 0 = 0 := le_antisymm hzero (hq p List.mem_cons_self)
      refine ⟨fun i hi => ?_, hsub.cons _, ?_, ?_⟩
      · obtain ⟨x, hx, hfields⟩ := hmem i hi
        exact ⟨x, List.mem_cons_of_mem _ hx, hfields⟩
      · simp only [List.length_cons]
        omega
      · rw [hspent, hnone, Int.zero_mul, t.cost_zero, hsum, Int.zero_add]
    · rw [if_neg hzero] at h
      obtain ⟨i, hmake, h⟩ := (Exc.bind_eq_ok _ _ _).1 h
      obtain ⟨⟨intents', skips'⟩, hok, heq⟩ := (Exc.bind_eq_ok _ _ _).1 h
      cases heq
      obtain ⟨hmem, hsub, hlen, hsum⟩ := entryIntents_eq_ok hok hrest
      have hfields := OrderIntent.make_eq_ok hmake
      have hsymbol : i.symbol = p.symbol := by rw [hfields]; rfl
      refine ⟨fun x hx => ?_, ?_, ?_, ?_⟩
      · rcases List.mem_cons.1 hx with rfl | hx
        · exact ⟨p, List.mem_cons_self, hfields⟩
        · obtain ⟨y, hy, hyf⟩ := hmem x hx
          exact ⟨y, List.mem_cons_of_mem _ hy, hyf⟩
      · rw [List.map_cons, List.map_cons, hsymbol]
        exact hsub.cons_cons _
      · simp only [List.length_cons]
        omega
      · rw [List.map_cons, List.sum_cons, hsum, hspent, notional_eq hfields]

theorem pricePicks_length : ∀ {picks : List DecisionPick} {priced : List EntryPick} {skips : List PlannedSkip},
    pricePicks reads d picks = .ok (priced, skips) → priced.length + skips.length = picks.length
  | [], priced, skips, h => by
    cases h
    rfl
  | pick :: picks, priced, skips, h => by
    rw [pricePicks] at h
    obtain ⟨price, -, h⟩ := (Exc.bind_eq_ok _ _ _).1 h
    obtain ⟨⟨priced', skips'⟩, hok, heq⟩ := (Exc.bind_eq_ok _ _ _).1 h
    have hlen := pricePicks_length hok
    cases price <;> cases heq <;> simp only [List.length_cons] <;> omega

/-- What a plan of the day is: entries of the day under their own ids, within the cap and all of them within the
capital, and a skip for every pick that got none. -/
structure Holds (t : Terms) (d : String) (capital cap : Int) (nPicks : Nat) (intents : List OrderIntent)
    (skips : List PlannedSkip) : Prop where
  phase : ∀ i ∈ intents, i.phase = .entry
  date : ∀ i ∈ intents, i.tradingDate = d
  id : ∀ i ∈ intents, i.intentId = entryIntentId i.tradingDate i.symbol
  nonneg : ∀ i ∈ intents, 0 ≤ notional i
  cap : ∀ i ∈ intents, notional i ≤ cap
  symbols : (intents.map (·.symbol)).Nodup
  cost : (intents.map (fun i => t.cost (notional i))).sum ≤ capital
  picks : intents.length + skips.length = nPicks

theorem entryPlan_holds {picks : List DecisionPick} {intents : List OrderIntent} {skips : List PlannedSkip}
    (h : entryPlan reads d capital cap picks = .ok (intents, skips)) :
    Holds reads.terms d capital cap picks.length intents skips := by
  obtain ⟨⟨priced, unpriced⟩, hpriced, h⟩ := (Exc.bind_eq_ok _ _ _).1 h
  obtain ⟨q, hsized, h⟩ := (Exc.bind_eq_ok _ _ _).1 h
  obtain ⟨⟨intents', unsized⟩, hintents, heq⟩ := (Exc.bind_eq_ok _ _ _).1 h
  cases heq
  obtain ⟨hspent, hwithin⟩ := sized_within hsized
  obtain ⟨hmem, hsub, hlen, hsum⟩ := entryIntents_eq_ok (t := reads.terms) hintents (fun p hp => (hwithin p hp).1)
  have hall := pricePicks_length hpriced
  have hvalid := validPicks_of_sized hsized
  refine ⟨fun i hi => ?_, fun i hi => ?_, fun i hi => ?_, fun i hi => ?_, fun i hi => ?_, hsub.nodup hvalid.symbols,
    hsum ▸ hspent, ?_⟩
  · obtain ⟨p, -, hf⟩ := hmem i hi
    rw [hf]
    rfl
  · obtain ⟨p, -, hf⟩ := hmem i hi
    rw [hf]
    rfl
  · obtain ⟨p, -, hf⟩ := hmem i hi
    rw [hf]
    rfl
  · obtain ⟨p, hp, hf⟩ := hmem i hi
    rw [notional_eq hf]
    exact mul_nonneg (hwithin p hp).1 (hvalid.prices p hp).le
  · obtain ⟨p, hp, hf⟩ := hmem i hi
    rw [notional_eq hf]
    exact (hwithin p hp).2
  · rw [List.length_append]
    omega

end plan

/-! ## The entries on record -/

/-- The entry intents of a date, in journal order. -/
def entriesOf (sts : Dict IntentState) (tradingDate : String) : List OrderIntent :=
  (sts.filterMap (fun p => p.2.intent)).filter (fun i => i.phase == .entry && i.tradingDate == tradingDate)

/-- Every INTENT on record is the one intent of its id. -/
def Recorded (j : Journal) : Prop :=
  ∀ e ∈ j, e.kind = .intent → ∃ i : OrderIntent, e.intentId = i.intentId ∧ e.payload = intentToPayload i ∧
    (view j i.intentId).intent = some i

section recorded

variable {j : Journal} {d id : String} {i : OrderIntent} {w : World}

theorem mem_entriesOf : i ∈ entriesOf (statesOf j) d ↔
    (view j i.intentId).intent = some i ∧ i.phase = .entry ∧ i.tradingDate = d := by
  unfold entriesOf statesOf
  simp only [List.mem_filter, List.mem_filterMap, List.mem_map, Bool.and_eq_true, beq_iff_eq]
  constructor
  · rintro ⟨⟨_, ⟨x, -, rfl⟩, hi⟩, hi'⟩
    obtain rfl := view_intentId hi
    exact ⟨hi, hi'⟩
  · rintro ⟨hi, hi'⟩
    exact ⟨⟨_, ⟨i.intentId, mem_idsOf_of_intent hi, rfl⟩, hi⟩, hi'⟩

theorem entriesOf_nodup (j : Journal) (d : String) : (entriesOf (statesOf j) d).Nodup := by
  unfold entriesOf statesOf
  rw [List.filterMap_map]
  refine (List.Nodup.filterMap (fun x y i hx hy => ?_) (idsOf_nodup j)).filter _
  exact (view_intentId hx).symm.trans (view_intentId hy)

theorem session_recorded_intents (h : FreeSession World.empty w) : Recorded w.journal := by
  refine (session_invariant (I := fun x => Recorded x.journal) (fun _ _ _ h => h)
    (fun g c start x y _ hI hs => ?_) timely_empty (fun e he => by cases he) h).1
  cases hs with
  | quiet y hj hp hh =>
    rw [hj]
    exact hI
  | posted i hd s hlast hk hid hi hst hnew hcall => exact hI
  | wrote e happ hs hw =>
    intro x' hx hk
    rw [World.wrote_journal, List.mem_append, List.mem_singleton] at hx
    rcases hx with hx | rfl
    · obtain ⟨i, hid, hp, hi⟩ := hI x' hx hk
      refine ⟨i, hid, hp, ?_⟩
      rw [World.wrote_journal]
      by_cases hke : e.kind = .intent
      · have hne : e.intentId ≠ i.intentId := fun heq => hw.intent_new hke (heq ▸ mem_idsOf_of_intent hi)
        rw [view_snoc, if_neg hne, hi]
      · rw [view_intent_snoc hke, hi]
    · cases hw with
      | intent i hk' hid hp hnew =>
        refine ⟨i, hid, hp, ?_⟩
        rw [World.wrote_journal, view_snoc, if_pos hid]
        simp [View.push, hk', hid, hp, intentFromPayload_intentToPayload, Except.toOption]
      | cancel hk' => rcases hk' with hk' | hk' <;> simp [hk'] at hk
      | _ => simp_all

theorem exists_intent_of_view (h : (view j id).intent = some i) :
    ∃ e ∈ j, e.kind = .intent ∧ e.intentId = id ∧ intentFromPayload e.intentId e.payload = .ok i := by
  induction j using List.reverseRecOn with
  | nil => cases h
  | append_singleton j e ih =>
    have hearlier : (view j id).intent = some i →
        ∃ x ∈ j ++ [e], x.kind = .intent ∧ x.intentId = id ∧ intentFromPayload x.intentId x.payload = .ok i := fun hv => by
      obtain ⟨x, hx, hrest⟩ := ih hv
      exact ⟨x, List.mem_append_left _ hx, hrest⟩
    by_cases hk : e.kind = .intent
    · rw [view_snoc] at h
      by_cases hid : e.intentId = id
      · rw [if_pos hid, View.push, if_pos hk] at h
        refine ⟨e, by simp, hk, hid, ?_⟩
        cases hp : intentFromPayload e.intentId e.payload with
        | error err => simp [hp, Except.toOption] at h
        | ok a =>
          rw [hp] at h
          exact congrArg Except.ok (Option.some.inj h)
      · rw [if_neg hid] at h
        exact hearlier h
    · rw [view_intent_snoc hk] at h
      exact hearlier h

theorem isEntryRecord_intent {kinds : List JournalEventKind} {e : JournalEvent} (hp : e.payload = intentToPayload i) :
    isEntryRecord kinds d e = true ↔ e.kind ∈ kinds ∧ i.tradingDate = d ∧ i.phase = .entry := by
  have hphase : i.phase.value = OrderPhase.entry.value ↔ i.phase = .entry := by cases i.phase <;> decide
  simp [isEntryRecord, hp, intentToPayload, List.lookup, hphase, and_assoc]

/-- An entry comes of a record that says so. -/
theorem Recorded.entry (hj : Recorded j) (hi : (view j id).intent = some i) (hphase : i.phase = .entry) :
    ∃ e ∈ j, e.kind = .intent ∧ e.intentId = id ∧ ∀ kinds, .intent ∈ kinds → isEntryRecord kinds i.tradingDate e = true := by
  obtain ⟨e, he, hk, hid, hok⟩ := exists_intent_of_view hi
  obtain ⟨i', hid', hp, -⟩ := hj e he hk
  rw [hp, hid', intentFromPayload_intentToPayload] at hok
  cases hok
  exact ⟨e, he, hk, hid, fun kinds hmem => (isEntryRecord_intent hp).2 ⟨hk ▸ hmem, rfl, hphase⟩⟩

/-- **A day without history has no entries.** -/
theorem Recorded.no_entries (hj : Recorded j) (h : hasEntryHistory j d = false) : entriesOf (statesOf j) d = [] := by
  rw [List.eq_nil_iff_forall_not_mem]
  intro i hi
  obtain ⟨hview, hphase, rfl⟩ := mem_entriesOf.1 hi
  obtain ⟨e, he, -, -, hrec⟩ := hj.entry hview hphase
  rw [hasEntryHistory, List.any_eq_false] at h
  exact h e he (hrec _ (by simp))

theorem Recorded.mem_stored (hj : Recorded j) :
    i ∈ storedEntryIntents j (statesOf j) d ↔ i ∈ entriesOf (statesOf j) d := by
  unfold storedEntryIntents
  rw [mem_entriesOf, List.mem_filterMap]
  constructor
  · rintro ⟨id, hid, hbind⟩
    obtain ⟨e, he, rfl⟩ := mem_idsOf.1 hid
    obtain ⟨he, hrec⟩ := List.mem_filter.1 he
    have hk : e.kind = .intent := by
      simp only [isEntryRecord, Bool.and_eq_true, List.contains_iff_mem, List.mem_singleton] at hrec
      exact hrec.1.1
    obtain ⟨i', hid', hp, hview⟩ := hj e he hk
    rw [statesOf_lookup, if_pos (mem_idsOf.2 ⟨e, he, rfl⟩), hid'] at hbind
    have heq : i' = i := Option.some.inj (hview.symm.trans hbind)
    subst heq
    obtain ⟨-, hdate, hphase⟩ := (isEntryRecord_intent hp).1 hrec
    exact ⟨hview, hphase, hdate⟩
  · rintro ⟨hi, hphase, rfl⟩
    obtain ⟨e, he, -, hid, hrec⟩ := hj.entry hi hphase
    refine ⟨i.intentId, mem_idsOf.2 ⟨e, List.mem_filter.2 ⟨he, hrec _ (by simp)⟩, hid⟩, ?_⟩
    rw [statesOf_lookup, if_pos (mem_idsOf_of_intent hi)]
    exact hi

theorem Recorded.stored_perm (hj : Recorded j) :
    (storedEntryIntents j (statesOf j) d).Perm (entriesOf (statesOf j) d) := by
  refine (List.perm_ext_iff_of_nodup ?_ (entriesOf_nodup j d)).2 (fun i => hj.mem_stored)
  refine List.Nodup.filterMap (fun x y i hx hy => ?_) (idsOf_nodup _)
  rw [statesOf_lookup] at hx hy
  split_ifs at hx hy <;> simp at hx hy
  exact (view_intentId hx).symm.trans (view_intentId hy)

end recorded

/-! ## One entry run -/

/-- A run of the entries that has the decision: what it is called with. -/
structure EntryRun where
  g : OrderGateway
  tradingDate : String
  env : String
  clock : EntryClock
  reads : EntryReads
  picks : List DecisionPick
  readyAt : Int

namespace EntryRun

/-- What the run does under the lock. -/
def prog (r : EntryRun) : Gw (EntryReport ⊕ EntryDone) :=
  r.g.entryLocked r.tradingDate r.env r.clock r.reads r.picks r.readyAt

/-- The capital of a run that read this cash. -/
def capital (r : EntryRun) (cash : Int) : Int := min r.g.limits.seedCapitalKrw cash

/-- What the run may plan: skips while HALT is there, else what its capital buys. -/
inductive Plans (r : EntryRun) : List OrderIntent → List PlannedSkip → Prop
  | halted (skips : List PlannedSkip) : Plans r [] skips
  | sized (top : DecisionPick) (rest : List DecisionPick) (cash : Int) (intents : List OrderIntent)
      (skips : List PlannedSkip) (hpicks : r.picks = top :: rest)
      (hcash : r.reads.orderableCash top.symbol top.close = .ok cash)
      (hplan : entryPlan r.reads r.tradingDate (r.capital cash) r.g.limits.maxNotionalPerOrderKrw r.picks =
        .ok (intents, skips)) : Plans r intents skips

/-- A run after its plan, which it made where the day had no history. -/
def Planned (r : EntryRun) (w₀ : World) (intents : List OrderIntent) (skips : List PlannedSkip) (x : World) : Prop :=
  ∃ w₁ w₂, Tended w₀ w₁ ∧ hasEntryHistory w₁.journal r.tradingDate = false ∧
    Reach (under anything) (r.g.plan intents skips) w₁ w₂ ∧ Tended w₂ x

/-- A run after a plan that came to its end. -/
def Placed (r : EntryRun) (w₀ : World) (intents : List OrderIntent) (skips : List PlannedSkip) (x : World) : Prop :=
  ∃ w₁ w₂, Tended w₀ w₁ ∧ hasEntryHistory w₁.journal r.tradingDate = false ∧
    Ends (under anything) (r.g.plan intents skips) w₁ (.ok ()) w₂ ∧ Tended w₂ x

/-- A run, cut anywhere. -/
def Entered (r : EntryRun) (w₀ x : World) : Prop :=
  Tended w₀ x ∨ ∃ intents skips, r.Plans intents skips ∧ r.Planned w₀ intents skips x

end EntryRun

/-- The report of a run that sent the stored entries. -/
def StoredReport (g : OrderGateway) (d env : String) (clock : EntryClock) (w x : World) (report : EntryReport) : Prop :=
  ∃ done counted events, report = entryReport d env g.runId clock done (statesOf x.journal) counted events ∧
    done.intentIds = (storedEntryIntents w.journal (statesOf w.journal) d).map (·.intentId) ∧
    done.nPicks = done.intentIds.length + done.nSkipped

/-- What a run under the lock comes to. -/
inductive EntryRun.Comes (r : EntryRun) (w₀ x : World) : EntryReport ⊕ EntryDone → Prop
  | failed (report : EntryReport) (hfail : report.outcome ≠ "OK") : Comes r w₀ x (.inl report)
  | stored (w : World) (report : EntryReport) (hw : Tended w₀ w) (hx : Tended w x)
      (hreport : StoredReport r.g r.tradingDate r.env r.clock w x report) : Comes r w₀ x (.inl report)
  | planned (intents : List OrderIntent) (skips : List PlannedSkip) (done : EntryDone) (hplans : r.Plans intents skips)
      (hplaced : r.Placed w₀ intents skips x)
      (hholds : Holds r.reads.terms r.tradingDate done.capital r.g.limits.maxNotionalPerOrderKrw r.picks.length intents skips)
      (hids : done.intentIds = intents.map (·.intentId)) (hskips : done.nSkipped = skips.length)
      (hn : done.nPicks = r.picks.length) : Comes r w₀ x (.inr done)

section run

variable {g : OrderGateway} {d env : String} {clock : EntryClock} {done : EntryDone} {w w₀ x y : World} {I : World → Prop}
  {r : EntryRun} {intents : List OrderIntent} {skips : List PlannedSkip}

theorem EntryRun.Placed.tended (h : r.Placed w₀ intents skips x) (hy : Tended x y) : r.Placed w₀ intents skips y := by
  obtain ⟨w₁, w₂, h₁, hnone, hends, hx⟩ := h
  exact ⟨w₁, w₂, h₁, hnone, hends, hx.trans hy⟩

theorem EntryRun.Placed.planned (h : r.Placed w₀ intents skips x) : r.Planned w₀ intents skips x := by
  obtain ⟨w₁, w₂, h₁, hnone, hends, hx⟩ := h
  exact ⟨w₁, w₂, h₁, hnone, hends.reach, hx⟩

theorem tends_now : Tends nowFn := tends_perform _ (fun w _ _ h => ⟨w.halted, h⟩)

theorem tends_postSendReconcile : Tends (g.postSendReconcile d) := by
  refine (tends_reconcile d false).attempt (fun o => ?_)
  split
  · exact tends_ret _
  · exact tends_ret _
  · exact tends_raise _

theorem keeps_load {R : Rules} (h : I w) :
    keeps (under R) I loadEvents (fun events w' => w' = w ∧ events = w.journal) w := by
  rintro j w' ⟨⟨rfl, rfl⟩, -⟩
  exact ⟨h, Prog.keeps_ofExcept h (fun events hok => ⟨rfl, (load_eq_ok.1 hok).2⟩)⟩

theorem keeps_finishEntryReport (h : I w) : keeps (under anything) I (g.finishEntryReport d env clock done)
    (fun report x => x = w ∧ ∃ counted events,
      report = entryReport d env g.runId clock done (statesOf w.journal) counted events) w := by
  refine Prog.keeps_bind (keeps_readStates h) (fun sts w' _ hsts => ?_)
  obtain ⟨rfl, hsts⟩ := hsts
  obtain ⟨-, rfl⟩ := states_eq_ok.1 hsts
  refine Prog.keeps_bind (keeps_readStates h) (fun counted w' _ hcounted => ?_)
  obtain ⟨rfl, -⟩ := hcounted
  refine Prog.keeps_bind (keeps_loadEvents h) (fun events w' _ heq => ?_)
  subst heq
  exact Prog.keeps_ret h ⟨rfl, counted, events, rfl⟩

/-- **A run that finds entries plans nothing**, and reports on those it found. -/
theorem keeps_submitStoredEntry (hI : ∀ y, Tended w y → I y) :
    keeps (under anything) I (g.submitStoredEntry d env clock)
      (fun report x => Tended w x ∧ StoredReport g d env clock w x report) w := by
  refine Prog.keeps_bind (keeps_load (hI _ .refl)) (fun events w' _ heq => ?_)
  obtain ⟨rfl, rfl⟩ := heq
  refine Prog.keeps_bind (keeps_readStates (hI _ .refl)) (fun sts w' _ hsts => ?_)
  obtain ⟨rfl, hsts⟩ := hsts
  obtain ⟨-, rfl⟩ := states_eq_ok.1 hsts
  dsimp only
  generalize hstored : storedEntryIntents w'.journal (statesOf w'.journal) d = stored
  refine Prog.keeps_bind (tends_now.keeps hI) (fun readyAt w₁ _ h₁ => ?_)
  refine Prog.keeps_bind (tends_now.keeps (fun z hz => hI z (h₁.trans hz))) (fun tFirst w₂ _ h₂ => ?_)
  refine Prog.keeps_bind ((tends_submitEach _ _).keeps (fun z hz => hI z ((h₁.trans h₂).trans hz))) (fun _ w₃ _ h₃ => ?_)
  have h₃ : Tended w' w₃ := (h₁.trans h₂).trans h₃
  refine Prog.keeps_bind (tends_now.keeps (fun z hz => hI z (h₃.trans hz))) (fun tLast w₄ _ h₄ => ?_)
  have hpost : Tends (if stored.isEmpty then pure none else g.postSendReconcile d : Gw (Option String)) := by
    split_ifs
    · exact tends_ret _
    · exact tends_postSendReconcile
  refine Prog.keeps_bind (hpost.keeps (fun z hz => hI z ((h₃.trans h₄).trans hz))) (fun postSend w₅ _ h₅ => ?_)
  have h₅ : Tended w' w₅ := (h₃.trans h₄).trans h₅
  refine Prog.keeps_bind (keeps_readStates (hI _ h₅)) (fun sts w₆ _ hsts => ?_)
  obtain ⟨rfl, -⟩ := hsts
  refine Prog.keeps_bind (keeps_loadEvents (hI _ h₅)) (fun events w₇ _ heq => ?_)
  subst heq
  refine Prog.keeps_mono (keeps_finishEntryReport (hI _ h₅)) (fun report x _ hr => ?_)
  obtain ⟨rfl, counted, events', rfl⟩ := hr
  exact ⟨h₅, _, counted, events', rfl, by rw [hstored], by simp⟩

/-- What a run does before the decision. -/
theorem keeps_entryOpening (hI : ∀ y, Tended w y → I y) :
    keeps (under anything) I (g.entryOpening d env clock)
      (fun o x => Tended w x ∧ ∀ report, o = some report → report.outcome = "OK" → StoredReport g d env clock w x report) w := by
  have hearly : ∀ outcome reason, outcome ≠ "OK" → ∀ y, Tended w y → keeps (under anything) I
      (Prog.ret (some (OrderGateway.earlyEntry d env outcome reason none)) : Gw (Option EntryReport))
      (fun o x => Tended w x ∧ ∀ report, o = some report → report.outcome = "OK" → StoredReport g d env clock w x report) y := by
    intro outcome reason hne y hy
    refine Prog.keeps_ret (hI y hy) ⟨hy, fun report hr hok => ?_⟩
    cases hr
    exact absurd hok hne
  rintro now w' ⟨rfl, -⟩
  refine ⟨hI _ .refl, ?_⟩
  simp only [Prog.ret_bind]
  split_ifs
  · exact hearly _ _ (by decide) _ .refl
  · exact hearly _ _ (by decide) _ .refl
  · refine Prog.keeps_bind (keeps_load (hI _ .refl)) (fun events w' _ heq => ?_)
    obtain ⟨rfl, rfl⟩ := heq
    split_ifs
    · refine Prog.keeps_bind (keeps_submitStoredEntry hI) (fun report x hx hr => ?_)
      refine Prog.keeps_ret hx ⟨hr.1, fun report' heq _ => ?_⟩
      cases heq
      exact hr.2
    · exact Prog.keeps_ret (hI _ .refl) ⟨.refl, fun report hr => by cases hr⟩

theorem tends_entryOpening : Tends (g.entryOpening d env clock) := by
  intro w₀ w hw
  exact Prog.keeps_mono (keeps_entryOpening (fun y hy => hw.trans hy)) (fun _ _ _ _ => trivial)

/-- A report that no entry was ordered. -/
theorem entryReport_none {runId : String} {sts counted : Dict IntentState} {events : List JournalEvent}
    (h : done.intentIds = []) : (entryReport d env runId clock done sts counted events).outcome ≠ "OK" := by
  simp [entryReport, h]

/-- A plan, cut anywhere, and what follows it. -/
theorem EntryRun.keeps_planned {α : Type} {rest : Gw α} {φ : α → World → Prop} (hw : Tended w₀ w)
    (hnone : hasEntryHistory w.journal r.tradingDate = false) (hplans : r.Plans intents skips)
    (hrest : ∀ y, r.Placed w₀ intents skips y → keeps (under anything) (r.Planned w₀ intents skips) rest φ y) :
    keeps (under anything) (r.Entered w₀) (r.g.plan intents skips >>= fun _ => rest) φ w := by
  have hplan : keeps (under anything) (r.Planned w₀ intents skips) (r.g.plan intents skips)
      (fun _ y => r.Placed w₀ intents skips y) w :=
    Prog.keeps_of_ends (fun w₂ hr => ⟨w, w₂, hw, hnone, hr, .refl⟩) (fun _ w₂ hends => ⟨w, w₂, hw, hnone, hends, .refl⟩)
  refine Prog.keeps_mono (Prog.keeps_weaken (Prog.keeps_bind hplan (fun _ y _ hy => hrest y hy)) ?_) ?_
  · exact fun y hy => .inr ⟨intents, skips, hplans, hy⟩
  · exact fun a x _ ha => ha.2

/-- **One run under the lock**, cut anywhere, plans at most once and only where the day has no history. -/
theorem EntryRun.keeps_prog (r : EntryRun) (w : World) :
    keeps (under anything) (r.Entered w) r.prog (fun o x => r.Comes w x o) w := by
  have hstart : r.Entered w w := .inl .refl
  refine Prog.keeps_bind (keeps_load hstart) (fun events w' _ heq => ?_)
  obtain ⟨rfl, rfl⟩ := heq
  by_cases hhist : hasEntryHistory w'.journal r.tradingDate = true
  · rw [if_pos hhist]
    refine Prog.keeps_bind (keeps_submitStoredEntry (fun y hy => .inl hy)) (fun report x hx hr => ?_)
    exact Prog.keeps_ret hx (.stored w' report .refl hr.1 hr.2)
  rw [if_neg hhist]
  rw [Bool.not_eq_true] at hhist
  rintro halted w' ⟨⟨rfl, rfl⟩, -⟩
  refine ⟨hstart, ?_⟩
  simp only [Prog.ret_bind]
  split_ifs
  · refine EntryRun.keeps_planned .refl hhist (.halted _) (fun y hy => ?_)
    refine Prog.keeps_bind (tends_now.keeps (fun z hz => (hy.tended hz).planned)) (fun moment y₁ hy₁ _ => ?_)
    refine Prog.keeps_bind (keeps_finishEntryReport hy₁) (fun report x hx hr => ?_)
    obtain ⟨rfl, counted, events, rfl⟩ := hr
    exact Prog.keeps_ret hx (.failed _ (entryReport_none rfl))
  · have hfailed : ∀ {y} (reason : String) (n : Option Nat), Tended w' y →
        keeps (under anything) (r.Entered w')
          (Prog.ret (.inl (OrderGateway.earlyEntry r.tradingDate r.env "DEGRADED" reason n)) : Gw (EntryReport ⊕ EntryDone))
          (fun o x => r.Comes w' x o) y :=
      fun _ _ hy => Prog.keeps_ret (.inl hy) (.failed _ (by simp [OrderGateway.earlyEntry]))
    rintro token w₁ ⟨⟨hd, rfl⟩, -⟩
    have hw₁ : Tended w' { w' with halted := hd } := tended_enter w' w'.sendsMade hd
    refine ⟨.inl hw₁, ?_⟩
    simp only [Prog.ret_bind]
    split
    · exact hfailed _ _ hw₁
    · exact Prog.keeps_raise (.inl hw₁)
    · cases hpicks : r.picks with
      | nil => exact Prog.keeps_raise (.inl hw₁)
      | cons top rest =>
        dsimp only
        split
        · exact hfailed _ _ hw₁
        · exact Prog.keeps_raise (.inl hw₁)
        · rename_i cash hcash
          have hofExcept : keeps (under anything) (r.Entered w')
              (Prog.ofExcept (entryPlan r.reads r.tradingDate (r.capital cash) r.g.limits.maxNotionalPerOrderKrw (top :: rest)))
              (fun a x => x = { w' with halted := hd } ∧ entryPlan r.reads r.tradingDate (r.capital cash)
                r.g.limits.maxNotionalPerOrderKrw (top :: rest) = .ok a) { w' with halted := hd } :=
            Prog.keeps_ofExcept (.inl hw₁) (fun a ha => ⟨rfl, ha⟩)
          refine Prog.keeps_bind hofExcept (fun a y _ ha => ?_)
          obtain ⟨intents, skips⟩ := a
          obtain ⟨rfl, hplan⟩ := ha
          have hplans : r.Plans intents skips := .sized top rest cash intents skips hpicks hcash (hpicks ▸ hplan)
          refine EntryRun.keeps_planned hw₁ hhist hplans (fun y hy => ?_)
          refine Prog.keeps_bind (tends_now.keeps (fun z hz => (hy.tended hz).planned)) (fun tFirst y₁ _ h₁ => ?_)
          have hy₁ := hy.tended h₁
          refine Prog.keeps_bind ((tends_submitEach _ _).keeps (fun z hz => (hy₁.tended hz).planned)) (fun _ y₂ _ h₂ => ?_)
          have hy₂ := hy₁.tended h₂
          refine Prog.keeps_bind (tends_now.keeps (fun z hz => (hy₂.tended hz).planned)) (fun tLast y₃ _ h₃ => ?_)
          have hy₃ := hy₂.tended h₃
          refine Prog.keeps_bind (tends_postSendReconcile.keeps (fun z hz => (hy₃.tended hz).planned))
            (fun post y₄ _ h₄ => ?_)
          have hy₄ := hy₃.tended h₄
          refine Prog.keeps_ret hy₄.planned (.planned intents skips _ hplans hy₄ ?_ rfl rfl ?_)
          · rw [hpicks]
            exact entryPlan_holds hplan
          · rw [hpicks]

end run

end Order
