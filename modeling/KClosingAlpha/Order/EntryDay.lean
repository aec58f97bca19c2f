import Mathlib
import KClosingAlpha.Order.EntryRuns
/-!
# EntryDay — a day's entries come from one plan

Entry runs look for the day's history and plan under one lock.  So whatever runs are cut, repeated and mixed with
others, the entries on record are of one plan, and a report of OK speaks of all of them.
-/
namespace Order

open Py (Dict)
open Prog (Reach Ends keeps)

/-! ## The desk with its entry runs -/

/-- What is done on the desk at a time, possibly cut: an operation that plans nothing, or a part of an exit or entry
run.  `A` says which entry runs there are. -/
inductive TradeStep (A : EntryRun → Prop) (w x : World) : Prop
  | call (g : OrderGateway) (c : Call) (n : Nat) (hd : Bool) (hc : c.isPlan = false)
      (h : Reach (under anything) (c.prog g) (w.enter n hd) x)
  | exitOpening (g : OrderGateway) (d env : String) (clock : ExitClock) (n : Nat) (hd : Bool)
      (h : Reach (under anything) (g.exitOpening d env clock) (w.enter n hd) x)
  | exitRun (g : OrderGateway) (d env : String) (clock : ExitClock) (carried : Option Nat) (n : Nat) (hd : Bool)
      (h : Reach (under anything) (g.exitLocked d env clock carried) (w.enter n hd) x)
  | entryOpening (g : OrderGateway) (d env : String) (clock : EntryClock) (n : Nat) (hd : Bool)
      (h : Reach (under anything) (g.entryOpening d env clock) (w.enter n hd) x)
  | entryRun (r : EntryRun) (hr : A r) (n : Nat) (hd : Bool) (h : Reach (under anything) r.prog (w.enter n hd) x)

/-- **The desk at work**, with any broker, clock, HALT file and crashes. -/
abbrev Trading (A : EntryRun → Prop) : World → World → Prop := Relation.ReflTransGen (TradeStep A)

/-- Where a plan comes from. -/
inductive Source (A : EntryRun → Prop) (w : World) (intents : List OrderIntent) : Prop
  | exits (d : String) (lots : List OpenLot) (hplan : DayPlan d w.journal lots intents)
  | entries (r : EntryRun) (skips : List PlannedSkip) (hr : A r)
      (hnone : hasEntryHistory w.journal r.tradingDate = false) (hplans : r.Plans intents skips)

section desk

variable {A : EntryRun → Prop} {w x y : World} {id d : String} {i : OrderIntent}

theorem TradeStep.cases (h : TradeStep A w x) : Tended w x ∨ ∃ g intents skips w₁ w₂, Tended w w₁ ∧
    Reach (under anything) (OrderGateway.plan g intents skips) w₁ w₂ ∧ Tended w₂ x ∧ Source A w₁ intents := by
  cases h with
  | call g c n hd hc h => exact .inl ((tended_enter w n hd).trans (tended_call hc h))
  | exitOpening g d env clock n hd h =>
    exact .inl (Prog.keeps_reach (tends_exitOpening w _ (tended_enter w n hd)) (tended_enter w n hd) h)
  | exitRun g d env clock carried n hd h =>
    rcases Prog.keeps_reach (keeps_exitLocked carried _) (.inl .refl) h with ht | ⟨lots, intents, hplanned⟩
    · exact .inl ((tended_enter w n hd).trans ht)
    · obtain ⟨g, skips, w₁, w₂, h₁, hp, hr, hx⟩ := hplanned
      exact .inr ⟨g, intents, skips, w₁, w₂, (tended_enter w n hd).trans h₁, hr, hx, .exits d lots hp⟩
  | entryOpening g d env clock n hd h =>
    exact .inl (Prog.keeps_reach (tends_entryOpening w _ (tended_enter w n hd)) (tended_enter w n hd) h)
  | entryRun r hr n hd h =>
    rcases Prog.keeps_reach (r.keeps_prog _) (.inl .refl) h with ht | ⟨intents, skips, hplans, hplanned⟩
    · exact .inl ((tended_enter w n hd).trans ht)
    · obtain ⟨w₁, w₂, h₁, hnone, hreach, hx⟩ := hplanned
      exact .inr ⟨r.g, intents, skips, w₁, w₂, (tended_enter w n hd).trans h₁, hreach, hx, .entries r skips hr hnone hplans⟩

theorem TradeStep.free (h : TradeStep A w x) : FreeSession w x := by
  rcases h.cases with ht | ⟨g, intents, skips, w₁, w₂, h₁, hr, hx, -⟩
  · exact ht.free
  · exact h₁.free.trans ((called_plan hr).trans hx.free)

theorem trade_free (h : Trading A w x) : FreeSession w x := by
  induction h with
  | refl => exact .refl
  | tail _ hs ih => exact ih.trans hs.free

/-- **An intent of a step** was there, or is of a plan made on the way. -/
theorem TradeStep.intent (h : TradeStep A w x) (hi : (view x.journal id).intent = some i) :
    (view w.journal id).intent = some i ∨
      ∃ intents w₁, Tended w w₁ ∧ Source A w₁ intents ∧ i ∈ intents := by
  rcases h.cases with ht | ⟨g, intents, skips, w₁, w₂, h₁, hr, hx, hsource⟩
  · exact .inl ((tended_intent ht id).symm.trans hi)
  · rw [tended_intent hx id] at hi
    rcases plan_intent hr hi with hold | hnew
    · exact .inl ((tended_intent h₁ id).symm.trans hold)
    · exact .inr ⟨intents, w₁, h₁, hsource, hnew⟩

theorem EntryRun.Plans.holds {r : EntryRun} {intents : List OrderIntent} {skips : List PlannedSkip} (h : r.Plans intents skips) :
    intents = [] ∨ ∃ top rest cash, r.picks = top :: rest ∧ r.reads.orderableCash top.symbol top.close = .ok cash ∧
      Holds r.reads.terms r.tradingDate (r.capital cash) r.g.limits.maxNotionalPerOrderKrw r.picks.length intents skips := by
  cases h with
  | halted => exact .inl rfl
  | sized top rest cash _ _ hpicks hcash hplan => exact .inr ⟨top, rest, cash, hpicks, hcash, entryPlan_holds hplan⟩

theorem Source.cases {intents : List OrderIntent} (h : Source A w intents) (hi : i ∈ intents) :
    (i.phase = .exit ∧ i.intentId = exitIntentId (i.parentIntentId.getD "") i.tradingDate) ∨
      (i.phase = .entry ∧ i.intentId = entryIntentId i.tradingDate i.symbol ∧
        hasEntryHistory w.journal i.tradingDate = false ∧
        ∃ r skips, A r ∧ r.tradingDate = i.tradingDate ∧ r.Plans intents skips) := by
  cases h with
  | exits d lots hplan =>
    obtain ⟨hexit, hdate, l, -, hid, hparent, -⟩ := hplan.within i hi
    exact .inl ⟨hexit, by rw [hid, hparent, hdate, Option.getD_some]⟩
  | entries r skips hr hnone hplans =>
    rcases hplans.holds with rfl | ⟨top, rest, cash, -, -, hholds⟩
    · cases hi
    · have hdate := hholds.date i hi
      exact .inr ⟨hholds.phase i hi, hholds.id i hi, hdate ▸ hnone, r, skips, hr, hdate.symm, hplans⟩

/-- Every id says what it is of. -/
theorem trade_named (h : Trading A World.empty w) (hi : (view w.journal id).intent = some i) :
    (i.phase = .exit ∧ id = exitIntentId (i.parentIntentId.getD "") i.tradingDate) ∨
      (i.phase = .entry ∧ id = entryIntentId i.tradingDate i.symbol) := by
  induction h with
  | refl => cases hi
  | tail _ hs ih =>
    rcases hs.intent hi with hold | ⟨intents, w₁, -, hsource, hmem⟩
    · exact ih hold
    · obtain rfl := view_intentId hi
      rcases hsource.cases hmem with hexit | ⟨hentry, hid, -⟩
      · exact .inl hexit
      · exact .inr ⟨hentry, hid⟩

/-- The entries of a date are of one plan. -/
def OnePlan (A : EntryRun → Prop) (d : String) (j : Journal) : Prop :=
  entriesOf (statesOf j) d = [] ∨ ∃ r intents skips, A r ∧ r.tradingDate = d ∧ r.Plans intents skips ∧
    ∀ i ∈ entriesOf (statesOf j) d, i ∈ intents

theorem OnePlan.of_subset {j j' : Journal} (h : OnePlan A d j)
    (hsub : ∀ i ∈ entriesOf (statesOf j') d, i ∈ entriesOf (statesOf j) d) : OnePlan A d j' := by
  rcases h with hnone | ⟨r, intents, skips, hA, hdate, hplans, hall⟩
  · refine .inl (List.eq_nil_iff_forall_not_mem.2 (fun i hi => ?_))
    have hmem := hsub i hi
    rw [hnone] at hmem
    cases hmem
  · exact .inr ⟨r, intents, skips, hA, hdate, hplans, fun i hi => hall i (hsub i hi)⟩

/-- The entries of a date that a step adds are of a plan made where there were none. -/
theorem TradeStep.entries (hs : TradeStep A w x) (hpast : Trading A World.empty w) (d : String) :
    (∀ i ∈ entriesOf (statesOf x.journal) d, i ∈ entriesOf (statesOf w.journal) d) ∨
      entriesOf (statesOf w.journal) d = [] ∧ ∃ r intents skips, A r ∧ r.tradingDate = d ∧ r.Plans intents skips ∧
        ∀ i ∈ entriesOf (statesOf x.journal) d, i ∈ intents := by
  rcases hs.cases with ht | ⟨g, intents, skips, w₁, w₂, h₁, hr, h₂, hsource⟩
  · refine .inl (fun i hi => ?_)
    rw [mem_entriesOf, ← tended_intent ht, ← mem_entriesOf]
    exact hi
  · have hsame : ∀ i, i ∈ entriesOf (statesOf w₁.journal) d ↔ i ∈ entriesOf (statesOf w.journal) d := fun i => by
      rw [mem_entriesOf, mem_entriesOf, tended_intent h₁]
    have hnew : ∀ i ∈ entriesOf (statesOf x.journal) d, i ∈ entriesOf (statesOf w.journal) d ∨ i ∈ intents := by
      intro i hi
      obtain ⟨hview, hphase, hdate⟩ := mem_entriesOf.1 hi
      rw [tended_intent h₂] at hview
      rcases plan_intent hr hview with hold | hmem
      · exact .inl ((hsame i).1 (mem_entriesOf.2 ⟨hold, hphase, hdate⟩))
      · exact .inr hmem
    by_cases hany : ∃ i ∈ intents, i.phase = .entry ∧ i.tradingDate = d
    · -- the plan is of this day, which had no history
      obtain ⟨i, hi, hphase, rfl⟩ := hany
      rcases hsource.cases hi with ⟨hexit, -⟩ | ⟨-, -, hnone, r, skips, hA, hdate, hplans⟩
      · rw [hphase] at hexit
        cases hexit
      · have hrec : Recorded w₁.journal := session_recorded_intents ((trade_free hpast).trans h₁.free)
        have hempty : entriesOf (statesOf w.journal) i.tradingDate = [] := by
          refine List.eq_nil_iff_forall_not_mem.2 (fun y hy => ?_)
          rw [← hsame, hrec.no_entries hnone] at hy
          cases hy
        refine .inr ⟨hempty, r, intents, skips, hA, hdate, hplans, fun y hy => ?_⟩
        rcases hnew y hy with hold | hmem
        · rw [hempty] at hold
          cases hold
        · exact hmem
    · refine .inl (fun i hi => ?_)
      rcases hnew i hi with hold | hmem
      · exact hold
      · exact absurd ⟨i, hmem, (mem_entriesOf.1 hi).2⟩ hany

/-- **A day's entries come from one plan**, whatever is cut, repeated or done in between. -/
theorem trade_onePlan (h : Trading A World.empty w) (d : String) : OnePlan A d w.journal := by
  induction h with
  | refl => exact .inl rfl
  | @tail w₁ w₂ hpast hs ih =>
    rcases hs.entries hpast d with hsub | ⟨-, hplan⟩
    · exact ih.of_subset hsub
    · exact .inr hplan

/-- **A day that has entries gets no more.** -/
theorem trade_entries_fixed (h₀ : Trading A World.empty w) (h : Trading A w x)
    (hne : entriesOf (statesOf w.journal) d ≠ []) :
    ∀ i, i ∈ entriesOf (statesOf x.journal) d ↔ i ∈ entriesOf (statesOf w.journal) d := by
  induction h with
  | refl => exact fun i => Iff.rfl
  | @tail w₁ w₂ hpast hs ih =>
    have ht := session_timely (trade_free (h₀.trans hpast))
    have hkept : ∀ i ∈ entriesOf (statesOf w₁.journal) d, i ∈ entriesOf (statesOf w₂.journal) d := fun i hi => by
      obtain ⟨hview, hentry⟩ := mem_entriesOf.1 hi
      rw [mem_entriesOf, session_intent ht hs.free (mem_idsOf_of_intent hview)]
      exact ⟨hview, hentry⟩
    rcases hs.entries (h₀.trans hpast) d with hsub | ⟨hnone, -⟩
    · exact fun i => ⟨fun hi => (ih i).1 (hsub i hi), fun hi => hkept i ((ih i).2 hi)⟩
    · obtain ⟨i, hi⟩ := List.exists_mem_of_ne_nil _ hne
      rw [← ih, hnone] at hi
      cases hi

/-! ## The capital of a day -/

theorem sum_le_of_subset {α : Type} {f : α → Int} {l l' : List α} (hnd : l.Nodup) (hsub : ∀ a ∈ l, a ∈ l')
    (hf : ∀ a ∈ l', 0 ≤ f a) : (l.map f).sum ≤ (l'.map f).sum := by
  obtain ⟨k, hperm, hk⟩ := hnd.subperm hsub
  rw [← (hperm.map f).sum_eq]
  refine (hk.map f).sum_le_sum (fun x hx => ?_)
  obtain ⟨a, ha, rfl⟩ := List.mem_map.1 hx
  exact hf a ha

/-- Every POST is of the one intent of its id. -/
theorem session_posts_recorded (h : FreeSession World.empty w) :
    ∀ p ∈ w.posts, (view w.journal p.intent.intentId).intent = some p.intent := by
  refine (session_invariant (I := fun x => ∀ p ∈ x.posts, (view x.journal p.intent.intentId).intent = some p.intent)
    (fun _ _ _ h => h) (fun g c start x y _ hI hs => ?_) timely_empty (fun p hp => by cases hp) h).1
  cases hs with
  | quiet y hj hp hh =>
    rw [hj, hp]
    exact hI
  | wrote e happ hs hw =>
    intro p hp
    have hold := hI p hp
    rw [World.wrote_journal]
    by_cases hk : e.kind = .intent
    · have hne : e.intentId ≠ p.intent.intentId := fun heq => hw.intent_new hk (heq ▸ mem_idsOf_of_intent hold)
      rw [view_snoc, if_neg hne, hold]
    · rw [view_intent_snoc hk, hold]
  | posted i hd s hlast hk hid hi hst hnew hcall =>
    intro p hp
    rcases List.mem_append.1 hp with hp | hp
    · exact hI p hp
    · rw [List.mem_singleton.1 hp]
      exact hi

/-- **A day's entries are one plan within its capital.**  Whatever entry, exit and other runs are cut, repeated and
mixed, the entries of a date on record, and with them every buy of it ever sent, are of the plan of one run: with their
fees they cost no more than the seed and the cash that run read, and each is within the order cap. -/
theorem entry_day_one_plan (h : Trading A World.empty w) (hne : entriesOf (statesOf w.journal) d ≠ []) :
    ∃ r top rest cash intents skips, A r ∧ r.tradingDate = d ∧ r.picks = top :: rest ∧
      r.reads.orderableCash top.symbol top.close = .ok cash ∧
      entryPlan r.reads d (min r.g.limits.seedCapitalKrw cash) r.g.limits.maxNotionalPerOrderKrw r.picks =
        .ok (intents, skips) ∧
      (∀ i ∈ entriesOf (statesOf w.journal) d, i ∈ intents ∧ notional i ≤ r.g.limits.maxNotionalPerOrderKrw) ∧
      ((entriesOf (statesOf w.journal) d).map (fun i => notional i + r.reads.terms.sideFeeKrw (notional i))).sum ≤
        min r.g.limits.seedCapitalKrw cash ∧
      ∀ p ∈ w.posts, p.intent.phase = .entry → p.intent.tradingDate = d →
        p.intent ∈ entriesOf (statesOf w.journal) d := by
  rcases trade_onePlan h d with hnone | ⟨r, intents, skips, hA, rfl, hplans, hsub⟩
  · exact absurd hnone hne
  cases hplans with
  | halted =>
    obtain ⟨i, hi⟩ := List.exists_mem_of_ne_nil _ hne
    cases hsub i hi
  | sized top rest cash _ _ hpicks hcash hplan =>
    have hholds := entryPlan_holds hplan
    refine ⟨r, top, rest, cash, intents, skips, hA, rfl, hpicks, hcash, hplan, fun i hi => ⟨hsub i hi, ?_⟩, ?_, ?_⟩
    · exact hholds.cap i (hsub i hi)
    · have hcost : ∀ i ∈ intents, 0 ≤ r.reads.terms.cost (notional i) := fun i hi => by
        have hmono := r.reads.terms.cost_mono (hholds.nonneg i hi)
        rwa [Terms.cost_zero] at hmono
      exact (sum_le_of_subset (entriesOf_nodup _ _) hsub hcost).trans hholds.cost
    · intro p hp hphase hdate
      exact mem_entriesOf.2 ⟨session_posts_recorded (trade_free h) p hp, hphase, hdate⟩

/-! ## What an OK says -/

/-- An id without an intent is bound to nothing and has no fills. -/
def Backed (j : Journal) : Prop :=
  ∀ id, (view j id).intent = none → (view j id).bound = false ∧ (view j id).finalPayload = none

theorem session_backed (h : FreeSession World.empty w) : Backed w.journal := by
  refine (session_invariant (I := fun x => Backed x.journal) (fun _ _ _ h => h)
    (fun g c start x y _ hI hs => ?_) timely_empty (fun id _ => ⟨rfl, rfl⟩) h).1
  cases hs with
  | quiet y hj hp hh =>
    rw [hj]
    exact hI
  | posted i hd s hlast hk hid hi hst hnew hcall => exact hI
  | wrote e happ hs hw =>
    intro id hnone
    rw [World.wrote_journal] at hnone ⊢
    by_cases hid : e.intentId = id
    · subst hid
      have hsilent : e.kind ≠ .intent → binds e = false → isFinalState e = false →
          (view (x.journal ++ [e]) e.intentId).bound = false ∧ (view (x.journal ++ [e]) e.intentId).finalPayload = none := by
        intro hk hb hf
        rw [view_intent_snoc hk] at hnone
        obtain ⟨hbound, hfinal⟩ := hI e.intentId hnone
        rw [view_snoc, if_pos rfl]
        simp [View.push, hbound, hfinal, hb, hf]
      cases hw with
      | intent i hk hid' hp hnew =>
        rw [view_snoc, if_pos rfl] at hnone
        simp [View.push, hk, hid', hp, intentFromPayload_intentToPayload, Except.toOption] at hnone
      | skip hk | refuse hk =>
        exact hsilent (by simp [hk]) (by simp [binds, isVerdict, isAdoption, hk]) (by simp [isFinalState, hk])
      | cancel hk =>
        rcases hk with hk | hk <;>
          exact hsilent (by simp [hk]) (by simp [binds, isVerdict, isAdoption, hk]) (by simp [isFinalState, hk])
      | _ =>
        rw [view_intent_snoc (by simp_all)] at hnone
        simp_all
    · rw [view_snoc, if_neg hid] at hnone ⊢
      exact hI id hnone

theorem okSend_intent {j : Journal} (hb : Backed j) (h : (stateOf j id).status.okSend = true) :
    ∃ i, (view j id).intent = some i := by
  cases hi : (view j id).intent with
  | some i => exact ⟨i, rfl⟩
  | none =>
    obtain ⟨hbound, hfinal⟩ := hb id hi
    change (view j id).status.1.okSend = true at h
    rcases (view j id).status_cases with ⟨p, hf, -⟩ | ⟨-, hb, -⟩ | ⟨-, -, -, hs⟩ | ⟨-, -, -, -, hs⟩ | hl
    · rw [hfinal] at hf
      cases hf
    · rw [hbound] at hb
      cases hb
    · rw [hs] at h
      cases h
    · rw [hs] at h
      cases h
    · rcases hl.status_mem with hs | hs | hs | hs <;> rw [hs] at h <;> cases h

theorem mem_of_allSent {j : Journal} {ids : List String} (h : allSent (statesOf j) ids = true) (hid : id ∈ ids) :
    id ∈ idsOf j ∧ (stateOf j id).status.okSend = true := by
  have hany := List.all_eq_true.1 h id hid
  rw [statesOf_lookup] at hany
  split_ifs at hany with hmem
  · exact ⟨hmem, hany⟩
  · cases hany

theorem last_of_canonical (h : isCanonicalDate d = true) : ∃ c, d.toList.getLast? = some c ∧ c.isDigit = true := by
  obtain ⟨ymd, hymd, -⟩ := (Option.any_eq_true _ _).1 h
  unfold parseDate at hymd
  split at hymd
  · rename_i heq
    split_ifs at hymd with hdigits
    rw [heq]
    refine ⟨_, rfl, List.all_eq_true.1 hdigits _ ?_⟩
    simp
  · cases hymd

/-- The id of an exit is not that of an entry. -/
theorem exitIntentId_ne_entry {p d' s : String} (h : isCanonicalDate d = true) : exitIntentId p d ≠ entryIntentId d' s := by
  intro heq
  obtain ⟨c, hc, hdigit⟩ := last_of_canonical h
  have hlist := congrArg (fun x => x.toList.getLast?) heq
  simp only [exitIntentId, entryIntentId, String.toList_append, List.getLast?_append, hc, Option.some_or] at hlist
  cases hlist
  revert hdigit
  decide

theorem entryIntentId_inj {d' s s' : String} (h : isCanonicalDate d = true) (h' : isCanonicalDate d' = true)
    (heq : entryIntentId d s = entryIntentId d' s') : d = d' ∧ s = s' := by
  have hlist := congrArg String.toList heq
  simp only [entryIntentId, String.toList_append] at hlist
  have hlen : d.toList.length = d'.toList.length := by rw [length_of_canonical h, length_of_canonical h']
  have hfront := (List.append_inj' hlist rfl).1
  rw [List.append_assoc, List.append_assoc] at hfront
  obtain ⟨hdate, hrest⟩ := List.append_inj hfront hlen
  exact ⟨String.toList_inj.1 hdate, String.toList_inj.1 (List.append_cancel_left hrest)⟩

/-- The report counts every entry of the day, and each is at the broker. -/
structure Complete (d : String) (j : Journal) (report : EntryReport) : Prop where
  sent : ∀ i ∈ entriesOf (statesOf j) d, (stateOf j i.intentId).status.okSend = true
  counted : ∃ m, report.metrics = some m ∧ m.nPicks = (entriesOf (statesOf j) d).length ∧ 0 < m.nPicks

theorem complete_of_perm {j : Journal} {env runId : String} {clock : EntryClock} {done : EntryDone}
    {counted : Dict IntentState} {events : List JournalEvent} {intents : List OrderIntent}
    (hok : (entryReport d env runId clock done (statesOf j) counted events).outcome = "OK")
    (hids : done.intentIds = intents.map (·.intentId)) (hn : done.nPicks = intents.length + done.nSkipped)
    (hperm : allSent (statesOf j) done.intentIds = true → done.nSkipped = 0 → intents ≠ [] →
      intents.Perm (entriesOf (statesOf j) d)) :
    Complete d j (entryReport d env runId clock done (statesOf j) counted events) := by
  have hwhen : 0 < done.intentIds.length ∧ done.nSkipped = 0 ∧ allSent (statesOf j) done.intentIds = true := by
    by_contra hnot
    simp [entryReport, hnot] at hok
  obtain ⟨hpos, hskips, hsent⟩ := hwhen
  rw [hids, List.length_map] at hpos
  have hp := hperm hsent hskips (List.length_pos_iff.1 hpos)
  refine ⟨fun i hi => ?_, _, rfl, ?_, ?_⟩
  · refine (mem_of_allSent hsent ?_).2
    rw [hids]
    exact List.mem_map_of_mem (hp.mem_iff.2 hi)
  · change done.nPicks = _
    rw [hn, hskips, hp.length_eq]
    rfl
  · change 0 < done.nPicks
    omega

theorem stored_complete {g : OrderGateway} {env : String} {clock : EntryClock} {report : EntryReport}
    (h : FreeSession World.empty w) (hx : Tended w x) (hreport : StoredReport g d env clock w x report)
    (hok : report.outcome = "OK") : Complete d x.journal report := by
  obtain ⟨done, counted, events, rfl, hids, hn⟩ := hreport
  refine complete_of_perm hok hids (by rw [hn, hids, List.length_map]) (fun _ _ _ => ?_)
  refine (session_recorded_intents h).stored_perm.trans ?_
  refine (List.perm_ext_iff_of_nodup (entriesOf_nodup _ _) (entriesOf_nodup _ _)).2 (fun i => ?_)
  rw [mem_entriesOf, mem_entriesOf, tended_intent hx]

/-- The intents of a plan that came to its end are the day's entries, once each has been sent. -/
theorem placed_perm {r : EntryRun} {intents : List OrderIntent} {skips : List PlannedSkip} {capital cap : Int} {n : Nat}
    {w₀ : World} (h₀ : FreeSession World.empty w₀) (hplaced : r.Placed w₀ intents skips x)
    (hholds : Holds r.reads.terms r.tradingDate capital cap n intents skips) (hx : Trading A World.empty x)
    (hy : Trading A x y) (hsent : allSent (statesOf y.journal) (intents.map (·.intentId)) = true) (hne : intents ≠ []) :
    intents.Perm (entriesOf (statesOf y.journal) r.tradingDate) := by
  obtain ⟨w₁, w₂, h₁, hnone, hends, h₂⟩ := hplaced
  have hw₁ : FreeSession World.empty w₁ := h₀.trans h₁.free
  have hw₂ : FreeSession World.empty w₂ := hw₁.trans (called_plan hends.reach)
  have hempty := (session_recorded_intents hw₁).no_entries hnone
  have hnodup : (intents.map (·.intentId)).Nodup := by
    have hid : intents.map (·.intentId) = (intents.map (·.symbol)).map (entryIntentId r.tradingDate) := by
      rw [List.map_map]
      exact List.map_congr_left (fun i hi => by rw [hholds.id i hi, hholds.date i hi]; rfl)
    rw [hid]
    refine hholds.symbols.map (fun s s' heq => ?_)
    obtain ⟨i, hi⟩ := List.exists_mem_of_ne_nil _ hne
    have hcanonical : isCanonicalDate r.tradingDate = true := hholds.date i hi ▸ i.valid_parts.2.2.1
    exact (entryIntentId_inj hcanonical hcanonical heq).2
  have hold : ∀ i : OrderIntent, (view w₁.journal i.intentId).intent = some i → i.phase = .entry →
      i.tradingDate ≠ r.tradingDate := by
    intro i hi hphase hdate
    have hmem := mem_entriesOf.2 ⟨hi, hphase, hdate⟩
    rw [hempty] at hmem
    cases hmem
  -- each intent of the plan is the day's entry of its id
  have hfound : ∀ i ∈ intents, i ∈ entriesOf (statesOf x.journal) r.tradingDate := by
    intro i hi
    obtain ⟨-, hstatus⟩ := mem_of_allSent hsent (List.mem_map_of_mem hi)
    obtain ⟨i', hview⟩ := okSend_intent (session_backed (trade_free (hx.trans hy))) hstatus
    have hrec : i.intentId ∈ idsOf w₂.journal :=
      plan_recorded hends (a := intentAct i) (List.mem_append_left _ (List.mem_map_of_mem hi))
    have hsame : (view w₂.journal i.intentId).intent = some i' := by
      rw [← session_intent (session_timely hw₂) (h₂.free.trans (trade_free hy)) hrec]
      exact hview
    have hcanonical : isCanonicalDate i.tradingDate = true := i.valid_parts.2.2.1
    rcases plan_intent hends.reach hsame with hbefore | hmem
    · -- an entry of the day before the plan
      have hid := hholds.id i hi
      rcases trade_named (hx.trans hy) hview with ⟨-, hexit⟩ | ⟨hentry, hid'⟩
      · exact absurd (hexit.symm.trans hid) (exitIntentId_ne_entry i'.valid_parts.2.2.1)
      · have hdate := (entryIntentId_inj i'.valid_parts.2.2.1 hcanonical (hid'.symm.trans hid)).1
        refine absurd (hdate.trans (hholds.date i hi)) (hold i' ?_ hentry)
        rw [view_intentId hsame]
        exact hbefore
    · have heq : i' = i := List.inj_on_of_nodup_map hnodup hmem hi (view_intentId hsame)
      rw [heq] at hsame
      rw [mem_entriesOf, tended_intent h₂]
      exact ⟨hsame, hholds.phase i hi, hholds.date i hi⟩
  have hfixed := trade_entries_fixed (d := r.tradingDate) hx hy (by
    obtain ⟨i, hi⟩ := List.exists_mem_of_ne_nil _ hne
    exact List.ne_nil_of_mem (hfound i hi))
  refine (List.perm_ext_iff_of_nodup hnodup.of_map (entriesOf_nodup _ _)).2 (fun i => ?_)
  rw [hfixed]
  refine ⟨hfound i, fun hi => ?_⟩
  obtain ⟨hview, hphase, hdate⟩ := mem_entriesOf.1 hi
  rw [tended_intent h₂] at hview
  rcases plan_intent hends.reach hview with hbefore | hmem
  · exact absurd hdate (hold i hbefore hphase)
  · exact hmem

/-- **An entry report of OK is true.**  Whatever else the desk does, where a run reports OK, on the entries it found on
record or on those it planned, with other steps between the plan and the report, every entry of the day is acknowledged
or filled, and there are as many as the picks the report counts: none was skipped. -/
theorem entry_ok_means_sent (h : Trading A World.empty w) :
    (∀ (g : OrderGateway) d env clock n hd report x,
      Ends (under anything) (g.entryOpening d env clock) (w.enter n hd) (.ok (some report)) x → report.outcome = "OK" →
        Complete d x.journal report) ∧
    (∀ r n hd report x, A r → Ends (under anything) r.prog (w.enter n hd) (.ok (.inl report)) x →
      report.outcome = "OK" → Complete r.tradingDate x.journal report) ∧
    ∀ r n hd done x y counted events, A r → Ends (under anything) r.prog (w.enter n hd) (.ok (.inr done)) x →
      Trading A x y →
      (entryReport r.tradingDate r.env r.g.runId r.clock done (statesOf y.journal) counted events).outcome = "OK" →
        Complete r.tradingDate y.journal
          (entryReport r.tradingDate r.env r.g.runId r.clock done (statesOf y.journal) counted events) := by
  have henter : ∀ n hd, FreeSession World.empty (w.enter n hd) :=
    fun n hd => (trade_free h).trans (tended_enter w n hd).free
  refine ⟨fun g d env clock n hd report x hends hok => ?_, fun r n hd report x hr hends hok => ?_, ?_⟩
  · obtain ⟨hx, hreport⟩ := (Prog.wpx_ends (keeps_entryOpening (fun _ _ => trivial) (I := fun _ => True)) hends).2 _ rfl
    exact stored_complete (henter n hd) hx (hreport report rfl hok) hok
  · have hcomes := (Prog.wpx_ends (r.keeps_prog (w.enter n hd)) hends).2 _ rfl
    cases hcomes with
    | failed _ hfail => exact absurd hok hfail
    | stored w' _ hw hx hreport => exact stored_complete ((henter n hd).trans hw.free) hx hreport hok
  · intro r n hd done x y counted events hr hends hy hok
    have hcomes := (Prog.wpx_ends (r.keeps_prog (w.enter n hd)) hends).2 _ rfl
    have hx : Trading A World.empty x := h.tail (.entryRun r hr n hd hends.reach)
    cases hcomes with
    | planned intents skips _ hplans hplaced hholds hids hskips hn =>
      refine complete_of_perm hok hids ?_ (fun hsent _ hne => ?_)
      · rw [hn, hskips, hholds.picks]
      · rw [hids] at hsent
        exact placed_perm (henter n hd) hplaced hholds hx hy hsent hne

end desk

namespace Sample

def entryReads : EntryReads :=
  { terms := Terms.exact, bufferBp := .fin 0, orderableCash := fun _ _ => .ok 900000, upperLimit := fun _ => .ok 78000
    overAllocated := fun _ => false }

def entryClock : EntryClock := { hhmmss := fun _ => "152500", dateOf := fun _ => "2025-01-02", deadline := 1 }

/-- A broker that takes every order. -/
def taking : Oracle := broker (fun n => verdict .accepted (some (toString (n + 1)))) (fun _ => false)

/-- A run with one pick, for half of the cash. -/
def entryRun : EntryRun :=
  { g := gateway, tradingDate := "2025-01-02", env := "mock", clock := entryClock, reads := entryReads
    picks := [⟨"005930", .fin (1 / 2), .fin 1, 60000⟩], readyAt := 0 }

def entered : Except OrderError (EntryReport ⊕ EntryDone) × World := taking.run entryRun.prog (World.empty.enter 0 false)

/-- What the run handed to its report. -/
def handed : Option EntryDone := entered.1.toOption.bind Sum.getRight?

theorem entered_ends : Ends (under anything) entryRun.prog (World.empty.enter 0 false) entered.1 entered.2 :=
  Prog.run_ends (fun op w => ⟨taking.effect op w, trivial⟩) _ _

theorem trading_entered : Trading (· = entryRun) World.empty entered.2 :=
  .single (.entryRun entryRun rfl 0 false entered_ends.reach)

end Sample

/-- The one run had 900000 to spend. -/
theorem entry_day_one_plan_entered : entriesOf (statesOf Sample.entered.2.journal) "2025-01-02" ≠ [] ∧
    ((entriesOf (statesOf Sample.entered.2.journal) "2025-01-02").map
      (fun i => notional i + Paper.sideFeeKrw (notional i))).sum ≤ 900000 := by
  have hne : entriesOf (statesOf Sample.entered.2.journal) "2025-01-02" ≠ [] := by decide +kernel
  obtain ⟨r, top, rest, cash, intents, skips, rfl, -, -, hcash, -, -, hsum, -⟩ :=
    entry_day_one_plan Sample.trading_entered hne
  cases hcash
  exact ⟨hne, hsum⟩

/-- What it handed over makes a report of OK. -/
theorem entry_ok_means_sent_entered : ∃ done, Sample.handed = some done ∧
    Complete "2025-01-02" Sample.entered.2.journal (entryReport "2025-01-02" "mock" "run" Sample.entryClock done
      (statesOf Sample.entered.2.journal) (statesOf Sample.entered.2.journal) Sample.entered.2.journal) := by
  have hreport : (Sample.handed.any (fun done => (entryReport "2025-01-02" "mock" "run" Sample.entryClock done
      (statesOf Sample.entered.2.journal) (statesOf Sample.entered.2.journal) Sample.entered.2.journal).outcome == "OK")) =
        true := by
    decide +kernel
  obtain ⟨done, hdone, hok⟩ := (Option.any_eq_true _ _).1 hreport
  have hhanded : Sample.entered.1 = .ok (.inr done) := by
    obtain ⟨o, ho, hright⟩ := Option.bind_eq_some_iff.1 hdone
    cases o with
    | inl report => cases hright
    | inr d =>
      cases hright
      cases hrun : Sample.entered.1 with
      | error e => simp [hrun, Except.toOption] at ho
      | ok o =>
        rw [hrun] at ho
        cases ho
        rfl
  have hends := Sample.entered_ends
  rw [hhanded] at hends
  exact ⟨done, hdone, (entry_ok_means_sent (.refl (a := World.empty))).2.2 Sample.entryRun 0 false done _ _ _ _ rfl hends .refl
    (beq_iff_eq.1 hok)⟩

end Order
