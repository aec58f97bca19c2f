import KClosingAlpha.Order.World
import KClosingAlpha.Order.Status
/-!
# Steps — what one call of any operation can do to the world

`Writes` lists, once and for all operations, the records they append and what is known where each is appended;
`called_steps` says that every call of every operation, up to any crash, is one of these steps.  The properties of
whole runs are invariants of `Step`.
-/
namespace Order

open Py (Value Dict)
open Prog (wp Exec Reach)

/-! ## The steps -/

/-- What the checks before an intent's first SEND have established. -/
def RiskOk (g : OrderGateway) (j : Journal) (i : OrderIntent) : Prop :=
  match i.side with
  | .buy => notional i ≤ g.limits.maxNotionalPerOrderKrw ∧
      notional i + othersExposure (statesOf j) i ≤ g.limits.seedCapitalKrw
  | .sell => ∃ lots, openLots j = .ok lots ∧ i.qty ≤ lotQty lots (i.parentIntentId.getD "")

/-- The numbers a journal's intents are bound to. -/
abbrev boundOf (j : Journal) : List String := boundNumbers (statesOf j)

/-- A row of a daily list the run read, the one candidate of an intent outside the bound numbers. -/
structure Matched (R : Rules) (j : Journal) (i : OrderIntent) (o : BrokerOrder) : Prop where
  read : ∃ w rows, R (.fetchDailyOrders i.tradingDate) w (.ok rows) ∧ o ∈ rows
  unbound : normalizeOrderNo o.orderNo ∉ boundOf j
  symbol : o.symbol = i.symbol
  side : o.side = i.side
  qty : o.orderQty = i.qty

/-- The clock was before the deadline, at a reading since which HALT has not changed. -/
def InTime (R : Rules) (w : World) (deadline : Int) : Prop :=
  ∃ w' t, w'.halted = w.halted ∧ R .now w' t ∧ t < deadline

/-- The records an operation `c` of a gateway writes, where `start` is the journal the operation began with. -/
inductive Writes (R : Rules) (g : OrderGateway) (c : Call) (start : Journal) (w : World) (e : JournalEvent) : Prop
  | intent (i : OrderIntent) (hk : e.kind = .intent) (hid : e.intentId = i.intentId)
      (hp : e.payload = intentToPayload i) (hnew : e.intentId ∉ idsOf w.journal)
  | skip (hk : e.kind = .skip) (hnew : e.intentId ∉ idsOf w.journal)
  | refuse (hk : e.kind = .skip) (hid : e.intentId ∈ idsOf w.journal)
      (hst : (view w.journal e.intentId).status.1.sendable = true)
  | send (i : OrderIntent) (baseline : Option (List String)) (hk : e.kind = .send)
      (hp : e.payload = sendPayload ((view w.journal e.intentId).sends + 1) baseline)
      (hi : (view w.journal e.intentId).intent = some i)
      (hst : (view w.journal e.intentId).status.1.sendable = true)
      (hrisk : (view w.journal e.intentId).sends = 0 → RiskOk g w.journal i)
      (hcall : ∃ deadline, c = .submit e.intentId deadline ∧ InTime R w deadline)
  | resend (i : OrderIntent) (hk : e.kind = .send)
      (hp : e.payload = sendPayload ((view w.journal e.intentId).sends + 1) none)
      (hi : (view w.journal e.intentId).intent = some i) (hexit : i.phase = .exit)
      (hflag : g.limits.exitResendOnAmbiguous = true) (hst : (view w.journal e.intentId).status.1 = .notFound)
      (hnf : (view w.journal e.intentId).notFound = true)
      (hop : (view w.journal e.intentId).operatorNotFound = false)
      (hlast : ∃ n, w.journal.getLast? = some n ∧ n.kind = .notFound ∧ n.intentId = e.intentId)
      (hstart : (view start e.intentId).status.1 ≠ .notFound)
      (hcall : ∃ deadline, c = .submit e.intentId deadline ∧ InTime R w deadline)
  | result (i : OrderIntent) (n : Nat) (r : Except OrderError SubmitResult) (hk : e.kind = .result)
      (hp : e.payload = resultPayload n (safeResult "submit raised" r))
      (hi : (view w.journal e.intentId).intent = some i) (hn : (view w.journal e.intentId).sends = n)
      (hlast : ∃ s b, w.journal.getLast? = some s ∧ s.kind = .send ∧ s.intentId = e.intentId ∧
        s.payload = sendPayload n b)
      (hr : ∃ w', w'.journal = w.journal ∧ R (.submitOrder i) w' r)
      (hst : (view w.journal e.intentId).status.1 = .unknown) (hres : (view w.journal e.intentId).result = none)
      (hconf : (view w.journal e.intentId).conflict = false)
  | notFound (i : OrderIntent) (hk : e.kind = .notFound) (hi : (view w.journal e.intentId).intent = some i)
      (hst : (view w.journal e.intentId).status.1 = .unknown) (hs : 0 < (view w.journal e.intentId).sends)
      (hfirst : ∀ x ∈ w.journal, x.intentId = e.intentId → x.kind ≠ .notFound)
  | adopt (i : OrderIntent) (o : BrokerOrder) (hk : e.kind = .adopt) (hp : e.payload = adoptPayload o)
      (hi : (view w.journal e.intentId).intent = some i) (hst : (view w.journal e.intentId).status.1 = .unknown)
      (hm : Matched R w.journal i o)
  | conflict (i : OrderIntent) (hk : e.kind = .resolveConflict) (hi : (view w.journal e.intentId).intent = some i)
      (hst : (view w.journal e.intentId).status.1 = .unknown)
  | operatorAdopt (i : OrderIntent) (a : ResolveArgs) (o : BrokerOrder) (hk : e.kind = .operatorResolve)
      (hp : e.payload = a.adoptPayload o) (hi : (view w.journal e.intentId).intent = some i)
      (hst : (view w.journal e.intentId).status.1 = .unknown ∨ (view w.journal e.intentId).status.1 = .notFound)
      (hm : Matched R w.journal i o) (hno : normalizeOrderNo o.orderNo = a.targetNo) (hne : a.targetNo ≠ "")
      (hval : validateOperatorPayload e.payload = .ok ()) (hcall : ∃ en, c = .resolveUnknownIntent en a e.intentId)
  | operatorNotFound (i : OrderIntent) (a : ResolveArgs) (hk : e.kind = .operatorResolve)
      (hp : e.payload = a.notFoundPayload) (hi : (view w.journal e.intentId).intent = some i)
      (hst : (view w.journal e.intentId).status.1 = .unknown) (hval : validateOperatorPayload e.payload = .ok ())
      (hcall : ∃ en, c = .resolveUnknownIntent en a e.intentId)
  | brokerState (i : OrderIntent) (o : BrokerOrder) (final : Bool) (hk : e.kind = .brokerState)
      (hp : e.payload = brokerStatePayload o final) (hi : (view w.journal e.intentId).intent = some i)
      (hno : (view w.journal e.intentId).numbers.1.isSome = true) (hfin : (view w.journal e.intentId).status.2 = false)
      (hfill : ∃ f, checkFills (some i) (view w.journal e.intentId).fills e.payload = .ok f)
  | cancel (hk : e.kind = .cancelSend ∨ e.kind = .cancelResult)
      (hst : (view w.journal e.intentId).status.1 = .acked) (hid : e.intentId ∈ idsOf w.journal)

/-- The append that wrote a record, within the rules. -/
structure Appended (R : Rules) (w : World) (e : JournalEvent) : Prop where
  appended : append w.journal e.kind e.intentId e.payload e.runId e.ts = .ok e
  tsText : Py.isBlank e.ts = false
  allowed : R (.append e.kind e.intentId e.payload e.runId) w (.ok e)

/-- One call: a record written, a POST made after its SEND, or neither. -/
inductive Step (R : Rules) (g : OrderGateway) (c : Call) (start : Journal) (w : World) : World → Prop
  | quiet (w' : World) (hj : w'.journal = w.journal) (hp : w'.posts = w.posts)
      (hh : w'.haltedSends = w.haltedSends) : Step R g c start w w'
  | wrote (e : JournalEvent) (happ : Appended R w e) (hs : Sound w.journal ∨ e.kind = .result)
      (hw : Writes R g c start w e) : Step R g c start w (w.wrote e)
  | posted (i : OrderIntent) (halted : Bool) (s : JournalEvent) (hlast : w.journal.getLast? = some s)
      (hk : s.kind = .send) (hid : s.intentId = i.intentId) (hi : (view w.journal i.intentId).intent = some i)
      (hst : (view w.journal i.intentId).status.1 = .unknown) (hnew : ∀ p ∈ w.posts, p.sentAt < w.journal.length)
      (hcall : ∃ deadline, c = .submit i.intentId deadline ∧ InTime R w deadline) :
      Step R g c start w (w.posted i halted)

/-- No POST is later than the journal. -/
def Timely (w : World) : Prop := ∀ p ∈ w.posts, p.sentAt ≤ w.journal.length

theorem timely_step {R : Rules} {g : OrderGateway} {c : Call} {start : Journal} (w w' : World) (hw : Timely w)
    (h : Step R g c start w w') : Timely w' := by
  cases h with
  | quiet w' hj hp hh =>
    intro p hpm
    rw [hj]
    exact hw p (hp ▸ hpm)
  | wrote e happ hs hwr =>
    intro p hpm
    have := hw p hpm
    simp only [World.wrote_journal, List.length_append, List.length_singleton]
    omega
  | posted i hd s hlast hk hid hi hst hnew hcall =>
    intro p hpm
    rcases List.mem_append.1 hpm with hpm | hpm
    · exact hw p hpm
    · rw [List.mem_singleton.1 hpm]
      exact Nat.le_refl _

/-! ## One call of a program -/

/-- Calls under the rules, in timely worlds. -/
def guarded (R : Rules) : Exec GatewayOp Answer World := fun op w r w' => Timely w ∧ under R op w r w'

/-- From `w` every call of `p` is a step, and a returned value satisfies `Q`. -/
abbrev Ok (R : Rules) (g : OrderGateway) (c : Call) (start : Journal) {α : Type} (p : Gw α) (Q : α → World → Prop) (w : World) :
    Prop := wp (guarded R) (Step R g c start) p Q w

section calls

variable {R : Rules} {g : OrderGateway} {c : Call} {start : Journal} {α β : Type} {w : World}

theorem ok_bind {p : Gw α} {f : α → Gw β} {Q : β → World → Prop}
    (h : Ok R g c start p (fun a w' => Ok R g c start (f a) Q w') w) : Ok R g c start (p >>= f) Q w :=
  (Prog.wp_bind p f Q w).2 h

theorem ok_pure {a : α} {Q : α → World → Prop} (h : Q a w) : Ok R g c start (pure a : Gw α) Q w := h

theorem step_refl (w : World) : Step R g c start w w := .quiet w rfl rfl rfl

theorem ok_journal {Q : Journal → World → Prop} (h : Q w.journal w) : Ok R g c start journalNow Q w := by
  rintro r w' ⟨-, ⟨rfl, rfl⟩, -⟩
  exact ⟨step_refl w', h⟩

theorem ok_except {x : Except OrderError α} {Q : α → World → Prop} (h : ∀ a, x = .ok a → Q a w) :
    Ok R g c start (Prog.ofExcept x) Q w := (Prog.wp_ofExcept x Q w).2 h

theorem ok_loadEvents {Q : List JournalEvent → World → Prop} (h : Loads w.journal → Q w.journal w) :
    Ok R g c start loadEvents Q w := by
  refine ok_bind (ok_journal (ok_except (fun es hes => ?_)))
  obtain ⟨hl, rfl⟩ := load_eq_ok.1 hes
  exact h hl

theorem ok_readStates {Q : Dict IntentState → World → Prop} (h : Sound w.journal → Q (statesOf w.journal) w) :
    Ok R g c start readStates Q w := by
  refine ok_bind (ok_journal (ok_except (fun sts hsts => ?_)))
  obtain ⟨hs, rfl⟩ := states_eq_ok.1 hsts
  exact h hs

theorem ok_stateAt {id : String} {Q : IntentState → World → Prop}
    (h : Sound w.journal → id ∈ idsOf w.journal → Q (stateOf w.journal id) w) : Ok R g c start (stateAt id) Q w := by
  refine ok_bind (ok_readStates (fun hs => ?_))
  rw [statesOf_lookup]
  by_cases hid : id ∈ idsOf w.journal
  · rw [if_pos hid]
    exact h hs hid
  · rw [if_neg hid]
    trivial

theorem ok_readLots {Q : List OpenLot → World → Prop} (h : ∀ lots, openLots w.journal = .ok lots → Q lots w) :
    Ok R g c start readLots Q w :=
  ok_bind (ok_journal (ok_except h))

theorem ok_isHalted {Q : Bool → World → Prop} (h : Q w.halted w) : Ok R g c start isHalted Q w := by
  rintro r w' ⟨-, ⟨rfl, rfl⟩, -⟩
  exact ⟨step_refl w', h⟩

theorem ok_now {Q : Int → World → Prop} (h : ∀ t, R .now w t → Q t w) : Ok R g c start nowFn Q w := by
  rintro r w' ⟨-, hw, hr⟩
  cases hw
  exact ⟨step_refl w, h r hr⟩

theorem ok_sendsMade {Q : Nat → World → Prop} (h : Q w.sendsMade w) : Ok R g c start sendsMade Q w := by
  rintro r w' ⟨-, ⟨rfl, rfl⟩, -⟩
  exact ⟨step_refl w', h⟩

theorem ok_countSend {Q : Unit → World → Prop} (h : Q () { w with sendsMade := w.sendsMade + 1 }) :
    Ok R g c start countSend Q w := by
  rintro r w' ⟨-, hw, -⟩
  cases hw
  exact ⟨.quiet _ rfl rfl rfl, h⟩

theorem ok_fetchDailyOrders {d : String} {Q : Except OrderError (List BrokerOrder) → World → Prop}
    (h : ∀ r hd, R (.fetchDailyOrders d) w r → Q r { w with halted := hd }) : Ok R g c start (fetchDailyOrders d) Q w := by
  rintro r w' ⟨-, ⟨hd, rfl⟩, hr⟩
  exact ⟨.quiet _ rfl rfl rfl, h r hd hr⟩

theorem ok_fetchPositions {Q : Except OrderError (List BrokerPosition) → World → Prop}
    (h : ∀ r hd, Q r { w with halted := hd }) : Ok R g c start fetchPositions Q w := by
  rintro r w' ⟨-, ⟨hd, rfl⟩, -⟩
  exact ⟨.quiet _ rfl rfl rfl, h r hd⟩

theorem ok_ensureToken {Q : Except OrderError Unit → World → Prop}
    (h : ∀ r hd, Q r { w with halted := hd }) : Ok R g c start ensureToken Q w := by
  rintro r w' ⟨-, ⟨hd, rfl⟩, -⟩
  exact ⟨.quiet _ rfl rfl rfl, h r hd⟩

theorem ok_cancelOrder {x y : String} {Q : Except OrderError SubmitResult → World → Prop}
    (h : ∀ r hd, Q r { w with halted := hd }) : Ok R g c start (cancelOrder x y) Q w := by
  rintro r w' ⟨-, ⟨hd, rfl⟩, -⟩
  exact ⟨.quiet _ rfl rfl rfl, h r hd⟩

theorem ok_sleep {s : Py.PyFloat} {Q : Unit → World → Prop} (h : ∀ hd, Q () { w with halted := hd }) :
    Ok R g c start (sleepFn s) Q w := by
  rintro r w' ⟨-, ⟨hd, rfl⟩, -⟩
  exact ⟨.quiet _ rfl rfl rfl, h hd⟩

theorem ok_writeAs {run id : String} {k : JournalEventKind} {p : Payload} {Q : Unit → World → Prop}
    (h : ∀ e, Timely w → Appended R w e → e.kind = k → e.intentId = id → e.payload = p → e.runId = run →
      (Sound w.journal ∨ e.kind = .result) ∧ Writes R g c start w e ∧ Q () (w.wrote e)) :
    Ok R g c start (writeAs run k id p) Q w := by
  refine ok_bind ?_
  rintro (err | e) w' ⟨ht, ⟨ts, hts, happ, hw'⟩, hr⟩
  · cases hw'
    exact ⟨step_refl w, trivial⟩
  · cases hw'
    obtain ⟨hk, hid, hp, hrun, htse⟩ : e.kind = k ∧ e.intentId = id ∧ e.payload = p ∧ e.runId = run ∧ e.ts = ts := by
      rw [(append_eq_ok.1 happ.symm).2]
      exact ⟨rfl, rfl, rfl, rfl, rfl⟩
    subst hk hid hp hrun htse
    obtain ⟨hs, hw, hq⟩ := h e ht ⟨happ.symm, hts, hr⟩ rfl rfl rfl rfl
    exact ⟨.wrote e ⟨happ.symm, hts, hr⟩ hs hw, hq⟩

theorem ok_submitOrder {i : OrderIntent} {s : JournalEvent} {Q : Except OrderError SubmitResult → World → Prop}
    (hlast : w.journal.getLast? = some s) (hk : s.kind = .send) (hid : s.intentId = i.intentId)
    (hi : (view w.journal i.intentId).intent = some i) (hst : (view w.journal i.intentId).status.1 = .unknown)
    (hnew : ∀ p ∈ w.posts, p.sentAt < w.journal.length)
    (hcall : ∃ deadline, c = .submit i.intentId deadline ∧ InTime R w deadline)
    (h : ∀ r hd, R (.submitOrder i) w r → Q r (w.posted i hd)) : Ok R g c start (submitOrder i) Q w := by
  rintro r w' ⟨-, ⟨hd, rfl⟩, hr⟩
  exact ⟨.posted i hd s hlast hk hid hi hst hnew hcall, h r hd hr⟩

/-! ## Submit -/

theorem verdictOf_resultPayload (n : Nat) (r : SubmitResult) : verdictOf (resultPayload n r) = some r.verdict := by
  simp [verdictOf, resultPayload, Dict.getD, List.lookup, Py.Value.toStr]

/-- One attempt of an intent whose SEND is in order. -/
theorem ok_sendOnce {id : String} {i : OrderIntent} {b : Option (List String)} {Q : SubmitResult → World → Prop}
    (hid : i.intentId = id) (hi : (view w.journal id).intent = some i)
    (hf : (view w.journal id).finalPayload = none) (hb : (view w.journal id).bound = false)
    (hr : (view w.journal id).rejected = false) (ho : (view w.journal id).operatorNotFound = false)
    (hcall : ∃ deadline, c = .submit id deadline ∧ InTime R w deadline)
    (hsend : ∀ e : JournalEvent, e.kind = .send → e.intentId = id →
      e.payload = sendPayload ((view w.journal id).sends + 1) b → Writes R g c start w e)
    (hQ : ∀ s r x w', w'.journal = w.journal ++ [s] ++ [r] → s.kind = .send → s.intentId = id → r.kind = .result →
      r.intentId = id → r.payload = resultPayload ((view w.journal id).sends + 1) x → Q x w') :
    Ok R g c start (g.sendOnce id i b) Q w := by
  refine ok_bind (ok_stateAt (fun hs _ => ok_bind (ok_writeAs (fun s ht _ hsk hsid hsp _ =>
    ⟨.inl hs, hsend s hsk hsid hsp, ?_⟩))))
  have hview : view (w.wrote s).journal id = (view w.journal id).push s := by
    rw [World.wrote_journal, view_snoc, if_pos hsid]
  obtain ⟨hl, hst, hres, hconf⟩ := View.push_send hsk hf hb hr ho
  subst hid
  refine ok_bind (ok_submitOrder (s := s) (by simp) hsk hsid ?_ ?_ ?_ hcall (fun r hd hR => ?_))
  · rw [hview, View.push_intent (by simp [hsk]), hi]
  · rw [hview, hst]
  · intro p hp
    have := ht p hp
    simp only [World.wrote_journal, List.length_append, List.length_singleton]
    omega
  refine ok_bind (ok_countSend (ok_bind (ok_writeAs (fun _ _ _ hek heid hep _ => ⟨.inr hek, ?_, ?_⟩))))
  · refine .result i _ r hek hep ?_ ?_ ⟨s, b, by simp, hsk, hsid.trans heid.symm, hsp⟩ ⟨w.wrote s, rfl, hR⟩ ?_ ?_ ?_
    all_goals
      rw [heid]
      simp only [World.posted_journal, hview]
    · rw [View.push_intent (by simp [hsk]), hi]
    · exact View.push_sends_send hsk
    · rw [hst]
    · exact hres
    · exact hconf
  · exact hQ s _ _ _ rfl hsk hsid hek heid hep

theorem ok_refuse {id : String} {i : OrderIntent} {reason : String} (hs : Sound w.journal) (hid : id ∈ idsOf w.journal)
    (hst : (view w.journal id).status.1.sendable = true) :
    Ok R g c start (g.refuse id i reason) (fun _ _ => True) w :=
  ok_bind (ok_writeAs (fun _ _ _ hk heid _ _ =>
    ⟨.inl hs, .refuse hk (heid ▸ hid) (heid ▸ hst), ok_stateAt (fun _ _ => trivial)⟩))

theorem mem_idsOf_of_intent {j : Journal} {id : String} {i : OrderIntent} (h : (view j id).intent = some i) :
    id ∈ idsOf j := by
  by_contra hn
  rw [view_of_not_mem hn] at h
  cases h

/-- The numbers the states are bound to, in terms of views. -/
theorem mem_boundOf {j : Journal} {n : String} :
    n ∈ boundOf j ↔ ∃ id, ∃ no, (view j id).numbers.1 = some no ∧ no ≠ "" ∧ normalizeOrderNo no = n := by
  unfold boundOf boundNumbers statesOf
  simp only [List.mem_filterMap, List.mem_map]
  constructor
  · rintro ⟨p, ⟨id, -, rfl⟩, h⟩
    obtain ⟨no, hno, h⟩ := Option.bind_eq_some_iff.1 h
    by_cases h0 : no = ""
    · simp [h0] at h
    · rw [if_neg h0, Option.some.injEq] at h
      exact ⟨id, no, hno, h0, h⟩
  · rintro ⟨id, no, hno, h0, rfl⟩
    have hid : id ∈ idsOf j := by
      by_contra hn
      rw [view_of_not_mem hn] at hno
      cases hno
    exact ⟨_, ⟨id, hid, rfl⟩, Option.bind_eq_some_iff.2 ⟨no, hno, by rw [if_neg h0]⟩⟩

theorem mem_matchCandidates {i : OrderIntent} {rows : List BrokerOrder} {bound : List String}
    {baseline : Option (List String)} {o : BrokerOrder} (h : o ∈ matchCandidates i rows bound baseline) :
    o ∈ rows ∧ normalizeOrderNo o.orderNo ∉ bound ∧ o.symbol = i.symbol ∧ o.side = i.side ∧ o.orderQty = i.qty := by
  simp only [matchCandidates, List.mem_filter, Bool.and_eq_true, Bool.not_eq_true', beq_iff_eq] at h
  obtain ⟨hm, ⟨⟨⟨⟨-, h1⟩, h2⟩, h3⟩, h4⟩, -⟩ := h
  exact ⟨hm, by simpa using h1, h2, h3, h4⟩

theorem matched_of_candidate {i : OrderIntent} {rows : List BrokerOrder} {bound : List String}
    {baseline : Option (List String)} {o : BrokerOrder} {j : Journal} {w' : World}
    (hR : R (.fetchDailyOrders i.tradingDate) w' (.ok rows)) (hb : ∀ n ∈ boundOf j, n ∈ bound)
    (h : o ∈ matchCandidates i rows bound baseline) : Matched R j i o := by
  obtain ⟨hm, hn, h1, h2, h3⟩ := mem_matchCandidates h
  exact ⟨⟨w', rows, hR, hm⟩, fun hin => hn (hb _ hin), h1, h2, h3⟩

/-- The polls of a lost order: nothing is written before they settle it. -/
theorem ok_poll {i : OrderIntent} {bound : List String} : ∀ {n : Nat} {w : World},
    (view w.journal i.intentId).intent = some i → (view w.journal i.intentId).status.1 = .unknown →
    (∀ m ∈ boundOf w.journal, m ∈ bound) →
    Ok R g c start (g.poll i bound n) (fun p w' => p = .absent → w'.journal = w.journal) w
  | 0, w, _, _, _ => fun _ => rfl
  | n + 1, w, hi, hst, hb => by
    refine ok_bind (ok_fetchDailyOrders (fun r hd hR => ?_))
    cases r with
    | error _ => exact fun h => by cases h
    | ok rows =>
      refine ok_bind (ok_stateAt (fun hs _ => ?_))
      split
      · rename_i o hc
        have ho : o ∈ matchCandidates i rows bound (stateOf w.journal i.intentId).baselineOrderNos := by
          rw [show matchCandidates i rows bound (stateOf w.journal i.intentId).baselineOrderNos = [o] from hc]
          exact List.mem_singleton.2 rfl
        refine ok_bind (ok_writeAs (fun e _ _ hk heid hp _ => ⟨.inl hs, ?_, fun h => by cases h⟩))
        exact .adopt i o hk hp (heid ▸ hi) (heid ▸ hst) (matched_of_candidate hR hb ho)
      · by_cases h0 : n = 0
        · rw [if_pos h0]
          exact ok_poll (w := { w with halted := hd }) hi hst hb
        · rw [if_neg h0]
          refine ok_bind (ok_sleep (fun hd' => ?_))
          exact ok_poll (w := { w with halted := hd' }) hi hst hb
      · refine ok_bind (ok_writeAs (fun e _ _ hk heid _ _ => ⟨.inl hs, ?_, fun h => by cases h⟩))
        exact .conflict i hk (heid ▸ hi) (heid ▸ hst)

theorem sends_pos_of_push {v : View} {s r : JournalEvent} (hs : s.kind = .send) (hr : r.kind = .result) :
    0 < ((v.push s).push r).sends := by
  rw [View.push_sends (by simp [hr]), View.push_sends_send hs]
  exact Nat.succ_pos _

theorem view_snoc_snoc {j : Journal} {s r : JournalEvent} {id : String} (hs : s.intentId = id) (hr : r.intentId = id) :
    view (j ++ [s] ++ [r]) id = ((view j id).push s).push r := by
  rw [view_snoc, if_pos hr, view_snoc, if_pos hs]

/-- The exit resend, directly after its NOT_FOUND. -/
theorem ok_resendExit {i : OrderIntent} {deadline : Int} {after : IntentState}
    (hc : c = .submit i.intentId deadline) (hexit : i.phase = .exit)
    (hflag : g.limits.exitResendOnAmbiguous = true) (hi : (view w.journal i.intentId).intent = some i)
    (hst : (view w.journal i.intentId).status.1 = .notFound) (hnf : (view w.journal i.intentId).notFound = true)
    (hop : (view w.journal i.intentId).operatorNotFound = false)
    (hlast : ∃ n, w.journal.getLast? = some n ∧ n.kind = .notFound ∧ n.intentId = i.intentId)
    (hstart : (view start i.intentId).status.1 ≠ .notFound) :
    Ok R g c start (g.resendExit i deadline after) (fun _ _ => True) w := by
  obtain ⟨hf, hb, hr, -⟩ := View.notFound_iff.1 hst
  refine ok_bind (ok_isHalted ?_)
  cases w.halted with
  | true => exact ok_pure trivial
  | false =>
    refine ok_bind (ok_fetchPositions (fun r hd => ?_))
    cases r with
    | error _ => exact ok_pure trivial
    | ok positions =>
      dsimp only
      split_ifs with hq
      · exact ok_stateAt (fun _ _ => trivial)
      · refine ok_bind (ok_now (fun t hR => ?_))
        split_ifs with ht
        · have hcall : ∃ deadline, c = .submit i.intentId deadline ∧ InTime R { w with halted := hd } deadline :=
            ⟨deadline, hc, _, t, rfl, hR, ht⟩
          refine ok_bind (ok_sendOnce rfl hi hf hb hr hop hcall (fun e hk hid hp => ?_) (fun _ _ _ _ _ _ _ _ _ _ =>
            ok_stateAt (fun _ _ => trivial)))
          exact .resend i hk (hid ▸ hp) (hid ▸ hi) hexit hflag (hid ▸ hst) (hid ▸ hnf) (hid ▸ hop) (hid ▸ hlast)
            (hid ▸ hstart) (hid ▸ hcall)
        · exact ok_stateAt (fun _ _ => trivial)

theorem ok_resolveUnknown {i : OrderIntent} {deadline : Int} (hc : c = .submit i.intentId deadline) (hi : (view w.journal i.intentId).intent = some i)
    (hst : (view w.journal i.intentId).status.1 = .unknown) (hs : 0 < (view w.journal i.intentId).sends)
    (hfirst : ∀ x ∈ w.journal, x.intentId = i.intentId → x.kind ≠ .notFound)
    (hstart : (view start i.intentId).status.1 ≠ .notFound) :
    Ok R g c start (g.resolveUnknown i deadline) (fun _ _ => True) w := by
  refine ok_bind (ok_readStates (fun hsound => ?_))
  by_cases hp : g.limits.unknownResolvePolls ≤ 0
  · rw [if_pos hp]
    split
    · exact ok_pure trivial
    · trivial
  · rw [if_neg hp]
    refine ok_bind (Prog.wp_post (ok_poll hi hst (fun _ h => h)) (fun polled w' hw' => ?_))
    cases polled with
    | settled => exact ok_stateAt (fun _ _ => trivial)
    | unreadable => exact ok_stateAt (fun _ _ => trivial)
    | absent =>
      have hj := hw' rfl
      refine ok_bind (ok_writeAs (fun e _ _ hk hid _ _ => ⟨.inl (hj ▸ hsound), ?_, ?_⟩))
      · rw [← hid] at hi hst hs hfirst
        rw [← hj] at hi hst hs hfirst
        exact .notFound i hk hi hst hs hfirst
      · have hv : view (w'.wrote e).journal i.intentId = (view w.journal i.intentId).push e := by
          rw [World.wrote_journal, hj, view_snoc, if_pos hid]
        obtain ⟨h1, h2, h3, -⟩ := View.push_notFound hk (View.live_of_unknown hst) hs
        refine ok_bind (ok_stateAt (fun _ _ => ?_))
        by_cases hx : i.phase = .exit ∧ g.limits.exitResendOnAmbiguous = true
        · rw [if_pos hx]
          refine ok_resendExit hc hx.1 hx.2 ?_ ?_ ?_ ?_ ⟨e, by simp, hk, hid⟩ hstart
          · rw [hv, View.push_intent (by simp [hk]), hi]
          · rw [hv, h1]
          · rw [hv, h2]
          · rw [hv, h3]
        · rw [if_neg hx]
          exact ok_stateAt (fun _ _ => trivial)

/-- What holds of an intent each time the send loop comes round. -/
structure Sending (g : OrderGateway) (start j : Journal) (i : OrderIntent) : Prop where
  intent : (view j i.intentId).intent = some i
  sendable : (view j i.intentId).status.1.sendable = true
  risk : (view j i.intentId).sends = 0 → RiskOk g j i
  start : (view start i.intentId).status.1 ≠ .notFound

theorem ok_sendLoop {i : OrderIntent} {deadline : Int} (hc : c = .submit i.intentId deadline) : ∀ {n : Nat} {b : Option (List String)} {w : World},
    Sending g start w.journal i → Ok R g c start (g.sendLoop i.intentId i deadline b n) (fun _ _ => True) w
  | 0, _, _, _ => ok_stateAt (fun _ _ => trivial)
  | n + 1, b, w, h => by
    have hl := View.live_of_sendable h.sendable
    refine ok_bind (ok_now (fun t hR => ?_))
    by_cases ht : deadline ≤ t
    · rw [if_pos ht]
      refine ok_bind (ok_stateAt (fun hs hid => ?_))
      split_ifs with h0
      · exact ok_refuse hs hid h.sendable
      · exact ok_pure trivial
    · rw [if_neg ht]
      have hcall : ∃ deadline, c = .submit i.intentId deadline ∧ InTime R w deadline :=
        ⟨deadline, hc, w, t, rfl, hR, Int.not_le.1 ht⟩
      refine ok_bind (ok_sendOnce rfl h.intent hl.open_ hl.unbound hl.unrejected hl.unresolved hcall (fun e hk hid hp =>
        .send i b hk (hid ▸ hp) (hid ▸ h.intent) (hid ▸ h.sendable) (hid ▸ h.risk) (hid ▸ hcall)) ?_)
      intro s r x w' hw' hsk hsid hrk hrid hrp
      have hv : view w'.journal i.intentId = ((view w.journal i.intentId).push s).push r := by
        rw [hw', view_snoc_snoc hsid hrid]
      have hverdict : verdictOf r.payload = some x.verdict := by rw [hrp, verdictOf_resultPayload]
      obtain ⟨hl1, hst1, hres1, hconf1⟩ := View.push_send hsk hl.open_ hl.unbound hl.unrejected hl.unresolved
      have hst := View.push_result hrk hverdict hl1 hconf1
      have hin : (view w'.journal i.intentId).intent = some i := by
        rw [hv, View.push_intent (by simp [hrk]), View.push_intent (by simp [hsk]), h.intent]
      have hpos : 0 < (view w'.journal i.intentId).sends := by
        rw [hv]
        exact sends_pos_of_push hsk hrk
      split_ifs with h1 h2
      · exact ok_stateAt (fun _ _ => trivial)
      · refine ok_sendLoop hc ⟨hin, ?_, fun h0 => absurd h0 (by omega), h.start⟩
        rw [hv, hst]
        cases hx : x.verdict <;> rw [hx] at h2 <;> first | rfl | cases h2
      · have hamb : x.verdict = .ambiguous := by
          cases hx : x.verdict <;> simp_all [SubmitVerdict.retryable]
        refine ok_bind (ok_bind (ok_loadEvents (fun _ => ok_pure ?_)))
        split_ifs with hnf
        · exact ok_stateAt (fun _ _ => trivial)
        · refine ok_resolveUnknown hc hin ?_ hpos (fun y hy hyid hyk => hnf ?_) h.start
          · rw [hv, hst, hamb]
            rfl
          · exact List.any_eq_true.2 ⟨y, hy, by simp [hyid, hyk]⟩

end calls
end Order
