import KClosingAlpha.Order.Finality
import KClosingAlpha.Order.Oracle
import Mathlib.Data.List.Perm.Subperm
/-!
# Sends — at most one POST of an intent can have become an order unseen

A POST is risky while no later RESULT of its attempt says that no order came of it.  POSTs are counted through their
SENDs, which the journal holds: `Bounded` bounds the unsettled SENDs of any intent, `Single` those of an intent that
is never resent after a NOT_FOUND.
-/
namespace Order

open Py (Value Dict)

/-! ## Counting SENDs by position -/

/-- A verdict that says no order came of the attempt. -/
def SubmitVerdict.noOrder : SubmitVerdict → Bool
  | .rejected | .throttled | .authRejected | .notSent => true
  | _ => false

def attemptOf (e : JournalEvent) : Option Value := e.payload.lookup "attempt"

/-- A RESULT of the SEND's attempt that says no order came of it. -/
def settles (s e : JournalEvent) : Bool :=
  e.kind == .result && e.intentId == s.intentId && attemptOf e == attemptOf s &&
    (verdictOf e.payload).any SubmitVerdict.noOrder

/-- The record a POST was made after. -/
def sendOf (w : World) (p : Post) : Option JournalEvent :=
  if p.sentAt = 0 then none else w.journal[p.sentAt - 1]?

/-- No later RESULT says that the POST left no order. -/
def risky (w : World) (p : Post) : Bool :=
  (sendOf w p).all (fun s => !(w.journal.drop p.sentAt).any (settles s))

def isSendOf (id : String) (e : JournalEvent) : Bool := e.kind == .send && e.intentId == id

def sendsAt (j : Journal) (id : String) (k : Nat) : Bool := (j[k]?).any (isSendOf id)

def riskyAt (j : Journal) (id : String) (k : Nat) : Bool :=
  (j[k]?).any (fun s => isSendOf id s && !(j.drop (k + 1)).any (settles s))

/-- The SENDs of an intent. -/
def nSendsIn (j : Journal) (id : String) : Nat := (List.range j.length).countP (sendsAt j id)

/-- The SENDs of an intent no later RESULT settles. -/
def nRisky (j : Journal) (id : String) : Nat := (List.range j.length).countP (riskyAt j id)

def nNotFound (j : Journal) (id : String) : Nat := j.countP (fun e => e.kind == .notFound && e.intentId == id)

theorem sendsAt_snoc_of_lt {j : Journal} {e : JournalEvent} {id : String} {k : Nat} (hk : k < j.length) :
    sendsAt (j ++ [e]) id k = sendsAt j id k := by
  unfold sendsAt
  rw [List.getElem?_append_left hk]

theorem sendsAt_snoc_length {j : Journal} {e : JournalEvent} {id : String} :
    sendsAt (j ++ [e]) id j.length = isSendOf id e := by
  simp [sendsAt]

theorem nSendsIn_snoc (j : Journal) (e : JournalEvent) (id : String) :
    nSendsIn (j ++ [e]) id = nSendsIn j id + if isSendOf id e then 1 else 0 := by
  unfold nSendsIn
  rw [List.length_append, List.length_singleton, List.range_succ, List.countP_append, List.countP_singleton,
    sendsAt_snoc_length]
  congr 1
  exact List.countP_congr (fun k hk => by rw [sendsAt_snoc_of_lt (List.mem_range.1 hk)])

theorem nSendsIn_eq (j : Journal) (id : String) : nSendsIn j id = (view j id).sends := by
  induction j using List.reverseRecOn with
  | nil => rfl
  | append_singleton j e ih =>
    rw [nSendsIn_snoc, view_snoc, ih]
    by_cases hid : e.intentId = id
    · rw [if_pos hid]
      by_cases hk : e.kind = .send
      · rw [View.push_sends_send hk, if_pos (by simp [isSendOf, hk, hid])]
      · rw [View.push_sends hk, if_neg (by simp [isSendOf, hk]), Nat.add_zero]
    · rw [if_neg hid, if_neg (by simp [isSendOf, hid]), Nat.add_zero]

theorem riskyAt_snoc_of_lt {j : Journal} {e : JournalEvent} {id : String} {k : Nat} (hk : k < j.length) :
    riskyAt (j ++ [e]) id k = (j[k]?).any (fun s => isSendOf id s && !((j.drop (k + 1)).any (settles s) || settles s e)) := by
  unfold riskyAt
  rw [List.getElem?_append_left hk, List.drop_append_of_le_length hk]
  simp only [List.any_append, List.any_cons, List.any_nil, Bool.or_false]

theorem riskyAt_of_snoc {j : Journal} {e : JournalEvent} {id : String} {k : Nat} (hk : k < j.length)
    (h : riskyAt (j ++ [e]) id k = true) : riskyAt j id k = true := by
  rw [riskyAt_snoc_of_lt hk] at h
  unfold riskyAt
  rw [Option.any_eq_true] at h ⊢
  obtain ⟨s, hs, h⟩ := h
  simp only [Bool.not_or, Bool.and_eq_true] at h ⊢
  exact ⟨s, hs, h.1, h.2.1⟩

theorem riskyAt_snoc_length {j : Journal} {e : JournalEvent} {id : String} :
    riskyAt (j ++ [e]) id j.length = isSendOf id e := by
  simp [riskyAt]

/-- One more record adds at most itself. -/
theorem nRisky_snoc_le (j : Journal) (e : JournalEvent) (id : String) :
    nRisky (j ++ [e]) id ≤ nRisky j id + if isSendOf id e then 1 else 0 := by
  unfold nRisky
  rw [List.length_append, List.length_singleton, List.range_succ, List.countP_append, List.countP_singleton,
    riskyAt_snoc_length]
  refine Nat.add_le_add_right (List.countP_mono_left (fun k hk h => ?_)) _
  exact riskyAt_of_snoc (List.mem_range.1 hk) h

/-- A SEND adds exactly itself. -/
theorem nRisky_snoc_send {j : Journal} {s : JournalEvent} {id : String} (hs : isSendOf id s = true) :
    nRisky (j ++ [s]) id = nRisky j id + 1 := by
  have hk : s.kind = .send := by
    simp only [isSendOf, Bool.and_eq_true, beq_iff_eq] at hs
    exact hs.1
  unfold nRisky
  rw [List.length_append, List.length_singleton, List.range_succ, List.countP_append, List.countP_singleton,
    riskyAt_snoc_length, if_pos hs]
  congr 1
  refine List.countP_congr (fun k hk' => ?_)
  rw [riskyAt_snoc_of_lt (List.mem_range.1 hk')]
  simp [riskyAt, settles, hk, kind_beq]

/-- **A RESULT directly after its SEND takes the SEND out of the count**, when it says no order came of it. -/
theorem nRisky_settled {l : Journal} {s e : JournalEvent} {id : String} (he : settles s e = true) :
    nRisky (l ++ [s] ++ [e]) id ≤ nRisky l id := by
  have hk : e.kind = .result := by
    simp only [settles, Bool.and_eq_true, beq_iff_eq] at he
    exact he.1.1.1
  have hself : riskyAt (l ++ [s] ++ [e]) id l.length = false := by
    rw [riskyAt_snoc_of_lt (by simp)]
    simp [he]
  have hlast : riskyAt (l ++ [s] ++ [e]) id (l ++ [s]).length = false := by
    rw [riskyAt_snoc_length]
    simp [isSendOf, hk]
  unfold nRisky
  rw [show (l ++ [s] ++ [e]).length = (l.length + 1) + 1 by simp, List.range_succ, List.range_succ, List.countP_append,
    List.countP_append, List.countP_singleton, List.countP_singleton, if_neg (by rw [hself]; exact Bool.false_ne_true),
    if_neg (by simpa using hlast)]
  refine List.countP_mono_left (fun k hk' h => ?_)
  have hlt := List.mem_range.1 hk'
  exact riskyAt_of_snoc hlt (riskyAt_of_snoc (by simp; omega) h)

theorem nNotFound_snoc (j : Journal) (e : JournalEvent) (id : String) :
    nNotFound (j ++ [e]) id = nNotFound j id + if e.kind = .notFound ∧ e.intentId = id then 1 else 0 := by
  unfold nNotFound
  rw [List.countP_append, List.countP_singleton]
  simp

theorem counts_of_not_mem {j : Journal} {id : String} (h : id ∉ idsOf j) : nRisky j id = 0 ∧ nNotFound j id = 0 := by
  have hne : ∀ e ∈ j, e.intentId ≠ id := fun e he hid => h (mem_idsOf.2 ⟨e, he, hid⟩)
  constructor
  · refine List.countP_eq_zero.2 (fun k hk h => ?_)
    unfold riskyAt at h
    rw [Option.any_eq_true] at h
    obtain ⟨s, hs, h⟩ := h
    simp only [isSendOf, Bool.and_eq_true, beq_iff_eq] at h
    exact hne s (List.mem_of_getElem? hs) h.1.2
  · refine List.countP_eq_zero.2 (fun e he h => ?_)
    simp only [Bool.and_eq_true, beq_iff_eq] at h
    exact hne e he h.2

/-! ## The invariants -/

/-- An intent a submit may still send: sendable, or given up by the polls of the submit that may resend it. -/
def Resendable (v : View) : Prop := v.status.1.sendable = true ∨ (v.status.1 = .notFound ∧ v.notFound = true)

structure Bounded (j : Journal) (id : String) : Prop where
  one : nNotFound j id ≤ 1
  risky : nRisky j id ≤ 1 + nNotFound j id
  idle : Resendable (view j id) → nRisky j id ≤ nNotFound j id

/-- The invariant of an intent that is not resent. -/
structure Single (j : Journal) (id : String) : Prop where
  risky : nRisky j id ≤ 1
  idle : (view j id).status.1.sendable = true → nRisky j id = 0 ∧ nNotFound j id = 0
  sent : ∀ s, j.getLast? = some s → isSendOf id s = true → nNotFound j id = 0

section steps

variable {R : Rules} {g : OrderGateway} {c : Call} {start : Journal} {w : World} {e : JournalEvent}

/-- A record that is no SEND, RESULT or NOT_FOUND makes no intent resendable. -/
theorem Writes.resendable (h : Writes R g c start w e) (h1 : e.kind ≠ .send) (h2 : e.kind ≠ .result)
    (h3 : e.kind ≠ .notFound) (hr : Resendable ((view w.journal e.intentId).push e)) :
    (view w.journal e.intentId).status.1.sendable = true ∨
      (Resendable (view w.journal e.intentId) ∧ ((view w.journal e.intentId).push e).status.1 = .notFound) := by
  cases h with
  | intent i hk hid hp hnew => exact .inl (by rw [view_of_not_mem hnew]; rfl)
  | skip hk hnew => exact .inl (by rw [view_of_not_mem hnew]; rfl)
  | refuse hk hid hst => exact .inl hst
  | send i b hk => exact absurd hk h1
  | resend i hk => exact absurd hk h1
  | result i n r hk => exact absurd hk h2
  | notFound i hk => exact absurd hk h3
  | adopt i o hk hp hi hst hm =>
    have hpush := (View.push_adoption (isAdoption_of_adopt hk) (View.live_of_unknown hst).open_).1
    rcases hr with hr | ⟨hr, -⟩ <;> rw [hpush] at hr <;> cases hr
  | conflict i hk hi hst =>
    have hpush := View.push_conflict hk hst
    rcases hr with hr | ⟨hr, -⟩ <;> rw [hpush] at hr <;> cases hr
  | operatorAdopt i a o hk hp hi hst hm hno hne hval hcall =>
    have ho : (view w.journal e.intentId).finalPayload = none :=
      hst.elim (fun h => (View.live_of_unknown h).open_) (fun h => (View.notFound_iff.1 h).1)
    have hpush := (View.push_adoption (e := e) (by simp [isAdoption, hk, hp, ResolveArgs.adoptPayload]) ho).1
    rcases hr with hr | ⟨hr, -⟩ <;> rw [hpush] at hr <;> cases hr
  | operatorNotFound i a hk hp hi hst hval hcall =>
    have hl := View.live_of_unknown hst
    have hpush := View.push_operatorNotFound (e := e)
      (by simp [isOperatorNotFound, hk, hp, ResolveArgs.notFoundPayload]) hl
    rcases hr with hr | ⟨-, hr⟩
    · rw [hpush] at hr; cases hr
    · simp [View.push, hk, hl.sought] at hr
  | brokerState i o final hk hp hi hno hfin hfill =>
    have hb := (View.acked_iff.1 (acked_of_number hno hfin)).2
    have hb' : ((view w.journal e.intentId).push e).bound = true := by simp [View.push, hb]
    rcases hr with hr | ⟨hr, -⟩
    · rw [(View.live_of_sendable hr).unbound] at hb'; cases hb'
    · rw [(View.notFound_iff.1 hr).2.1] at hb'; cases hb'
  | cancel hk hst hid =>
    rw [View.push_cancel hk] at hr
    rcases hr with hr | ⟨hr, -⟩ <;> rw [hst] at hr <;> cases hr

/-- A SEND leaves its intent UNKNOWN, so not resendable. -/
theorem Writes.send_unknown (h : Writes R g c start w e) (hk : e.kind = .send) :
    ((view w.journal e.intentId).push e).status.1 = .unknown ∧ Resendable (view w.journal e.intentId) := by
  cases h with
  | send i b hk hp hi hst hrisk hcall =>
    have hl := View.live_of_sendable hst
    exact ⟨by rw [(View.push_send hk hl.open_ hl.unbound hl.unrejected hl.unresolved).2.1], .inl hst⟩
  | resend i hk hp hi hexit hflag hst hnf hop hlast hstart hcall =>
    obtain ⟨h1, h2, h3, -⟩ := View.notFound_iff.1 hst
    exact ⟨by rw [(View.push_send hk h1 h2 h3 hop).2.1], .inr ⟨hst, hnf⟩⟩
  | cancel hk' => rcases hk' with hk' | hk' <;> simp [hk'] at hk
  | _ => simp_all

theorem not_resendable_of_unknown {v : View} (h : v.status.1 = .unknown) : ¬ Resendable v := by
  rintro (hr | ⟨hr, -⟩) <;> rw [h] at hr <;> cases hr

/-- What a RESULT settles: its SEND is the last record, and it either takes it out of the count or leaves an intent
that is not resendable. -/
theorem Writes.result_settles (h : Writes R g c start w e) (hk : e.kind = .result) :
    ∃ l s, w.journal = l ++ [s] ∧ isSendOf e.intentId s = true ∧
      (settles s e = true ∨ ¬ Resendable ((view w.journal e.intentId).push e)) := by
  cases h with
  | result i n r hk hp hi hn hlast hr hst hres hconf =>
    obtain ⟨s, b, hlast, hsk, hsid, hsp⟩ := hlast
    obtain ⟨l, hl⟩ := List.getLast?_eq_some_iff.1 hlast
    refine ⟨l, s, hl, by simp [isSendOf, hsk, hsid], ?_⟩
    have hv : verdictOf e.payload = some (safeResult "submit raised" r).verdict := by rw [hp, verdictOf_resultPayload]
    have hpush := View.push_result hk hv (View.live_of_unknown hst) hconf
    by_cases ho : (safeResult "submit raised" r).verdict.noOrder = true
    · refine .inl ?_
      have ha : attemptOf e = attemptOf s := by
        simp [attemptOf, hp, hsp, resultPayload, sendPayload]
      simp [settles, hk, hsid, ha, hv, ho]
    · refine .inr ?_
      rintro (hrr | ⟨hrr, -⟩) <;> rw [hpush] at hrr <;>
        cases hx : (safeResult "submit raised" r).verdict <;>
          simp_all [View.afterVerdict, SubmitVerdict.noOrder, IntentStatus.sendable]
  | cancel hk' => rcases hk' with hk' | hk' <;> simp [hk'] at hk
  | _ => simp_all

theorem Writes.notFound_first (h : Writes R g c start w e) (hk : e.kind = .notFound) :
    nNotFound w.journal e.intentId = 0 ∧ ((view w.journal e.intentId).push e).status.1 = .notFound := by
  cases h with
  | notFound i hk hi hst hs hfirst =>
    refine ⟨List.countP_eq_zero.2 (fun x hx h => ?_), ?_⟩
    · simp only [Bool.and_eq_true, beq_iff_eq] at h
      exact hfirst x hx h.2 h.1
    · rw [(View.push_notFound hk (View.live_of_unknown hst) hs).1]
  | cancel hk' => rcases hk' with hk' | hk' <;> simp [hk'] at hk
  | _ => simp_all

theorem nNotFound_same {j : Journal} {id : String} (h : ¬ (e.kind = .notFound ∧ e.intentId = id)) :
    nNotFound (j ++ [e]) id = nNotFound j id := by
  rw [nNotFound_snoc, if_neg h, Nat.add_zero]

theorem nRisky_le_of_not_send {j : Journal} {id : String} (h : isSendOf id e = false) :
    nRisky (j ++ [e]) id ≤ nRisky j id := by
  have := nRisky_snoc_le j e id
  rwa [if_neg (by simp [h]), Nat.add_zero] at this

theorem bounded_wrote (hw : Writes R g c start w e) (id : String) (h : Bounded w.journal id) :
    Bounded (w.journal ++ [e]) id := by
  by_cases hid : e.intentId = id
  · subst hid
    have hview := view_snoc_self w.journal e
    by_cases h1 : e.kind = .send
    · have hnf : nNotFound (w.journal ++ [e]) e.intentId = nNotFound w.journal e.intentId :=
        nNotFound_same (by simp [h1])
      obtain ⟨hun, hres⟩ := hw.send_unknown h1
      have hle := nRisky_snoc_le w.journal e e.intentId
      rw [if_pos (by simp [isSendOf, h1])] at hle
      have := h.idle hres
      refine ⟨by rw [hnf]; exact h.one, by rw [hnf]; omega, fun hr => ?_⟩
      rw [hview] at hr
      exact absurd hr (not_resendable_of_unknown hun)
    · have hle := @nRisky_le_of_not_send e w.journal e.intentId (by simp [isSendOf, h1])
      by_cases h2 : e.kind = .result
      · have hnf : nNotFound (w.journal ++ [e]) e.intentId = nNotFound w.journal e.intentId :=
          nNotFound_same (by simp [h2])
        have hrisky := h.risky
        refine ⟨by rw [hnf]; exact h.one, by rw [hnf]; omega, fun hr => ?_⟩
        rw [hnf]
        obtain ⟨l, s, hl, hs, hset | hset⟩ := hw.result_settles h2
        · have hcount := nRisky_snoc_send (j := l) hs
          have hdrop := @nRisky_settled l s e e.intentId hset
          rw [hl] at hrisky ⊢
          omega
        · rw [hview] at hr
          exact absurd hr hset
      · by_cases h3 : e.kind = .notFound
        · obtain ⟨h0, -⟩ := hw.notFound_first h3
          have hnf : nNotFound (w.journal ++ [e]) e.intentId = 1 := by
            rw [nNotFound_snoc, if_pos ⟨h3, rfl⟩, h0]
          have hrisky := h.risky
          rw [h0] at hrisky
          exact ⟨by omega, by omega, fun _ => by omega⟩
        · have hnf : nNotFound (w.journal ++ [e]) e.intentId = nNotFound w.journal e.intentId :=
            nNotFound_same (by simp [h3])
          have hrisky := h.risky
          refine ⟨by rw [hnf]; exact h.one, by rw [hnf]; omega, fun hr => ?_⟩
          rw [hview] at hr
          have hidle : nRisky w.journal e.intentId ≤ nNotFound w.journal e.intentId := by
            rcases hw.resendable h1 h2 h3 hr with hold | ⟨hold, -⟩
            · exact h.idle (.inl hold)
            · exact h.idle hold
          omega
  · have hle := @nRisky_le_of_not_send e w.journal id (by simp [isSendOf, hid])
    have hnf : nNotFound (w.journal ++ [e]) id = nNotFound w.journal id := nNotFound_same (by simp [hid])
    have hrisky := h.risky
    refine ⟨by rw [hnf]; exact h.one, by rw [hnf]; omega, fun hr => ?_⟩
    rw [view_snoc_of_ne hid] at hr
    have := h.idle hr
    omega

theorem single_wrote (hw : Writes R g c start w e) (id : String)
    (hno : ∀ i, (view w.journal id).intent = some i → i.phase = .exit → g.limits.exitResendOnAmbiguous = false)
    (h : Single w.journal id) : Single (w.journal ++ [e]) id := by
  by_cases hid : e.intentId = id
  · subst hid
    have hview := view_snoc_self w.journal e
    by_cases h1 : e.kind = .send
    · have hnf : nNotFound (w.journal ++ [e]) e.intentId = nNotFound w.journal e.intentId :=
        nNotFound_same (by simp [h1])
      have hsend : (view w.journal e.intentId).status.1.sendable = true := by
        cases hw with
        | send i b hk hp hi hst hrisk hcall => exact hst
        | resend i hk hp hi hexit hflag hst hnf hop hlast hstart hcall =>
          rw [hno i hi hexit] at hflag
          cases hflag
        | cancel hk' => rcases hk' with hk' | hk' <;> simp [hk'] at h1
        | _ => simp_all
      obtain ⟨h0, h0'⟩ := h.idle hsend
      have hle := nRisky_snoc_le w.journal e e.intentId
      rw [if_pos (by simp [isSendOf, h1])] at hle
      refine ⟨by omega, fun hr => ?_, fun _ _ _ => by rw [hnf, h0']⟩
      rw [hview, (hw.send_unknown h1).1] at hr
      cases hr
    · have hns : isSendOf e.intentId e = false := by simp [isSendOf, h1]
      have hle := nRisky_le_of_not_send (j := w.journal) hns
      have hlast : ∀ s, (w.journal ++ [e]).getLast? = some s → isSendOf e.intentId s = true →
          nNotFound (w.journal ++ [e]) e.intentId = 0 := by
        intro s hs hsend
        rw [List.getLast?_concat, Option.some.injEq] at hs
        rw [← hs, hns] at hsend
        cases hsend
      have hrisky := h.risky
      by_cases h2 : e.kind = .result
      · have hnf : nNotFound (w.journal ++ [e]) e.intentId = nNotFound w.journal e.intentId :=
          nNotFound_same (by simp [h2])
        refine ⟨by omega, fun hr => ?_, hlast⟩
        obtain ⟨l, s, hl, hs, hset | hset⟩ := hw.result_settles h2
        · have hcount := nRisky_snoc_send (j := l) hs
          have hdrop := @nRisky_settled l s e e.intentId hset
          have h0 := h.sent s (by rw [hl]; simp) hs
          rw [hl] at hrisky hnf h0 ⊢
          omega
        · rw [hview] at hr
          exact absurd (.inl hr) hset
      · by_cases h3 : e.kind = .notFound
        · obtain ⟨-, hst⟩ := hw.notFound_first h3
          refine ⟨by omega, fun hr => ?_, hlast⟩
          rw [hview, hst] at hr
          cases hr
        · have hnf : nNotFound (w.journal ++ [e]) e.intentId = nNotFound w.journal e.intentId :=
            nNotFound_same (by simp [h3])
          refine ⟨by omega, fun hr => ?_, hlast⟩
          rw [hview] at hr
          rcases hw.resendable h1 h2 h3 (.inl hr) with hold | ⟨-, hold⟩
          · have := h.idle hold
            omega
          · rw [hold] at hr
            cases hr
  · have hns : isSendOf id e = false := by simp [isSendOf, hid]
    have hle := nRisky_le_of_not_send (j := w.journal) hns
    have hnf : nNotFound (w.journal ++ [e]) id = nNotFound w.journal id := nNotFound_same (by simp [hid])
    have hrisky := h.risky
    refine ⟨by omega, fun hr => ?_, fun s hs hsend => ?_⟩
    · rw [view_snoc_of_ne hid] at hr
      have := h.idle hr
      omega
    · rw [List.getLast?_concat, Option.some.injEq] at hs
      rw [← hs, hns] at hsend
      cases hsend

/-! ## The POSTs -/

/-- Every POST has a SEND of its own intent directly before it, and no two the same. -/
structure Logged (w : World) : Prop where
  sent : ∀ p ∈ w.posts, 0 < p.sentAt ∧ sendsAt w.journal p.intent.intentId (p.sentAt - 1) = true
  ordered : w.posts.Pairwise (fun p q => p.sentAt < q.sentAt)

theorem sendsAt_lt {j : Journal} {id : String} {k : Nat} (h : sendsAt j id k = true) : k < j.length := by
  unfold sendsAt at h
  rw [Option.any_eq_true] at h
  obtain ⟨s, hs, -⟩ := h
  exact (List.getElem?_eq_some_iff.1 hs).1

theorem logged_step {w' : World} (h : Step R g c start w w') (hl : Logged w) : Logged w' := by
  cases h with
  | quiet w' hj hp hh => exact ⟨fun p hpm => by rw [hj]; exact hl.sent p (hp ▸ hpm), by rw [hp]; exact hl.ordered⟩
  | wrote e happ hs hw =>
    refine ⟨fun p hpm => ?_, hl.ordered⟩
    obtain ⟨h0, hsend⟩ := hl.sent p hpm
    exact ⟨h0, by rw [World.wrote_journal, sendsAt_snoc_of_lt (sendsAt_lt hsend)]; exact hsend⟩
  | posted i hd s hlast hk hid hi hst hnew hcall =>
    obtain ⟨l, hj⟩ := List.getLast?_eq_some_iff.1 hlast
    refine ⟨fun p hpm => ?_, List.pairwise_append.2 ⟨hl.ordered, List.pairwise_singleton _ _, fun p hpm q hq => ?_⟩⟩
    · rcases List.mem_append.1 hpm with hpm | hpm
      · exact hl.sent p hpm
      · rw [List.mem_singleton.1 hpm]
        dsimp only
        rw [World.posted_journal, hj]
        exact ⟨by simp, by simp [sendsAt, isSendOf, hk, hid]⟩
    · rw [List.mem_singleton.1 hq]
      exact hnew p hpm

/-- POSTs at distinct places of a kind are no more than the places. -/
theorem length_le_countP {posts : List Post} {n : Nat} {q : Nat → Bool}
    (ho : posts.Pairwise (fun a b => a.sentAt < b.sentAt))
    (hq : ∀ p ∈ posts, 0 < p.sentAt ∧ p.sentAt - 1 < n ∧ q (p.sentAt - 1) = true) :
    posts.length ≤ (List.range n).countP q := by
  have hnd : (posts.map (fun p => p.sentAt - 1)).Nodup := by
    rw [List.nodup_iff_pairwise_ne, List.pairwise_map]
    refine ho.imp_of_mem (fun {a b} ha hb hlt => ?_)
    have h1 := (hq a ha).1
    omega
  have hsub : posts.map (fun p => p.sentAt - 1) ⊆ (List.range n).filter q := by
    intro k hk
    obtain ⟨p, hp, rfl⟩ := List.mem_map.1 hk
    obtain ⟨-, h2, h3⟩ := hq p hp
    exact List.mem_filter.2 ⟨List.mem_range.2 h2, h3⟩
  have := (List.subperm_of_subset hnd hsub).length_le
  rwa [List.length_map, ← List.countP_eq_length_filter] at this

def riskyPosts (w : World) (id : String) : List Post := (postsOf w id).filter (risky w)

theorem riskyPosts_le (hl : Logged w) (id : String) : (riskyPosts w id).length ≤ nRisky w.journal id := by
  refine length_le_countP ((hl.ordered.filter _).filter _) (fun p hp => ?_)
  obtain ⟨hp, hr⟩ := List.mem_filter.1 hp
  obtain ⟨hp, hid⟩ := List.mem_filter.1 hp
  rw [beq_iff_eq] at hid
  obtain ⟨h0, hsend⟩ := hl.sent p hp
  refine ⟨h0, sendsAt_lt hsend, ?_⟩
  rw [hid] at hsend
  unfold sendsAt at hsend
  rw [Option.any_eq_true] at hsend
  obtain ⟨s, hs, hss⟩ := hsend
  have hsub : p.sentAt - 1 + 1 = p.sentAt := by omega
  simp only [risky, sendOf, if_neg (Nat.ne_of_gt h0), hs, Option.all_some] at hr
  simp only [riskyAt, hs, Option.any_some, hss, hsub, Bool.true_and]
  exact hr

theorem posts_le_sends (hl : Logged w) (id : String) : (postsOf w id).length ≤ (stateOf w.journal id).nSends := by
  show _ ≤ (view w.journal id).sends
  rw [← nSendsIn_eq]
  refine length_le_countP (hl.ordered.filter _) (fun p hp => ?_)
  obtain ⟨hp, hid⟩ := List.mem_filter.1 hp
  rw [beq_iff_eq] at hid
  obtain ⟨h0, hsend⟩ := hl.sent p hp
  exact ⟨h0, sendsAt_lt hsend, hid ▸ hsend⟩

end steps

/-! ## Whole runs -/

section runs

variable {R : OrderGateway → Call → Rules} {A : OrderGateway → Call → Prop} {w : World}

theorem session_logged (h : Session R A World.empty w) : Logged w :=
  (session_invariant (I := Logged) (fun _ _ _ h => ⟨h.sent, h.ordered⟩) (fun _ _ _ _ _ _ hI hs => logged_step hs hI)
    timely_empty ⟨fun _ hp => absurd hp List.not_mem_nil, List.Pairwise.nil⟩ h).1

theorem session_bounded (h : Session R A World.empty w) (id : String) : Bounded w.journal id := by
  refine (session_invariant (I := fun x => Bounded x.journal id) (fun _ _ _ h => h) (fun g c start x y _ hI hs => ?_)
    timely_empty ⟨Nat.zero_le _, Nat.zero_le _, fun _ => Nat.le_refl _⟩ h).1
  cases hs with
  | quiet y hj hp hh => rw [hj]; exact hI
  | wrote e happ hs hw => exact bounded_wrote hw id hI
  | posted i hd s hlast hk hid hi hst hnew hcall => exact hI

/-- No gateway of the run resends exits, or the intent buys. -/
def NotResent (A : OrderGateway → Call → Prop) (j : Journal) (id : String) : Prop :=
  (∀ g c, A g c → g.limits.exitResendOnAmbiguous = false) ∨ ∃ i, (stateOf j id).intent = some i ∧ i.side = .buy

theorem session_single (h : Session R A World.empty w) (id : String) (hn : NotResent A w.journal id) :
    Single w.journal id := by
  refine (session_invariant (I := fun x => NotResent A x.journal id → Single x.journal id) (fun _ _ _ h => h)
    (fun g c start x y hA hI hs => ?_) timely_empty
    (fun _ => ⟨Nat.zero_le _, fun _ => ⟨rfl, rfl⟩, fun s hs => by cases hs⟩) h).1 hn
  cases hs with
  | quiet y hj hp hh => rw [hj]; exact hI
  | posted i hd s hlast hk hid hi hst hnew hcall => exact hI
  | wrote e happ hs hw =>
    intro hn
    by_cases hold : NotResent A x.journal id
    · refine single_wrote hw id (fun i hi hexit => ?_) (hI hold)
      rcases hold with hflag | ⟨i', hi', hbuy⟩
      · exact hflag g c hA
      · rw [show i' = i from Option.some.inj (hi'.symm.trans hi), OrderIntent.buy_iff_entry, hexit] at hbuy
        cases hbuy
    · -- the record is the INTENT that makes it a buy, and nothing else of the intent is there yet
      have hnew : e.kind = .intent ∧ e.intentId = id := by
        by_contra hne
        refine hold (hn.imp (fun h => h) ?_)
        rintro ⟨i, hi, hbuy⟩
        refine ⟨i, ?_, hbuy⟩
        change (view (x.journal ++ [e]) id).intent = some i at hi
        rw [view_snoc] at hi
        split_ifs at hi with hid
        · rwa [View.push_intent (fun hk => hne ⟨hk, hid⟩)] at hi
        · exact hi
      obtain ⟨hk, rfl⟩ := hnew
      have hnot : e.intentId ∉ idsOf x.journal := by
        cases hw with
        | intent i hk' hid hp hnew => exact hnew
        | cancel hk' => rcases hk' with hk' | hk' <;> simp [hk'] at hk
        | _ => simp_all
      obtain ⟨h0, h1⟩ := counts_of_not_mem hnot
      have hns : isSendOf e.intentId e = false := by simp [isSendOf, hk]
      have hle := nRisky_le_of_not_send (j := x.journal) hns
      have hnf : nNotFound (x.journal ++ [e]) e.intentId = nNotFound x.journal e.intentId := nNotFound_same (by simp [hk])
      exact ⟨by rw [World.wrote_journal]; omega, fun _ => by rw [World.wrote_journal]; omega,
        fun _ _ _ => by rw [World.wrote_journal]; omega⟩

end runs

/-- **No double order**: over every run from the empty journal, an intent that buys, or that no gateway of the run may
resend, has at most one risky POST and any other at most two; every POST directly follows a SEND of its intent in the
journal, and the POSTs of an intent are no more than the sends its state counts. -/
theorem risky_posts_bounded {A : OrderGateway → Call → Prop} {w : World}
    (h : Session (fun _ _ => anything) A World.empty w) :
    (∀ id, NotResent A w.journal id → (riskyPosts w id).length ≤ 1) ∧ (∀ id, (riskyPosts w id).length ≤ 2) ∧
      (∀ p ∈ w.posts, ∃ s, sendOf w p = some s ∧ s.kind = .send ∧ s.intentId = p.intent.intentId) ∧
      (∀ id s, derived w.journal id = some s → (postsOf w id).length ≤ s.nSends) := by
  have hl := session_logged h
  refine ⟨fun id hn => ?_, fun id => ?_, fun p hp => ?_, fun id s hs => ?_⟩
  · exact Nat.le_trans (riskyPosts_le hl id) (session_single h id hn).risky
  · have hb := session_bounded h id
    have := riskyPosts_le hl id
    have h1 := hb.one
    have h2 := hb.risky
    omega
  · obtain ⟨h0, hsend⟩ := hl.sent p hp
    unfold sendsAt at hsend
    rw [Option.any_eq_true] at hsend
    obtain ⟨s, hs, hss⟩ := hsend
    simp only [isSendOf, Bool.and_eq_true, beq_iff_eq] at hss
    exact ⟨s, by rw [sendOf, if_neg (Nat.ne_of_gt h0), hs], hss.1, hss.2⟩
  · obtain ⟨-, -, rfl⟩ := derived_eq_some.1 hs
    exact posts_le_sends hl id

namespace Sample

/-- The broker never answers. -/
def lost : World := ordered (broker (fun _ => verdict .ambiguous none) (fun _ => false)) samsung

end Sample

theorem risky_posts_bounded_lost : (riskyPosts Sample.lost Sample.samsung.intentId).length = 1 ∧
    (riskyPosts Sample.lost Sample.samsung.intentId).length ≤ 1 :=
  ⟨by decide +kernel, (risky_posts_bounded (Sample.session_ordered _ _)).1 _
    (.inr ⟨Sample.samsung, by decide +kernel, rfl⟩)⟩

end Order
