import KClosingAlpha.Order.Sound
import KClosingAlpha.Order.Gateway
/-!
# Status — the status of a view, and what one event does to it

The statuses fall into four groups: closed by a final BROKER_STATE, bound to a broker order, not found, and live.  A
live intent is the only kind that can still be sent or lost, and each lemma below says where one event takes it.
-/
namespace Order

theorem kind_beq (a b : JournalEventKind) : (a == b) = decide (a = b) := rfl

namespace View

variable {v : View} {e : JournalEvent}

/-- Neither closed nor bound nor rejected nor given up. -/
structure Live (v : View) : Prop where
  open_ : v.finalPayload = none
  unbound : v.bound = false
  unrejected : v.rejected = false
  sought : v.notFound = false
  unresolved : v.operatorNotFound = false

theorem Live.status_eq (h : v.Live) : v.status =
    if 0 < v.sends ∧ (v.result = none ∨ v.conflict = true) then (.unknown, false)
    else if v.verdict = some .ambiguous then (.unknown, false)
    else if v.verdict.any SubmitVerdict.retryable then (.notSent, false)
    else if v.skipped then (.skipped, true)
    else (.recorded, false) := by
  unfold status openStatus
  rw [h.open_, h.unbound, h.unrejected, h.sought, h.unresolved]
  simp

theorem finalStatus_cases (i : Option OrderIntent) (p : Payload) : finalStatus i p = .filled ∨
    finalStatus i p = .partlyFilled ∨ finalStatus i p = .cancelled ∨ finalStatus i p = .unfilled := by
  unfold finalStatus
  simp only
  split_ifs <;> simp

/-- Every view is closed, bound, rejected, given up or live. -/
theorem status_cases (v : View) : (∃ p, v.finalPayload = some p ∧ v.status = (finalStatus v.intent p, true)) ∨
    (v.finalPayload = none ∧ v.bound = true ∧ v.status = (.acked, false)) ∨
    (v.finalPayload = none ∧ v.bound = false ∧ v.rejected = true ∧ v.status = (.rejected, true)) ∨
    (v.finalPayload = none ∧ v.bound = false ∧ v.rejected = false ∧ (v.notFound = true ∨ v.operatorNotFound = true) ∧
      v.status = (.notFound, false)) ∨ v.Live := by
  unfold status openStatus
  cases hf : v.finalPayload with
  | some p => exact .inl ⟨p, rfl, rfl⟩
  | none =>
    cases hb : v.bound with
    | true => simp
    | false =>
      cases hr : v.rejected with
      | true => simp
      | false =>
        cases hn : v.notFound with
        | true => simp
        | false =>
          cases ho : v.operatorNotFound with
          | true => simp
          | false => exact .inr (.inr (.inr (.inr ⟨hf, hb, hr, hn, ho⟩)))

theorem Live.status_mem (h : v.Live) : v.status = (.unknown, false) ∨ v.status = (.notSent, false) ∨
    v.status = (.skipped, true) ∨ v.status = (.recorded, false) := by
  rw [h.status_eq]
  split_ifs <;> simp

theorem live_of_sendable (h : v.status.1.sendable = true) : v.Live := by
  rcases v.status_cases with ⟨p, -, hs⟩ | ⟨-, -, hs⟩ | ⟨-, -, -, hs⟩ | ⟨-, -, -, -, hs⟩ | hl
  · rw [hs] at h
    rcases finalStatus_cases v.intent p with h' | h' | h' | h' <;> rw [h'] at h <;> cases h
  · rw [hs] at h; cases h
  · rw [hs] at h; cases h
  · rw [hs] at h; cases h
  · exact hl

theorem live_of_unknown (h : v.status.1 = .unknown) : v.Live := by
  rcases v.status_cases with ⟨p, -, hs⟩ | ⟨-, -, hs⟩ | ⟨-, -, -, hs⟩ | ⟨-, -, -, -, hs⟩ | hl
  · rw [hs] at h
    rcases finalStatus_cases v.intent p with h' | h' | h' | h' <;> rw [h'] at h <;> cases h
  · rw [hs] at h; cases h
  · rw [hs] at h; cases h
  · rw [hs] at h; cases h
  · exact hl

theorem not_final_of_unknown (h : v.status.1 = .unknown) : v.status.2 = false := by
  rcases (live_of_unknown h).status_mem with hs | hs | hs | hs <;> rw [hs] at h ⊢
  cases h

theorem not_final_of_sendable (h : v.status.1.sendable = true) : v.status.2 = false := by
  rcases (live_of_sendable h).status_mem with hs | hs | hs | hs <;> rw [hs] at h ⊢
  cases h

theorem acked_iff : v.status.1 = .acked ↔ v.finalPayload = none ∧ v.bound = true := by
  rcases v.status_cases with ⟨p, hf, hs⟩ | ⟨hf, hb, hs⟩ | ⟨hf, hb, -, hs⟩ | ⟨hf, hb, -, -, hs⟩ | hl
  · rw [hs, hf]
    rcases finalStatus_cases v.intent p with h' | h' | h' | h' <;> simp [h']
  · simp [hs, hf, hb]
  · simp [hs, hb]
  · simp [hs, hb]
  · rcases hl.status_mem with hs | hs | hs | hs <;> simp [hs, hl.unbound]

theorem not_final_of_acked (h : v.status.1 = .acked) : v.status.2 = false := by
  obtain ⟨hf, hb⟩ := acked_iff.1 h
  simp [status, openStatus, hf, hb]

theorem notFound_iff : v.status.1 = .notFound ↔ v.finalPayload = none ∧ v.bound = false ∧ v.rejected = false ∧
    (v.notFound = true ∨ v.operatorNotFound = true) := by
  rcases v.status_cases with ⟨p, hf, hs⟩ | ⟨hf, hb, hs⟩ | ⟨hf, hb, hr, hs⟩ | ⟨hf, hb, hr, hn, hs⟩ | hl
  · rw [hs, hf]
    rcases finalStatus_cases v.intent p with h' | h' | h' | h' <;> simp [h']
  · simp [hs, hb]
  · simp [hs, hr]
  · simp [hs, hf, hb, hr, hn]
  · rcases hl.status_mem with hs | hs | hs | hs <;> simp [hs, hl.sought, hl.unresolved]

theorem not_final_of_notFound (h : v.status.1 = .notFound) : v.status.2 = false := by
  obtain ⟨hf, hb, hr, hn⟩ := notFound_iff.1 h
  rcases hn with hn | hn <;> simp [status, openStatus, hf, hb, hr, hn]

/-! ## One event -/

@[simp] theorem push_intent (h : e.kind ≠ .intent) : (v.push e).intent = v.intent := by simp [push, h]

@[simp] theorem push_sends (h : e.kind ≠ .send) : (v.push e).sends = v.sends := by simp [push, h]

theorem push_sends_send (h : e.kind = .send) : (v.push e).sends = v.sends + 1 := by simp [push, h]

theorem binds_false (h1 : e.kind ≠ .result) (h2 : e.kind ≠ .adopt) (h3 : e.kind ≠ .operatorResolve) :
    binds e = false := by
  simp [binds, isVerdict, isAdoption, h1, h2, h3]

theorem push_numbers (h : binds e = false) : (v.push e).numbers = v.numbers := by simp [push, h]

theorem push_bound (h : binds e = false) : (v.push e).bound = v.bound := by simp [push, h]

/-- A cancel leaves no trace in the view. -/
theorem push_cancel (h : e.kind = .cancelSend ∨ e.kind = .cancelResult) : v.push e = v := by
  rcases h with h | h <;>
    simp [push, h, binds, isVerdict, isAdoption, isFinalState, isOperatorNotFound, kind_beq]

/-- A SEND of a live intent, or of one its own polls gave up, makes it UNKNOWN until the RESULT. -/
theorem push_send (h : e.kind = .send) (h1 : v.finalPayload = none) (h2 : v.bound = false) (h3 : v.rejected = false)
    (h4 : v.operatorNotFound = false) : (v.push e).Live ∧ (v.push e).status = (.unknown, false) ∧
      (v.push e).result = none ∧ (v.push e).conflict = false := by
  have hl : (v.push e).Live := by
    refine ⟨?_, ?_, ?_, ?_, ?_⟩ <;>
      simp [push, h, h1, h2, h3, h4, binds, isVerdict, isAdoption, isFinalState, isOperatorNotFound]
  refine ⟨hl, ?_, by simp [push, h], by simp [push, h]⟩
  rw [hl.status_eq, if_pos ⟨by simp [push, h], .inl (by simp [push, h])⟩]

/-- The status a RESULT gives an intent that waits for it. -/
def afterVerdict : SubmitVerdict → IntentStatus × Bool
  | .accepted => (.acked, false)
  | .rejected => (.rejected, true)
  | .ambiguous => (.unknown, false)
  | .throttled | .authRejected | .notSent => (.notSent, false)

theorem push_result {x : SubmitVerdict} (h : e.kind = .result) (hv : verdictOf e.payload = some x) (hl : v.Live)
    (hc : v.conflict = false) : (v.push e).status = afterVerdict x := by
  have ho := hl.open_
  have hb := hl.unbound
  have hr := hl.unrejected
  have hn := hl.sought
  have hu := hl.unresolved
  cases x <;>
    simp [afterVerdict, status, openStatus, verdict, push, h, hv, ho, hb, hr, hn, hu, hc, binds, isVerdict, isAdoption,
      isFinalState, isOperatorNotFound, SubmitVerdict.retryable]

/-- A RESULT that does not settle the attempt leaves the intent live. -/
theorem push_result_live {x : SubmitVerdict} (h : e.kind = .result) (hv : verdictOf e.payload = some x) (hl : v.Live)
    (h1 : x ≠ .accepted) (h2 : x ≠ .rejected) : (v.push e).Live := by
  have ho := hl.open_
  have hb := hl.unbound
  have hr := hl.unrejected
  have hn := hl.sought
  have hu := hl.unresolved
  refine ⟨?_, ?_, ?_, ?_, ?_⟩ <;>
    simp [push, h, hv, ho, hb, hr, hn, hu, h1, h2, binds, isVerdict, isAdoption, isFinalState, isOperatorNotFound]

/-- A NOT_FOUND after a SEND. -/
theorem push_notFound (h : e.kind = .notFound) (hl : v.Live) (hs : 0 < v.sends) :
    (v.push e).status = (.notFound, false) ∧ (v.push e).notFound = true ∧ (v.push e).operatorNotFound = false ∧
      (v.push e).bound = false ∧ (v.push e).rejected = false ∧ (v.push e).finalPayload = none := by
  have ho := hl.open_
  have hb := hl.unbound
  have hr := hl.unrejected
  have hu := hl.unresolved
  refine ⟨?_, ?_, ?_, ?_, ?_, ?_⟩ <;>
    simp [status, openStatus, push, h, ho, hb, hr, hu, hs, binds, isVerdict, isAdoption, isFinalState,
      isOperatorNotFound]

/-- An adoption binds an open intent. -/
theorem push_adoption (h : isAdoption e = true) (ho : v.finalPayload = none) :
    (v.push e).status = (.acked, false) ∧
      (v.push e).numbers = (numberOf e.payload "broker_order_no", numberOf e.payload "broker_org_no") ∧
      (v.push e).finalPayload = none := by
  have hk : e.kind = .adopt ∨ e.kind = .operatorResolve := by
    simp only [isAdoption, Bool.or_eq_true, Bool.and_eq_true, beq_iff_eq] at h
    exact h.imp_right And.left
  have hf : isFinalState e = false := by rcases hk with hk | hk <;> simp [isFinalState, hk]
  simp [status, openStatus, push, hf, h, ho, binds]

/-- A conflict leaves an UNKNOWN intent UNKNOWN. -/
theorem push_conflict (h : e.kind = .resolveConflict) (hst : v.status.1 = .unknown) :
    (v.push e).status = (.unknown, false) := by
  have hl := live_of_unknown hst
  have hl' : (v.push e).Live := by
    have ho := hl.open_
    have hb := hl.unbound
    have hr := hl.unrejected
    have hn := hl.sought
    have hu := hl.unresolved
    refine ⟨?_, ?_, ?_, ?_, ?_⟩ <;>
      simp [push, h, ho, hb, hr, hn, hu, binds, isVerdict, isAdoption, isFinalState, isOperatorNotFound]
  have hs : (v.push e).sends = v.sends := by simp [push, h]
  have hr : (v.push e).result = v.result := by simp [push, h]
  have hc : (v.push e).conflict = true := by simp [push, h]
  rw [hl'.status_eq, verdict, hs, hr, hc]
  rw [hl.status_eq, verdict] at hst
  by_cases h0 : 0 < v.sends
  · simp [h0]
  · rw [if_neg (fun h => h0 h.1)] at hst ⊢
    split_ifs at hst ⊢
    rfl

theorem push_operatorNotFound (h : isOperatorNotFound e = true) (hl : v.Live) :
    (v.push e).status = (.notFound, false) := by
  have hk : e.kind = .operatorResolve := by
    simp only [isOperatorNotFound, Bool.and_eq_true, beq_iff_eq] at h
    exact h.1
  have hr : e.payload.lookup "resolution" = some (.str "not_found") := by
    simpa [isOperatorNotFound, hk] using h
  have ho := hl.open_
  have hb := hl.unbound
  have hrj := hl.unrejected
  simp [status, openStatus, push, hk, hr, ho, hb, hrj, binds, isVerdict, isAdoption, isFinalState, isOperatorNotFound]

/-- A SKIP of an intent that could still be sent takes up nothing. -/
theorem push_skip (h : e.kind = .skip) (hst : v.status.1.sendable = true) :
    (v.push e).status.1.exposed = false := by
  have hl := live_of_sendable hst
  have hl' : (v.push e).Live := by
    have ho := hl.open_
    have hb := hl.unbound
    have hr := hl.unrejected
    have hn := hl.sought
    have hu := hl.unresolved
    refine ⟨?_, ?_, ?_, ?_, ?_⟩ <;>
      simp [push, h, ho, hb, hr, hn, hu, binds, isVerdict, isAdoption, isFinalState, isOperatorNotFound]
  have h1 : (v.push e).sends = v.sends := by simp [push, h]
  have h2 : (v.push e).result = v.result := by simp [push, h]
  have h3 : (v.push e).conflict = v.conflict := by simp [push, h]
  rw [hl.status_eq] at hst
  rw [hl'.status_eq, verdict, h1, h2, h3]
  unfold verdict at hst
  split_ifs at hst ⊢ <;> first | rfl | cases hst

theorem sendable_start : View.start.status.1.sendable = true := rfl

end View
end Order
