import KClosingAlpha.Alert.OutboxDrain
import KClosingAlpha.Alert.PagerRuns
import KClosingAlpha.Alert.Reconcile
import Mathlib
/-!
# RunOutcome — what a job says of its run (`tools/run_outcome`)

A job records how its run ended.  The reason is masked and cut before it goes anywhere; a critical outcome is paged under
the job's source, an `OK` resolves that source, and everything else stays in the event log.  The file of the log and the
measures of a record are left out.
-/
namespace Alert

open Redaction (secretMinMaskChars)
open Regex (Text)
open Outbox (redact Hides hides_redact)

/-- `RUN_OUTCOMES`. -/
def runOutcomes : List String := ["OK", "DEGRADED", "NO_DECISION", "SKIPPED"]

/-- `RUN_OUTCOMES_ALERTED`. -/
def runOutcomesAlerted : List String := ["DEGRADED", "NO_DECISION"]

/-- `RUN_EVENT_REASON_MAX_CHARS`. -/
def runEventReasonMaxChars : ℕ := 300

/-! ## Which outcome pages (`alert_policy`) -/

structure OutcomeRule where
  kind : IncidentKind
  outcomes : List String
  silentReasons : List Text

/-- `CRITICAL_RUN_OUTCOMES`. -/
def criticalRunOutcomes : Py.Dict OutcomeRule :=
  [("order_entry", ⟨.orderEntry, runOutcomesAlerted, []⟩), ("order_exit", ⟨.orderExit, runOutcomesAlerted, []⟩),
    ("order_reconcile_entry", ⟨.orderReconcileEntry, runOutcomesAlerted, ["partial_or_unfilled".toList]⟩),
    ("order_reconcile_exit", ⟨.orderReconcileExit, runOutcomesAlerted, []⟩), ("collect", ⟨.collect, ["NO_DECISION"], []⟩),
    ("predict", ⟨.predict, ["NO_DECISION"], []⟩),
    ("finalize_close", ⟨.finalizeClose, ["DEGRADED"], ["calendar_unavailable".toList]⟩)]

def classifyRunOutcome (job outcome : String) (reason : Text) : Option IncidentKind :=
  if job = "price_ingest" then
    if outcome = "DEGRADED" ∧ reason = "stale_panel".toList then some .pricePanelStale else none
  else
    match criticalRunOutcomes.lookup job with
    | none => none
    | some rule => if outcome ∉ rule.outcomes ∨ rule.silentReasons.contains reason then none else some rule.kind

/-! ## Recording -/

/-- The source a job's run is paged under. -/
def runSource (job : String) : String := "run:" ++ job

structure RunRecord where
  job : String
  runDate : String
  outcome : String
  reason : Text
  deriving DecidableEq

/-- The two `ValueError`s. -/
inductive RecordError where
  | unknownOutcome (outcome : String)
  | blankSkip
  deriving DecidableEq

/-- A call of `record_run_outcome`, at a moment. -/
structure Recording where
  job : String
  outcome : String
  runDate : String
  reason : Text
  now : Int

/-- The event that is recorded; `secrets` are the configured values at that moment. -/
def recordRunOutcome (isalnum : Char → Bool) (secrets : List Text) (c : Recording) : Except RecordError RunRecord :=
  if c.outcome ∉ runOutcomes then .error (.unknownOutcome c.outcome)
  else if c.outcome = "SKIPPED" ∧ Py.stripChars c.reason = [] then .error .blankSkip
  else
    .ok ⟨c.job, c.runDate, c.outcome,
      if c.reason = [] then [] else (redact isalnum c.reason secrets).take runEventReasonMaxChars⟩

/-- `_route_outcome`: what is asked of the pager. -/
def routeOutcome (r : RunRecord) : Option Op :=
  if r.outcome = "OK" then some (.resolve [runSource r.job])
  else (classifyRunOutcome r.job r.outcome r.reason).map (fun kind => .page kind (runSource r.job) (incidentScope kind) none)

/-- The outcomes that are routed. -/
def RunRecord.op (r : RunRecord) : Option Op :=
  if r.outcome ∈ runOutcomesAlerted ∨ r.outcome = "OK" then routeOutcome r else none

/-! ## What is recorded -/

theorem Hides.take {secrets : List Text} {text : Text} (h : Hides secrets text) (n : ℕ) : Hides secrets (text.take n) :=
  fun s hs hlen hsolid hin => h s hs hlen hsolid (hin.trans (List.take_prefix n text).isInfix)

/-- **A recorded reason holds no configured secret, though it is cut.** -/
theorem recordRunOutcome_hides {isalnum : Char → Bool} {secrets : List Text} {c : Recording} {r : RunRecord}
    (h : recordRunOutcome isalnum secrets c = .ok r) :
    r.reason.length ≤ runEventReasonMaxChars ∧ Hides secrets r.reason := by
  unfold recordRunOutcome at h
  by_cases hout : c.outcome ∉ runOutcomes
  · rw [if_pos hout] at h
    cases h
  · rw [if_neg hout] at h
    by_cases hskip : c.outcome = "SKIPPED" ∧ Py.stripChars c.reason = []
    · rw [if_pos hskip] at h
      cases h
    · rw [if_neg hskip] at h
      cases h
      dsimp only
      by_cases hempty : c.reason = []
      · rw [if_pos hempty]
        exact ⟨Nat.zero_le _, Outbox.hides_of_short (by decide)⟩
      · rw [if_neg hempty]
        exact ⟨List.length_take_le _ _, Hides.take (hides_redact isalnum c.reason secrets) _⟩

theorem recordRunOutcome_job {isalnum : Char → Bool} {secrets : List Text} {c : Recording} {r : RunRecord}
    (h : recordRunOutcome isalnum secrets c = .ok r) : r.job = c.job ∧ r.outcome = c.outcome := by
  unfold recordRunOutcome at h
  split_ifs at h
  all_goals
    cases h
    exact ⟨rfl, rfl⟩

/-- A critical outcome is an alerted one, of a kind that lasts a day. -/
theorem classifyRunOutcome_some {job outcome : String} {reason : Text} {kind : IncidentKind}
    (h : classifyRunOutcome job outcome reason = some kind) : outcome ∈ runOutcomesAlerted ∧ incidentScope kind = .day := by
  unfold classifyRunOutcome at h
  by_cases hprice : job = "price_ingest"
  · rw [if_pos hprice] at h
    split_ifs at h with hstale
    cases h
    exact ⟨by rw [hstale.1]; decide, by decide⟩
  · rw [if_neg hprice] at h
    cases hrule : criticalRunOutcomes.lookup job with
    | none =>
      rw [hrule] at h
      cases h
    | some rule =>
      rw [hrule] at h
      dsimp only at h
      split_ifs at h with hsilent
      cases h
      rw [not_or, not_not] at hsilent
      have hall : ∀ p ∈ criticalRunOutcomes,
          (∀ o ∈ p.2.outcomes, o ∈ runOutcomesAlerted) ∧ incidentScope p.2.kind = .day := by decide
      obtain ⟨houts, hscope⟩ := hall (job, rule) (Py.Dict.mem_of_lookup hrule)
      exact ⟨houts outcome hsilent.1, hscope⟩

/-- A critical outcome is routed to a page. -/
theorem op_of_critical {r : RunRecord} {kind : IncidentKind} (h : classifyRunOutcome r.job r.outcome r.reason = some kind) :
    r.op = some (.page kind (runSource r.job) .day none) := by
  obtain ⟨halert, hscope⟩ := classifyRunOutcome_some h
  have hok : r.outcome ≠ "OK" := by
    rintro hok
    rw [hok] at halert
    revert halert
    decide
  unfold RunRecord.op routeOutcome
  rw [if_pos (.inl halert), if_neg hok, h, Option.map_some, hscope]

/-- What is routed is the page of a critical outcome, or the resolution of an `OK`. -/
theorem op_cases {r : RunRecord} {op : Op} (h : r.op = some op) :
    (r.outcome = "OK" ∧ op = .resolve [runSource r.job]) ∨
      ∃ kind, classifyRunOutcome r.job r.outcome r.reason = some kind ∧ op = .page kind (runSource r.job) .day none := by
  by_cases hok : r.outcome = "OK"
  · unfold RunRecord.op routeOutcome at h
    rw [if_pos (.inr hok), if_pos hok] at h
    exact .inl ⟨hok, (Option.some.inj h).symm⟩
  · cases hk : classifyRunOutcome r.job r.outcome r.reason with
    | none =>
      unfold RunRecord.op routeOutcome at h
      rw [if_neg hok, hk] at h
      split_ifs at h
      cases h
    | some kind => exact .inr ⟨kind, rfl, (Option.some.inj ((op_of_critical hk).symm.trans h)).symm⟩

end Alert
