import Mathlib
import KClosingAlpha.Order.EntrySession
import KClosingAlpha.Order.Lots
/-!
# ReconcileSession — the reconcile and cancel runs of a trading day (`_run_reconcile`, `_run_cancel`)

A run passes over the day until every order of its phase is final or its deadline is past; each pass is under the
journal's lock, and other sessions may work on the journal between two passes and before the report is read
(`Passing`).  What is decided of a pass and what is reported are functions of the journal.
-/
namespace Order

open Py (Value Dict PyFloat)
open Prog (ofExcept Ends)

def orderEntryReconcileEarliestHhmmss : String := "153030"

def orderEntryReconcileDeadlineHhmmss : String := "154000"

def orderExitReconcileEarliestHhmmss : String := "090030"

def orderExitReconcileDeadlineHhmmss : String := "093000"

/-- Instants of the clock; `dateOf` is the day in Seoul, `hhmmss` the time of the day. -/
structure ReconcileClock where
  dateOf : Int → String
  hhmmss : Int → String
  /-- The earliest instant of the phase on the trading day. -/
  earliest : Int
  maxPrestartWait : Int
  seconds : Int → PyFloat

/-! ## What is read of the journal -/

def ofScope (tradingDate : String) (scope : OrderPhase) (st : IntentState) : Bool :=
  st.intent.any (fun i => i.phase == scope && i.tradingDate == tradingDate)

/-- The states of the phase's intents of a date. -/
def relevant (sts : Dict IntentState) (tradingDate : String) (scope : OrderPhase) : List IntentState :=
  (sts.map (·.2)).filter (ofScope tradingDate scope)

/-- `_scope_intents`. -/
def scopeIntents (sts : Dict IntentState) (tradingDate : String) (scope : OrderPhase) : List String :=
  (sts.filter (fun p => ofScope tradingDate scope p.2)).map (·.1)

/-- An order of the date that is not final. -/
def isWorking (tradingDate : String) (st : IntentState) : Bool :=
  st.intent.any (fun i => i.tradingDate == tradingDate) && st.brokerOrderNo.isSome && !st.final

/-- `_has_working_orders`. -/
def hasWorkingOrders (sts : Dict IntentState) (tradingDate : String) : Bool := sts.any (fun p => isWorking tradingDate p.2)

/-- `_all_final`. -/
def allFinal (sts : Dict IntentState) (tradingDate : String) (scope : OrderPhase) : Bool :=
  if (relevant sts tradingDate scope).isEmpty then !hasWorkingOrders sts tradingDate
  else (relevant sts tradingDate scope).all (·.final)

/-! ## The report -/

/-- What a run knows after its passes. -/
structure Passes where
  lastReport : Option ReconcileReport
  lastFailed : Bool
  nCarryover : Nat
  deriving DecidableEq

def Passes.start : Passes := ⟨none, false, 0⟩

/-- After a pass that adopted so many, and reported or could not read. -/
def Passes.after (p : Passes) : Nat × Option ReconcileReport → Passes
  | (n, some report) => ⟨some report, false, p.nCarryover + n⟩
  | (n, none) => ⟨p.lastReport, true, p.nCarryover + n⟩

structure ReconcileMetrics where
  report : ReconcileReport
  nCarryoverAdopted : Nat
  entryFillVsDecisionBp : Option PyFloat
  deriving DecidableEq

/-- `OrderSessionReport` of a reconcile phase. -/
structure ReconcileSessionReport where
  phase : String
  tradingDate : String
  outcome : String
  reason : String
  env : String
  scope : Option OrderPhase
  metrics : Option ReconcileMetrics
  deriving DecidableEq

def phaseName : OrderPhase → String
  | .entry => "reconcile-entry"
  | .exit => "reconcile-exit"

/-- A report without metrics. -/
def earlyReconcile (phase : OrderPhase) (tradingDate env outcome reason : String) (scope : Option OrderPhase) :
    ReconcileSessionReport :=
  { phase := phaseName phase, tradingDate, outcome, reason, env, scope, metrics := none }

/-- What the shares that filled cost at the prices they were decided at. -/
def decisionBasis (sts : List IntentState) : Int :=
  (sts.map (fun st => st.intent.elim 0 (fun i => st.filledQty * (i.decisionPrice.toInt).getD 0))).sum

/-- `entry_fill_vs_decision_bp`. -/
def entryFillVsDecisionBp (scope : OrderPhase) (sts : List IntentState) : Option PyFloat :=
  if scope = .entry ∧ 0 < (sts.map (·.filledQty)).sum ∧ 0 < decisionBasis sts then
    some ((PyFloat.ofFraction false (sts.map (·.filledAmountKrw)).sum (decisionBasis sts).toNat).sub (.ofInt 1) |>.mul (.ofInt 10000))
  else none

/-- `complete`. -/
def isComplete (sts : List IntentState) (report : ReconcileReport) : Bool :=
  sts.all (·.status == .filled) && report.nUnknown == 0 && report.nMissingAtBroker == 0 &&
    report.positionShortfalls.isEmpty && report.nUnknownUnresolvedTotal == 0

/-- The first thing that is wrong. -/
def incompleteReason (scope : OrderPhase) (report : ReconcileReport) : String :=
  if !report.unknownExposures.isEmpty then "unknown_exposure"
  else if 0 < report.nUnknown then "unknown_orders"
  else if 0 < report.nMissingAtBroker then "missing_at_broker"
  else if !report.positionShortfalls.isEmpty then "position_shortfall"
  else if scope = .exit ∧ 0 < report.nWorking then "exit_working"
  else "partial_or_unfilled"

/-- The report of a run, from the states it reads at its end. -/
def reconcileReport (tradingDate env : String) (scope : OrderPhase) (passes : Passes) (sts : Dict IntentState) :
    ReconcileSessionReport :=
  match passes.lastFailed, passes.lastReport with
  | false, some report =>
    let complete := isComplete (relevant sts tradingDate scope) report
    { phase := phaseName scope, tradingDate, outcome := if complete then "OK" else "DEGRADED"
      reason := if complete then "reconcile_complete" else incompleteReason scope report, env, scope := none
      metrics := some ⟨report, passes.nCarryover, entryFillVsDecisionBp scope (relevant sts tradingDate scope)⟩ }
  | _, _ => earlyReconcile scope tradingDate env "DEGRADED" "broker_unreadable" (some scope)

/-! ## The run -/

def earliestHhmmss : OrderPhase → String
  | .entry => orderEntryReconcileEarliestHhmmss
  | .exit => orderExitReconcileEarliestHhmmss

def deadlineHhmmss : OrderPhase → String
  | .entry => orderEntryReconcileDeadlineHhmmss
  | .exit => orderExitReconcileDeadlineHhmmss

/-- The run is past its deadline; one of an earlier date always is. -/
def pastDeadline (clock : ReconcileClock) (scope : OrderPhase) (backdated : Bool) (now : Int) : Bool :=
  backdated || decide (deadlineHhmmss scope ≤ clock.hhmmss now)

/-- `finalize`. -/
def finalizes (scope : OrderPhase) (backdated past : Bool) : Bool := backdated || (scope == .entry && past)

/-- Whether no pass follows; the states are read only where the broker was. -/
def stops (read : Except OrderError (Dict IntentState)) (tradingDate : String) (scope : OrderPhase) (passes : Passes) (past : Bool) :
    Except OrderError Bool :=
  if passes.lastFailed || passes.lastReport.isNone then .ok past
  else do
    let sts ← read
    return allFinal sts tradingDate scope || past

namespace OrderGateway

variable (g : OrderGateway)

/-- What a run does first: a report, or whether its date is an earlier one. -/
def reconcileOpening (tradingDate env : String) (scope : OrderPhase) (clock : ReconcileClock) :
    Gw (ReconcileSessionReport ⊕ Bool) := do
  let today ← nowFn
  let backdated := tradingDate != clock.dateOf today
  let waits ← (
    if backdated then return true
    else do
      let now ← nowFn
      if clock.hhmmss now < earliestHhmmss scope then
        if clock.maxPrestartWait < clock.earliest - now then return false
        else do
          sleepFn (clock.seconds (max 0 (clock.earliest - now)))
          return true
      else return true : Gw Bool)
  if !waits then return .inl (earlyReconcile scope tradingDate env "SKIPPED" "before_window" none)
  else do
    -- The entry pass is the one that finalizes what is left of the day's sells.
    let sweeps ← (
      if scope = .entry then do
        let sts ← readStates
        return hasWorkingOrders sts tradingDate
      else return false : Gw Bool)
    let sts ← readStates
    if (scopeIntents sts tradingDate scope).isEmpty && !sweeps then
      return .inl (earlyReconcile scope tradingDate env "SKIPPED" "no_orders" (some scope))
    else return .inr backdated

/-- One pass: what it adopted of earlier days, and its report, or none where the broker could not be read. -/
def reconcilePass (tradingDate : String) (finalize : Bool) : Gw (Nat × Option ReconcileReport) := do
  match ← (do
    let token ← ensureToken
    ofExcept token
    g.resolveCarryover tradingDate : Gw Nat).attempt with
  | .error (.brokerRead _) => return (0, none)
  | .error e => .raise e
  | .ok n =>
    match ← (g.reconcile tradingDate finalize).attempt with
    | .ok report => return (n, some report)
    | .error (.brokerRead _) => return (n, none)
    | .error e => .raise e

/-- `_run_cancel`: the cancels that were accepted, and the report of the reconciliation after them. -/
def runCancel (tradingDate : String) : Gw (Nat × ReconcileReport) := do
  let token ← ensureToken
  ofExcept token
  let accepted ← g.cancelWorking tradingDate
  let report ← g.reconcile tradingDate false
  return (accepted, report)

end OrderGateway

/-- The passes of a run, by a gateway that has sent nothing: `w₁` is the world right after the last one, and `past` says whether
it was past the deadline.  HALT appears and goes, and other sessions work, after each pass. -/
inductive Passing (R : Rules) (g : OrderGateway) (tradingDate : String) (scope : OrderPhase) (clock : ReconcileClock)
    (backdated : Bool) : Passes → World → Passes → Bool → World → World → Prop
  | last {p : Passes} {w w₁ w₂ : World} {now : Int} {halted past : Bool} {r : Nat × Option ReconcileReport}
      (hpast : past = pastDeadline clock scope backdated now)
      (hpass : Ends (under R) (g.reconcilePass tradingDate (finalizes scope backdated past)) (w.enter 0 halted) (.ok r) w₁)
      (hothers : FreeSession w₁ w₂) (hstops : stops (states w₂.journal) tradingDate scope (p.after r) past = .ok true) :
      Passing R g tradingDate scope clock backdated p w (p.after r) past w₁ w₂
  | more {p q : Passes} {w w' w'' w₁ w₂ : World} {now : Int} {halted past earlier : Bool} {r : Nat × Option ReconcileReport}
      (hearlier : earlier = pastDeadline clock scope backdated now)
      (hpass : Ends (under R) (g.reconcilePass tradingDate (finalizes scope backdated earlier)) (w.enter 0 halted) (.ok r) w')
      (hothers : FreeSession w' w'') (hstops : stops (states w''.journal) tradingDate scope (p.after r) earlier = .ok false)
      (hrest : Passing R g tradingDate scope clock backdated (p.after r) w'' q past w₁ w₂) :
      Passing R g tradingDate scope clock backdated p w q past w₁ w₂

end Order
