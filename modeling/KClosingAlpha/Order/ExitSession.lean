import KClosingAlpha.Order.Lots
/-!
# ExitSession — the exit run of a trading day (`_run_exit`, `_finish_exit_report`)

A run plans an exit for every open lot of an earlier date and submits them.  A later run of the day finds the planned
intents, submits them again and reports on the lots as they were planned.  What happens under the journal's lock is
`exitLocked`; `exitOpening` comes before it.
-/
namespace Order

open Py (Value Dict PyFloat)
open Prog (ofExcept)

/-- Instants of the clock on the trading day; `hhmmss` is the time of day in Seoul. -/
structure ExitClock where
  hhmmss : Int → String
  earliest : Int
  deadline : Int
  maxPrestartWait : Int
  seconds : Int → PyFloat

def orderExitEarliestHhmmss : String := "084000"

def orderExitSubmitDeadlineHhmmss : String := "085900"

/-- The metrics of a run that came to its report. -/
structure ExitMetrics where
  nLots : Nat
  nAcked : Nat
  nRejected : Nat
  nUnknown : Nat
  nSkipped : Nat
  nCarryoverAdopted : Nat
  nUnknownUnresolvedTotal : Nat
  shortfallQty : Int
  maxLatencyMs : PyFloat
  lastSendBeforeDeadline : Int
  postSendReconcile : Option String
  deriving DecidableEq

/-- `OrderSessionReport` of the exit phase; a run that returns early reports counts and no metrics. -/
structure ExitReport where
  tradingDate : String
  outcome : String
  reason : String
  env : String
  nLots : Option Nat
  nCarryoverAdopted : Option Nat
  metrics : Option ExitMetrics
  deriving DecidableEq

/-! ## The report -/

/-- `_OK_SEND_STATUSES`. -/
def IntentStatus.okSend : IntentStatus → Bool
  | .acked | .filled => true
  | _ => false

/-- What an exit takes from its lot: all of it once it is acknowledged, else what has filled. -/
def soldQty (st : IntentState) : Int := if st.status.okSend then st.intent.elim 0 (·.qty) else st.filledQty

/-- `sold_by_parent`. -/
def soldByParent (sts : Dict IntentState) (exitIds : List String) : Dict Int :=
  exitIds.foldl (fun sold intentId =>
    match sts.lookup intentId with
    | none => sold
    | some st =>
      match st.intent.bind (·.parentIntentId) with
      | none => sold
      | some parent => Dict.set sold parent (soldQty st)) []

def shortfallQty (sts : Dict IntentState) (lots : List OpenLot) (exitIds : List String) : Int :=
  (lots.map (fun lot => lot.qty - Dict.getD (soldByParent sts exitIds) lot.entryIntentId 0)).sum

/-- The ids whose state has a status. -/
def countStatus (sts : Dict IntentState) (intentIds : List String) (p : IntentStatus → Bool) : Nat :=
  (intentIds.filter (fun id => (sts.lookup id).any (fun st => p st.status))).length

def IntentStatus.counted : IntentStatus → Bool
  | .acked | .filled | .rejected | .unknown | .skipped => true
  | _ => false

/-- `n_not_sent` of `_entry_counts`: no state, or one of no other count. -/
def nNotSent (sts : Dict IntentState) (intentIds : List String) : Nat :=
  (intentIds.filter (fun id => !(sts.lookup id).any (fun st => st.status.counted))).length

def nUnknownUnresolved (sts : Dict IntentState) : Nat :=
  (sts.filter (fun p => p.2.intent.isSome && p.2.status == .unknown)).length

/-- `float(raw)`; the gateway writes no latency that is not a number. -/
def latencyOf : Value → Option PyFloat
  | .float f => some f
  | .int i => some (PyFloat.ofInt i)
  | .bool b => some (PyFloat.ofInt (if b then 1 else 0))
  | _ => none

/-- `_max_latency_ms`. -/
def maxLatencyMs (events : List JournalEvent) (runId : String) : PyFloat :=
  (events.filter (fun e => e.runId == runId && e.kind == .result)).foldl (fun peak e =>
    match latencyOf (e.payload.getD "latency_ms" (.float (PyFloat.ofInt 0))) with
    | some x => if PyFloat.lt peak x then x else peak
    | none => peak) (PyFloat.ofInt 0)

/-- `_planned_skip_count`. -/
def plannedSkipCount (sts : Dict IntentState) (events : List JournalEvent) (tradingDate : String) (phase : OrderPhase) : Nat :=
  ((events.filter (fun e => e.kind == .skip && e.payload.lookup "trading_date" == some (.str tradingDate) &&
    e.payload.lookup "phase" == some (.str phase.value) &&
    (sts.lookup e.intentId).any (·.intent.isNone))).map (·.intentId)).dedup.length

/-- The exit intents of a date, in journal order. -/
def exitsOf (sts : Dict IntentState) (tradingDate : String) : List OrderIntent :=
  (sts.filterMap (fun p => p.2.intent)).filter (fun i => i.phase == .exit && i.tradingDate == tradingDate)

/-- `filled_today`: what the exits of the date have filled of a lot. -/
def filledToday (sts : Dict IntentState) (existing : List OrderIntent) (parent : String) : Int :=
  ((existing.filter (fun i => i.parentIntentId == some parent)).map
    (fun i => ((sts.lookup i.intentId).map (·.filledQty)).getD 0)).sum

/-- The lots with what the date has sold of them added back. -/
def plannedLots (sts : Dict IntentState) (existing : List OrderIntent) (lots : List OpenLot) : List OpenLot :=
  lots.map (fun lot => { lot with qty := lot.qty + filledToday sts existing lot.entryIntentId })

namespace OrderGateway

variable (g : OrderGateway)

def finishExitReport (tradingDate env : String) (clock : ExitClock) (lots : List OpenLot) (exitIds : List String)
    (nSkipped : Nat) (tLast : Int) (nCarryover : Nat) (postSend : Option String) : Gw ExitReport := do
  let sts ← readStates
  let events ← loadEvents
  let shortfall := shortfallQty sts lots exitIds
  let nRejected := countStatus sts exitIds (· == .rejected)
  let nUnknown := countStatus sts exitIds (· == .unknown)
  let metrics : ExitMetrics :=
    { nLots := lots.length, nAcked := countStatus sts exitIds (·.okSend), nRejected, nUnknown, nSkipped
      nCarryoverAdopted := nCarryover, nUnknownUnresolvedTotal := nUnknownUnresolved sts, shortfallQty := shortfall
      maxLatencyMs := maxLatencyMs events g.runId, lastSendBeforeDeadline := clock.deadline - tLast
      postSendReconcile := postSend }
  let complete := shortfall = 0 ∧ nRejected = 0 ∧ nUnknown = 0 ∧ nNotSent sts exitIds = 0
  return { tradingDate, outcome := if complete then "OK" else "DEGRADED"
           reason := if complete then "exit_complete" else "exit_incomplete", env, nLots := none
           nCarryoverAdopted := none, metrics := some metrics }

/-! ## The run -/

/-- `_exit_carryover`: best effort, so a read that fails never blocks selling. -/
def exitCarryover (tradingDate : String) : Gw Nat := do
  let sts ← readStates
  if sts.any (fun p => p.2.status == .unknown && p.2.intent.any (fun i => decide (i.tradingDate < tradingDate))) then do
    match ← (do
      let token ← ensureToken
      ofExcept token
      g.resolveCarryover tradingDate : Gw Nat).attempt with
    | .ok n => return n
    | .error (.brokerRead _) => return 0
    | .error e => .raise e
  else return 0

def submitEach (deadline : Int) : List String → Gw Unit
  | [] => return ()
  | intentId :: ids => do
    let _ ← g.submit intentId deadline
    submitEach deadline ids

def early (tradingDate env outcome reason : String) (nLots nCarryover : Option Nat) : ExitReport :=
  { tradingDate, outcome, reason, env, nLots, nCarryoverAdopted := nCarryover, metrics := none }

/-- A run that finds the date's exits planned. -/
def exitAgain (tradingDate env : String) (clock : ExitClock) (nCarryover : Nat) (lots : List OpenLot)
    (sts : Dict IntentState) : Gw ExitReport := do
  let existing := exitsOf sts tradingDate
  g.submitEach clock.deadline (existing.map (·.intentId))
  let tLast ← nowFn
  let now ← readStates
  let events ← loadEvents
  g.finishExitReport tradingDate env clock (plannedLots sts existing lots) (existing.map (·.intentId))
    (plannedSkipCount now events tradingDate .exit) tLast nCarryover none

/-- The plan of a run that HALT stops. -/
def haltedSkips (tradingDate : String) (lots : List OpenLot) : List PlannedSkip :=
  lots.map (fun lot => ⟨exitIntentId lot.entryIntentId tradingDate, lot.symbol, tradingDate, .exit, "halted"⟩)

/-- A run that plans the date's exits. -/
def exitFirst (tradingDate env : String) (clock : ExitClock) (nCarryover : Nat) (lots : List OpenLot) : Gw ExitReport := do
  if ← isHalted then do
    g.plan [] (haltedSkips tradingDate lots)
    let tLast ← nowFn
    g.finishExitReport tradingDate env clock lots [] lots.length tLast nCarryover none
  else do
    let unreadable := early tradingDate env "DEGRADED" "positions_unreadable" (some lots.length) none
    match ← ensureToken with
    | .error (.brokerRead _) => return unreadable
    | .error e => .raise e
    | .ok () =>
      match ← fetchPositions with
      | .error (.brokerRead _) => return unreadable
      | .error e => .raise e
      | .ok positions => do
        let (intents, skips) ← ofExcept (exitIntents tradingDate (sellableOf positions) lots)
        g.plan intents skips
        g.submitEach clock.deadline (intents.map (·.intentId))
        let tLast ← nowFn
        let r ← (g.reconcile tradingDate false).attempt
        let postSend ← (match r with
          | .ok _ => return none
          | .error (.brokerRead _) => return some "unreadable"
          | .error e => .raise e : Gw (Option String))
        g.finishExitReport tradingDate env clock lots (intents.map (·.intentId)) skips.length tLast nCarryover postSend

/-- The run from its read of the lots on. -/
def exitOn (tradingDate env : String) (clock : ExitClock) (nCarryover : Nat) : Gw ExitReport := do
  let open_ ← readLots
  let sts ← readStates
  if (exitsOf sts tradingDate).isEmpty then g.exitFirst tradingDate env clock nCarryover (freshLots tradingDate open_)
  else g.exitAgain tradingDate env clock nCarryover (freshLots tradingDate open_) sts

/-- What a run does under the journal's lock. -/
def exitLocked (tradingDate env : String) (clock : ExitClock) : Option Nat → Gw ExitReport
  | some n => g.exitOn tradingDate env clock n
  | none => do
    let n ← g.exitCarryover tradingDate
    g.exitOn tradingDate env clock n

/-- What a run does before it: a report, or what it has adopted. -/
def exitOpening (tradingDate env : String) (clock : ExitClock) : Gw (ExitReport ⊕ Option Nat) := do
  let noPositions (n : Nat) := early tradingDate env "SKIPPED" "no_open_positions" none (some n)
  let before ← readLots
  let (carried, lots) ← (
    if (freshLots tradingDate before).isEmpty then do
      -- A lost buy of an earlier day has no lot until it is adopted.
      let n ← g.exitCarryover tradingDate
      let after ← readLots
      return (some n, after)
    else return (none, before) : Gw (Option Nat × List OpenLot))
  if (freshLots tradingDate lots).isEmpty then return .inl (noPositions (carried.getD 0))
  else do
    let now ← nowFn
    let window (now : Int) (nLots : Nat) : ExitReport ⊕ Option Nat :=
      if orderExitSubmitDeadlineHhmmss ≤ clock.hhmmss now then
        .inl (early tradingDate env "DEGRADED" "exit_window_expired" (some nLots) (some (carried.getD 0)))
      else .inr carried
    if clock.hhmmss now < orderExitEarliestHhmmss then
      if clock.maxPrestartWait < clock.earliest - now then
        return .inl (early tradingDate env "SKIPPED" "before_window" (some (freshLots tradingDate lots).length) none)
      else do
        sleepFn (clock.seconds (max 0 (clock.earliest - now)))
        let now ← nowFn
        let lots ← readLots
        if (freshLots tradingDate lots).isEmpty then return .inl (noPositions (carried.getD 0))
        else return window now (freshLots tradingDate lots).length
    else return window now (freshLots tradingDate lots).length

end OrderGateway
end Order
