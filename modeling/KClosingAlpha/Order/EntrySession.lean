import KClosingAlpha.Order.EntryPrice
import KClosingAlpha.Order.ExitSession
import KClosingAlpha.Order.Sizing
/-!
# EntrySession — the entry run of a trading day (`_run_entry`, `_submit_stored_entry`, `_finish_entry_report`)

A run that finds entries of the day on record submits them; else it waits for the day's decision without the lock, and
under the lock looks again, sizes the picks and plans them.  The report of a run that planned is made after the lock is
given back.  The broker's price and cash reads, the float sum of the allocations and the fee are taken as given.
-/
namespace Order

open Py (Value Dict PyFloat)
open Exc (raiseIf)
open Prog (ofExcept)

/-! ## The decision -/

def decisionWindowEndHhmmss : String := "153000"

def orderEntryDecisionWaitDeadlineHhmmss : String := "152800"

def orderEntryEarliestHhmmss : String := "152000"

def orderEntrySubmitDeadlineHhmmss : String := "152900"

/-- Instants of the clock, with their date and time of day in Seoul. -/
structure EntryClock where
  hhmmss : Int → String
  dateOf : Int → String
  deadline : Int

/-- What `pd.Timestamp` makes of a cell. -/
inductive DecidedAt where
  | unreadable
  | naive
  | instant (t : Int)
  deriving DecidableEq

/-- A row of the decision frame; `none` is a cell that `float` raises on. -/
structure DecisionRow where
  symbol : String
  allocation : Option (Flt ℚ)
  pred : Option (Flt ℚ)
  close : Value
  decidedAt : DecidedAt

structure DecisionFrame where
  columns : List String
  rows : List DecisionRow

def DecisionFrame.empty (f : DecisionFrame) : Bool := f.columns.isEmpty || f.rows.isEmpty

/-- A pick of the decision, before it has a limit price. -/
structure DecisionPick where
  symbol : String
  allocation : Flt ℚ
  pred : Flt ℚ
  close : Int
  deriving DecidableEq

def DecisionPick.priced (p : DecisionPick) (limitPrice : Int) : EntryPick :=
  { symbol := p.symbol, allocation := p.allocation, pred := p.pred, decisionPrice := p.close, limitPrice }

/-- The close of a row: an integer, or a float that is one. -/
def closeOf : Value → Option Int
  | .int i => some i
  | .float (.finite neg m e h) =>
    if (PyFloat.toRatio m e).1 % (PyFloat.toRatio m e).2 = 0 then (Value.float (.finite neg m e h)).toInt else none
  | _ => none

/-- `float(raw)` of an allocation that is finite and positive. -/
def allocationOf (raw : Option (Flt ℚ)) : Option ℚ :=
  match raw with
  | some (.fin a) => if 0 < a then some a else none
  | _ => none

/-- What a run takes from outside: the broker's reads, the fee and the buffer, and whether a float sum is over one. -/
structure EntryReads where
  terms : Terms
  bufferBp : Flt ℚ
  orderableCash : String → Int → Except OrderError Int
  upperLimit : String → Except OrderError Int
  overAllocated : List ℚ → Bool

section decision

variable (clock : EntryClock) (tradingDate : String) (now : Int)

def checkDecidedAt : DecidedAt → Except String Unit
  | .unreadable => .error "invalid_decision:bad_decided_at"
  | .naive => .error "invalid_decision:naive_decided_at"
  | .instant t => do
    raiseIf (clock.dateOf t ≠ tradingDate) "invalid_decision:decided_at_wrong_day"
    raiseIf (clock.hhmmss t < orderEntryEarliestHhmmss) "invalid_decision:decided_before_window"
    raiseIf (decisionWindowEndHhmmss ≤ clock.hhmmss t) "invalid_decision:decided_after_close"
    raiseIf (now ≤ t) "invalid_decision:decided_in_future"

def checkRow (hasPred : Bool) (row : DecisionRow) : Except String DecisionPick :=
  match closeOf row.close with
  | none => .error "invalid_decision:bad_close"
  | some close => do
    raiseIf (close ≤ 0) "invalid_decision:bad_close"
    checkDecidedAt clock tradingDate now row.decidedAt
    return { symbol := row.symbol, allocation := row.allocation.getD .nan
             pred := if hasPred then row.pred.getD .nan else .nan, close }

/-- The picks from the best prediction down. -/
def rankPicks (picks : List DecisionPick) : List DecisionPick :=
  picks.mergeSort (fun a b => decide (rankKey (a.priced 0) ≤ rankKey (b.priced 0)))

/-- The first of the columns the decision lacks. -/
def missingColumn (columns : List String) : Option String :=
  ["symbol", "allocation", "close", "decided_at"].find? (fun column => !columns.contains column)

/-- `_validate_decision`. -/
def validateDecision (overAllocated : List ℚ → Bool) (maxSends : Int) (frame : DecisionFrame) :
    Except String (List DecisionPick) :=
  match missingColumn frame.columns with
  | some column => .error ("invalid_decision:missing_column_" ++ column)
  | none => do
    raiseIf (frame.rows = []) "invalid_decision:empty"
    raiseIf (maxSends < frame.rows.length) "invalid_decision:too_many_rows"
    raiseIf (∃ row ∈ frame.rows, isSymbol row.symbol = false) "invalid_decision:bad_symbol"
    raiseIf (¬ (frame.rows.map (·.symbol)).Nodup) "invalid_decision:duplicate_symbol"
    raiseIf (∃ row ∈ frame.rows, allocationOf row.allocation = none) "invalid_decision:bad_allocation"
    raiseIf (overAllocated (frame.rows.filterMap (fun row => allocationOf row.allocation)) = true)
      "invalid_decision:over_allocated"
    let picks ← frame.rows.mapM (checkRow clock tradingDate now (frame.columns.contains "pred"))
    return rankPicks picks

end decision

/-! ## The plan -/

section plan

variable (reads : EntryReads) (tradingDate : String)

def plannedSkip (reason symbol : String) : PlannedSkip :=
  ⟨entryIntentId tradingDate symbol, symbol, tradingDate, .entry, reason⟩

/-- The limit price of a pick. -/
def priceOf (pick : DecisionPick) : Except OrderError Int := do
  let upper ← reads.upperLimit pick.symbol
  entryLimitPrice pick.close reads.bufferBp upper

/-- The picks with a limit price, and the skips of those without. -/
def pricePicks : List DecisionPick → Except OrderError (List EntryPick × List PlannedSkip)
  | [] => .ok ([], [])
  | pick :: picks => do
    let price ← (match priceOf reads pick with
      | .ok price => .ok (some price)
      | .error (.brokerRead _) => .ok none
      | .error (.valueError _) => .ok none
      | .error e => .error e)
    let (priced, skips) ← pricePicks picks
    return match price with
      | some price => (pick.priced price :: priced, skips)
      | none => (priced, plannedSkip tradingDate "no_price_limits" pick.symbol :: skips)

/-- The fields of a pick's intent. -/
def entryFields (qty : Int) (pick : EntryPick) : IntentFields :=
  { intentId := entryIntentId tradingDate pick.symbol, tradingDate, phase := .entry, symbol := pick.symbol, side := .buy
    orderType := .limit, qty, limitPrice := some pick.limitPrice, decisionPrice := .int pick.decisionPrice
    parentIntentId := none }

/-- The intents of the picks that got a quantity, and the skips of the others. -/
def entryIntents (quantities : Dict Int) : List EntryPick → Except OrderError (List OrderIntent × List PlannedSkip)
  | [] => .ok ([], [])
  | pick :: picks =>
    if quantities.getD pick.symbol 0 ≤ 0 then do
      let (intents, skips) ← entryIntents quantities picks
      return (intents, plannedSkip tradingDate "zero_qty" pick.symbol :: skips)
    else do
      let intent ← OrderIntent.make (entryFields tradingDate (quantities.getD pick.symbol 0) pick)
      let (intents, skips) ← entryIntents quantities picks
      return (intent :: intents, skips)

/-- What a run plans with this capital. -/
def entryPlan (capital cap : Int) (picks : List DecisionPick) : Except OrderError (List OrderIntent × List PlannedSkip) := do
  let (priced, unpriced) ← pricePicks reads tradingDate picks
  let quantities ← sizeEntryOrders reads.terms capital cap priced
  let (intents, unsized) ← entryIntents tradingDate quantities priced
  return (intents, unpriced ++ unsized)

end plan

/-! ## The report -/

/-- The metrics of a run that came to its report. -/
structure EntryMetrics where
  nPicks : Nat
  nAcked : Nat
  nRejected : Nat
  nUnknown : Nat
  nNotSent : Nat
  nSkipped : Nat
  nUnknownUnresolvedTotal : Nat
  capitalKrw : Int
  plannedNotionalKrw : Int
  decidedToFirstSend : Int
  lastSendBeforeDeadline : Int
  maxLatencyMs : PyFloat
  postSendReconcile : Option String
  deriving DecidableEq

/-- `OrderSessionReport` of the entry phase. -/
structure EntryReport where
  tradingDate : String
  outcome : String
  reason : String
  env : String
  nPicks : Option Nat
  metrics : Option EntryMetrics
  deriving DecidableEq

/-- What a run hands to its report. -/
structure EntryDone where
  intentIds : List String
  nPicks : Nat
  nSkipped : Nat
  capital : Int
  readyAt : Int
  tFirst : Int
  tLast : Int
  postSend : Option String
  deriving DecidableEq

/-- An entry of the trading date on record, ordered or skipped. -/
def isEntryRecord (kinds : List JournalEventKind) (tradingDate : String) (e : JournalEvent) : Bool :=
  kinds.contains e.kind && e.payload.lookup "trading_date" == some (.str tradingDate) &&
    e.payload.lookup "phase" == some (.str OrderPhase.entry.value)

/-- `_has_entry_history`. -/
def hasEntryHistory (events : List JournalEvent) (tradingDate : String) : Bool :=
  events.any (isEntryRecord [.intent, .skip] tradingDate)

/-- `_stored_entry_intents`. -/
def storedEntryIntents (events : List JournalEvent) (sts : Dict IntentState) (tradingDate : String) : List OrderIntent :=
  (idsOf (events.filter (isEntryRecord [.intent] tradingDate))).filterMap
    (fun id => (sts.lookup id).bind (·.intent))

def allSent (sts : Dict IntentState) (intentIds : List String) : Bool :=
  intentIds.all (fun id => (sts.lookup id).any (fun st => st.status.okSend))

/-- What the intents that were not skipped are for. -/
def plannedNotional (sts : Dict IntentState) (intentIds : List String) : Int :=
  (intentIds.map (fun id => ((sts.lookup id).bind (fun st =>
    if st.status = .skipped then none
    else st.intent.bind (fun i => i.limitPrice.map (fun p => i.qty * p)))).getD 0)).sum

/-- The report of `_finish_entry_report`, from the states it reads first, those it counts and the events. -/
def entryReport (tradingDate env runId : String) (clock : EntryClock) (done : EntryDone) (sts counted : Dict IntentState)
    (events : List JournalEvent) : EntryReport :=
  let ok := 0 < done.intentIds.length ∧ done.nSkipped = 0 ∧ allSent sts done.intentIds = true
  let metrics : EntryMetrics :=
    { nPicks := done.nPicks, nAcked := countStatus counted done.intentIds (·.okSend)
      nRejected := countStatus counted done.intentIds (· == .rejected)
      nUnknown := countStatus counted done.intentIds (· == .unknown), nNotSent := nNotSent counted done.intentIds
      nSkipped := done.nSkipped + countStatus counted done.intentIds (· == .skipped)
      nUnknownUnresolvedTotal := nUnknownUnresolved sts, capitalKrw := done.capital
      plannedNotionalKrw := plannedNotional sts done.intentIds, decidedToFirstSend := done.tFirst - done.readyAt
      lastSendBeforeDeadline := clock.deadline - done.tLast, maxLatencyMs := maxLatencyMs events runId
      postSendReconcile := done.postSend }
  { tradingDate, outcome := if ok then "OK" else "DEGRADED"
    reason := if ok then "entry_complete" else "entry_incomplete", env, nPicks := none, metrics := some metrics }

namespace OrderGateway

variable (g : OrderGateway)

/-- `_finish_entry_report`; without the lock its three reads may be of three journals. -/
def finishEntryReport (tradingDate env : String) (clock : EntryClock) (done : EntryDone) : Gw EntryReport := do
  let sts ← readStates
  let counted ← readStates
  let events ← loadEvents
  return entryReport tradingDate env g.runId clock done sts counted events

def earlyEntry (tradingDate env outcome reason : String) (nPicks : Option Nat) : EntryReport :=
  { tradingDate, outcome, reason, env, nPicks, metrics := none }

/-! ## The run -/

/-- The reconciliation after the sends; its failure is only noted. -/
def postSendReconcile (tradingDate : String) : Gw (Option String) := do
  match ← (g.reconcile tradingDate false).attempt with
  | .ok _ => return none
  | .error (.brokerRead _) => return some "unreadable"
  | .error e => .raise e

/-- `_submit_stored_entry`, with the read of the stored intents. -/
def submitStoredEntry (tradingDate env : String) (clock : EntryClock) : Gw EntryReport := do
  let events ← loadEvents
  let sts ← readStates
  let stored := storedEntryIntents events sts tradingDate
  let readyAt ← nowFn
  let tFirst ← nowFn
  g.submitEach clock.deadline (stored.map (·.intentId))
  let tLast ← nowFn
  let postSend ← (if stored.isEmpty then return none else g.postSendReconcile tradingDate : Gw (Option String))
  let sts ← readStates
  let events ← loadEvents
  let nPlanSkips := plannedSkipCount sts events tradingDate .entry
  g.finishEntryReport tradingDate env clock
    { intentIds := stored.map (·.intentId), nPicks := stored.length + nPlanSkips, nSkipped := nPlanSkips
      capital := (stored.map (fun i => i.limitPrice.elim 0 (i.qty * ·))).sum, readyAt, tFirst, tLast, postSend }

/-- What a run does first: a report, or it waits for the decision. -/
def entryOpening (tradingDate env : String) (clock : EntryClock) : Gw (Option EntryReport) := do
  let now ← nowFn
  if clock.hhmmss now < orderEntryEarliestHhmmss then
    return some (earlyEntry tradingDate env "SKIPPED" "before_window" none)
  else if orderEntrySubmitDeadlineHhmmss ≤ clock.hhmmss now then
    return some (earlyEntry tradingDate env "DEGRADED" "entry_window_expired" none)
  else do
    let events ← loadEvents
    if hasEntryHistory events tradingDate then do
      let report ← g.submitStoredEntry tradingDate env clock
      return some report
    else return none

/-- The wait for the decision, empty at so many reads; whether there is one before the deadline. -/
def awaitDecision (clock : EntryClock) : Nat → Gw Bool
  | 0 => return true
  | n + 1 => do
    let now ← nowFn
    if orderEntryDecisionWaitDeadlineHhmmss ≤ clock.hhmmss now then return false
    else do
      sleepFn (PyFloat.ofInt 2)
      awaitDecision clock n

/-- What a run does under the journal's lock with the picks of the decision: a report, or what it hands to one. -/
def entryLocked (tradingDate env : String) (clock : EntryClock) (reads : EntryReads) (picks : List DecisionPick)
    (readyAt : Int) : Gw (EntryReport ⊕ EntryDone) := do
  let events ← loadEvents
  if hasEntryHistory events tradingDate then do
    let report ← g.submitStoredEntry tradingDate env clock
    return .inl report
  else if ← isHalted then do
    let halted := picks.map (fun pick => plannedSkip tradingDate "halted" pick.symbol)
    g.plan [] halted
    let moment ← nowFn
    let report ← g.finishEntryReport tradingDate env clock
      { intentIds := [], nPicks := picks.length, nSkipped := halted.length, capital := 0, readyAt, tFirst := moment
        tLast := moment, postSend := none }
    return .inl report
  else do
    let unreadable := earlyEntry tradingDate env "DEGRADED" "orderable_cash_unreadable" (some picks.length)
    match ← ensureToken with
    | .error (.brokerRead _) => return .inl unreadable
    | .error e => .raise e
    | .ok () =>
      match picks with
      | [] => .raise .assertionError  -- `picks[0]`, of a decision that has picks
      | top :: _ =>
        match reads.orderableCash top.symbol top.close with
        | .error (.brokerRead _) => return .inl unreadable
        | .error e => .raise e
        | .ok cash => do
          let capital := min g.limits.seedCapitalKrw cash
          let (intents, skips) ← ofExcept (entryPlan reads tradingDate capital g.limits.maxNotionalPerOrderKrw picks)
          g.plan intents skips
          let tFirst ← nowFn
          g.submitEach clock.deadline (intents.map (·.intentId))
          let tLast ← nowFn
          let postSend ← g.postSendReconcile tradingDate
          return .inr { intentIds := intents.map (·.intentId), nPicks := picks.length, nSkipped := skips.length, capital
                        readyAt, tFirst, tLast, postSend }

end OrderGateway
end Order
