import KClosingAlpha.Order.Journal
import KClosingAlpha.Lib.Prog
/-!
# Gateway — intents turned into at most one broker order (`order_gateway.py`)

Every method of the gateway is a program over the calls of `GatewayOp`: reading and appending to the journal, the HALT
file, the clock, the broker.  The caller holds the journal's lock throughout.
-/
namespace Order

open Py (Value Dict PyFloat)
open Exc (raiseIf)
open Prog (perform ofExcept)

/-- Risk and retry limits of one gateway run. -/
structure GatewayLimits where
  seedCapitalKrw : Int
  maxNotionalPerOrderKrw : Int
  maxSendsPerRun : Int
  sendMaxAttempts : Int
  unknownResolvePolls : Int
  unknownResolveIntervalSeconds : PyFloat
  exitResendOnAmbiguous : Bool
  carryoverLookbackDays : Int
  deriving DecidableEq

/-- A pick that will not be ordered. -/
structure PlannedSkip where
  intentId : String
  symbol : String
  tradingDate : String
  phase : OrderPhase
  reason : String
  deriving DecidableEq

structure ReconcileReport where
  tradingDate : String
  nIntents : Nat
  nFilled : Nat
  nPartial : Nat
  nUnfilled : Nat
  nWorking : Nat
  nUnknown : Nat
  nMissingAtBroker : Nat
  nForeignOrders : Nat
  positionShortfalls : List (String × Int × Int)
  filledAmountKrw : Int
  nUnknownUnresolvedTotal : Nat
  unknownExposures : List (String × Int × Int)
  deriving DecidableEq

/-! ## The calls of a program -/

/-- The calls a program makes; `sendsMade` and `countSend` are the gateway's own counter. -/
inductive GatewayOp where
  | journal
  | append (kind : JournalEventKind) (intentId : String) (payload : Payload) (runId : String)
  | isHalted
  | now
  | submitOrder (intent : OrderIntent)
  | cancelOrder (orgNo orderNo : String)
  | ensureToken
  | fetchDailyOrders (tradingDate : String)
  | fetchPositions
  | sleep (seconds : PyFloat)
  | sendsMade
  | countSend

/-- What a call answers with; an exception of the broker is an answer. -/
abbrev Answer : GatewayOp → Type
  | .journal => Journal
  | .append .. => Except OrderError JournalEvent
  | .isHalted => Bool
  | .now => Int
  | .submitOrder _ | .cancelOrder .. => Except OrderError SubmitResult
  | .fetchDailyOrders _ => Except OrderError (List BrokerOrder)
  | .fetchPositions => Except OrderError (List BrokerPosition)
  | .ensureToken => Except OrderError Unit
  | .sleep _ | .countSend => Unit
  | .sendsMade => Nat

abbrev Gw (α : Type) := Prog GatewayOp Answer OrderError α

abbrev journalNow : Gw Journal := perform GatewayOp.journal

abbrev appendNow (kind : JournalEventKind) (intentId : String) (payload : Payload) (runId : String) :
    Gw (Except OrderError JournalEvent) := perform (GatewayOp.append kind intentId payload runId)

abbrev isHalted : Gw Bool := perform GatewayOp.isHalted

abbrev nowFn : Gw Int := perform GatewayOp.now

abbrev submitOrder (i : OrderIntent) : Gw (Except OrderError SubmitResult) := perform (GatewayOp.submitOrder i)

abbrev cancelOrder (orgNo orderNo : String) : Gw (Except OrderError SubmitResult) := perform (GatewayOp.cancelOrder orgNo orderNo)

abbrev ensureToken : Gw (Except OrderError Unit) := perform GatewayOp.ensureToken

abbrev fetchDailyOrders (tradingDate : String) : Gw (Except OrderError (List BrokerOrder)) :=
  perform (GatewayOp.fetchDailyOrders tradingDate)

abbrev fetchPositions : Gw (Except OrderError (List BrokerPosition)) := perform GatewayOp.fetchPositions

abbrev sleepFn (seconds : PyFloat) : Gw Unit := perform (GatewayOp.sleep seconds)

abbrev sendsMade : Gw Nat := perform GatewayOp.sendsMade

abbrev countSend : Gw Unit := perform GatewayOp.countSend

/-- `journal.load()`. -/
def loadEvents : Gw (List JournalEvent) := do
  let j ← journalNow
  ofExcept (load j)

/-- `journal.states()`. -/
def readStates : Gw (Dict IntentState) := do
  let j ← journalNow
  ofExcept (states j)

/-- `journal.states()[intent_id]`. -/
def stateAt (intentId : String) : Gw IntentState := do
  let sts ← readStates
  match sts.lookup intentId with
  | some st => return st
  | none => .raise (.keyError intentId)

/-- `journal.open_lots()`. -/
def readLots : Gw (List OpenLot) := do
  let j ← journalNow
  ofExcept (openLots j)

/-- `journal.append(kind, intent_id, payload, run_id=run_id)`. -/
def writeAs (runId : String) (kind : JournalEventKind) (intentId : String) (payload : Payload) : Gw Unit := do
  let r ← appendNow kind intentId payload runId
  ofExcept (r.map (fun _ => ()))

/-! ## Pure parts -/

def IntentStatus.sendable : IntentStatus → Bool
  | .recorded | .notSent => true
  | _ => false

/-- The money an intent is for; asked of buys alone, whose decision price the constructor checks. -/
def notional (i : OrderIntent) : Int := i.qty * (i.limitPrice.getD ((i.decisionPrice.toInt).getD 0))

/-- Unbound broker rows with the intent's symbol, side, quantity and limit price, outside the baseline. -/
def matchCandidates (i : OrderIntent) (snapshot : List BrokerOrder) (bound : List String)
    (baseline : Option (List String)) : List BrokerOrder :=
  snapshot.filter (fun o =>
    let no := normalizeOrderNo o.orderNo
    !(baseline.any (fun b => no == "" || b.contains no)) && !bound.contains no && o.symbol == i.symbol &&
      o.side == i.side && o.orderQty == i.qty &&
      (i.orderType != .limit || i.limitPrice.all (fun p => o.orderPrice == p)))

/-- The normalized order numbers the states are bound to. -/
def boundNumbers (sts : Dict IntentState) : List String :=
  sts.filterMap (fun p => p.2.brokerOrderNo.bind (fun no => if no = "" then none else some (normalizeOrderNo no)))

def stateDate (st : IntentState) : Option String := st.intent.map (·.tradingDate)

def skipPayload (symbol tradingDate : String) (phase : OrderPhase) (reason : String) : Payload :=
  [("reason", .str reason), ("symbol", .str symbol), ("trading_date", .str tradingDate), ("phase", .str phase.value)]

def sendPayload (attempt : Nat) (baseline : Option (List String)) : Payload :=
  ("attempt", .int attempt) :: (baseline.map (fun b => ("baseline_order_nos", Value.strs b))).toList

def resultPayload (attempt : Nat) (r : SubmitResult) : Payload :=
  [("attempt", .int attempt), ("verdict", .str r.verdict.value), ("broker_order_no", r.brokerOrderNo.elim .none .str),
   ("broker_org_no", r.brokerOrgNo.elim .none .str), ("http_status", r.httpStatus.elim .none .int),
   ("msg_cd", .str r.msgCd), ("msg", .str r.msg), ("latency_ms", .float r.latencyMs)]

def adoptPayload (o : BrokerOrder) : Payload :=
  [("broker_order_no", .str o.orderNo), ("broker_org_no", .str o.orgNo)]

def conflictPayload (n : Nat) : Payload := [("n_candidates", .int n)]

def brokerStatePayload (o : BrokerOrder) (final : Bool) : Payload :=
  [("order_qty", .int o.orderQty), ("filled_qty", .int o.filledQty), ("filled_amount_krw", .int o.filledAmountKrw),
   ("remaining_qty", .int o.remainingQty), ("cancelled", .bool o.cancelled), ("rejected_qty", .int o.rejectedQty),
   ("final", .bool final)]

/-- The result that stands for an exception of the broker. -/
def raisedResult (msg : String) : SubmitResult :=
  { verdict := .ambiguous, brokerOrderNo := none, brokerOrgNo := none, httpStatus := none, msgCd := "", msg,
    latencyMs := PyFloat.ofInt 0 }

/-- The result of an attempt, whatever the broker did. -/
def safeResult (msg : String) : Except OrderError SubmitResult → SubmitResult
  | .ok r => r
  | .error _ => raisedResult msg

/-- A status that holds capital. -/
def IntentStatus.exposed : IntentStatus → Bool
  | .acked | .unknown | .filled | .partlyFilled => true
  | _ => false

/-- The notional of the other buys of the intent's date that hold capital. -/
def othersExposure (sts : Dict IntentState) (i : OrderIntent) : Int :=
  (sts.filterMap (fun p => p.2.intent.bind (fun other =>
    if other.side ≠ .buy then none
    else if other.tradingDate ≠ i.tradingDate ∨ other.intentId = i.intentId then none
    else if p.2.status.exposed then some (notional other) else none))).sum

/-- The quantity of the lots of an entry. -/
def lotQty (lots : List OpenLot) (parent : String) : Int :=
  ((lots.filter (·.entryIntentId == parent)).map (·.qty)).sum

/-- The first row with an order number. -/
def findRow (snapshot : List BrokerOrder) (orderNo : String) : Option BrokerOrder :=
  snapshot.find? (fun o => normalizeOrderNo o.orderNo == normalizeOrderNo orderNo && normalizeOrderNo orderNo != "")

/-- The record of fills a row would make, appended to the events without being written. -/
def probeEvent (events : List JournalEvent) (intentId runId : String) (payload : Payload) : JournalEvent :=
  { seq := nextSeq events, ts := "", kind := .brokerState, intentId, runId, payload }

/-- What to do with one intent of the day: nothing, report a contradiction, or record fills. -/
inductive FillStep where
  | keep
  | contradicts
  | record (payload : Payload)

/-- A row that breaks the fill invariants would make every later load raise, so it is kept out. -/
def probeFills (events : List JournalEvent) (intentId runId : String) (payload : Payload) : FillStep :=
  match deriveIntentState (events ++ [probeEvent events intentId runId payload]) with
  | .ok _ => .record payload
  | .error _ => .contradicts

def isFinalRow (o : BrokerOrder) (finalize : Bool) : Bool :=
  decide (o.remainingQty = 0) || o.cancelled || decide (o.rejectedQty = o.orderQty) || finalize

def lastBrokerState (events : List JournalEvent) : Option Payload :=
  (ofKind .brokerState events).getLast?.map (·.payload)

def fillStep (snapshot : List BrokerOrder) (finalize : Bool) (runId intentId : String) (st : IntentState)
    (events : List JournalEvent) : FillStep :=
  match st.brokerOrderNo with
  | none => .keep
  | some no =>
    if st.final then .keep
    else
      match findRow snapshot no with
      | none => .keep
      | some found =>
        let payload := brokerStatePayload found (isFinalRow found finalize)
        if (lastBrokerState events).any (fun prior => Dict.eq prior payload) then .keep
        else probeFills events intentId runId payload

/-- `BrokerReadError` of the intents whose rows contradict the journal. -/
def contradiction (intentIds : List String) : OrderError :=
  .brokerRead ("broker order state contradicts journal intents: " ++
    toString (intentIds.insertionSort (· ≤ ·)))

/-! ## The gateway -/

/-- A gateway's limits and run id, which the sessions build from the date and the phase. -/
structure OrderGateway where
  limits : GatewayLimits
  runId : String
  runText : Py.isBlank runId = false

namespace OrderGateway

variable (g : OrderGateway)

abbrev write (kind : JournalEventKind) (intentId : String) (payload : Payload) : Gw Unit :=
  writeAs g.runId kind intentId payload

def planIntents : List String → List OrderIntent → Gw (List String)
  | recorded, [] => pure recorded
  | recorded, i :: intents =>
    if recorded.contains i.intentId then planIntents recorded intents
    else do
      g.write .intent i.intentId (intentToPayload i)
      planIntents (i.intentId :: recorded) intents

def planSkips : List String → List PlannedSkip → Gw Unit
  | _, [] => pure ()
  | recorded, s :: skips =>
    if recorded.contains s.intentId then planSkips recorded skips
    else do
      g.write .skip s.intentId (skipPayload s.symbol s.tradingDate s.phase s.reason)
      planSkips (s.intentId :: recorded) skips

def plan (intents : List OrderIntent) (skips : List PlannedSkip) : Gw Unit := do
  let sts ← readStates
  let recorded ← g.planIntents (sts.map (·.1)) intents
  g.planSkips recorded skips

/-- Append the SKIP of a refusal and return the state. -/
def refuse (intentId : String) (i : OrderIntent) (reason : String) : Gw IntentState := do
  g.write .skip intentId (skipPayload i.symbol i.tradingDate i.phase reason)
  stateAt intentId

/-- Normalized same-day broker order numbers, or `none` when the read fails. -/
def readBaseline (tradingDate : String) : Gw (Option (List String)) := do
  match ← fetchDailyOrders tradingDate with
  | .error _ => return none
  | .ok snapshot =>
    return some ((snapshot.map (fun o => normalizeOrderNo o.orderNo)).filter (· ≠ ""))

def runCapRefusal : Gw (Option String) := do
  let sends ← sendsMade
  return if g.limits.maxSendsPerRun ≤ (sends : Int) then some "run_send_cap" else none

def riskRefusal (i : OrderIntent) : Gw (Option String) :=
  match i.side with
  | .buy =>
    if g.limits.maxNotionalPerOrderKrw < notional i then pure (some "notional_cap")
    else do
      let sts ← readStates
      if g.limits.seedCapitalKrw < notional i + othersExposure sts i then pure (some "seed_cap")
      else g.runCapRefusal
  | .sell => do
    let lots ← readLots
    if lotQty lots (i.parentIntentId.getD "") < i.qty then pure (some "exceeds_open_lot")
    else g.runCapRefusal

/-- One attempt: SEND, the POST, RESULT. -/
def sendOnce (intentId : String) (i : OrderIntent) (baseline : Option (List String)) : Gw SubmitResult := do
  let st ← stateAt intentId
  let attempt := st.nSends + 1
  g.write .send intentId (sendPayload attempt baseline)
  let r ← submitOrder i
  let result := safeResult "submit raised" r
  countSend
  g.write .result intentId (resultPayload attempt result)
  return result

def wasNotFound (intentId : String) : Gw Bool := do
  let events ← loadEvents
  return events.any (fun e => e.intentId == intentId && e.kind == .notFound)

/-- What the polls for a lost order came to. -/
inductive Polled where
  | settled
  | unreadable
  | absent

/-- The remaining polls of the daily list. -/
def poll (i : OrderIntent) (bound : List String) : Nat → Gw Polled
  | 0 => pure .absent
  | n + 1 => do
    match ← fetchDailyOrders i.tradingDate with
    | .error _ => pure .unreadable
    | .ok snapshot =>
      let st ← stateAt i.intentId
      match matchCandidates i snapshot bound st.baselineOrderNos with
      | [order] => do
        g.write .adopt i.intentId (adoptPayload order)
        pure .settled
      | [] =>
        if n = 0 then poll i bound n
        else do
          sleepFn (PyFloat.max0 g.limits.unknownResolveIntervalSeconds)
          poll i bound n
      | c :: cs => do
        g.write .resolveConflict i.intentId (conflictPayload (c :: cs).length)
        pure .settled

/-- The one resend of an exit the polls did not find, when the broker still holds the shares. -/
def resendExit (i : OrderIntent) (deadline : Int) (after : IntentState) : Gw IntentState := do
  if ← isHalted then pure after
  else
    match ← fetchPositions with
    | .error _ => pure after
    | .ok positions =>
      let sellable := ((positions.find? (fun p => p.symbol == i.symbol)).map (·.sellableQty)).getD 0
      if sellable < i.qty then stateAt i.intentId
      else do
        let t ← nowFn
        if t < deadline then do
          let _ ← g.sendOnce i.intentId i none
          stateAt i.intentId
        else stateAt i.intentId

/-- `float(max(0, polls - 1)) * float(interval)`. -/
def pollSpan : PyFloat :=
  PyFloat.mul (PyFloat.ofInt (max 0 (g.limits.unknownResolvePolls - 1)))
    (PyFloat.max0 g.limits.unknownResolveIntervalSeconds)

def resolveUnknown (i : OrderIntent) (deadline : Int) : Gw IntentState := do
  let sts ← readStates
  if g.limits.unknownResolvePolls ≤ 0 then
    -- Zero polls prove nothing about absence, so NOT_FOUND is off the table.
    match sts.lookup i.intentId with
    | some st => pure st
    | none => .raise (.keyError i.intentId)
  else
    match ← g.poll i (boundNumbers sts) g.limits.unknownResolvePolls.toNat with
    | .settled | .unreadable => stateAt i.intentId
    | .absent => do
      g.write .notFound i.intentId
        [("n_polls", .int g.limits.unknownResolvePolls), ("span_seconds", .float g.pollSpan)]
      let after ← stateAt i.intentId
      if i.phase = .exit ∧ g.limits.exitResendOnAmbiguous = true then g.resendExit i deadline after
      else stateAt i.intentId

/-- The attempts of one submit; the first SEND of an intent records the baseline. -/
def sendLoop (intentId : String) (i : OrderIntent) (deadline : Int) :
    Option (List String) → Nat → Gw IntentState
  | _, 0 => stateAt intentId
  | baseline, n + 1 => do
    let t ← nowFn
    if deadline ≤ t then do
      let fresh ← stateAt intentId
      if fresh.nSends = 0 then g.refuse intentId i "deadline_passed" else pure fresh
    else do
      let result ← g.sendOnce intentId i baseline
      if result.verdict = .accepted ∨ result.verdict = .rejected then stateAt intentId
      else if result.verdict.retryable then sendLoop intentId i deadline none n
      else do
        if ← wasNotFound intentId then stateAt intentId
        else g.resolveUnknown i deadline

/-- `max(1, self._limits.send_max_attempts)`. -/
def attempts : Nat := (max 1 g.limits.sendMaxAttempts).toNat

/-- The checks before an intent's first SEND, and the read of its baseline. -/
def firstSend (intentId : String) (i : OrderIntent) (deadline : Int) : Gw IntentState := do
  match ← g.riskRefusal i with
  | some refusal => g.refuse intentId i refusal
  | none => do
    let baseline ← readBaseline i.tradingDate
    if ← isHalted then g.refuse intentId i "halted"
    else g.sendLoop intentId i deadline baseline g.attempts

def submit (intentId : String) (deadline : Int) : Gw IntentState := do
  let sts ← readStates
  match sts.lookup intentId with
  | none => .raise (.keyError intentId)
  | some st =>
    if st.status.sendable = false then pure st
    else
      match st.intent with
      | none => .raise .assertionError
      | some i => do
        if ← isHalted then g.refuse intentId i "halted"
        else if st.nSends = 0 then g.firstSend intentId i deadline
        else g.sendLoop intentId i deadline none g.attempts

/-! ### Reconciliation -/

/-- The intents of a date, in journal order. -/
def dayIds (sts : Dict IntentState) (tradingDate : String) : List String :=
  (sts.filter (fun p => stateDate p.2 == some tradingDate)).map (·.1)

/-- Bind the UNKNOWN intents of the day, each to its one unbound candidate. -/
def adoptDay (snapshot : List BrokerOrder) : List String → List String → Gw Unit
  | _, [] => pure ()
  | bound, intentId :: rest => do
    let st ← stateAt intentId
    match st.status, st.intent with
    | .unknown, some i =>
      match matchCandidates i snapshot bound st.baselineOrderNos with
      | [] => adoptDay snapshot bound rest
      | [order] => do
        g.write .adopt intentId (adoptPayload order)
        adoptDay snapshot (normalizeOrderNo order.orderNo :: bound) rest
      | c :: cs => do
        g.write .resolveConflict intentId (conflictPayload (c :: cs).length)
        adoptDay snapshot bound rest
    | _, _ => adoptDay snapshot bound rest

/-- Record the day's fills; the intents whose rows contradict the journal. -/
def fillDay (snapshot : List BrokerOrder) (finalize : Bool) (sts : Dict IntentState) (events : List JournalEvent) :
    List String → Gw (List String)
  | [] => pure []
  | intentId :: rest =>
    match sts.lookup intentId with
    | none => .raise (.keyError intentId)
    | some st =>
      match fillStep snapshot finalize g.runId intentId st (eventsOf events intentId) with
      | .keep => fillDay snapshot finalize sts events rest
      | .contradicts => do
        let more ← fillDay snapshot finalize sts events rest
        return intentId :: more
      | .record payload => do
        g.write .brokerState intentId payload
        fillDay snapshot finalize sts events rest

def nForeign (sts : Dict IntentState) (snapshot : List BrokerOrder) : Nat :=
  (snapshot.filter (fun o => !(boundNumbers sts).contains (normalizeOrderNo o.orderNo))).length

/-- The last position of a symbol, or nothing held. -/
def holdingOf (positions : List BrokerPosition) (symbol : String) : Int :=
  ((positions.reverse.find? (fun p => p.symbol == symbol)).map (·.holdingQty)).getD 0

/-- Values summed by key, the keys sorted. -/
def sumByKey (items : List (String × Int)) : List (String × Int) :=
  ((items.map (·.1)).dedup.insertionSort (· ≤ ·)).map (fun k => (k, ((items.filter (·.1 == k)).map (·.2)).sum))

def shortfalls (lots : List OpenLot) (positions : List BrokerPosition) : List (String × Int × Int) :=
  (sumByKey (lots.map (fun l => (l.symbol, l.qty)))).filterMap (fun p =>
    if holdingOf positions p.1 < p.2 then some (p.1, p.2, holdingOf positions p.1) else none)

/-- Symbols of unresolved buys the broker holds more of than the journal. -/
def exposures (sts : Dict IntentState) (lots : List OpenLot) (positions : List BrokerPosition) :
    List (String × Int × Int) :=
  let journalQty (symbol : String) : Int := ((lots.filter (·.symbol == symbol)).map (·.qty)).sum
  let unknownBuys := sts.filterMap (fun p => p.2.intent.bind (fun i =>
    if p.2.status = .unknown ∧ i.side = .buy then some (i.symbol, i.qty) else none))
  (sumByKey unknownBuys).filterMap (fun p =>
    let excess := holdingOf positions p.1 - journalQty p.1
    if 0 < excess then some (p.1, p.2, excess) else none)

def isMissing (snapshot : List BrokerOrder) (st : IntentState) : Bool :=
  st.brokerOrderNo.any (fun no => no != "" && !st.final &&
    !(snapshot.map (fun o => normalizeOrderNo o.orderNo)).contains (normalizeOrderNo no))

def reportOf (tradingDate : String) (ids : List String) (foreign : Nat) (sts : Dict IntentState)
    (snapshot : List BrokerOrder) (positions : List BrokerPosition) (lots : List OpenLot) : ReconcileReport :=
  let day := ids.filterMap (fun id => sts.lookup id)
  let count (p : IntentState → Bool) : Nat := (day.filter p).length
  { tradingDate, nIntents := ids.length, nFilled := count (·.status == .filled),
    nPartial := count (·.status == .partlyFilled), nUnfilled := count (·.status == .unfilled),
    nWorking := count (fun s => s.status == .acked && !s.final), nUnknown := count (·.status == .unknown),
    nMissingAtBroker := count (isMissing snapshot), nForeignOrders := foreign,
    positionShortfalls := shortfalls lots positions,
    filledAmountKrw := ((sts.filter (fun p => stateDate p.2 == some tradingDate)).map (·.2.filledAmountKrw)).sum,
    nUnknownUnresolvedTotal := (sts.filter (fun p => p.2.intent.isSome && p.2.status == .unknown)).length,
    unknownExposures := exposures sts lots positions }

/-- The report of a pass that met no contradiction. -/
def finishReconcile (tradingDate : String) (ids : List String) (snapshot : List BrokerOrder) : Gw ReconcileReport := do
  let sts ← readStates
  match ← fetchPositions with
  | .error e => .raise e
  | .ok positions => do
    let lots ← readLots
    let after ← readStates
    return reportOf tradingDate ids (nForeign sts snapshot) after snapshot positions lots

def reconcile (tradingDate : String) (finalize : Bool) : Gw ReconcileReport := do
  match ← fetchDailyOrders tradingDate with
  | .error e => .raise e
  | .ok snapshot => do
    let sts ← readStates
    let ids := dayIds sts tradingDate
    g.adoptDay snapshot (boundNumbers sts) ids
    let sts ← readStates
    let events ← loadEvents
    let contradictions ← g.fillDay snapshot finalize sts events ids
    if contradictions.isEmpty then finishReconcile tradingDate ids snapshot
    else .raise (contradiction contradictions)

/-! ### Carry-over -/

/-- An UNKNOWN intent of an earlier date. -/
structure Target where
  intentId : String
  intent : OrderIntent
  baseline : Option (List String)

def daysBefore (asOf : Int) (tradingDate : String) : Option Int :=
  (parseDate tradingDate).map (fun ymd => asOf - ordinal ymd)

def carryTargets (sts : Dict IntentState) (asOf lookback : Int) : List Target :=
  sts.filterMap (fun p => p.2.intent.bind (fun i =>
    if p.2.status = .unknown ∧ (daysBefore asOf i.tradingDate).any (fun d => decide (1 ≤ d ∧ d ≤ lookback)) = true then
      some ⟨p.1, i, p.2.baselineOrderNos⟩
    else none))

def carryDatesOf (targets : List Target) : List String :=
  (targets.map (·.intent.tradingDate)).dedup.insertionSort (· ≤ ·)

def targetsOn (targets : List Target) (tradingDate : String) : List Target :=
  (targets.filter (·.intent.tradingDate == tradingDate)).insertionSort (fun a b => a.intentId ≤ b.intentId)

/-- The numbers bound so far, the intents with a conflict on record, and the adoptions of this call. -/
structure Carry where
  bound : List String
  conflicted : List String
  adopted : List (String × BrokerOrder)

def carryIntents (snapshot : List BrokerOrder) : Carry → List Target → Gw Carry
  | c, [] => pure c
  | c, t :: rest =>
    match matchCandidates t.intent snapshot c.bound t.baseline with
    | [] => carryIntents snapshot c rest
    | [order] => do
      g.write .adopt t.intentId (adoptPayload order)
      carryIntents snapshot { c with bound := normalizeOrderNo order.orderNo :: c.bound,
                                     adopted := c.adopted ++ [(t.intentId, order)] } rest
    | o :: os =>
      if c.conflicted.contains t.intentId then carryIntents snapshot c rest
      else do
        g.write .resolveConflict t.intentId (conflictPayload (o :: os).length)
        carryIntents snapshot { c with conflicted := t.intentId :: c.conflicted } rest

def carryDates (targets : List Target) : Carry → List String → Gw Carry
  | c, [] => pure c
  | c, d :: rest => do
    match ← fetchDailyOrders d with
    | .error (.brokerRead _) => carryDates targets c rest
    | .error e => .raise e
    | .ok snapshot => do
      let c ← g.carryIntents snapshot c (targetsOn targets d)
      carryDates targets c rest

/-- Record the fills of the adopted rows, as final; the intents whose rows contradict the journal. -/
def carryFills (events : List JournalEvent) : List (String × BrokerOrder) → Gw (List String)
  | [] => pure []
  | (intentId, found) :: rest =>
    match probeFills (eventsOf events intentId) intentId g.runId (brokerStatePayload found true) with
    | .record payload => do
      g.write .brokerState intentId payload
      carryFills events rest
    | _ => do
      let more ← carryFills events rest
      return intentId :: more

def conflictedIds (events : List JournalEvent) : List String := (ofKind .resolveConflict events).map (·.intentId)

def resolveCarryover (asOfDate : String) : Gw Nat := do
  let asOf ← ofExcept (fromisoformat asOfDate)
  let sts ← readStates
  let targets := carryTargets sts asOf g.limits.carryoverLookbackDays
  if targets.isEmpty then pure 0
  else do
    let events ← loadEvents
    let c ← g.carryDates targets ⟨boundNumbers sts, conflictedIds events, []⟩ (carryDatesOf targets)
    if c.adopted.isEmpty then pure 0
    else do
      let events ← loadEvents
      let contradictions ← g.carryFills events c.adopted
      if contradictions.isEmpty then pure c.adopted.length
      else .raise (contradiction contradictions)

/-! ### Cancelling -/

def cancelTargets (sts : Dict IntentState) (tradingDate : String) : Dict IntentState :=
  sts.filter (fun p => stateDate p.2 == some tradingDate && p.2.status == .acked && !p.2.final &&
    p.2.brokerOrderNo.any (· != ""))

def cancelResultPayload (attempt : Nat) (r : SubmitResult) : Payload :=
  [("attempt", .int attempt), ("verdict", .str r.verdict.value), ("msg_cd", .str r.msgCd),
   ("http_status", r.httpStatus.elim .none .int)]

def cancelEach (events : List JournalEvent) : Dict IntentState → Gw Nat
  | [] => pure 0
  | (intentId, st) :: rest => do
    let attempt := (ofKind .cancelSend (eventsOf events intentId)).length + 1
    g.write .cancelSend intentId [("attempt", .int attempt)]
    let r ← cancelOrder (st.brokerOrgNo.getD "") (st.brokerOrderNo.getD "")
    let result := safeResult "cancel raised" r
    g.write .cancelResult intentId (cancelResultPayload attempt result)
    let accepted ← cancelEach events rest
    return if result.verdict = .accepted then accepted + 1 else accepted

def cancelWorking (tradingDate : String) : Gw Nat := do
  let sts ← readStates
  let events ← loadEvents
  g.cancelEach events (cancelTargets sts tradingDate)

end OrderGateway
end Order
