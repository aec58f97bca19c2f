import KClosingAlpha.Order.Contract
import Mathlib.Data.List.Sort
/-!
# Journal — the write-ahead journal of order events and the state derived from it (`order_journal.py`)

The journal is the list of its records in file order; the bytes of its lines are left out.  Every operation here is taken
under the exclusive lock, so nothing else writes between a read and an append.
-/
namespace Order

open Py (Value Dict)
open Exc (raiseIf)

inductive JournalEventKind where
  | intent
  | skip
  | send
  | result
  | adopt
  | notFound
  | operatorResolve
  | resolveConflict
  | brokerState
  | cancelSend
  | cancelResult
  deriving DecidableEq

inductive IntentStatus where
  | recorded
  | skipped
  | notSent
  | unknown
  | notFound
  | rejected
  | acked
  | filled
  | partlyFilled
  | unfilled
  | cancelled
  deriving DecidableEq

abbrev Payload := Dict Value

/-- One immutable journal line. -/
structure JournalEvent where
  seq : Nat
  ts : String
  kind : JournalEventKind
  intentId : String
  runId : String
  payload : Payload
  deriving DecidableEq

/-- State of one intent derived from its events. -/
structure IntentState where
  intent : Option OrderIntent
  status : IntentStatus
  nSends : Nat
  brokerOrderNo : Option String
  brokerOrgNo : Option String
  filledQty : Int
  filledAmountKrw : Int
  remainingQty : Int
  final : Bool
  reason : String
  baselineOrderNos : Option (List String)
  deriving DecidableEq

/-- Shares bought by one entry intent and not yet sold by its exit intents. -/
structure OpenLot where
  entryIntentId : String
  symbol : String
  tradingDate : String
  qty : Int
  deriving DecidableEq

abbrev Journal := List JournalEvent

abbrev corrupt (msg : String) : OrderError := .journalCorrupt msg

/-! ## Payloads -/

def intentToPayload (i : OrderIntent) : Payload :=
  [("intent_id", .str i.intentId), ("trading_date", .str i.tradingDate), ("phase", .str i.phase.value),
   ("symbol", .str i.symbol), ("side", .str i.side.value), ("order_type", .str i.orderType.value),
   ("qty", .int i.qty), ("limit_price", i.limitPrice.elim .none .int), ("decision_price", i.decisionPrice),
   ("parent_intent_id", i.parentIntentId.elim .none .str)]

/-- A price argument: an integer or nothing; the constructor refuses every other object. -/
def priceOfValue : Value → Option (Option Int)
  | .int p => some (some p)
  | .none => some none
  | _ => none

/-- A parent argument: a string or nothing; the constructor refuses every other object. -/
def parentOfValue : Value → Option (Option String)
  | .str s => some (some s)
  | .none => some none
  | _ => none

/-- The constructor's arguments as a payload gives them; `none` where a key is missing or a conversion raises. -/
def fieldsOfPayload (intentId : String) (payload : Payload) : Option IntentFields := do
  let tradingDate ← payload.lookup "trading_date"
  let phase ← (← payload.lookup "phase").toStr |> OrderPhase.ofValue
  let symbol ← payload.lookup "symbol"
  let side ← (← payload.lookup "side").toStr |> OrderSide.ofValue
  let orderType ← (← payload.lookup "order_type").toStr |> OrderType.ofValue
  let qty ← (← payload.lookup "qty").toInt
  let limitPrice ← priceOfValue (← payload.lookup "limit_price")
  let decisionPrice ← payload.lookup "decision_price"
  let parentIntentId ← parentOfValue (← payload.lookup "parent_intent_id")
  return { intentId, tradingDate := tradingDate.toStr, phase, symbol := symbol.toStr, side, orderType, qty,
           limitPrice, decisionPrice, parentIntentId }

def intentFromPayload (intentId : String) (payload : Payload) : Except OrderError OrderIntent :=
  match fieldsOfPayload intentId payload with
  | none => .error (corrupt "bad INTENT payload")
  | some f =>
    match OrderIntent.make f with
    | .ok i => .ok i
    | .error _ => .error (corrupt "bad INTENT payload")

def payloadInt (payload : Payload) (key : String) : Except OrderError Int :=
  match payload.lookup key with
  | some (.int i) => .ok i
  | _ => .error (corrupt "BROKER_STATE: field must be int")

def payloadBaseline (payload : Payload) : Except OrderError (Option (List String)) :=
  match payload.lookup "baseline_order_nos" with
  | none => .ok none
  | some (.strs xs) =>
    if xs.all (fun x => decide (x ≠ "") && decide (normalizeOrderNo x ≠ "")) then
      .ok (some (xs.map normalizeOrderNo))
    else .error (corrupt "bad baseline_order_nos")
  | some _ => .error (corrupt "bad baseline_order_nos")

/-- A string that `strip()` leaves non-empty. -/
def isText : Option Value → Bool
  | some (.str s) => !Py.isBlank s
  | _ => false

def validateOperatorPayload (payload : Payload) : Except OrderError Unit := do
  let resolution := payload.lookup "resolution"
  raiseIf (resolution ≠ some (.str "adopt") ∧ resolution ≠ some (.str "not_found"))
    (corrupt "bad operator_resolve resolution")
  raiseIf (isText (payload.lookup "operator") = false) (corrupt "bad operator_resolve operator")
  raiseIf (isText (payload.lookup "reason") = false) (corrupt "bad operator_resolve reason")
  raiseIf (resolution = some (.str "adopt") ∧ isText (payload.lookup "broker_order_no") = false)
    (corrupt "bad operator_resolve order number")
  raiseIf (resolution = some (.str "adopt") ∧ isText (payload.lookup "broker_org_no") = false)
    (corrupt "bad operator_resolve order number")

/-- `SubmitVerdict(str(payload.get("verdict", "")))`, when it does not raise. -/
def verdictOf (payload : Payload) : Option SubmitVerdict :=
  SubmitVerdict.ofValue (payload.getD "verdict" (.str "")).toStr

/-- `str(raw)` of a present number, for `raw = payload.get(key)`. -/
def numberOf (payload : Payload) (key : String) : Option String :=
  match payload.lookup key with
  | none | some .none => none
  | some v => some v.toStr

/-- An event that binds a broker order other than by an accepted POST. -/
def isAdoption (e : JournalEvent) : Bool :=
  e.kind == .adopt || (e.kind == .operatorResolve && e.payload.lookup "resolution" == some (.str "adopt"))

def isOperatorNotFound (e : JournalEvent) : Bool :=
  e.kind == .operatorResolve && e.payload.lookup "resolution" == some (.str "not_found")

/-- A RESULT that records the verdict. -/
def isVerdict (v : SubmitVerdict) (e : JournalEvent) : Bool := e.kind == .result && verdictOf e.payload == some v

/-! ## The fold of one intent's events -/

def sortBySeq (events : List JournalEvent) : List JournalEvent := events.insertionSort (fun a b => a.seq ≤ b.seq)

/-- No two neighbours fail `prev.seq < cur.seq`. -/
def increasingSeq : List JournalEvent → Bool
  | a :: b :: t => decide (a.seq < b.seq) && increasingSeq (b :: t)
  | _ => true

def ofKind (k : JournalEventKind) (events : List JournalEvent) : List JournalEvent := events.filter (·.kind == k)

/-- The largest `seq` of a list of events; zero of none. -/
def maxSeq (events : List JournalEvent) : Nat := events.foldl (fun m e => max m e.seq) 0

def foldIntent (events : List JournalEvent) : Except OrderError (Option OrderIntent) :=
  events.foldlM (fun acc e => if e.kind = .intent then some <$> intentFromPayload e.intentId e.payload else pure acc) none

/-- One operator event: its payload, and that the state before it is one an operator may resolve. -/
def checkOperator (prior : List JournalEvent → Except OrderError IntentState) (before : List JournalEvent)
    (e : JournalEvent) : Except OrderError Unit :=
  if e.kind = .operatorResolve then do
    validateOperatorPayload e.payload
    raiseIf (before.isEmpty = true) (corrupt "operator_resolve without prior state")
    let p ← prior before
    raiseIf (p.status ≠ .unknown ∧ p.status ≠ .notFound) (corrupt "operator_resolve over a settled state")
  else pure ()

def checkOperators (prior : List JournalEvent → Except OrderError IntentState) :
    List JournalEvent → List JournalEvent → Except OrderError Unit
  | _, [] => pure ()
  | before, e :: rest => do
    checkOperator prior before e
    checkOperators prior (before ++ [e]) rest

/-- The reason a SKIP records; empty when it is no string. -/
def skipReason (payload : Payload) : String :=
  match payload.lookup "reason" with
  | some (.str s) => s
  | _ => ""

/-- The reason of the last SKIP. -/
def foldReason (events : List JournalEvent) : String :=
  events.foldl (fun acc e => if e.kind = .skip then skipReason e.payload else acc) ""

/-- The first baseline a SEND recorded; every SEND's must be readable. -/
def foldBaseline (events : List JournalEvent) : Except OrderError (Option (List String)) :=
  events.foldlM (fun acc e =>
    if e.kind = .send then do
      let parsed ← payloadBaseline e.payload
      pure (if acc.isNone then parsed else acc)
    else pure acc) none

/-- The broker's order and organisation numbers, as the last accepted POST or adoption gives them. -/
def foldNumbers (events : List JournalEvent) : Except OrderError (Option String × Option String) :=
  events.foldlM (fun acc e =>
    if e.kind = .result then
      match verdictOf e.payload with
      | none => .error (corrupt "bad RESULT verdict")
      | some .accepted => pure (numberOf e.payload "broker_order_no", numberOf e.payload "broker_org_no")
      | some _ => pure acc
    else if isAdoption e then
      pure (numberOf e.payload "broker_order_no", numberOf e.payload "broker_org_no")
    else pure acc) (none, none)

/-- The fills of one BROKER_STATE: filled quantity, filled amount, remaining quantity. -/
structure Fills where
  filledQty : Int
  filledAmountKrw : Int
  remainingQty : Int
  deriving DecidableEq

/-- One BROKER_STATE against the intent and the fills before it. -/
def checkFills (intent : Option OrderIntent) (prev : Option Fills) (payload : Payload) : Except OrderError Fills := do
  let fq ← payloadInt payload "filled_qty"
  let fa ← payloadInt payload "filled_amount_krw"
  let rq ← payloadInt payload "remaining_qty"
  let _ ← payloadInt payload "order_qty"
  raiseIf (intent.any (fun i => decide (i.qty < fq)) = true) (corrupt "overfill")
  raiseIf (intent.any (fun i => decide (i.qty < fq + rq)) = true) (corrupt "fill+remaining exceeds qty")
  raiseIf (fq < 0 ∨ rq < 0 ∨ fa < 0) (corrupt "negative fill field")
  raiseIf (prev.any (fun p => decide (fq < p.filledQty)) = true) (corrupt "fill decreased")
  return ⟨fq, fa, rq⟩

def foldFills (intent : Option OrderIntent) (events : List JournalEvent) : Except OrderError (Option Fills) :=
  events.foldlM (fun prev e => if e.kind = .brokerState then some <$> checkFills intent prev e.payload else pure prev) none

def isFinalState (e : JournalEvent) : Bool :=
  e.kind == .brokerState && (e.payload.getD "final" .none).truthy

/-- The status a final BROKER_STATE stands for. -/
def finalStatus (intent : Option OrderIntent) (payload : Payload) : IntentStatus :=
  let fq := ((payload.getD "filled_qty" .none).toInt).getD 0
  let refQty := intent.elim (((payload.getD "order_qty" .none).toInt).getD 0) (·.qty)
  if fq = refQty ∧ 0 < refQty then .filled
  else if 0 < fq ∧ fq < refQty then .partlyFilled
  else if fq = 0 ∧ (payload.getD "cancelled" .none).truthy = true then .cancelled
  else .unfilled

/-- A verdict after which no order exists at the broker and the intent may be sent again. -/
def SubmitVerdict.retryable : SubmitVerdict → Bool
  | .throttled | .authRejected | .notSent => true
  | _ => false

/-- The status of an intent no final BROKER_STATE has closed, and whether it is final. -/
def openStatus (ordered : List JournalEvent) : IntentStatus × Bool :=
  let sends := ofKind .send ordered
  let results := ofKind .result ordered
  let notFounds := ofKind .notFound ordered
  let conflicts := ofKind .resolveConflict ordered
  let laterResults := results.filter (fun e => decide (maxSeq sends < e.seq))
  let laterConflicts := conflicts.filter (fun e => decide (maxSeq sends < e.seq))
  let lastVerdict (l : List JournalEvent) : Option SubmitVerdict := l.getLast?.bind (fun e => verdictOf e.payload)
  if ordered.any (isVerdict .accepted) || ordered.any isAdoption then (.acked, false)
  else if ordered.any (isVerdict .rejected) then (.rejected, true)
  else if !sends.isEmpty && !notFounds.isEmpty && decide (maxSeq sends < maxSeq notFounds) then (.notFound, false)
  else if ordered.any isOperatorNotFound then (.notFound, false)
  else if !sends.isEmpty && (laterResults.isEmpty || !laterConflicts.isEmpty) then (.unknown, false)
  else if !sends.isEmpty && lastVerdict laterResults == some .ambiguous then (.unknown, false)
  else if !sends.isEmpty && (lastVerdict laterResults).any SubmitVerdict.retryable then (.notSent, false)
  else if !results.isEmpty && (lastVerdict results).any SubmitVerdict.retryable then (.notSent, false)
  else if !results.isEmpty && lastVerdict results == some .ambiguous then (.unknown, false)
  else if ordered.any (·.kind == .skip) then (.skipped, true)
  else (.recorded, false)

/-- The status, by the last final BROKER_STATE if there is one, and whether it is final. -/
def closedStatus (intent : Option OrderIntent) (ordered : List JournalEvent) : IntentStatus × Bool :=
  match (ordered.filter isFinalState).getLast? with
  | some e => (finalStatus intent e.payload, true)
  | none => openStatus ordered

/-- The fold of one intent's events into its state; `prior` derives the state before an operator event. -/
def deriveWith (prior : List JournalEvent → Except OrderError IntentState) (events : List JournalEvent) :
    Except OrderError IntentState := do
  raiseIf (events.isEmpty = true) (corrupt "empty event sequence")
  let ordered := sortBySeq events
  raiseIf (increasingSeq ordered = false) (corrupt "non-increasing seq")
  raiseIf (1 < (ofKind .intent ordered).length) (corrupt "duplicate INTENT")
  let intent ← foldIntent ordered
  checkOperators prior [] ordered
  let baseline ← foldBaseline ordered
  let numbers ← foldNumbers ordered
  let fills ← foldFills intent ordered
  let status := closedStatus intent ordered
  return { intent, status := status.1, nSends := (ofKind .send ordered).length, brokerOrderNo := numbers.1,
           brokerOrgNo := numbers.2, filledQty := fills.elim 0 (·.filledQty),
           filledAmountKrw := fills.elim 0 (·.filledAmountKrw), remainingQty := fills.elim 0 (·.remainingQty),
           final := status.2, reason := foldReason ordered, baselineOrderNos := baseline }

/-- The recursion of `derive_intent_state` into proper prefixes, bounded by their length. -/
def deriveFuel : Nat → List JournalEvent → Except OrderError IntentState
  | 0 => deriveWith (fun _ => .error (corrupt "empty event sequence"))
  | n + 1 => deriveWith (deriveFuel n)

def deriveIntentState (events : List JournalEvent) : Except OrderError IntentState := deriveFuel events.length events

/-! ## The journal -/

/-- A payload item the journal stores: a scalar, or a list of strings under the baseline's key. -/
def isStorable (item : String × Value) : Bool :=
  (item.1 == "baseline_order_nos" && (match item.2 with | .strs _ => true | _ => false)) || item.2.isScalar

/-- What the reader has seen of the lines before: the last `seq`, the ids with an INTENT, the ids with INTENT or SKIP. -/
structure Seen where
  prevSeq : Option Nat
  intents : List String
  ids : List String

/-- The reader's checks of one decoded record after the lines before it. -/
def checkRecord (seen : Seen) (e : JournalEvent) : Except OrderError Seen := do
  raiseIf (e.seq = 0) (corrupt "bad seq")
  raiseIf (seen.prevSeq.any (fun p => decide (e.seq ≤ p)) = true) (corrupt "non-increasing seq")
  raiseIf (Py.isBlank e.ts = true) (corrupt "bad ts")
  raiseIf (e.intentId = "") (corrupt "bad intent_id")
  raiseIf (e.runId = "") (corrupt "bad run_id")
  raiseIf (e.payload.all isStorable = false) (corrupt "non-scalar payload value")
  if e.kind = .intent then do
    raiseIf (seen.intents.contains e.intentId = true) (corrupt "duplicate INTENT")
    return ⟨some e.seq, e.intentId :: seen.intents, e.intentId :: seen.ids⟩
  else if e.kind = .skip then return ⟨some e.seq, seen.intents, e.intentId :: seen.ids⟩
  else do
    raiseIf (seen.ids.contains e.intentId = false) (corrupt "event without preceding INTENT/SKIP")
    return ⟨some e.seq, seen.intents, seen.ids⟩

def Seen.start : Seen := ⟨none, [], []⟩

def checkRecords (j : Journal) : Except OrderError Seen := j.foldlM checkRecord Seen.start

/-- All events in file order, or the reader's refusal. -/
def load (j : Journal) : Except OrderError (List JournalEvent) := (fun _ => j) <$> checkRecords j

/-- The events of one intent. -/
def eventsOf (j : Journal) (intentId : String) : List JournalEvent := j.filter (·.intentId == intentId)

/-- The intent ids in order of first appearance: the keys of the grouping dictionary. -/
def idsOf : Journal → List String
  | [] => []
  | e :: j => e.intentId :: (idsOf j).filter (· ≠ e.intentId)

/-- Intent id to derived state, for every intent in the journal. -/
def states (j : Journal) : Except OrderError (Dict IntentState) := do
  let events ← load j
  (idsOf events).mapM (fun k => do
    let s ← deriveIntentState (sortBySeq (eventsOf events k))
    return (k, s))

/-- The quantity the exit intents naming an entry have filled. -/
def exitsByParent (sts : Dict IntentState) (parent : String) : Int :=
  ((sts.filter (fun p => p.2.intent.any (fun i => i.phase == .exit && i.parentIntentId == some parent))).map
    (fun p => p.2.filledQty)).sum

/-- One more state's lot, where `sold` is what the exits of each entry have filled. -/
def lotStep (sold : String → Int) (lots : List OpenLot) (p : String × IntentState) : Except OrderError (List OpenLot) :=
  match p.2.intent with
  | none => pure lots
  | some i =>
    if i.phase ≠ .entry then pure lots
    else
      let qty := p.2.filledQty - sold p.1
      if qty < 0 then .error (corrupt "exits exceed entry fills")
      else if 0 < qty then pure (lots ++ [⟨p.1, i.symbol, i.tradingDate, qty⟩])
      else pure lots

def lotsOf (sts : Dict IntentState) : Except OrderError (List OpenLot) := sts.foldlM (lotStep (exitsByParent sts)) []

/-- Entry lots with a positive unsold quantity. -/
def openLots (j : Journal) : Except OrderError (List OpenLot) := do
  let sts ← states j
  let lots ← lotsOf sts
  return lots.insertionSort (fun a b => a.tradingDate < b.tradingDate ∨ (a.tradingDate = b.tradingDate ∧ a.symbol ≤ b.symbol))

/-- The ids a journal records an INTENT for. -/
def intentIdsWithIntent (j : Journal) : List String := (ofKind .intent j).map (·.intentId)

/-- The checks of `append` before it writes. -/
def checkAppend (j : Journal) (kind : JournalEventKind) (intentId : String) (payload : Payload) (runId : String) :
    Except OrderError Unit := do
  raiseIf (Py.isBlank intentId = true) (.valueError "intent_id must be non-blank")
  raiseIf (Py.isBlank runId = true) (.valueError "run_id must be non-blank")
  raiseIf (payload.any (fun p => p.1 == "") = true) (.valueError "payload keys must be non-empty strings")
  raiseIf (payload.all isStorable = false) (.valueError "payload value must be a JSON scalar")
  raiseIf (kind = .skip ∧ isText (payload.lookup "reason") = false) (.valueError "SKIP requires a non-blank reason")
  raiseIf (kind = .intent ∧ (intentIdsWithIntent j).contains intentId = true) (.valueError "duplicate INTENT")
  let _ ← load j

/-- `(events[-1].seq + 1) if events else 1`. -/
def nextSeq (events : List JournalEvent) : Nat := (events.getLast?.map (fun e => e.seq + 1)).getD 1

/-- Append one event and return it; `ts` is the clock's reading. -/
def append (j : Journal) (kind : JournalEventKind) (intentId : String) (payload : Payload) (runId ts : String) :
    Except OrderError JournalEvent := do
  checkAppend j kind intentId payload runId
  return { seq := nextSeq j, ts, kind, intentId, runId, payload }

end Order
