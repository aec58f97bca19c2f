import KClosingAlpha.Order.Gateway
/-!
# Resolve — an operator settles a stuck UNKNOWN intent (`order_resolve.py`)
-/
namespace Order

open Py (Value Dict)

/-- Outcome of one operator resolve attempt. -/
structure ResolveReport where
  intentId : String
  action : String
  applied : Bool
  reasonCode : String
  candidates : List String
  deriving DecidableEq

/-- The arguments of the command. -/
structure ResolveArgs where
  orderNo : Option String
  notFound : Bool
  operator : String
  reason : String
  apply : Bool

namespace ResolveArgs

variable (a : ResolveArgs)

def hasOrder : Bool := a.orderNo.any (fun no => !Py.isBlank no)

def targetNo : String := a.orderNo.elim "" normalizeOrderNo

def wellFormed : Bool := (a.hasOrder != a.notFound) && !Py.isBlank a.operator && !Py.isBlank a.reason

/-- The statuses the command may resolve. -/
def allows : IntentStatus → Bool
  | .unknown => true
  | .notFound => !a.notFound
  | _ => false

def adoptPayload (o : BrokerOrder) : Payload :=
  [("resolution", .str "adopt"), ("operator", .str (Py.strip a.operator)), ("reason", .str (Py.strip a.reason)),
   ("broker_order_no", .str o.orderNo), ("broker_org_no", .str o.orgNo)]

def notFoundPayload : Payload :=
  [("resolution", .str "not_found"), ("operator", .str (Py.strip a.operator)), ("reason", .str (Py.strip a.reason))]

end ResolveArgs

def refused (intentId reasonCode : String) (candidates : List String) : ResolveReport :=
  { intentId, action := "refused", applied := false, reasonCode, candidates }

def operatorRunId (intentId : String) : String := "operator-resolve:" ++ intentId

/-- Append the operator's event when asked to apply it, and report. -/
def applyResolution (a : ResolveArgs) (intentId action : String) (payload : Payload) (candidates : List String) :
    Gw ResolveReport := do
  let report : ResolveReport := { intentId, action, applied := a.apply, reasonCode := "ok", candidates }
  if a.apply then do
    writeAs (operatorRunId intentId) .operatorResolve intentId payload
    return report
  else return report

/-- The decision on the daily list: adopt the one row the operator names, or find no candidate. -/
def resolveOn (a : ResolveArgs) (intentId : String) (i : OrderIntent) (baseline : Option (List String))
    (bound : List String) (snapshot : List BrokerOrder) : Gw ResolveReport :=
  if a.hasOrder then
    -- Operator evidence overrides the baseline, never the one-order-one-intent binding.
    match matchCandidates i (snapshot.filter (fun o => normalizeOrderNo o.orderNo == a.targetNo)) bound none with
    | [target] =>
      if Py.isBlank target.orgNo then pure (refused intentId "order_mismatch" [])
      else applyResolution a intentId "adopt" (a.adoptPayload target) [a.targetNo]
    | _ => pure (refused intentId "order_mismatch" [])
  else
    match matchCandidates i snapshot bound baseline with
    | [] => applyResolution a intentId "not_found" a.notFoundPayload []
    | c :: cs =>
      pure (refused intentId "candidate_exists"
        (((c :: cs).map (fun o => normalizeOrderNo o.orderNo)).dedup.insertionSort (· ≤ ·)))

/-- Read the daily list under a fresh token; an unreadable broker refuses. -/
def resolveRead (a : ResolveArgs) (intentId : String) (i : OrderIntent) (baseline : Option (List String))
    (bound : List String) : Gw ResolveReport := do
  match ← ensureToken with
  | .error (.brokerRead _) => pure (refused intentId "broker_unreadable" [])
  | .error e => .raise e
  | .ok () => do
    match ← fetchDailyOrders i.tradingDate with
    | .error (.brokerRead _) => pure (refused intentId "broker_unreadable" [])
    | .error e => .raise e
    | .ok snapshot => resolveOn a intentId i baseline bound snapshot

/-- Check the intent against the broker's daily list and, to apply, append one OPERATOR_RESOLVE event;
`tradingEnabled` says whether the trading binding resolves. -/
def resolveUnknownIntent (tradingEnabled : Bool) (a : ResolveArgs) (intentId : String) : Gw ResolveReport :=
  if a.wellFormed = false then pure (refused intentId "bad_arguments" [])
  else if tradingEnabled = false then pure (refused intentId "trading_disabled" [])
  else do
    let sts ← readStates
    match sts.lookup intentId with
    | none => pure (refused intentId "not_unknown" [])
    | some st =>
      match st.intent with
      | none => pure (refused intentId "not_unknown" [])
      | some i =>
        if a.allows st.status = false then pure (refused intentId "not_unknown" [])
        else if a.hasOrder = true ∧ a.targetNo = "" then pure (refused intentId "bad_arguments" [])
        else resolveRead a intentId i st.baselineOrderNos (boundNumbers sts)

end Order
