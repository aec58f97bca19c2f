import KClosingAlpha.Py.Value
import KClosingAlpha.Lib.Exc
/-!
# Contract — the order domain: intents, broker rows and order numbers (`order_contract.py`)

An `OrderIntent` carries the proof that its constructor accepted it, so no later code re-checks one.
-/
namespace Order

open Py (Value Dict)
open Exc (raiseIf)

/-- The exceptions of the order modules. -/
inductive OrderError where
  | valueError (msg : String)
  | keyError (key : String)
  | assertionError
  | journalCorrupt (msg : String)
  | brokerRead (msg : String)
  | broker (msg : String)
  deriving DecidableEq

inductive OrderSide where
  | buy
  | sell
  deriving DecidableEq

inductive OrderType where
  | limit
  | market
  deriving DecidableEq

inductive OrderPhase where
  | entry
  | exit
  deriving DecidableEq

inductive SubmitVerdict where
  | accepted
  | rejected
  | throttled
  | authRejected
  | notSent
  | ambiguous
  deriving DecidableEq

def OrderSide.value : OrderSide → String
  | buy => "buy"
  | sell => "sell"

def OrderSide.ofValue (s : String) : Option OrderSide :=
  if s = "buy" then some buy else if s = "sell" then some sell else none

def OrderType.value : OrderType → String
  | limit => "limit"
  | market => "market"

def OrderType.ofValue (s : String) : Option OrderType :=
  if s = "limit" then some limit else if s = "market" then some market else none

def OrderPhase.value : OrderPhase → String
  | entry => "entry"
  | exit => "exit"

def OrderPhase.ofValue (s : String) : Option OrderPhase :=
  if s = "entry" then some entry else if s = "exit" then some exit else none

def SubmitVerdict.value : SubmitVerdict → String
  | accepted => "accepted"
  | rejected => "rejected"
  | throttled => "throttled"
  | authRejected => "auth_rejected"
  | notSent => "not_sent"
  | ambiguous => "ambiguous"

def SubmitVerdict.ofValue (s : String) : Option SubmitVerdict :=
  if s = "accepted" then some accepted else if s = "rejected" then some rejected
  else if s = "throttled" then some throttled else if s = "auth_rejected" then some authRejected
  else if s = "not_sent" then some notSent else if s = "ambiguous" then some ambiguous else none

@[simp] theorem OrderSide.ofValue_value (x : OrderSide) : OrderSide.ofValue x.value = some x := by
  cases x <;> rfl

@[simp] theorem OrderType.ofValue_value (x : OrderType) : OrderType.ofValue x.value = some x := by
  cases x <;> rfl

@[simp] theorem OrderPhase.ofValue_value (x : OrderPhase) : OrderPhase.ofValue x.value = some x := by
  cases x <;> rfl

@[simp] theorem SubmitVerdict.ofValue_value (x : SubmitVerdict) : SubmitVerdict.ofValue x.value = some x := by
  cases x <;> rfl

/-! ## Dates -/

/-- The days of a month of the proleptic Gregorian calendar. -/
def daysInMonth (y m : Nat) : Nat :=
  if m = 2 then (if y % 4 = 0 ∧ (y % 100 ≠ 0 ∨ y % 400 = 0) then 29 else 28)
  else if m = 4 ∨ m = 6 ∨ m = 9 ∨ m = 11 then 30 else 31

/-- Year, month and day of a date written `YYYY-MM-DD`. -/
def parseDate (s : String) : Option (Nat × Nat × Nat) :=
  match s.toList with
  | [y1, y2, y3, y4, '-', m1, m2, '-', d1, d2] =>
    if [y1, y2, y3, y4, m1, m2, d1, d2].all Char.isDigit then
      let digit : Char → Nat := fun c => c.toNat - 48
      let y := 1000 * digit y1 + 100 * digit y2 + 10 * digit y3 + digit y4
      let m := 10 * digit m1 + digit m2
      let d := 10 * digit d1 + digit d2
      if 1 ≤ y ∧ 1 ≤ m ∧ m ≤ 12 ∧ 1 ≤ d ∧ d ≤ daysInMonth y m then some (y, m, d) else none
    else none
  | _ => none

/-- The number of a day, counted from the first day of year one. -/
def ordinal (ymd : Nat × Nat × Nat) : Int :=
  let y := ymd.1
  let before := 365 * (y - 1) + (y - 1) / 4 - (y - 1) / 100 + (y - 1) / 400
  let months := ((List.range (ymd.2.1 - 1)).map (fun i => daysInMonth y (i + 1))).sum
  (before + months + ymd.2.2 : Nat)

/-- `date.fromisoformat`, as the number of the day. -/
def fromisoformat (s : String) : Except OrderError Int :=
  match parseDate s with
  | some ymd => .ok (ordinal ymd)
  | none => .error (.valueError "Invalid isoformat string")

/-- A date the intent constructor takes: `strptime` reads it and `strftime` writes it back (which pads no year). -/
def isCanonicalDate (s : String) : Bool := (parseDate s).any (fun ymd => decide (1000 ≤ ymd.1))

/-! ## Intents -/

/-- `_SYMBOL_RE.fullmatch`: six digits or capital letters. -/
def isSymbol (s : String) : Bool :=
  decide (s.toList.length = 6) && s.toList.all (fun c => c.isDigit || (decide ('A' ≤ c) && decide (c ≤ 'Z')))

/-- A positive integer. -/
def isPositiveInt : Value → Bool
  | .int i => decide (0 < i)
  | _ => false

/-- The arguments of the intent constructor. -/
structure IntentFields where
  intentId : String
  tradingDate : String
  phase : OrderPhase
  symbol : String
  side : OrderSide
  orderType : OrderType
  qty : Int
  limitPrice : Option Int
  decisionPrice : Value
  parentIntentId : Option String
  deriving DecidableEq

/-- The constructor's checks of the order type. -/
def IntentFields.checkType (f : IntentFields) : Except OrderError Unit :=
  match f.orderType with
  | .limit => raiseIf (f.limitPrice.any (fun p => decide (0 < p)) = false) (.valueError "LIMIT intent requires limit_price > 0")
  | .market => raiseIf (f.limitPrice.isSome = true) (.valueError "MARKET intent requires limit_price None")

/-- The constructor's checks of the phase. -/
def IntentFields.checkPhase (f : IntentFields) : Except OrderError Unit :=
  match f.phase with
  | .entry => do
    raiseIf (f.side ≠ .buy) (.valueError "ENTRY intent requires side BUY")
    raiseIf (f.parentIntentId.isSome = true) (.valueError "ENTRY intent requires parent_intent_id None")
    raiseIf (isPositiveInt f.decisionPrice = false) (.valueError "ENTRY intent requires decision_price > 0")
  | .exit => do
    raiseIf (f.side ≠ .sell) (.valueError "EXIT intent requires side SELL")
    raiseIf (f.parentIntentId.any (fun p => !Py.isBlank p) = false)
      (.valueError "EXIT intent requires non-empty parent_intent_id")

/-- The constructor's checks, in the source's order. -/
def IntentFields.postInit (f : IntentFields) : Except OrderError Unit := do
  raiseIf (isSymbol f.symbol = false) (.valueError "symbol must be 6 digits or uppercase letters")
  raiseIf (f.qty ≤ 0) (.valueError "qty must be positive")
  raiseIf (isCanonicalDate f.tradingDate = false) (.valueError "trading_date must be YYYY-MM-DD")
  f.checkType
  f.checkPhase

/-- One order the strategy wants at the broker; identity is its id. -/
structure OrderIntent extends IntentFields where
  valid : toIntentFields.postInit = .ok ()
  deriving DecidableEq

/-- The constructor. -/
def OrderIntent.make (f : IntentFields) : Except OrderError OrderIntent :=
  match h : f.postInit with
  | .ok () => .ok ⟨f, h⟩
  | .error e => .error e

/-- Outcome of one order POST attempt. -/
structure SubmitResult where
  verdict : SubmitVerdict
  brokerOrderNo : Option String
  brokerOrgNo : Option String
  httpStatus : Option Int
  msgCd : String
  msg : String
  latencyMs : Py.PyFloat
  deriving DecidableEq

/-- One row of the broker's same-day order list. -/
structure BrokerOrder where
  orderNo : String
  orgNo : String
  symbol : String
  side : OrderSide
  orderQty : Int
  orderPrice : Int
  filledQty : Int
  filledAmountKrw : Int
  remainingQty : Int
  cancelled : Bool
  rejectedQty : Int
  deriving DecidableEq

/-- Broker-side holding of one symbol. -/
structure BrokerPosition where
  symbol : String
  holdingQty : Int
  sellableQty : Int
  deriving DecidableEq

/-- An order number without surrounding whitespace or leading zeros; `""` when nothing is left. -/
def normalizeOrderNo (raw : String) : String := String.ofList ((Py.stripChars raw.toList).dropWhile (· == '0'))

theorem not_blank_of_normalize {s : String} (h : normalizeOrderNo s ≠ "") : Py.isBlank s = false := by
  by_contra hb
  rw [Bool.not_eq_false] at hb
  refine h ?_
  unfold normalizeOrderNo
  rw [Py.stripChars_of_all hb]
  rfl

/-- The id of an entry intent. -/
def entryIntentId (tradingDate symbol : String) : String := tradingDate ++ ":" ++ symbol ++ ":entry"

/-- The id of an exit intent of a lot on a date. -/
def exitIntentId (parentIntentId tradingDate : String) : String := parentIntentId ++ ":exit:" ++ tradingDate

/-! ## What a constructed intent satisfies -/

theorem OrderIntent.make_self (i : OrderIntent) : OrderIntent.make i.toIntentFields = .ok i := by
  obtain ⟨f, hf⟩ := i
  unfold OrderIntent.make
  split
  · rfl
  · rename_i e he
    simp only at he
    rw [hf] at he; cases he

theorem OrderIntent.valid_parts (i : OrderIntent) :
    isSymbol i.symbol = true ∧ 0 < i.qty ∧ isCanonicalDate i.tradingDate = true ∧ i.checkType = .ok () ∧
      i.checkPhase = .ok () := by
  have h := i.valid
  simp only [IntentFields.postInit, Exc.bind_eq_ok, Exc.raiseIf_eq_ok] at h
  obtain ⟨_, h1, _, h2, _, h3, _, h4, h5⟩ := h
  exact ⟨by simpa using h1, by omega, by simpa using h3, h4, h5⟩

theorem OrderIntent.qty_pos (i : OrderIntent) : 0 < i.qty := i.valid_parts.2.1

/-- **An entry buys and an exit sells**, by the constructor. -/
theorem OrderIntent.buy_iff_entry (i : OrderIntent) : i.side = .buy ↔ i.phase = .entry := by
  have h := i.valid_parts.2.2.2.2
  unfold IntentFields.checkPhase at h
  cases hp : i.phase with
  | entry =>
    simp only [hp, Exc.bind_eq_ok, Exc.raiseIf_eq_ok] at h
    obtain ⟨_, hs, _⟩ := h
    simpa using hs
  | exit =>
    simp only [hp, Exc.bind_eq_ok, Exc.raiseIf_eq_ok] at h
    obtain ⟨_, hs, _⟩ := h
    simp only [ne_eq, not_not] at hs
    simp [hs]

end Order
