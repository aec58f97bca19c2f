import KClosingAlpha.Lib.Exc
import Mathlib
/-!
# Book — round trips and the net asset value of a fill ledger (`paper_broker.py`)

`build_round_trips` walks the fills once and pairs each sell with the buy its `entry_order_id` names;
`build_nav_snapshot` walks them again and counts every buy, taking the ones no round trip closed as open.  Money is
exact: the code computes its rates in doubles.  Dates are day numbers (1970-01-01 is 0) where they are compared or
counted, and text where the code keeps text.
-/
namespace Paper

open Exc (raiseIf)

/-! ## Dates -/

/-- `resolve_session_day(day).kind`. -/
inductive SessionKind where
  | standard
  | shifted
  | closed
  | unknown
  deriving DecidableEq

/-- The session calendar, by day number. -/
abbrev Calendar := Int → SessionKind

/-- A clock reading in nanoseconds, Korean time. -/
abbrev Timestamp := Int

def Timestamp.day (t : Timestamp) : Int := t / 86400000000000

/-- `_placed_at`: a time of day, in seconds. -/
def placedAt (day seconds : Int) : Timestamp := (day * 86400 + seconds) * 1000000000

theorem day_placedAt {day seconds : Int} (h : 0 ≤ seconds) (h' : seconds < 86400) : Timestamp.day (placedAt day seconds) = day := by
  unfold Timestamp.day placedAt
  omega

/-- The lowest digits of a number, a fixed count of them. -/
def pad : Nat → Nat → List Char
  | 0, _ => []
  | n + 1, k => pad n (k / 10) ++ [Nat.digitChar (k % 10)]

/-- `strftime("%Y-%m-%d")` of a day number. -/
def isoDate (day : Int) : String :=
  let z := day + 719468
  let era := z / 146097
  let doe := z - era * 146097
  let yoe := (doe - doe / 1460 + doe / 36524 - doe / 146096) / 365
  let doy := doe - (365 * yoe + yoe / 4 - yoe / 100)
  let mp := (5 * doy + 2) / 153
  let d := doy - (153 * mp + 2) / 5 + 1
  let m := if mp < 10 then mp + 3 else mp - 9
  let y := yoe + era * 400 + if m ≤ 2 then 1 else 0
  String.ofList (pad 4 y.toNat ++ '-' :: pad 2 m.toNat ++ '-' :: pad 2 d.toNat)

example : isoDate 20091 = "2025-01-03" ∧ isoDate 19782 = "2024-02-29" := by decide +kernel

/-! ## Fees and taxes -/

/-- `side_fee_krw`: the brokerage side rate is 0.36396 bp. -/
def sideFeeKrw (notional : Int) : Int := notional * 36396 / 1000000000

/-- `STATUTORY_BP_SCHEDULE`: the sell-side rate from each date on. -/
def statutoryBpSchedule : List (Int × Int) :=
  [(9496, 30), (18050, 25), (18628, 23), (19358, 20), (19723, 18), (20089, 15), (20454, 20)]

/-- `statutory_bp_asof`; before the first date it is not a number. -/
def statutoryBpAsof (day : Int) : Option Int :=
  ((statutoryBpSchedule.filter (fun p => decide (p.1 ≤ day))).getLast?).map Prod.snd

/-! ## Fills and round trips -/

/-- A row of the fill ledger. -/
structure Fill where
  orderId : String
  symbol : String
  side : String
  qty : Int
  fillPrice : Int
  filledAt : Option Timestamp
  decisionDate : String
  trigger : String
  entryOrderId : Option String
  deriving DecidableEq

def Fill.isBuy (f : Fill) : Bool := f.side == "buy"

def Fill.isSell (f : Fill) : Bool := f.side == "sell"

/-- Price times quantity. -/
def Fill.notional (f : Fill) : Int := f.fillPrice * f.qty

/-- A row of the trades ledger. -/
structure RoundTrip where
  entryOrderId : String
  exitOrderId : String
  symbol : String
  decisionDate : String
  entryFilledAt : Option Timestamp
  exitFilledAt : Option Timestamp
  qty : Int
  entryPrice : Int
  exitPrice : Int
  exitTrigger : String
  grossPnl : Int
  buyFee : Int
  sellFee : Int
  sellTax : Int
  cost : Int
  netPnl : Int
  grossRet : Rat
  netRet : Rat
  carryDays : Nat
  deriving DecidableEq

/-- `carry_days`: the trading days after the entry's up to the exit's, less one. -/
def carryDays (kind : Calendar) (entryFilledAt exitFilledAt : Timestamp) : Nat :=
  let day := Timestamp.day entryFilledAt
  let sessions := (List.range (Timestamp.day exitFilledAt - day).toNat).countP
    (fun i => decide (kind (day + 1 + i) ≠ .closed))
  sessions - 1

/-- The row of a sell and the buy it closes, with the checks that follow the look-up. -/
def roundTrip (kind : Calendar) (buy rec : Fill) : Except String RoundTrip := do
  raiseIf (buy.symbol ≠ rec.symbol)
    ("sell fill " ++ rec.orderId ++ " symbol " ++ rec.symbol ++ " != entry symbol " ++ buy.symbol)
  raiseIf (rec.qty ≠ buy.qty) ("sell qty " ++ toString rec.qty ++ " != buy qty " ++ toString buy.qty ++ " for " ++ rec.symbol)
  match rec.filledAt with
  | none => .error ("sell fill " ++ rec.orderId ++ " has no filled_at")
  | some sellFilledAt =>
    match statutoryBpAsof (Timestamp.day sellFilledAt) with
    | none => .error "cannot convert float NaN to integer"
    | some taxBp => do
      let entryNotional := buy.fillPrice * rec.qty
      let exitNotional := rec.fillPrice * rec.qty
      let buyFee := sideFeeKrw entryNotional
      let sellFee := sideFeeKrw exitNotional
      let sellTax := exitNotional * taxBp / 10000
      let cost := buyFee + sellFee + sellTax
      let grossPnl := exitNotional - entryNotional
      let netPnl := grossPnl - cost
      raiseIf (buy.fillPrice = 0) "division by zero"
      raiseIf (entryNotional = 0) "division by zero"
      match buy.filledAt with
      | none => .error "NaTType does not support date"
      | some entryFilledAt =>
        .ok
          { entryOrderId := buy.orderId
            exitOrderId := rec.orderId
            symbol := rec.symbol
            decisionDate := buy.decisionDate
            entryFilledAt := buy.filledAt
            exitFilledAt := rec.filledAt
            qty := rec.qty
            entryPrice := buy.fillPrice
            exitPrice := rec.fillPrice
            exitTrigger := rec.trigger
            grossPnl, buyFee, sellFee, sellTax, cost, netPnl
            grossRet := (rec.fillPrice : Rat) / buy.fillPrice - 1
            netRet := (netPnl : Rat) / entryNotional
            carryDays := carryDays kind entryFilledAt sellFilledAt }

/-- The loop's state: the buys not closed yet, one an id, and the rows so far. -/
structure Book where
  openBuys : List Fill
  rows : List RoundTrip

/-- One fill of the loop. -/
def Book.step (kind : Calendar) (b : Book) (rec : Fill) : Except String Book :=
  if rec.side = "buy" then
    .ok { b with openBuys := b.openBuys.filter (fun f => f.orderId ≠ rec.orderId) ++ [rec] }
  else if rec.side = "sell" then
    match rec.entryOrderId with
    | none => .error ("sell fill " ++ rec.orderId ++ " has no entry_order_id")
    | some link =>
      match b.openBuys.find? (fun f => f.orderId == link) with
      | none => .error ("sell fill " ++ rec.orderId ++ " references unknown or closed entry " ++ link)
      | some buy => do
        let row ← roundTrip kind buy rec
        .ok { openBuys := b.openBuys.filter (fun f => f.orderId ≠ link), rows := b.rows ++ [row] }
  else .error ("unknown fill side " ++ rec.side)

/-- The loop over the fills. -/
def buildBook (kind : Calendar) (fills : List Fill) : Except String Book := fills.foldlM (Book.step kind) ⟨[], []⟩

/-- `build_round_trips`. -/
def buildRoundTrips (kind : Calendar) (fills : List Fill) : Except String (List RoundTrip) :=
  Book.rows <$> buildBook kind fills

/-! ## The net asset value -/

/-- A row of the NAV ledger. -/
structure NavSnapshot where
  asOfDate : String
  seedCapital : Int
  cash : Int
  openCostBasis : Int
  openBuyFees : Int
  realizedNetPnl : Int
  cumulativeCost : Int
  nav : Int
  nOpenPositions : Nat
  nClosedTrades : Nat
  openMarketValue : Int
  navMtm : Int
  nOpenUnmarked : Nat
  deriving DecidableEq

/-- The closing prices known for open lots, when there are any. -/
abbrev Marks := Option (String → Option Int)

/-- `int((marks or {}).get(symbol, 0))`. -/
def Marks.price (marks : Marks) (symbol : String) : Int := ((marks.bind (fun m => m symbol))).getD 0

/-- The sums over the open lots. -/
structure OpenTotals where
  costBasis : Int
  buyFees : Int
  marketValue : Int
  nOpen : Nat
  nUnmarked : Nat

/-- One open lot of the loop. -/
def OpenTotals.add (asOfDate : String) (marks : Marks) (a : OpenTotals) (rec : Fill) : Except String OpenTotals :=
  match rec.filledAt with
  | none => .error "NaTType does not support strftime"
  | some filledAt =>
    let mark := marks.price rec.symbol
    let lot := { a with
      costBasis := a.costBasis + rec.notional
      buyFees := a.buyFees + sideFeeKrw rec.notional
      nOpen := a.nOpen + 1 }
    if isoDate (Timestamp.day filledAt) = asOfDate then .ok { lot with marketValue := a.marketValue + rec.notional }
    else if 0 < mark then .ok { lot with marketValue := a.marketValue + mark * rec.qty }
    else .ok { lot with marketValue := a.marketValue + rec.notional, nUnmarked := a.nUnmarked + 1 }

/-- The buys that no round trip closed. -/
def openLots (fills : List Fill) (trips : List RoundTrip) : List Fill :=
  fills.filter (fun f => f.isBuy && decide (f.orderId ∉ trips.map RoundTrip.entryOrderId))

/-- `build_nav_snapshot`. -/
def buildNavSnapshot (kind : Calendar) (fills : List Fill) (seedCapital : Int) (asOfDate : String) (marks : Marks) :
    Except String NavSnapshot :=
  if fills = [] then
    .ok
      { asOfDate, seedCapital, cash := seedCapital, openCostBasis := 0, openBuyFees := 0, realizedNetPnl := 0
        cumulativeCost := 0, nav := seedCapital, nOpenPositions := 0, nClosedTrades := 0, openMarketValue := 0
        navMtm := seedCapital, nOpenUnmarked := 0 }
  else do
    let trips ← buildRoundTrips kind fills
    let buys := fills.filter Fill.isBuy
    let buyOutflow := (buys.map (fun f => f.notional + sideFeeKrw f.notional)).sum
    let totalBuyFees := (buys.map (fun f => sideFeeKrw f.notional)).sum
    let lots ← (openLots fills trips).foldlM (OpenTotals.add asOfDate marks) ⟨0, 0, 0, 0, 0⟩
    let exitInflow := (trips.map (fun t => t.exitPrice * t.qty - t.sellFee - t.sellTax)).sum
    let sellCosts := (trips.map (fun t => t.sellFee + t.sellTax)).sum
    let realizedNetPnl := (trips.map RoundTrip.netPnl).sum
    let cash := seedCapital - buyOutflow + exitInflow
    .ok
      { asOfDate, seedCapital, cash, openCostBasis := lots.costBasis, openBuyFees := lots.buyFees, realizedNetPnl
        cumulativeCost := totalBuyFees + sellCosts, nav := cash + lots.costBasis, nOpenPositions := lots.nOpen
        nClosedTrades := trips.length, openMarketValue := lots.marketValue, navMtm := cash + lots.marketValue
        nOpenUnmarked := lots.nUnmarked }

end Paper
