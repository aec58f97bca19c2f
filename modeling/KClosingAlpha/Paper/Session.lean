import KClosingAlpha.Lib.Prog
import KClosingAlpha.Paper.Ledger
import Mathlib.Data.List.Dedup
import Mathlib.Data.Rat.Floor
/-!
# Session — the entry and exit sessions of `paper_trade.py`

A session reads the ledger, plans from what it read and its inputs, and then publishes one table after another: fills,
orders, trades, NAV.  Nothing else changes the ledger meanwhile, so the reads between two writes are one read.  Run
outcomes and log lines are not part of the ledger; ratios are exact where the code's are doubles.
-/
namespace Paper

open Exc (raiseIf)

/-! ## Windows -/

inductive WindowState where
  | earlySkip
  | wait
  | opened
  | expired
  deriving DecidableEq

/-- `entry_window_state`: from 15:30 on, to 08:30 of the next day. -/
def entryWindowState (day : Int) (now : Timestamp) : WindowState :=
  if now < placedAt day 55800 then .wait
  else if placedAt (day + 1) 30600 ≤ now then .expired
  else .opened

/-- `PAPER_EXIT_OPEN_QUOTE_EARLIEST_HHMMSS` of a day. -/
def exitEarliest (day : Int) : Timestamp := placedAt day 32430

/-- `PAPER_EXIT_WINDOW_END_HHMMSS` of a day. -/
def exitWindowEnd (day : Int) : Timestamp := placedAt day 34200

/-- `exit_window_state`. -/
def exitWindowState (day : Int) (now : Timestamp) : Except String WindowState := do
  raiseIf (Timestamp.day now ≠ day) "paper exit open quote is same-day only"
  if now < exitEarliest day then
    if 600 * 1000000000 < exitEarliest day - now then .ok .earlySkip else .ok .wait
  else if now ≤ exitWindowEnd day then .ok .opened
  else .ok .expired

/-! ## The plan of an entry -/

/-- A persisted pick; what could not be read is absent. -/
structure Pick where
  symbol : String
  close : Option Int
  allocation : Rat
  decidedAt : Option Timestamp
  pred : Option Rat

structure SnapshotRow where
  confirmed : Bool
  close : Int
  executionTimestamp : Option Timestamp

/-- What an entry session is given. -/
structure EntryInputs where
  day : Int
  now : Timestamp
  calendar : Calendar
  /-- `load_topk_decision`, which keeps one row a symbol. -/
  picks : List Pick
  picks_nodup : (picks.map Pick.symbol).Nodup
  tradingDay : Bool
  snapshot : String → Option SnapshotRow
  seedCapital : Int
  sizingBufferBp : Rat
  /-- The last close before the day, by symbol. -/
  closes : String → Option Int

/-- `size_order_qty`. -/
def sizeOrderQty (seedCapital : Int) (allocation : Rat) (price : Int) : Except String Int := do
  raiseIf (price ≤ 0) "price must be positive"
  raiseIf (allocation ≤ 0) "allocation must be positive"
  .ok ⌊(seedCapital : Rat) * allocation / price⌋

/-- `investable_capital`: cash less the buy fee it has to pay, at most the seed. -/
def investableCapital (cash seedCapital : Int) : Int := max 0 (min seedCapital (cash * 1000000000 / 1000036396))

/-- `sizing_price`. -/
def sizingPrice (decisionPrice : Int) (bufferBp : Rat) : Except String Int := do
  raiseIf (decisionPrice ≤ 0) "decision_price must be positive"
  raiseIf (bufferBp < 0) "buffer_bp must be non-negative"
  .ok ⌈(decisionPrice : Rat) * (1 + bufferBp / 10000)⌉

/-- The sizing price of a pick: zero when it has no positive close. -/
def Pick.price (bufferBp : Rat) (p : Pick) : Except String Int :=
  if p.close.getD 0 ≤ 0 then .ok 0 else sizingPrice (p.close.getD 0) bufferBp

def entryOrder (decisionDate : String) (placed : Timestamp) (symbol : String) (qty : Int) : PaperOrder :=
  { orderId := entryOrderId decisionDate symbol, decisionDate, symbol, side := "buy", qty, limitPrice := none
    placedAt := placed, reason := "entry", entryOrderId := none }

/-- `build_entry_orders`: the picks with a price, at a whole number of shares above zero. -/
def buildEntryOrders (decisionDate : String) (seedCapital : Int) (placed : Timestamp) :
    List (Pick × Int) → Except String (List PaperOrder)
  | [] => .ok []
  | (p, price) :: picks =>
    if price ≤ 0 then buildEntryOrders decisionDate seedCapital placed picks
    else do
      let qty ← sizeOrderQty seedCapital p.allocation price
      if qty = 0 then buildEntryOrders decisionDate seedCapital placed picks
      else (entryOrder decisionDate placed p.symbol qty :: ·) <$> buildEntryOrders decisionDate seedCapital placed picks

/-- `_zero_qty_entry_order` of every pick without an order. -/
def unsizedRows (decisionDate : String) (placed : Timestamp) (status : OrderStatus) (picks : List Pick)
    (orders : List PaperOrder) : List OrderRow :=
  (picks.filter (fun p => p.symbol ∉ orders.map PaperOrder.symbol)).map
    (fun p => ⟨entryOrder decisionDate placed p.symbol 0, status⟩)

/-- `_entry_already_recorded`. -/
def entryAlreadyRecorded (orders : List OrderRow) (decisionDate : String) : Bool :=
  orders.any (fun r => decide (r.order.decisionDate = decisionDate) && decide (r.order.reason = "entry"))

/-- A decision taken at the auction's close or later, or at no known time. -/
def missedAuction (inp : EntryInputs) : Bool :=
  inp.picks.any (fun p => p.decidedAt.all (fun t => decide (placedAt inp.day 55800 ≤ t))) ||
    decide (inp.calendar inp.day = .shifted) || decide (inp.calendar inp.day = .unknown)

/-- The order the picks are filled in: by prediction, the highest first, then by symbol. -/
def ranksBefore (preds : String → Option Rat) (a b : PaperOrder) : Bool :=
  match preds a.symbol, preds b.symbol with
  | some x, some y => if x = y then decide (a.symbol ≤ b.symbol) else decide (y < x)
  | some _, none => true
  | none, some _ => false
  | none, none => decide (a.symbol ≤ b.symbol)

/-- `build_auction_fill`. -/
def buildAuctionFill (order : PaperOrder) (row : SnapshotRow) : Except String (Option PaperFill) :=
  if row.confirmed = false then .ok none
  else if row.close ≤ 0 then .error "close must be positive"
  else if row.executionTimestamp.any (fun t => decide (t < order.placedAt)) then
    .error "execution_timestamp precedes placed_at (lookahead forbidden)"
  else
    .ok (some
      { orderId := order.orderId, symbol := order.symbol, side := order.side, qty := order.qty, fillPrice := row.close
        filledAt := row.executionTimestamp, trigger := "auction_close" })

/-- What the walk over the ranked orders has so far. -/
structure EntryWalk where
  rows : List OrderRow
  fills : List Fill
  remainingCash : Int

/-- One ranked order. -/
def EntryWalk.step (snapshot : String → Option SnapshotRow) (w : EntryWalk) (order : PaperOrder) :
    Except String EntryWalk :=
  match snapshot order.symbol with
  | none => .ok { w with rows := w.rows ++ [⟨order, .noSnapshotRow⟩] }
  | some row => do
    match ← buildAuctionFill order row with
    | none => .ok { w with rows := w.rows ++ [⟨order, .unconfirmed⟩] }
    | some fill =>
      let notional := fill.fillPrice * fill.qty
      let fillCost := notional + sideFeeKrw notional
      if w.remainingCash < fillCost then .ok { w with rows := w.rows ++ [⟨order, .insufficientCash⟩] }
      else
        .ok
          { rows := w.rows ++ [⟨order, .filled⟩], fills := w.fills ++ [fillRow fill order]
            remainingCash := w.remainingCash - fillCost }

/-- What a session is going to write. -/
inductive Plan where
  | nothing
  | noDecision (decisionDate reason : String)
  /-- Order rows and nothing else. -/
  | missed (rows : List OrderRow)
  /-- Fills, order rows, then the trades and the NAV. -/
  | book (fills : List Fill) (rows : List OrderRow)
  deriving DecidableEq

/-- `_run_entry` up to its first write. -/
def entryPlan (inp : EntryInputs) (l : PaperLedger) : Except String Plan :=
  let date := isoDate inp.day
  if entryWindowState inp.day inp.now ≠ .opened then .ok .nothing
  else if inp.calendar inp.day = .closed then .ok .nothing
  else if entryAlreadyRecorded l.orders date = true then .ok .nothing
  else if inp.picks.isEmpty then
    if inp.tradingDay then .ok (.noDecision date "no_persisted_decision") else .ok .nothing
  else do
    let prices ← inp.picks.mapM (Pick.price inp.sizingBufferBp)
    let nav ← buildNavSnapshot inp.calendar l.loadEffectiveFills inp.seedCapital date none
    let placed := placedAt inp.day 55200
    let orders ← buildEntryOrders date (investableCapital nav.cash inp.seedCapital) placed (inp.picks.zip prices)
    if missedAuction inp then
      .ok (.missed (orders.map (fun o => ⟨o, .missedAuction⟩) ++ unsizedRows date placed .missedAuction inp.picks orders))
    else do
      let preds := fun s => ((inp.picks.find? (fun p => p.symbol == s)).bind Pick.pred)
      let walk ← (orders.mergeSort (ranksBefore preds)).foldlM (EntryWalk.step inp.snapshot)
        ⟨unsizedRows date placed .zeroQty inp.picks orders, [], nav.cash⟩
      .ok (.book walk.fills walk.rows)

/-! ## The plan of an exit -/

structure DatedOpenQuote where
  businessDate : String
  openPrice : Int

/-- What an exit session is given. -/
structure ExitInputs where
  day : Int
  now : Timestamp
  /-- The clock after the wait for the first quote. -/
  nowAfterWait : Timestamp
  /-- The clock after the last quote. -/
  lateNow : Timestamp
  calendar : Calendar
  tradingDay : Bool
  /-- The answer to a query, by attempt and symbol. -/
  quote : Nat → String → DatedOpenQuote
  seedCapital : Int
  closes : String → Option Int

/-- `_run_exit` before it takes the lock: whether it goes on. -/
def exitGate (inp : ExitInputs) (l : PaperLedger) : Except String Bool := do
  let lots ← l.loadOpenPositions
  if lots.isEmpty then .ok false
  else do
    let state ← exitWindowState inp.day inp.now
    if state = .earlySkip ∨ state = .expired then .ok false
    else if inp.calendar inp.day = .shifted ∨ inp.tradingDay = false ∨ inp.calendar inp.day = .closed then .ok false
    else if state = .wait then do
      let state' ← exitWindowState inp.day inp.nowAfterWait
      .ok (decide (state' ≠ .expired))
    else .ok true

/-- The quotes of one attempt. -/
def quoteAttempt (inp : ExitInputs) (attempt : Nat) (codes : List String)
    (acc : Py.Dict Int × Py.Dict DatedOpenQuote) : Py.Dict Int × Py.Dict DatedOpenQuote :=
  codes.foldl (fun acc code =>
    let quote := inp.quote attempt code
    (if 0 < quote.openPrice ∧ quote.businessDate = isoDate inp.day then acc.1.set code quote.openPrice else acc.1,
      acc.2.set code quote)) acc

/-- The attempts at the opening quotes, `PAPER_EXIT_OPEN_QUOTE_MAX_ATTEMPTS` of them at most. -/
def collectQuotes (inp : ExitInputs) : Nat → Nat → List String → Py.Dict Int × Py.Dict DatedOpenQuote →
    Py.Dict Int × Py.Dict DatedOpenQuote
  | 0, _, _, acc => acc
  | left + 1, attempt, pending, acc =>
    let acc' := quoteAttempt inp attempt pending acc
    let pending' := pending.filter (fun c => acc'.1.has c = false)
    if pending'.isEmpty then acc' else collectQuotes inp left (attempt + 1) pending' acc'

/-- `_run_exit` under the lock, up to its first write. -/
def exitPlan (inp : ExitInputs) (l : PaperLedger) : Except String Plan := do
  let date := isoDate inp.day
  let lots ← l.loadOpenPositions
  let orders := buildExitOrders lots date (exitPlacedAt inp.day)
  if orders.isEmpty then .ok .nothing
  else do
    let codes := (orders.map PaperOrder.symbol).dedup.mergeSort (fun a b => decide (a ≤ b))
    let quotes := collectQuotes inp 24 0 codes ([], [])
    let opens : Py.Dict Int := if exitWindowEnd inp.day < inp.lateNow then [] else quotes.1
    let fills ← exitFills (fun o => opens.getD o.symbol 0) (max inp.now (exitEarliest inp.day)) orders
    let filledIds := fills.map Fill.orderId
    if filledIds.isEmpty && !quotes.2.isEmpty &&
        quotes.2.all (fun q => decide (q.2.businessDate ≠ "") && decide (q.2.businessDate < date)) then .ok .nothing
    else
      .ok (.book fills (orders.map (fun o => ⟨o, if o.orderId ∈ filledIds then .filled else .unfilled⟩)))

/-! ## What a session writes -/

/-- A read of the ledger, or the atomic publication of one table. -/
inductive Op where
  | read
  | fills (rows : List Fill)
  | orders (rows : List OrderRow)
  | decisions (rows : List Decision)
  | trades (rows : List RoundTrip)
  | nav (rows : List NavSnapshot)

abbrev Op.Ret : Op → Type
  | .read => PaperLedger
  | _ => Unit

/-- The disk. -/
def Op.exec : (op : Op) → PaperLedger → op.Ret × PaperLedger
  | .read, l => (l, l)
  | .fills rows, l => ((), { l with fills := rows })
  | .orders rows, l => ((), { l with orders := rows })
  | .decisions rows, l => ((), { l with decisions := rows })
  | .trades rows, l => ((), { l with trades := rows })
  | .nav rows, l => ((), { l with nav := rows })

abbrev Session := Prog Op Op.Ret String Unit

/-- `load_open_lot_marks`: the last closes of the lots carried into the day. -/
def loadOpenLotMarks (closes : String → Option Int) (lots : List Lot) (asOfDate : String) : String → Option Int :=
  fun s => if s ∈ (lots.filter (fun lot => decide (lot.decisionDate < asOfDate))).map Lot.symbol then closes s else none

/-- `refresh_trade_ledgers` and the marks it is given. -/
def refreshTradeLedgers (calendar : Calendar) (seedCapital : Int) (asOfDate : String) (closes : String → Option Int) :
    Session :=
  .call .read fun l =>
    (Prog.ofExcept l.loadOpenPositions).bind fun lots =>
      (Prog.ofExcept (buildRoundTrips calendar l.loadEffectiveFills)).bind fun trips =>
        .call (.trades trips) fun _ =>
          (Prog.ofExcept (buildNavSnapshot calendar l.loadEffectiveFills seedCapital asOfDate
            (some (loadOpenLotMarks closes lots asOfDate)))).bind fun nav =>
              .call .read fun l' => .call (.nav (appendLast NavSnapshot.asOfDate l'.nav [nav])) .ret

/-- `if fills: ledger.record(fills, kind="fills")`. -/
def recordFillRows (fills : List Fill) : Session :=
  if fills.isEmpty then .ret ()
  else .call .read fun l => (Prog.ofExcept (appendOnly Fill.orderId "order_id" "fills" l.fills fills)).bind fun rows =>
    .call (.fills rows) .ret

/-- `ledger.record(rows, kind="orders")`. -/
def recordOrderRows (rows : List OrderRow) : Session :=
  .call .read fun l => .call (.orders (appendLast (fun r => r.order.orderId) l.orders rows)) .ret

/-- The writes of a plan. -/
def Plan.write (calendar : Calendar) (seedCapital : Int) (asOfDate : String) (closes : String → Option Int) : Plan → Session
  | .nothing => .ret ()
  | .noDecision date reason =>
    .call .read fun l => .call (.decisions (l.recordNoDecision date reason).decisions) .ret
  | .missed rows => recordOrderRows rows
  | .book fills rows =>
    (recordFillRows fills).bind fun _ => (recordOrderRows rows).bind fun _ =>
      refreshTradeLedgers calendar seedCapital asOfDate closes

/-- `_run_entry`. -/
def runEntry (inp : EntryInputs) : Session :=
  .call .read fun l => (Prog.ofExcept (entryPlan inp l)).bind
    (Plan.write inp.calendar inp.seedCapital (isoDate inp.day) inp.closes)

/-- `_run_exit`. -/
def runExit (inp : ExitInputs) : Session :=
  .call .read fun probe => (Prog.ofExcept (exitGate inp probe)).bind fun goesOn =>
    if goesOn then .call .read fun l => (Prog.ofExcept (exitPlan inp l)).bind
      (Plan.write inp.calendar inp.seedCapital (isoDate inp.day) inp.closes)
    else .ret ()

end Paper
