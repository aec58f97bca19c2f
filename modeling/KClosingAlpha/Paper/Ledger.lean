import KClosingAlpha.Paper.Book
import KClosingAlpha.Py.Value
import Mathlib.Data.List.Nodup
/-!
# Ledger — the paper ledger, its corrections and its open lots (`PaperLedger`)

Six tables, each published whole.  `fills` and `corrections` only grow: a key that is already there is refused.  The
other tables keep the last row of a key.  Money, lots and trips are read off the effective fills, those no correction
voided.
-/
namespace Paper

open Exc (raiseIf)

/-! ## Rows -/

inductive OrderStatus where
  | filled
  | unconfirmed
  | noSnapshotRow
  | zeroQty
  | unfilled
  | missedAuction
  | insufficientCash
  deriving DecidableEq

structure PaperOrder where
  orderId : String
  decisionDate : String
  symbol : String
  side : String
  qty : Int
  limitPrice : Option Int
  placedAt : Timestamp
  reason : String
  entryOrderId : Option String
  deriving DecidableEq

/-- `order_record`: an order and its status. -/
structure OrderRow where
  order : PaperOrder
  status : OrderStatus
  deriving DecidableEq

structure PaperFill where
  orderId : String
  symbol : String
  side : String
  qty : Int
  fillPrice : Int
  filledAt : Option Timestamp
  trigger : String

/-- `_fill_row`. -/
def fillRow (fill : PaperFill) (order : PaperOrder) : Fill :=
  { orderId := fill.orderId
    symbol := fill.symbol
    side := fill.side
    qty := fill.qty
    fillPrice := fill.fillPrice
    filledAt := fill.filledAt
    decisionDate := order.decisionDate
    trigger := fill.trigger
    entryOrderId := order.entryOrderId }

inductive CorrectionAction where
  | voidFill
  | note
  deriving DecidableEq

def CorrectionAction.value : CorrectionAction → String
  | voidFill => "VOID_FILL"
  | note => "NOTE"

structure Correction where
  correctionId : String
  action : CorrectionAction
  targetOrderIds : String
  reason : String
  evidence : String
  operator : String
  asOfDate : String
  deriving DecidableEq

/-- A row of the decisions ledger: `record_no_decision`. -/
structure Decision where
  decisionDate : String
  symbol : String
  reason : String
  deriving DecidableEq

/-- The tables on disk; one that is not there is empty. -/
structure PaperLedger where
  fills : List Fill
  orders : List OrderRow
  decisions : List Decision
  trades : List RoundTrip
  nav : List NavSnapshot
  corrections : List Correction
  deriving DecidableEq

/-- Nothing written yet. -/
def PaperLedger.empty : PaperLedger := ⟨[], [], [], [], [], []⟩

/-! ## Appending -/

/-- `drop_duplicates(keep="last")`. -/
def dropDuplicates {α κ : Type} [DecidableEq κ] (key : α → κ) : List α → List α
  | [] => []
  | a :: l => if l.any (fun b => decide (key b = key a)) then dropDuplicates key l else a :: dropDuplicates key l

/-- `_append` of a table that keeps the last row of a key: the first batch is written as it is. -/
def appendLast {α κ : Type} [DecidableEq κ] (key : α → κ) (existing rows : List α) : List α :=
  if existing.isEmpty then rows else dropDuplicates key (existing ++ rows)

/-- `_append` of a table that only grows. -/
def appendOnly {α : Type} (key : α → String) (keyName kind : String) (existing rows : List α) : Except String (List α) := do
  raiseIf (¬ (rows.map key).Nodup) ("duplicate " ++ keyName ++ " within append-only " ++ kind ++ " batch")
  match rows.find? (fun r => decide (key r ∈ existing.map key)) with
  | some r => .error ("append-only " ++ kind ++ " key " ++ key r ++ " already stored")
  | none => .ok (existing ++ rows)

theorem appendOnly_eq_ok {α : Type} {key : α → String} {keyName kind : String} {existing rows l : List α} :
    appendOnly key keyName kind existing rows = .ok l ↔
      (rows.map key).Nodup ∧ (∀ r ∈ rows, key r ∉ existing.map key) ∧ l = existing ++ rows := by
  unfold appendOnly
  simp only [Exc.bind_eq_ok, Exc.raiseIf_eq_ok, not_not, exists_const]
  refine and_congr_right (fun _ => ?_)
  cases hf : rows.find? (fun r => decide (key r ∈ existing.map key)) with
  | some r =>
    have hr : key r ∈ existing.map key := by simpa using List.find?_some hf
    exact ⟨fun h => (by cases h), fun h => absurd hr (h.1 r (List.mem_of_find?_eq_some hf))⟩
  | none =>
    have hnone : ∀ r ∈ rows, key r ∉ existing.map key := by simpa using hf
    simp only [Except.ok.injEq]
    exact ⟨fun h => ⟨hnone, h.symm⟩, fun h => h.2.symm⟩

namespace PaperLedger

/-- `record(rows, kind="fills")`. -/
def recordFills (l : PaperLedger) (rows : List Fill) : Except String PaperLedger := do
  let fills ← appendOnly Fill.orderId "order_id" "fills" l.fills rows
  .ok { l with fills }

/-- `record(rows, kind="orders")`. -/
def recordOrders (l : PaperLedger) (rows : List OrderRow) : PaperLedger :=
  { l with orders := appendLast (fun r => r.order.orderId) l.orders rows }

/-- `record(rows, kind="nav")`. -/
def recordNav (l : PaperLedger) (rows : List NavSnapshot) : PaperLedger :=
  { l with nav := appendLast NavSnapshot.asOfDate l.nav rows }

/-- `record(rows, kind="corrections")`. -/
def recordCorrections (l : PaperLedger) (rows : List Correction) : Except String PaperLedger := do
  let corrections ← appendOnly Correction.correctionId "correction_id" "corrections" l.corrections rows
  .ok { l with corrections }

/-- `record_no_decision`. -/
def recordNoDecision (l : PaperLedger) (decisionDate reason : String) : PaperLedger :=
  { l with decisions := appendLast (fun d => (d.decisionDate, d.symbol)) l.decisions [⟨decisionDate, "", reason⟩] }

/-- `rewrite_derived`. -/
def rewriteDerived (l : PaperLedger) (trips : List RoundTrip) : PaperLedger := { l with trades := trips }

/-! ## The effective fills -/

/-- The order ids of a correction's target field. -/
def targets (s : String) : List String :=
  ((s.toList.splitOn ',').map (fun part => String.ofList (Py.stripChars part))).filter (fun part => part ≠ "")

/-- `_voided_order_ids`. -/
def voidedOrderIds (l : PaperLedger) : List String :=
  (l.corrections.filter (fun c => c.action = .voidFill)).flatMap (fun c => targets c.targetOrderIds)

/-- `load_effective_fills`. -/
def loadEffectiveFills (l : PaperLedger) : List Fill := l.fills.filter (fun f => f.orderId ∉ l.voidedOrderIds)

end PaperLedger

/-- A row of `load_open_positions`. -/
structure Lot where
  entryOrderId : String
  symbol : String
  qty : Int
  entryPrice : Int
  decisionDate : String
  deriving DecidableEq

/-- The lot a buy opens. -/
def Fill.lot (f : Fill) : Lot :=
  { entryOrderId := f.orderId, symbol := f.symbol, qty := f.qty, entryPrice := f.fillPrice, decisionDate := f.decisionDate }

namespace PaperLedger

/-- `load_open_positions`. -/
def loadOpenPositions (l : PaperLedger) : Except String (List Lot) :=
  let fills := l.loadEffectiveFills
  let sells := fills.filter Fill.isSell
  if sells.any (fun f => f.entryOrderId.isNone) then .error "sell fill without entry_order_id violates position link"
  else
    let closed := sells.filterMap Fill.entryOrderId
    .ok (((fills.filter Fill.isBuy).filter (fun f => f.orderId ∉ closed)).map Fill.lot)

/-! ## Corrections -/

/-- `void_fill`. -/
def voidFill (l : PaperLedger) (orderId reason evidence operator asOfDate : String) : Except String PaperLedger := do
  raiseIf (Py.isBlank reason = true) "reason must not be empty"
  raiseIf (Py.isBlank operator = true) "operator must not be empty"
  match l.fills.find? (fun f => f.orderId == orderId) with
  | none => .error ("unknown fill order_id " ++ orderId)
  | some target => do
    raiseIf (orderId ∈ l.voidedOrderIds) ("fill order_id " ++ orderId ++ " already voided")
    raiseIf (target.isBuy = true ∧ some orderId ∈ (l.loadEffectiveFills.filter Fill.isSell).map Fill.entryOrderId)
      ("buy fill " ++ orderId ++ " still referenced by an effective sell fill")
    l.recordCorrections
      [{ correctionId := asOfDate ++ ":" ++ CorrectionAction.voidFill.value ++ ":" ++ orderId, action := .voidFill
         targetOrderIds := orderId, reason, evidence, operator, asOfDate }]

/-- `record_note`. -/
def recordNote (l : PaperLedger) (targetOrderIds : List String) (reason evidence operator asOfDate : String) :
    Except String PaperLedger := do
  raiseIf (Py.isBlank reason = true) "reason must not be empty"
  raiseIf (Py.isBlank operator = true) "operator must not be empty"
  l.recordCorrections
    [{ correctionId := asOfDate ++ ":" ++ CorrectionAction.note.value ++ ":" ++ reason, action := .note
       targetOrderIds := String.intercalate "," targetOrderIds, reason, evidence, operator, asOfDate }]

end PaperLedger

/-! ## Orders of a session -/

/-- `_entry_order_id`. -/
def entryOrderId (decisionDate symbol : String) : String := decisionDate ++ ":" ++ symbol ++ ":entry"

/-- The id `build_exit_orders` extends an entry's with. -/
def exitOrderId (entryOrderId decisionDate : String) : String := entryOrderId ++ ":exit:" ++ decisionDate

def exitOrder (decisionDate : String) (placedAt : Timestamp) (row : Lot) : PaperOrder :=
  { orderId := exitOrderId row.entryOrderId decisionDate, decisionDate, symbol := row.symbol, side := "sell"
    qty := row.qty, limitPrice := none, placedAt, reason := "open_exit", entryOrderId := some row.entryOrderId }

/-- `build_exit_orders`. -/
def buildExitOrders (openPositions : List Lot) (decisionDate : String) (placedAt : Timestamp) : List PaperOrder :=
  openPositions.map (exitOrder decisionDate placedAt)

/-- `build_open_auction_fill`. -/
def buildOpenAuctionFill (order : PaperOrder) (openPrice : Int) (observedAt : Timestamp) : Except String (Option PaperFill) :=
  if observedAt < order.placedAt then .error "observed_at precedes placed_at (lookahead forbidden)"
  else if openPrice ≤ 0 then .ok none
  else
    .ok (some
      { orderId := order.orderId, symbol := order.symbol, side := order.side, qty := order.qty, fillPrice := openPrice
        filledAt := some order.placedAt, trigger := "auction_open" })

/-- The fills of a session's exit orders, each at the opening price it is given. -/
def exitFills (opens : PaperOrder → Int) (observedAt : Timestamp) : List PaperOrder → Except String (List Fill)
  | [] => .ok []
  | order :: orders => do
    match ← buildOpenAuctionFill order (opens order) observedAt with
    | none => exitFills opens observedAt orders
    | some fill => (fillRow fill order :: ·) <$> exitFills opens observedAt orders

/-- `_placed_at(date, PAPER_EXIT_OPEN_AUCTION_HHMMSS)`: nine o'clock. -/
def exitPlacedAt (day : Int) : Timestamp := placedAt day 32400

end Paper
