import KClosingAlpha.Lib.Exc
import KClosingAlpha.Lib.Grouped
import KClosingAlpha.Lib.KeepLast
import KClosingAlpha.Lib.Series
import Mathlib
/-!
# PriceIngest — daily rows of the exchange, and how they are merged into price_history

A KRX block is checked before anything of it is used (`validateKrxDailyBlock`): what passes has a positive close and
a positive base price (`normalizeKrxDaily_priced`).  `mergeAndAdjust` appends the rows that extend the tails of
their symbols and scales what is stored of a symbol by the base price over the close before it, wherever a new row
follows the trading day before it and the two differ.  Numbers are computed exactly; days are day numbers.
-/
namespace PriceIngest

set_option linter.unusedSectionVars false

open Flt (nan fin)

abbrev Day := Int

/-- A row of KRX_ROW_COLUMNS. -/
structure KrxRow (K : Type) where
  date : Day
  symbol : String
  open_ : Flt K
  high : Flt K
  low : Flt K
  close : Flt K
  prevClose : Flt K
  volume : Flt K
  tradeValue100m : Flt K
  marketCap100m : Flt K
  market : String
deriving DecidableEq, Repr

/-- A row with its close before any adjustment, NaN where the column is absent: _PANEL_COLUMNS. -/
structure PricedRow (K : Type) extends KrxRow K where
  closeRaw : Flt K
deriving DecidableEq, Repr

/-- A row of price_history. -/
structure PanelRow (K : Type) extends PricedRow K where
  instNetbuy : Flt K
  foreignNetbuy : Flt K
  programNetbuy : Flt K
deriving DecidableEq, Repr

structure FlowRow (K : Type) where
  date : Day
  symbol : String
  instNetbuy : Flt K
  foreignNetbuy : Flt K
  programNetbuy : Flt K

variable {K : Type}

def KrxRow.key (r : KrxRow K) : String × Day := (r.symbol, r.date)

def PricedRow.key (r : PricedRow K) : String × Day := r.toKrxRow.key

def PanelRow.key (r : PanelRow K) : String × Day := r.toKrxRow.key

variable [Field K] [LinearOrder K]

/-- A row whose close and base price are positive numbers. -/
def KrxRow.Priced (r : KrxRow K) : Prop := (∃ c, r.close = fin c ∧ 0 < c) ∧ ∃ b, r.prevClose = fin b ∧ 0 < b

/-- The five adjusted columns of a row, scaled. -/
def PricedRow.scaled (k : Flt K) (r : PricedRow K) : PricedRow K :=
  { r with open_ := r.open_.mul k, high := r.high.mul k, low := r.low.mul k, close := r.close.mul k, prevClose := r.prevClose.mul k }

def PanelRow.scaled (k : Flt K) (r : PanelRow K) : PanelRow K := { r with toPricedRow := r.toPricedRow.scaled k }

/-! ## The checks of a block -/

/-- A row of OutBlock_1: its texts, and its numbers as `_to_num` reads them. -/
structure BlockRow (K : Type) where
  basDd : String
  isuCd : String
  mktNm : String
  tddOpnprc : Flt K
  tddHgprc : Flt K
  tddLwprc : Flt K
  tddClsprc : Flt K
  cmpprevddPrc : Flt K
  accTrdvol : Flt K
  accTrdval : Flt K
  mktcap : Flt K
  flucRt : Flt K

inductive IngestError where
  | integrity (market : List String) (check : String) (nViolating : Nat) (samples : List String)
  | repeats (dup : Nat) (day : Day)
  | mergeKeys
deriving DecidableEq, Repr

/-- The texts of days and the stripping of texts. -/
structure Texts where
  ymd : Day → String
  strip : String → String

variable (tx : Texts)

/-- KRX_BASE_CROSSCHECK_RTOL. -/
def baseCrosscheckRtol : K := 5 / 1000

def BlockRow.base (r : BlockRow K) : Flt K := r.tddClsprc.sub r.cmpprevddPrc

def BlockRow.relErr (r : BlockRow K) : Flt K :=
  ((r.base.sub (r.tddClsprc.div ((fin 1).add (r.flucRt.div (fin 100))))).abs).div r.base

def BlockRow.closeBad (r : BlockRow K) : Bool := r.tddClsprc.isNan || r.tddClsprc.le (fin 0)

def BlockRow.baseBad (r : BlockRow K) : Bool := r.base.isNan || r.base.le (fin 0)

def BlockRow.crosscheckBad (r : BlockRow K) : Bool :=
  r.flucRt.isNan || ((fin 1).add (r.flucRt.div (fin 100))).le (fin 0) || r.relErr.isNan || (fin baseCrosscheckRtol).lt r.relErr

/-- A traded row whose prices are not in order; NaN is left out of the row-wise minimum and maximum. -/
def BlockRow.ohlcBad (r : BlockRow K) : Bool :=
  (fin 0).lt r.accTrdvol &&
    (r.tddOpnprc.isNan || r.tddHgprc.isNan || r.tddLwprc.isNan || r.tddOpnprc.le (fin 0) || r.tddHgprc.le (fin 0) ||
      r.tddLwprc.le (fin 0) || ((r.tddOpnprc.fillna r.tddClsprc).minimum r.tddClsprc).lt r.tddLwprc ||
      r.tddHgprc.lt ((r.tddOpnprc.fillna r.tddClsprc).maximum r.tddClsprc))

/-- `_reject` of the rows that fail a check, if there are any. -/
def reject (raw : List (BlockRow K)) (check : String) (bad : BlockRow K → Bool) : Except IngestError Unit :=
  match raw.filter bad with
  | [] => .ok ()
  | rows => .error (.integrity ((raw.map (fun r => tx.strip r.mktNm)).dedup.insertionSort (· ≤ ·)) check rows.length
      ((rows.take 5).map BlockRow.isuCd))

def validateKrxDailyBlock (raw : List (BlockRow K)) (tradeDate : Day) : Except IngestError Unit := do
  reject tx raw "BAS_DD" (fun r => decide (r.basDd ≠ tx.ymd tradeDate))
  reject tx raw "close_positive" BlockRow.closeBad
  reject tx raw "base_positive" BlockRow.baseBad
  reject tx raw "base_crosscheck(FLUC_RT cross-check)" BlockRow.crosscheckBad
  reject tx raw "ohlc_consistency" BlockRow.ohlcBad

def BlockRow.toKrxRow (tradeDate : Day) (r : BlockRow K) : KrxRow K :=
  { date := tradeDate, symbol := tx.strip r.isuCd, open_ := r.tddOpnprc, high := r.tddHgprc, low := r.tddLwprc,
    close := r.tddClsprc, prevClose := r.base, volume := r.accTrdvol, tradeValue100m := r.accTrdval.div (fin (10 ^ 8)),
    marketCap100m := r.mktcap.div (fin (10 ^ 8)), market := tx.strip r.mktNm }

def normalizeKrxDaily (raw : List (BlockRow K)) (tradeDate : Day) : Except IngestError (List (KrxRow K)) := do
  if raw.isEmpty then return []
  validateKrxDailyBlock tx raw tradeDate
  let out := raw.map (BlockRow.toKrxRow tx tradeDate)
  let dup := out.length - (out.map KrxRow.symbol).dedup.length
  if dup ≠ 0 then .error (.repeats dup tradeDate) else return out

theorem reject_ok {raw : List (BlockRow K)} {check : String} {bad : BlockRow K → Bool} {u : Unit}
    (h : reject tx raw check bad = .ok u) : ∀ r ∈ raw, bad r = false := by
  intro r hr
  by_contra hbad
  have hmem : r ∈ raw.filter bad := List.mem_filter.2 ⟨hr, by simpa using hbad⟩
  unfold reject at h
  split at h
  next hnil => rw [hnil] at hmem; cases hmem
  next => cases h

/-- A close and a base price that pass the checks are positive numbers: an infinite one fails the cross-check. -/
theorem BlockRow.priced_of_checks {r : BlockRow K} (hclose : r.closeBad = false) (hbase : r.baseBad = false)
    (hcross : r.crosscheckBad = false) : (∃ c, r.tddClsprc = fin c ∧ 0 < c) ∧ ∃ b, r.base = fin b ∧ 0 < b := by
  simp only [closeBad, baseBad, crosscheckBad, Bool.or_eq_false_iff] at hclose hbase hcross
  have hb : ∃ b, r.base = fin b := by
    cases hr : r.base with
    | nan => rw [hr] at hbase; cases hbase.1
    | fin b => exact ⟨b, rfl⟩
    | inf m =>
      have hnan : r.relErr.isNan = true := by
        unfold relErr
        rw [hr]
        cases (r.tddClsprc.div ((fin 1).add (r.flucRt.div (fin 100)))) with
        | nan => rfl
        | inf n => cases m <;> cases n <;> rfl
        | fin x => rfl
      rw [hcross.1.2] at hnan
      cases hnan
  obtain ⟨b, hb⟩ := hb
  have hc : ∃ c, r.tddClsprc = fin c := by
    unfold base at hb
    cases hr : r.tddClsprc with
    | nan => rw [hr] at hclose; cases hclose.1
    | fin c => exact ⟨c, rfl⟩
    | inf m =>
      rw [hr] at hb
      cases hx : r.cmpprevddPrc with
      | nan => rw [hx] at hb; cases hb
      | inf n => rw [hx] at hb; cases m <;> cases n <;> cases hb
      | fin x => rw [hx] at hb; cases hb
  obtain ⟨c, hc⟩ := hc
  rw [hc] at hclose
  rw [hb] at hbase
  exact ⟨⟨c, hc, by simpa using hclose.2⟩, ⟨b, hb, by simpa using hbase.2⟩⟩

/-- **The rows of a block that is accepted have a positive close and a positive base price.** -/
theorem normalizeKrxDaily_priced {raw : List (BlockRow K)} {day : Day} {rows : List (KrxRow K)}
    (h : normalizeKrxDaily tx raw day = .ok rows) : ∀ r ∈ rows, r.Priced := by
  unfold normalizeKrxDaily at h
  by_cases hempty : raw.isEmpty
  · rw [if_pos hempty] at h
    cases h
    simp
  · rw [if_neg hempty, Exc.bind_eq_ok] at h
    obtain ⟨u, hv, h⟩ := h
    have hrows : raw.map (BlockRow.toKrxRow tx day) = rows := by
      dsimp only at h
      split_ifs at h
      cases h
      rfl
    subst hrows
    intro r hr
    obtain ⟨q, hq, rfl⟩ := List.mem_map.1 hr
    simp only [validateKrxDailyBlock, Exc.bind_eq_ok] at hv
    obtain ⟨_, _, _, hclose, _, hbase, _, hcross, _⟩ := hv
    exact BlockRow.priced_of_checks (reject_ok tx hclose q hq) (reject_ok tx hbase q hq) (reject_ok tx hcross q hq)

/-! ## New rows -/

/-- The last stored date of each symbol. -/
def panelLastDates (panel : List (PanelRow K)) (symbol : String) : Option Day :=
  ((Grouped.group (fun r : PanelRow K => r.symbol) symbol panel).map (fun r => r.date)).max?

/-- The rows strictly after the last stored date of their symbol. -/
def selectTailRows (krxRows : List (KrxRow K)) (panelLast : String → Option Day) : List (KrxRow K) :=
  krxRows.filter (fun r => match panelLast r.symbol with
    | none => true
    | some last => decide (last < r.date))

/-- The flows joined to the tail rows, NaN where there are none. -/
def assembleNewRows (krxRows : List (KrxRow K)) (flows : List (FlowRow K)) : Except IngestError (List (PanelRow K)) :=
  if (krxRows.map KrxRow.key).Nodup ∧ (flows.map (fun f => (f.symbol, f.date))).Nodup then
    .ok (krxRows.map (fun r =>
      let flow := flows.find? (fun f => decide (f.symbol = r.symbol ∧ f.date = r.date))
      { r with closeRaw := r.close, instNetbuy := (flow.map FlowRow.instNetbuy).getD nan,
               foreignNetbuy := (flow.map FlowRow.foreignNetbuy).getD nan,
               programNetbuy := (flow.map FlowRow.programNetbuy).getD nan }))
  else .error .mergeKeys

/-- A row that is selected comes after every stored row of its symbol. -/
theorem selectTailRows_later {panel : List (PanelRow K)} {krxRows : List (KrxRow K)} {r : KrxRow K}
    (h : r ∈ selectTailRows krxRows (panelLastDates panel)) {p : PanelRow K} (hp : p ∈ panel) (hsym : p.symbol = r.symbol) :
    p.date < r.date := by
  have hmem : p.date ∈ (Grouped.group (fun r : PanelRow K => r.symbol) r.symbol panel).map (fun r => r.date) :=
    List.mem_map_of_mem (Grouped.mem_group.2 ⟨hp, hsym⟩)
  obtain ⟨-, hkeep⟩ := List.mem_filter.1 h
  cases hlast : panelLastDates panel r.symbol with
  | none =>
    rw [panelLastDates, List.max?_eq_none_iff] at hlast
    rw [hlast] at hmem
    cases hmem
  | some last =>
    rw [hlast] at hkeep
    exact lt_of_le_of_lt ((List.max?_eq_some_iff.1 hlast).2 p.date hmem) (of_decide_eq_true hkeep)

theorem assembleNewRows_ok {krxRows : List (KrxRow K)} {flows : List (FlowRow K)} {B : List (PanelRow K)}
    (h : assembleNewRows krxRows flows = .ok B) :
    (krxRows.map KrxRow.key).Nodup ∧ B.map (fun r => r.toKrxRow) = krxRows ∧ ∀ r ∈ B, r.closeRaw = r.close := by
  unfold assembleNewRows at h
  split_ifs at h with hkeys
  cases h
  refine ⟨hkeys.1, ?_, fun r hr => ?_⟩
  · rw [List.map_map]
    exact List.map_id' _
  · obtain ⟨q, -, rfl⟩ := List.mem_map.1 hr
    rfl

/-! ## Merging and adjusting -/

/-- The trading day before a date: what stands before its place in the sorted calendar. -/
def prevTrading (cal : List Day) (date : Day) : Option Day :=
  let pos := (cal.takeWhile (· < date)).length
  if 0 < pos then cal[pos - 1]? else none

local instance two : Nat.AtLeastTwo 2 := ⟨le_rfl⟩

/-- PRICE_EVENT_TOLERANCE. -/
def priceEventTolerance : K := 1 / 2

/-- Whether a dated row is the one of the trading day before `date`. -/
def followsTradingDay (cal : List Day) (prior : Option Day) (date : Day) : Bool :=
  match prior, prevTrading cal date with
  | some p, some d => decide (p = d)
  | _, _ => false

/-- Whether a row of the merged panel is an event, after the row before it of its symbol. -/
def mergeEvent (cal : List Day) (isNew : Bool) (prior : Option (KrxRow K)) (r : KrxRow K) : Bool :=
  let priorClose := (prior.map KrxRow.close).getD nan
  isNew && followsTradingDay cal (prior.map KrxRow.date) r.date && (fin 0).lt priorClose &&
    (fin priceEventTolerance).lt (r.prevClose.sub priorClose).abs

def mergeFactor (cal : List Day) (isNew : Bool) (prior : Option (KrxRow K)) (r : KrxRow K) : Flt K :=
  if mergeEvent cal isNew prior r then r.prevClose.div ((prior.map KrxRow.close).getD nan) else fin 1

/-- A row of the merged panel with the columns computed for it. -/
structure Merged (K : Type) where
  row : PanelRow K
  isNew : Bool
  event : Bool
  factor : Flt K
  touched : Bool

/-- The merged rows of a symbol, in the order of their dates. -/
def mergeSymbol (cal : List Day) (isNew : PanelRow K → Bool) (g : List (PanelRow K)) : List (Merged K) :=
  let prior := Series.shift none (g.map (fun r => some r.toKrxRow))
  let factor := List.zipWith (fun p r => mergeFactor cal (isNew r) p r.toKrxRow) prior g
  -- the product of the factors of the row and the later ones, and then without the row's own
  let rev := (Series.cumprod factor.reverse).reverse
  let scale := List.zipWith Flt.div rev factor
  let events := List.zipWith (fun p r => mergeEvent cal (isNew r) p r.toKrxRow) prior g
  List.zipWith (fun (ef : Bool × Flt K) (sr : Flt K × PanelRow K) =>
      { row := if sr.1 ≠ fin 1 then sr.2.scaled sr.1 else sr.2, isNew := isNew sr.2, event := ef.1, factor := ef.2,
        touched := decide (sr.1 ≠ fin 1) })
    (events.zip factor) (scale.zip g)

/-- A new row's raw price is its close before any adjustment. -/
def PanelRow.filled (r : PanelRow K) : PanelRow K := { r with closeRaw := r.closeRaw.fillna r.close }

/-- The merged panel with its columns, by symbol and date. -/
def mergeRows (panel newRows : List (PanelRow K)) (tradingDays : List Day) : List (Merged K) :=
  let merged := KeepLast.keepLast PanelRow.key (Grouped.sortRows PanelRow.key ((panel ++ newRows).map PanelRow.filled))
  let cal := tradingDays.insertionSort (· ≤ ·)
  Grouped.perGroup (fun r => r.symbol) (mergeSymbol cal (fun r => decide (r.key ∈ newRows.map PanelRow.key))) merged

/-- The merged panel, the events of it, and which of its rows are new or were rescaled. -/
def mergeAndAdjust (panel newRows : List (PanelRow K)) (tradingDays : List Day) :
    List (PanelRow K) × List (String × Day × Flt K) × List Bool :=
  let rows := mergeRows panel newRows tradingDays
  (rows.map Merged.row, (rows.filter Merged.event).map (fun m => (m.row.symbol, m.row.date, m.factor)),
    rows.map (fun m => m.isNew || m.touched))

end PriceIngest
