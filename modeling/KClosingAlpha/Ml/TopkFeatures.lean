import KClosingAlpha.Lib.Exc
import KClosingAlpha.Lib.Grouped
import KClosingAlpha.Lib.Series
import Mathlib
/-!
# TopkFeatures — the features of the top-k ranker (`ml/topk_contract.py`, `ml/topk_history_features.py`)

The features of a candidate on a date come from three functions: `computeDerivedFeatures` reads the candidates of the
date, `attachLaggedFlowFeatures` the last panel row before it, and `attachTopkFeatures` the columns
`computeTopkHistoryFeatures` gives for the panel.  Numbers are computed exactly; days are day numbers; the logarithms
and the exponential are parameters.
-/
namespace TopkFeatures

set_option linter.unusedSectionVars false

open Flt (nan fin inf)
open Series (shift shiftBack rolling rollSum rollMean rollMax rollCount cumsum)

abbrev Day := Int

/-- A panel row in HISTORY_REQUIRED_COLUMNS, with its raw close: NaN where the panel has no such column. -/
structure PanelRow (K : Type) where
  date : Day
  symbol : String
  open_ : Flt K
  close : Flt K
  prevClose : Flt K
  volume : Flt K
  instNetbuy : Flt K
  foreignNetbuy : Flt K
  closeRaw : Flt K
deriving DecidableEq, Repr

/-- A candidate row; `closeRaw` is none where the candidates have no such column. -/
structure CandRow (K : Type) where
  date : Day
  symbol : String
  open_ : Flt K
  high : Flt K
  low : Flt K
  close : Flt K
  tvClean : Flt K
  mcClean : Flt K
  chgRatio : Flt K
  kospiPct : Flt K
  kosdaqPct : Flt K
  vKospi : Flt K
  tickCostBp : Flt K
  closeRaw : Option (Flt K)
deriving DecidableEq, Repr

inductive HistoryFeature where
  | ret5 | ret20 | ret60 | distHigh60 | upcount20 | onMean20 | onMean60 | upnextOn60 | gap | idMean20 | instCum5 | foreignCum5
deriving DecidableEq, Repr

/-- RANKER_FEATURE_COLS. -/
inductive RankerFeature where
  | chgRatio | logTv | logMc | bodyRatio | upperShadowRatio | intradayRange | kospiPct | kosdaqPct | vKospi | tvRank | chgRank
  | instDensity | instRank
  | tickCost | logClose
  | history (f : HistoryFeature)
deriving DecidableEq, Repr

inductive FeatureTiming where
  | decisionSnapshot | priorConfirmed | snapshotAndPrior
deriving DecidableEq, Repr

/-- The declared timing of each feature: TOPK_FEATURE_SPECS. -/
def topkFeatureSpecs : List (RankerFeature × FeatureTiming) :=
  [(.chgRatio, .decisionSnapshot), (.logTv, .decisionSnapshot), (.logMc, .decisionSnapshot), (.bodyRatio, .decisionSnapshot),
   (.upperShadowRatio, .decisionSnapshot), (.intradayRange, .decisionSnapshot), (.kospiPct, .decisionSnapshot),
   (.kosdaqPct, .decisionSnapshot), (.vKospi, .decisionSnapshot), (.tvRank, .decisionSnapshot), (.chgRank, .decisionSnapshot),
   (.instDensity, .priorConfirmed), (.instRank, .priorConfirmed), (.tickCost, .decisionSnapshot), (.logClose, .decisionSnapshot),
   (.history .ret5, .priorConfirmed), (.history .ret20, .priorConfirmed), (.history .ret60, .priorConfirmed),
   (.history .distHigh60, .snapshotAndPrior), (.history .upcount20, .priorConfirmed), (.history .onMean20, .priorConfirmed),
   (.history .onMean60, .priorConfirmed), (.history .upnextOn60, .snapshotAndPrior), (.history .gap, .decisionSnapshot),
   (.history .idMean20, .priorConfirmed), (.history .instCum5, .priorConfirmed), (.history .foreignCum5, .priorConfirmed)]

variable {K : Type}

def PanelRow.key (r : PanelRow K) : String × Day := (r.symbol, r.date)

/-- The functions of numpy that are not arithmetic, where they are finite. -/
structure Libm (K : Type) where
  log : K → K
  log1p : K → K
  expm1 : K → K

variable [Field K] [LinearOrder K]

def Libm.npLog (m : Libm K) : Flt K → Flt K
  | nan => nan
  | inf minus => if minus then nan else inf false
  | fin x => if x < 0 then nan else if x = 0 then inf true else fin (m.log x)

def Libm.npLog1p (m : Libm K) : Flt K → Flt K
  | nan => nan
  | inf minus => if minus then nan else inf false
  | fin x => if x < -1 then nan else if x = -1 then inf true else fin (m.log1p x)

def Libm.npExpm1 (m : Libm K) : Flt K → Flt K
  | nan => nan
  | inf minus => if minus then fin (-1) else inf false
  | fin x => fin (m.expm1 x)

local instance two : Nat.AtLeastTwo 2 := ⟨le_rfl⟩

local instance hundred : Nat.AtLeastTwo 100 := ⟨by decide⟩

/-- KRX_DAILY_LIMIT_RATIO. -/
def krxDailyLimitRatio : K := 31 / 100

/-- `close / prev_close - 1`; NaN for a bad base and beyond the daily limit. -/
def deriveChgRatio (close prevClose : Flt K) : Flt K :=
  let valid := close.isFinite && prevClose.isFinite && (fin 0).lt prevClose
  let ratio := (if valid then close.div prevClose else nan).sub (fin 1)
  if valid && ratio.isFinite && (fin krxDailyLimitRatio).lt ratio.abs then nan else ratio

/-! ## Ranks inside a date -/

/-- `rank(pct=True)` of a value among those of its group: the mean rank of its ties over the number of values. -/
def rankPct (values : List (Flt K)) (x : Flt K) : Flt K :=
  let observed := values.filter (fun y => !y.isNan)
  let less := (observed.filter (fun y => y.lt x)).length
  let equal := (observed.filter (fun y => decide (y = x))).length
  if x.isNan then nan else fin (((less : K) + ((equal : K) + 1) / 2) / (observed.length : K))

/-! ## The three functions -/

/-- A candidate with the columns attached to it, NaN before. -/
structure RankerRow (K : Type) extends CandRow K where
  bodyRatio : Flt K
  upperShadowRatio : Flt K
  intradayRange : Flt K
  logTv : Flt K
  logMc : Flt K
  tvRank : Flt K
  chgRank : Flt K
  instDensity : Flt K
  instRank : Flt K
  tickCost : Flt K
  logClose : Flt K
  history : HistoryFeature → Flt K

def RankerRow.value (r : RankerRow K) : RankerFeature → Flt K
  | .chgRatio => r.chgRatio
  | .logTv => r.logTv
  | .logMc => r.logMc
  | .bodyRatio => r.bodyRatio
  | .upperShadowRatio => r.upperShadowRatio
  | .intradayRange => r.intradayRange
  | .kospiPct => r.kospiPct
  | .kosdaqPct => r.kosdaqPct
  | .vKospi => r.vKospi
  | .tvRank => r.tvRank
  | .chgRank => r.chgRank
  | .instDensity => r.instDensity
  | .instRank => r.instRank
  | .tickCost => r.tickCost
  | .logClose => r.logClose
  | .history f => r.history f

inductive FeatureError where
  | duplicatePanelRows (dup : Nat)
  | missingColumns (columns : List String)
  | emptyLive
  | duplicateLive
  | notFound
  | noTradingDay
  | emptyHistory
  | staleHistory (latest prev : Day)
deriving DecidableEq, Repr

def duplicates (panel : List (PanelRow K)) : Nat := panel.length - (panel.map PanelRow.key).dedup.length

def checkDuplicates (panel : List (PanelRow K)) : Except FeatureError Unit :=
  Exc.raiseIf (duplicates panel ≠ 0) (.duplicatePanelRows (duplicates panel))

/-- A row of the candidates' date has the rank of its value in that date. -/
def rankOnDate (cands : List (CandRow K)) (val : CandRow K → Flt K) (c : CandRow K) : Flt K :=
  rankPct ((cands.filter (fun d => decide (d.date = c.date))).map val) (val c)

def computeDerivedFeatures (m : Libm K) (cands : List (CandRow K)) : List (RankerRow K) :=
  cands.map (fun c =>
    let rg := (c.high.sub c.low).maximum (fin 1)
    { c with
      bodyRatio := (c.close.sub c.open_).div rg
      upperShadowRatio := (c.high.sub (c.open_.maximum c.close)).div rg
      intradayRange := (c.high.sub c.low).div c.close
      logTv := m.npLog1p (c.tvClean.maximum (fin 0))
      logMc := m.npLog1p (c.mcClean.maximum (fin 0))
      tvRank := rankOnDate cands CandRow.tvClean c
      chgRank := rankOnDate cands CandRow.chgRatio c
      instDensity := nan, instRank := nan, tickCost := nan, logClose := nan, history := fun _ => nan })

/-- The price level of a row's own day: the raw close, or the close where there is none. -/
def PanelRow.level (r : PanelRow K) : Flt K := r.closeRaw.fillna r.close

/-- The traded value of a row at the prices of its day. -/
def PanelRow.valKrw (r : PanelRow K) : Flt K := r.level.mul r.volume

/-- The backward as-of match without exact matches: the last row of the symbol strictly before the date. -/
def mergeAsof (panel : List (PanelRow K)) (symbol : String) (date : Day) : Option (PanelRow K) :=
  let p := Grouped.sortRows (fun r : PanelRow K => (r.date, r.symbol)) panel
  (p.filter (fun r => decide (r.symbol = symbol) && decide (r.date < date))).getLast?

def instNetbuyLag1 (panel : List (PanelRow K)) (c : CandRow K) : Flt K :=
  ((mergeAsof panel c.symbol c.date).map PanelRow.instNetbuy).getD nan

def valLag1 (panel : List (PanelRow K)) (c : CandRow K) : Flt K :=
  (((mergeAsof panel c.symbol c.date).map PanelRow.valKrw).getD nan).maximum (fin 1)

def attachLaggedFlowFeatures (cands : List (RankerRow K)) (panel : List (PanelRow K)) : Except FeatureError (List (RankerRow K)) := do
  checkDuplicates panel
  .ok (cands.map (fun c =>
    let lag := instNetbuyLag1 panel c.toCandRow
    { c with
      instDensity := ((lag.fillna (fin 0)).div (valLag1 panel c.toCandRow)).clip (fin (-1)) (fin 1)
      instRank := rankOnDate (cands.map (fun d => d.toCandRow)) (instNetbuyLag1 panel) c.toCandRow }))

/-- MIN_CONDITIONAL_OBS. -/
def minConditionalObs : K := 3

/-- `_lag_roll`: the window of `w` rows that ends at the row before; `min_periods` is half of it, and at least three. -/
def lagRoll (w : Nat) (agg : Nat → List (Flt K) → Flt K) (s : List (Flt K)) : List (Flt K) :=
  rolling w (agg (max 3 (w / 2))) (shift nan s)

/-- Today's open over the close before; an open of zero is a day without a trade. -/
def overnight (r : PanelRow K) : Flt K :=
  if r.open_.isFinite && r.prevClose.isFinite && (fin 0).lt r.open_ && (fin 0).lt r.prevClose then
    (r.open_.div r.prevClose).sub (fin 1)
  else nan

def intraday (r : PanelRow K) : Flt K :=
  if r.open_.isFinite && r.close.isFinite && (fin 0).lt r.open_ && (fin 0).lt r.close then (r.close.div r.open_).sub (fin 1)
  else nan

def chgOf (r : PanelRow K) : Flt K := deriveChgRatio r.close r.prevClose

/-- Whether the day is one of a rise of at least UP_DAY_THRESHOLD. -/
def isUp (chgMin : K) (r : PanelRow K) : Bool := (fin chgMin).le (chgOf r)

def dropInf (x : Flt K) : Flt K := if x.isFinite then x else nan

def dropZero (x : Flt K) : Flt K := if x = fin 0 then nan else x

/-- The gaps after up days, at the day of the gap. -/
def condLag (chgMin : K) (g : List (PanelRow K)) : List (Flt K) :=
  shift nan (List.zipWith (fun gap r => Flt.onlyIf (isUp chgMin r) gap) (shiftBack nan (g.map overnight)) g)

/-- Net buying over traded value in the five rows before. -/
def cum5 (netbuy : PanelRow K → Flt K) (g : List (PanelRow K)) : List (Flt K) :=
  let den := (lagRoll 5 rollSum (g.map PanelRow.valKrw)).map dropZero
  List.zipWith (fun num d => (num.div d).clip (fin (-1)) (fin 1)) (lagRoll 5 rollSum (g.map netbuy)) den

/-- A column of the rows of a symbol, in the order of their dates. -/
def historyColumn (m : Libm K) (chgMin : K) (g : List (PanelRow K)) : HistoryFeature → List (Flt K)
  | .ret5 => lagRoll 5 rollSum (g.map (fun r => m.npLog1p (chgOf r)))
  | .ret20 => lagRoll 20 rollSum (g.map (fun r => m.npLog1p (chgOf r)))
  | .ret60 => lagRoll 60 rollSum (g.map (fun r => m.npLog1p (chgOf r)))
  | .distHigh60 =>
    let idx := cumsum (g.map (fun r => m.npLog1p (chgOf r)))
    List.zipWith (fun i hi => m.npExpm1 (i.sub hi)) idx (rolling 60 (rollMax 20) idx)
  | .upcount20 =>
    let up := g.map (fun r => if isUp chgMin r then fin 1 else fin 0)
    let valid := lagRoll 20 rollCount (g.map (fun r => m.npLog1p (chgOf r)))
    List.zipWith (fun s v => Flt.onlyIf (!v.isNan) s) (rolling 20 (rollSum 5) (shift nan up)) valid
  | .onMean20 => lagRoll 20 rollMean (g.map overnight)
  | .onMean60 => lagRoll 60 rollMean (g.map overnight)
  | .upnextOn60 =>
    List.zipWith (fun mean cnt => Flt.onlyIf ((fin minConditionalObs).le cnt) mean)
      (rolling 60 (rollMean 1) (condLag chgMin g)) (rolling 60 (rollCount 1) (condLag chgMin g))
  | .gap => g.map overnight
  | .idMean20 => lagRoll 20 rollMean (g.map intraday)
  | .instCum5 => cum5 PanelRow.instNetbuy g
  | .foreignCum5 => cum5 PanelRow.foreignNetbuy g

/-- A row of the history features: infinities are missing. -/
structure HistoryRow (K : Type) where
  date : Day
  symbol : String
  value : HistoryFeature → Flt K

def historySymbol (m : Libm K) (chgMin : K) (g : List (PanelRow K)) : List (HistoryRow K) :=
  g.zipIdx.map (fun (r, i) =>
    { date := r.date, symbol := r.symbol, value := fun f => dropInf (((historyColumn m chgMin g f)[i]?).getD nan) })

def computeTopkHistoryFeatures (m : Libm K) (chgMin : K) (panel : List (PanelRow K)) : Except FeatureError (List (HistoryRow K)) := do
  checkDuplicates panel
  .ok (Grouped.perGroup PanelRow.symbol (historySymbol m chgMin) (Grouped.sortRows PanelRow.key panel))

/-- The level whose logarithm is a feature. -/
def CandRow.levelClose (c : CandRow K) : Flt K := c.closeRaw.getD c.close

def attachTopkFeatures (m : Libm K) (chgMin : K) (cands : List (RankerRow K)) (panel : List (PanelRow K)) :
    Except FeatureError (List (RankerRow K)) := do
  let hist ← computeTopkHistoryFeatures m chgMin panel
  .ok (cands.map (fun c =>
    let h := hist.find? (fun h => decide (h.date = c.date) && decide (h.symbol = c.symbol))
    { c with
      history := fun f => (h.map (fun h => h.value f)).getD nan
      tickCost := c.tickCostBp
      logClose := m.npLog (Flt.onlyIf ((fin 0).lt c.levelClose) c.levelClose) }))

/-- The features as training computes them. -/
def rankerFeatures (m : Libm K) (chgMin : K) (cands : List (CandRow K)) (panel : List (PanelRow K)) :
    Except FeatureError (List (RankerRow K)) := do
  let flowed ← attachLaggedFlowFeatures (computeDerivedFeatures m cands) panel
  attachTopkFeatures m chgMin flowed panel

end TopkFeatures
