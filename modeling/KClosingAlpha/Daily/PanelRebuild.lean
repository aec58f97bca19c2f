import KClosingAlpha.Daily.PriceIngest
/-!
# PanelRebuild — the adjusted chain derived from all rows at once

`computeBasePriceFactors` classifies every row against the row before it of its symbol; `deriveAdjustedPrices`
scales each row by the product of the factors of the later rows of its symbol.
-/
namespace PriceIngest

set_option linter.unusedSectionVars false

open Flt (nan fin)

variable {K : Type} [Field K] [LinearOrder K]

/-- A row with what it is against the row before it of its symbol. -/
structure FactorRow (K : Type) extends PricedRow K where
  priorClose : Flt K
  priorDate : Option Day
  factor : Flt K
  isEvent : Bool
  isGapJump : Bool
  shareRatio : Flt K

/-- Whether the base price of a row is away from the close before it. -/
def basePriceJump (prior : Option (KrxRow K)) (r : KrxRow K) : Bool :=
  let priorClose := (prior.map KrxRow.close).getD nan
  (fin 0).lt priorClose && (fin priceEventTolerance).lt (r.prevClose.sub priorClose).abs

def rebuildEvent (cal : List Day) (prior : Option (KrxRow K)) (r : KrxRow K) : Bool :=
  followsTradingDay cal (prior.map KrxRow.date) r.date && basePriceJump prior r

def rebuildFactor (cal : List Day) (prior : Option (KrxRow K)) (r : KrxRow K) : Flt K :=
  if rebuildEvent cal prior r then r.prevClose.div ((prior.map KrxRow.close).getD nan) else fin 1

/-- The shares the market value of a row implies, where both numbers are positive. -/
def impliedShares (r : KrxRow K) : Flt K :=
  Flt.onlyIf ((fin 0).lt r.marketCap100m && (fin 0).lt r.close) (r.marketCap100m.div r.close)

/-- A row classified after the row before it of its symbol. -/
def factorRow (cal : List Day) (prior : Option (KrxRow K)) (r : KrxRow K) : FactorRow K :=
  { r with
    closeRaw := r.close
    priorClose := (prior.map KrxRow.close).getD nan
    priorDate := prior.map KrxRow.date
    factor := rebuildFactor cal prior r
    isEvent := rebuildEvent cal prior r
    isGapJump := prior.isSome && !followsTradingDay cal (prior.map KrxRow.date) r.date && basePriceJump prior r
    shareRatio := (impliedShares r).div ((prior.map impliedShares).getD nan) }

/-- The classified rows of a symbol, in the order of their dates. -/
def factorsSymbol (cal : List Day) (g : List (KrxRow K)) : List (FactorRow K) :=
  List.zipWith (factorRow cal) (Series.shift none (g.map some)) g

def rebuildCalendar (raw : List (KrxRow K)) : List Day := (raw.map KrxRow.date).dedup.insertionSort (· ≤ ·)

def computeBasePriceFactors (raw : List (KrxRow K)) : List (FactorRow K) :=
  Grouped.perGroup KrxRow.symbol (factorsSymbol (rebuildCalendar raw)) (Grouped.sortRows KrxRow.key raw)

/-- The rows of a symbol scaled by what comes after them. -/
def deriveSymbol (g : List (FactorRow K)) : List (PricedRow K) :=
  let factor := g.map FactorRow.factor
  let rev := (Series.cumprod factor.reverse).reverse
  let scale := List.zipWith Flt.div rev factor
  List.zipWith (fun s r => if s ≠ fin 1 then r.toPricedRow.scaled s else r.toPricedRow) scale g

def deriveAdjustedPrices (raw : List (KrxRow K)) : List (PricedRow K) :=
  Grouped.perGroup (fun r => r.symbol) deriveSymbol (computeBasePriceFactors raw)

end PriceIngest
