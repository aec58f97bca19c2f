import KClosingAlpha.Lib.Exc
import KClosingAlpha.Lib.Flt
import KClosingAlpha.Py.Value
import Mathlib.Data.List.Dedup
import Mathlib.Data.List.Sort
import Mathlib.Data.Rat.Floor
import Mathlib.Data.String.Basic
/-!
# Decomposition — the consolidated-to-KRX share estimator (`data/nxt_decomposition.py`)

The estimator is fitted on the later dates of a calibration table and measured on its earliest ones.  Its arithmetic is a
parameter (`Arith`): the doubles of the runtime, or exact numbers; and so are numpy's mean, median and quantile.  A day is
its text and its number.
-/
namespace Nxt

open Exc (raiseIf)

/-- Floating-point arithmetic; `ratio n d` is the quotient of two integers. -/
structure Arith (F : Type) where
  ratio : Nat → Nat → F
  add : F → F → F
  sub : F → F → F
  mul : F → F → F
  div : F → F → F
  abs : F → F
  lt : F → F → Bool
  le : F → F → Bool
  isFinite : F → Bool
  inf : F
  nan : F
  ceil : F → Int

structure Numpy (F : Type) where
  mean : List F → F
  median : List F → F
  quantile : F → List F → F

/-- `%Y-%m-%d` of a date, and its number. -/
structure Day where
  text : String
  ordinal : Int
deriving DecidableEq

/-- A calibration row; a date that does not parse is none, and a value that is no number NaN. -/
structure CalRow (F : Type) where
  date : Option Day
  symbol : String
  vKrx1520 : F
  auctionVolume : F
  vCons1520 : F
  eodVolume : F
  closeKrx1519 : F
  closeCons1519 : F
deriving DecidableEq

/-- A row that is kept. -/
structure KeptRow (F : Type) where
  day : Day
  symbol : String
  auctionVolume : F
  vCons1520 : F
  eodVolume : F
  closeKrx1519 : F
  closeCons1519 : F
  trueShare : F
deriving DecidableEq

structure HistoryRow (F : Type) where
  ordinal : Int
  proxy : F
deriving DecidableEq

inductive FitError (F : Type) where
  | value (msg : String)
  | holdoutDates (n min : Int)
  | fitRows (rows symbols : Nat)
  | noCandidate (ceiling : F) (scored : Nat)
deriving DecidableEq

structure DecompositionConfig (F : Type) where
  ewmaAlpha : F
  minPriorDays : Int
  maxGapDays : Int
  auctionFractionMean : F
  biasCorrection : F
  volumeRelErrP90 : F
  closeBpErrP90 : F
  calibratedThrough : String
  fitStart : String
  holdoutStart : String
  holdoutEnd : String
deriving DecidableEq

structure FrontierPoint (F : Type) where
  ewmaAlpha : F
  minPriorDays : Int
  maxGapDays : Int
  coverage : F
  relErrP50 : Option F
  relErrP90 : Option F
  relErrP99 : Option F
deriving DecidableEq

structure FitDiagnostics (F : Type) where
  fitStart : String
  fitEnd : String
  holdoutStart : String
  holdoutEnd : String
  nFitRows : Nat
  nHoldoutRows : Nat
  nSymbols : Nat
  holdoutRelErrP50 : F
  holdoutRelErrP90 : F
  holdoutRelErrP99 : F
  holdoutCoverage : F
  abarFit : F
  abarHoldout : F
  biasFit : F
  biasHoldout : F
  alphaAtBoundary : Bool
  frontier : List (FrontierPoint F)
  tableSha256 : String
deriving DecidableEq

structure DecompositionFit (F : Type) where
  config : DecompositionConfig F
  diagnostics : FitDiagnostics F
deriving DecidableEq

/-- `_ScoredCandidate`. -/
structure ScoredCandidate (F : Type) where
  ewmaAlpha : F
  minPriorDays : Int
  maxGapDays : Int
  coverage : F
  relErrP50 : F
  relErrP90 : F
  relErrP99 : F
  bias : F
deriving DecidableEq

/-- The arguments of `fit_decomposition` beside the table. -/
structure FitArgs (F : Type) where
  alphas : List F
  structures : List (Int × Int)
  identityTolerance : F
  holdoutFraction : F
  minHoldoutDays : Int
  maxSelectionRelErrP90 : F
  tableSha256 : String

section

variable {F : Type} [DecidableEq F] (A : Arith F) (np : Numpy F)

namespace Arith

def zero : F := A.ratio 0 1

def one : F := A.ratio 1 1

/-- `x == y`. -/
def eq (x y : F) : Bool := A.le x y && A.le y x

/-- `(0, 1]`. -/
def inUnit (x : F) : Bool := A.lt A.zero x && A.le x A.one

end Arith

/-! ## The rows that are kept -/

/-- `v_krx / v_cons`. -/
def CalRow.trueShare (r : CalRow F) : F := A.div r.vKrx1520 r.vCons1520

def CalRow.residual (r : CalRow F) : F :=
  if A.lt A.zero r.eodVolume then A.div (A.abs (A.sub r.eodVolume (A.add r.vKrx1520 r.auctionVolume))) r.eodVolume else A.inf

def CalRow.valid (tolerance : F) (r : CalRow F) : Bool :=
  A.isFinite r.eodVolume && A.lt A.zero r.eodVolume && A.isFinite r.vKrx1520 && A.lt A.zero r.vKrx1520 &&
    A.isFinite r.vCons1520 && A.lt A.zero r.vCons1520 && A.isFinite r.auctionVolume && A.le A.zero r.auctionVolume &&
    A.isFinite (r.residual A) && A.le (r.residual A) tolerance && A.isFinite (r.trueShare A) && A.lt A.zero (r.trueShare A)

/-- The row, where it has a date and is valid. -/
def CalRow.kept (tolerance : F) (r : CalRow F) : Option (KeptRow F) :=
  if r.valid A tolerance then
    r.date.map (fun day =>
      { day := day
        symbol := r.symbol
        auctionVolume := r.auctionVolume
        vCons1520 := r.vCons1520
        eodVolume := r.eodVolume
        closeKrx1519 := r.closeKrx1519
        closeCons1519 := r.closeCons1519
        trueShare := r.trueShare A })
  else none

/-- `_eligible_frame`. -/
def eligibleFrame (tolerance : F) (calibration : List (CalRow F)) : Except (FitError F) (List (KeptRow F)) := do
  raiseIf (calibration = []) (.value "fit_decomposition carries no calibration rows")
  raiseIf (calibration.any (fun r => r.date.isNone) = true) (.value "fit_decomposition carries unparseable dates")
  .ok (calibration.filterMap (CalRow.kept A tolerance))

/-! ## Prediction -/

/-- `_build_history`: the proxies of a symbol, oldest first. -/
def buildHistory (frame : List (KeptRow F)) (auctionFractionMean : F) (symbol : String) : List (HistoryRow F) :=
  let scale := A.sub A.one auctionFractionMean
  let ordered := (frame.filter (fun r => decide (r.symbol = symbol))).insertionSort (fun a b => a.day.ordinal ≤ b.day.ordinal)
  ordered.map (fun r => ⟨r.day.ordinal, A.div (A.mul r.eodVolume scale) r.vCons1520⟩)

/-- `_ewma`; no caller passes an empty sequence. -/
def ewma (alpha : F) : List F → F
  | [] => A.nan
  | x :: values => values.foldl (fun ema value => A.add (A.mul alpha value) (A.mul (A.sub A.one alpha) ema)) x

/-- `_prediction_value`. -/
def predictionValue (values : List F) (alpha bias : F) (enforceRange : Bool) : Option F :=
  let corrected := A.mul (ewma A alpha values) bias
  if !A.isFinite corrected || A.le corrected A.zero || (enforceRange && A.lt A.one corrected) then none else some corrected

/-- `_predict_raw`. -/
def predictRaw (priors : List (HistoryRow F)) (decision minPriorDays maxGapDays : Int) (alpha : F) : Option F :=
  let values := (priors.filter (fun row =>
    decide (row.ordinal < decision) && decide (decision - row.ordinal ≤ maxGapDays) && A.isFinite row.proxy)).map HistoryRow.proxy
  if (values.length : Int) < minPriorDays then none else predictionValue A values alpha A.one false

/-- `predict_share`: `parse` is `_parse_day`. -/
def predictShare (parse : String → Option Int) (proxyHistory : List (String × F)) (decisionDate : String)
    (config : DecompositionConfig F) : Option F :=
  match parse decisionDate with
  | none => none
  | some decision =>
    if !A.isFinite config.ewmaAlpha || A.le config.ewmaAlpha A.zero || A.lt A.one config.ewmaAlpha then none
    else
      let dated := proxyHistory.filterMap (fun x => (parse x.1).bind (fun day =>
        if decision ≤ day then none
        else if decision - day < 1 ∨ config.maxGapDays < decision - day then none
        else if A.isFinite x.2 then some (day, x.2) else none))
      if (dated.length : Int) < config.minPriorDays then none
      else predictionValue A ((dated.insertionSort (fun a b => a.1 ≤ b.1)).map Prod.snd) config.ewmaAlpha config.biasCorrection true

/-! ## Scoring -/

/-- A decision row: its symbol, its day and its true share. -/
structure ScopeRow (F : Type) where
  symbol : String
  ordinal : Int
  true_ : F
deriving DecidableEq

/-- The raw predictions of a candidate beside the true shares. -/
def rawsOf (history : String → List (HistoryRow F)) (scope : List (ScopeRow F)) (alpha : F) (pair : Int × Int) : List (F × F) :=
  scope.filterMap (fun row =>
    (predictRaw A (history row.symbol) row.ordinal pair.1 pair.2 alpha).bind (fun raw =>
      if A.lt A.zero raw && A.isFinite row.true_ && A.lt A.zero row.true_ then some (raw, row.true_) else none))

/-- The median ratio of the true shares to the raw predictions. -/
def biasOf (raws : List (F × F)) : F := if raws.isEmpty then A.nan else np.median (raws.map (fun x => A.div x.2 x.1))

/-- The relative errors of the rows that are predicted. -/
def predictedErrors (raws : List (F × F)) (bias : F) : List F :=
  if !raws.isEmpty && A.isFinite bias && A.lt A.zero bias then
    raws.filterMap (fun x =>
      let corrected := A.mul x.1 bias
      if A.isFinite corrected && A.inUnit corrected then some (A.div (A.abs (A.sub corrected x.2)) x.2) else none)
  else []

/-- 0.5, 0.9 and 0.99. -/
def quantiles : List F := [A.ratio 1 2, A.ratio 9 10, A.ratio 99 100]

def quantileOr (q : F) (errors : List F) : F := if errors.isEmpty then A.inf else np.quantile q errors

def scoreCandidate (history : String → List (HistoryRow F)) (scope : List (ScopeRow F)) (alpha : F) (pair : Int × Int) :
    ScoredCandidate F :=
  let raws := rawsOf A history scope alpha pair
  let bias := biasOf A np raws
  let predicted := predictedErrors A raws bias
  { ewmaAlpha := alpha
    minPriorDays := pair.1
    maxGapDays := pair.2
    coverage := if scope.isEmpty then A.zero else A.ratio predicted.length scope.length
    relErrP50 := quantileOr A np (A.ratio 1 2) predicted
    relErrP90 := quantileOr A np (A.ratio 9 10) predicted
    relErrP99 := quantileOr A np (A.ratio 99 100) predicted
    bias := bias }

/-- `_candidate_sort_key(a) < _candidate_sort_key(b)`: coverage downwards, p90, structure, alpha. -/
def keyLt (a b : ScoredCandidate F) : Bool :=
  if !A.eq a.coverage b.coverage then A.lt b.coverage a.coverage
  else if !A.eq a.relErrP90 b.relErrP90 then A.lt a.relErrP90 b.relErrP90
  else if a.minPriorDays ≠ b.minPriorDays then decide (a.minPriorDays < b.minPriorDays)
  else if a.maxGapDays ≠ b.maxGapDays then decide (b.maxGapDays < a.maxGapDays)
  else A.lt a.ewmaAlpha b.ewmaAlpha

/-- `_score_candidates`; the order of candidates whose key holds a NaN is not relied on. -/
def scoreCandidates (history : String → List (HistoryRow F)) (scope : List (ScopeRow F)) (alphas : List F)
    (structures : List (Int × Int)) : List (ScoredCandidate F) :=
  (alphas.flatMap (fun alpha => structures.map (scoreCandidate A np history scope alpha))).insertionSort
    (fun a b => keyLt A b a = false)

/-! ## The fit -/

/-- A pair compared as a tuple. -/
def pairLe (a b : Int × Int) : Bool := decide (a.1 < b.1) || (decide (a.1 = b.1) && decide (a.2 ≤ b.2))

/-- `sorted(set(pairs))`. -/
def structuresDeduped (pairs : List (Int × Int)) : List (Int × Int) := pairs.dedup.insertionSort (fun a b => pairLe a b = true)

/-- `a` is no coefficient. -/
def badAlpha (a : F) : Bool := !A.isFinite a || A.le a A.zero || A.lt A.one a

/-- The checks of the arguments. -/
def checkArgs (args : FitArgs F) : Except (FitError F) Unit := do
  raiseIf (args.alphas.dedup.length < 3 ∨ args.alphas.any (badAlpha A) = true)
    (.value "fit_decomposition alphas must hold at least three distinct values within (0, 1]")
  raiseIf (args.structures = []) (.value "fit_decomposition structures must hold (min_prior_days, max_gap_days) pairs")
  args.structures.forM (fun pair => do
    raiseIf (pair.1 < 1) (.value "fit_decomposition min_prior_days must be >= 1")
    raiseIf (pair.2 < 0) (.value "fit_decomposition max_gap_days must be >= 0"))
  raiseIf ((!A.isFinite args.identityTolerance || A.le args.identityTolerance A.zero) = true)
    (.value "fit_decomposition identity_tolerance must be positive")
  raiseIf ((!A.isFinite args.holdoutFraction || A.le args.holdoutFraction A.zero ||
      A.lt (A.ratio 1 2) args.holdoutFraction) = true)
    (.value "fit_decomposition holdout_fraction must lie within (0, 0.5]")
  raiseIf (args.minHoldoutDays < 1) (.value "fit_decomposition min_holdout_days must be >= 1")
  raiseIf ((!A.isFinite args.maxSelectionRelErrP90 || A.lt args.maxSelectionRelErrP90 A.zero) = true)
    (.value "fit_decomposition max_selection_rel_err_p90 must be a finite ceiling >= 0")

/-- `sorted(kept["day"].unique())`. -/
def datesOf (kept : List (KeptRow F)) : List String := (kept.map (fun r => r.day.text)).dedup.insertionSort (· ≤ ·)

/-- How many dates are held out. -/
def holdoutCount (fraction : F) (dates : List String) : Int := A.ceil (A.mul fraction (A.ratio dates.length 1))

/-- The split of a kept frame: the held out dates and the fit dates. -/
def splitDates (fraction : F) (dates : List String) : List String × List String :=
  (dates.take (holdoutCount A fraction dates).toNat, dates.drop (holdoutCount A fraction dates).toNat)

def fitRows (holdoutDates : List String) (kept : List (KeptRow F)) : List (KeptRow F) :=
  kept.filter (fun r => decide (r.day.text ∉ holdoutDates))

def holdoutRows (holdoutDates : List String) (kept : List (KeptRow F)) : List (KeptRow F) :=
  kept.filter (fun r => decide (r.day.text ∈ holdoutDates))

def symbolCount (rows : List (KeptRow F)) : Nat := (rows.map KeptRow.symbol).dedup.length

/-- The mean auction fraction. -/
def abarOf (rows : List (KeptRow F)) : F := np.mean (rows.map (fun r => A.div r.auctionVolume r.eodVolume))

def KeptRow.scope (r : KeptRow F) : ScopeRow F := ⟨r.symbol, r.day.ordinal, r.trueShare⟩

/-- The rows of the later half of the fit dates. -/
def selectionScope (fitDates : List String) (fit : List (KeptRow F)) : List (ScopeRow F) :=
  let selectionDays := fitDates.drop (max 1 (fitDates.length / 2))
  (fit.filter (fun r => decide (r.day.text ∈ selectionDays))).map KeptRow.scope

def frontierPoint (c : ScoredCandidate F) : FrontierPoint F :=
  let only (x : F) : Option F := if A.eq c.coverage A.zero then none else some x
  { ewmaAlpha := c.ewmaAlpha
    minPriorDays := c.minPriorDays
    maxGapDays := c.maxGapDays
    coverage := c.coverage
    relErrP50 := only c.relErrP50
    relErrP90 := only c.relErrP90
    relErrP99 := only c.relErrP99 }

/-- The candidates scored on the fit rows. -/
def scoredOf (args : FitArgs F) (fitDates : List String) (fit : List (KeptRow F)) : List (ScoredCandidate F) :=
  scoreCandidates A np (buildHistory A fit (abarOf A np fit)) (selectionScope fitDates fit) args.alphas
    (structuresDeduped args.structures)

/-- The errors and the ratios of the holdout rows that the chosen candidate predicts. -/
def holdoutScores (abar : F) (best : ScoredCandidate F) (holdout : List (KeptRow F)) : List (F × F) :=
  holdout.filterMap (fun r =>
    (predictRaw A (buildHistory A holdout abar r.symbol) r.day.ordinal best.minPriorDays best.maxGapDays best.ewmaAlpha).bind
      (fun raw =>
        let corrected := A.mul raw best.bias
        if A.le raw A.zero then none
        else if !A.isFinite corrected || A.le corrected A.zero || A.lt A.one corrected then none
        else some (A.div (A.abs (A.sub corrected r.trueShare)) r.trueShare, A.div r.trueShare raw)))

/-- The close errors of the holdout, in basis points. -/
def closeErrors (holdout : List (KeptRow F)) : List F :=
  (holdout.filter (fun r => A.isFinite r.closeKrx1519 && A.isFinite r.closeCons1519 && A.lt A.zero r.closeKrx1519 &&
      A.lt A.zero r.closeCons1519)).map
    (fun r => A.mul (A.div (A.abs (A.sub r.closeCons1519 r.closeKrx1519)) r.closeKrx1519) (A.ratio 10000 1))

/-- What is chosen on the fit rows. -/
structure Chosen (F : Type) where
  abar : F
  scored : List (ScoredCandidate F)
  best : ScoredCandidate F
deriving DecidableEq

/-- The part of the fit that chooses the parameters. -/
def chooseOnFit (args : FitArgs F) (fitDates : List String) (fit : List (KeptRow F)) : Except (FitError F) (Chosen F) := do
  raiseIf (fitDates.length < 2 ∨ fit.length < 2 ∨ symbolCount fit < 2) (.fitRows fit.length (symbolCount fit))
  let scored := scoredOf A np args fitDates fit
  match scored.find? (fun c => A.le c.relErrP90 args.maxSelectionRelErrP90) with
  | none => .error (.noCandidate args.maxSelectionRelErrP90 scored.length)
  | some best => .ok ⟨abarOf A np fit, scored, best⟩

/-- `alpha == min(alphas) or alpha == max(alphas)`. -/
def atBoundary (alphas : List F) (alpha : F) : Bool := alphas.all (A.le alpha) || alphas.all (fun a => A.le a alpha)

/-- The part of the fit that measures the chosen parameters on the holdout. -/
def measureOnHoldout (args : FitArgs F) (holdoutDates fitDates : List String) (kept : List (KeptRow F)) (c : Chosen F) :
    Except (FitError F) (DecompositionFit F) := do
  let fit := fitRows holdoutDates kept
  let holdout := holdoutRows holdoutDates kept
  let scores := holdoutScores A c.abar c.best holdout
  let errors := scores.map Prod.fst
  raiseIf (scores = []) (.value "fit_decomposition cannot score any holdout row with the chosen parameters")
  let p50 := np.quantile (A.ratio 1 2) errors
  let p90 := np.quantile (A.ratio 9 10) errors
  let p99 := np.quantile (A.ratio 99 100) errors
  let abarHoldout := abarOf A np holdout
  let biasHoldout := np.median (scores.map Prod.snd)
  raiseIf (¬ [p50, p90, p99, c.abar, abarHoldout, c.best.bias, biasHoldout].all A.isFinite = true ∨ A.le biasHoldout A.zero = true)
    (.value "fit_decomposition cannot compute finite holdout diagnostics")
  raiseIf (closeErrors A holdout = []) (.value "fit_decomposition finds no holdout close pair with finite positive closes")
  let closeP90 := np.quantile (A.ratio 9 10) (closeErrors A holdout)
  raiseIf (A.isFinite closeP90 = false) (.value "fit_decomposition cannot compute finite holdout close diagnostics")
  .ok
    { config :=
        { ewmaAlpha := c.best.ewmaAlpha
          minPriorDays := c.best.minPriorDays
          maxGapDays := c.best.maxGapDays
          auctionFractionMean := c.abar
          biasCorrection := c.best.bias
          volumeRelErrP90 := p90
          closeBpErrP90 := closeP90
          calibratedThrough := fitDates.getLastD ""
          fitStart := fitDates.headD ""
          holdoutStart := holdoutDates.headD ""
          holdoutEnd := holdoutDates.getLastD "" }
      diagnostics :=
        { fitStart := fitDates.headD ""
          fitEnd := fitDates.getLastD ""
          holdoutStart := holdoutDates.headD ""
          holdoutEnd := holdoutDates.getLastD ""
          nFitRows := fit.length
          nHoldoutRows := holdout.length
          nSymbols := symbolCount kept
          holdoutRelErrP50 := p50
          holdoutRelErrP90 := p90
          holdoutRelErrP99 := p99
          holdoutCoverage := if holdout = [] then A.zero else A.ratio errors.length holdout.length
          abarFit := c.abar
          abarHoldout := abarHoldout
          biasFit := c.best.bias
          biasHoldout := biasHoldout
          alphaAtBoundary := atBoundary A args.alphas c.best.ewmaAlpha
          frontier := c.scored.map (frontierPoint A)
          tableSha256 := args.tableSha256 } }

def fitDecomposition (args : FitArgs F) (calibration : List (CalRow F)) : Except (FitError F) (DecompositionFit F) := do
  checkArgs A args
  let kept ← eligibleFrame A args.identityTolerance calibration
  let dates := datesOf kept
  raiseIf (dates = []) (.value "fit_decomposition keeps 0 symbol-days over 0 symbols after identity filtering")
  raiseIf (holdoutCount A args.holdoutFraction dates < args.minHoldoutDays)
    (.holdoutDates (holdoutCount A args.holdoutFraction dates) args.minHoldoutDays)
  let split := splitDates A args.holdoutFraction dates
  let chosen ← chooseOnFit A np args split.2 (fitRows split.1 kept)
  measureOnHoldout A np args split.1 split.2 kept chosen

end

end Nxt
