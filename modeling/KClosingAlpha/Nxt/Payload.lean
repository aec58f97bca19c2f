import KClosingAlpha.Nxt.Decomposition
import KClosingAlpha.Py.Ratio
/-!
# Payload — the persisted form of a fit (`data/nxt_decomposition.py`)

What is written of a config and of its diagnostics, and what reading it back refuses.  The text of JSON is not modelled:
what is loaded is what was written, with the keys of every object sorted, and no text is written of a number that is not
finite.  `parse` is `_parse_day`.
-/
namespace Nxt

open Exc (raiseIf)
open Py (PyFloat)

/-- The arithmetic of the runtime. -/
def Arith.double : Arith PyFloat where
  ratio n d := PyFloat.ofRatio false n d
  add := PyFloat.add
  sub := PyFloat.sub
  mul := PyFloat.mul
  div := PyFloat.div
  abs := PyFloat.abs
  lt := PyFloat.lt
  le := PyFloat.le
  isFinite := PyFloat.isFinite
  inf := .inf false
  nan := .nan
  ceil := PyFloat.ceil

inductive Payload where
  | none
  | bool (b : Bool)
  | int (i : Int)
  | float (f : PyFloat)
  | str (s : String)
  | list (xs : List Payload)
  | dict (items : List (String × Payload))

/-- A `ValueError` with its text, which may end with a value, with names or with the text of another error; and the
`OverflowError` of an integer that is no double. -/
inductive PayloadError where
  | value (text : String)
  | quoting (text : String) (value : Payload)
  | listing (text : String) (names : List String)
  | within (text : String) (e : PayloadError)
  | overflow

/-! ## Writing -/

def decompositionConfigToPayload (c : DecompositionConfig PyFloat) : Payload :=
  .dict [("ewma_alpha", .float c.ewmaAlpha), ("min_prior_days", .int c.minPriorDays), ("max_gap_days", .int c.maxGapDays),
    ("auction_fraction_mean", .float c.auctionFractionMean), ("bias_correction", .float c.biasCorrection),
    ("volume_rel_err_p90", .float c.volumeRelErrP90), ("close_bp_err_p90", .float c.closeBpErrP90),
    ("calibrated_through", .str c.calibratedThrough), ("fit_start", .str c.fitStart), ("holdout_start", .str c.holdoutStart),
    ("holdout_end", .str c.holdoutEnd)]

/-- A number that may be missing. -/
def optionalFloat : Option PyFloat → Payload
  | none => .none
  | some x => .float x

def frontierPointItems (p : FrontierPoint PyFloat) : List (String × Payload) :=
  [("ewma_alpha", .float p.ewmaAlpha), ("min_prior_days", .int p.minPriorDays), ("max_gap_days", .int p.maxGapDays),
    ("coverage", .float p.coverage), ("rel_err_p50", optionalFloat p.relErrP50), ("rel_err_p90", optionalFloat p.relErrP90),
    ("rel_err_p99", optionalFloat p.relErrP99)]

/-- The items of a diagnostics payload, given what its frontier is written as. -/
def fitDiagnosticsItems (d : FitDiagnostics PyFloat) (frontier : Payload) : List (String × Payload) :=
  [("fit_start", .str d.fitStart), ("fit_end", .str d.fitEnd), ("holdout_start", .str d.holdoutStart),
    ("holdout_end", .str d.holdoutEnd), ("n_fit_rows", .int d.nFitRows), ("n_holdout_rows", .int d.nHoldoutRows),
    ("n_symbols", .int d.nSymbols), ("holdout_rel_err_p50", .float d.holdoutRelErrP50),
    ("holdout_rel_err_p90", .float d.holdoutRelErrP90), ("holdout_rel_err_p99", .float d.holdoutRelErrP99),
    ("holdout_coverage", .float d.holdoutCoverage), ("abar_fit", .float d.abarFit), ("abar_holdout", .float d.abarHoldout),
    ("bias_fit", .float d.biasFit), ("bias_holdout", .float d.biasHoldout), ("alpha_at_boundary", .bool d.alphaAtBoundary),
    ("frontier", frontier), ("table_sha256", .str d.tableSha256)]

def fitDiagnosticsToPayload (d : FitDiagnostics PyFloat) : Payload :=
  .dict (fitDiagnosticsItems d (.list (d.frontier.map (fun p => .dict (frontierPointItems p)))))

/-! ## Reading -/

/-- `_as_float`. -/
def asFloat (caller name : String) : Payload → Except PayloadError PyFloat
  | .float f => .ok f
  | .int i => if (PyFloat.ofInt i).isFinite then .ok (.ofInt i) else .error .overflow
  | value => .error (.quoting (caller ++ " carries a mistyped " ++ name ++ ": ") value)

/-- `_as_int`. -/
def asInt (caller name : String) : Payload → Except PayloadError Int
  | .int i => .ok i
  | value => .error (.quoting (caller ++ " carries a mistyped " ++ name ++ ": ") value)

def asBool (caller name : String) : Payload → Except PayloadError Bool
  | .bool b => .ok b
  | value => .error (.quoting (caller ++ " carries a mistyped " ++ name ++ ": ") value)

def asStr (caller name : String) : Payload → Except PayloadError String
  | .str s => .ok s
  | value => .error (.quoting (caller ++ " carries a mistyped " ++ name ++ ": ") value)

/-- `None`, or `_as_float`. -/
def asOptionalFloat (caller name : String) : Payload → Except PayloadError (Option PyFloat)
  | .none => .ok none
  | value => some <$> asFloat caller name value

/-- A text that is a day. -/
def isDay (parse : String → Option Int) (text : String) : Bool := !Py.isBlank text && (parse text).isSome

/-- `_checked_day`. -/
def checkedDay (parse : String → Option Int) (caller name : String) : Payload → Except PayloadError String
  | .str s => do
    raiseIf (isDay parse s = false) (.quoting (caller ++ " carries an invalid " ++ name ++ ": ") (.str s))
    .ok s
  | value => .error (.quoting (caller ++ " carries an invalid " ++ name ++ ": ") value)

/-- The names in order. -/
def sortedNames (names : List String) : List String := names.dedup.insertionSort (· ≤ ·)

/-- An object with just the known keys, as what it holds under each. -/
def object (caller what : String) (known : List String) : Payload → Except PayloadError (String → Payload)
  | .dict items => do
    let keys := items.map Prod.fst
    let unknown := keys.filter (fun key => decide (key ∉ known))
    raiseIf (unknown ≠ []) (.listing (caller ++ " carries unknown keys: ") (sortedNames unknown))
    let missing := known.filter (fun name => decide (name ∉ keys))
    raiseIf (missing ≠ []) (.listing (caller ++ " is missing keys: ") (sortedNames missing))
    .ok (fun name => (items.lookup name).getD .none)
  | value => .error (.quoting (caller ++ " must hold " ++ what ++ ", got ") value)

/-- A `ValueError` raised again under another text. -/
def reraise {α : Type} (text : String) : Except PayloadError α → Except PayloadError α
  | .error .overflow => .error .overflow
  | .error e => .error (.within text e)
  | .ok a => .ok a

/-- `0.0 < alpha <= 1.0`. -/
def inUnit (x : PyFloat) : Bool := PyFloat.lt (.ofRatio false 0 1) x && x.le (.ofRatio false 1 1)

/-- `0.0 <= coverage <= 1.0`. -/
def isPart (x : PyFloat) : Bool := PyFloat.le (.ofRatio false 0 1) x && x.le (.ofRatio false 1 1)

def configFields : List String :=
  ["ewma_alpha", "min_prior_days", "max_gap_days", "auction_fraction_mean", "bias_correction", "volume_rel_err_p90",
    "close_bp_err_p90", "calibrated_through", "fit_start", "holdout_start", "holdout_end"]

def decompositionConfigFromPayload (parse : String → Option Int) (payload : Payload) :
    Except PayloadError (DecompositionConfig PyFloat) := do
  let caller := "decomposition config"
  let get ← object caller "a JSON object" configFields payload
  let c ← reraise (caller ++ " carries mistyped fields: ") (do
    let ewmaAlpha ← asFloat caller "ewma_alpha" (get "ewma_alpha")
    let auctionFractionMean ← asFloat caller "auction_fraction_mean" (get "auction_fraction_mean")
    let biasCorrection ← asFloat caller "bias_correction" (get "bias_correction")
    let volumeRelErrP90 ← asFloat caller "volume_rel_err_p90" (get "volume_rel_err_p90")
    let closeBpErrP90 ← asFloat caller "close_bp_err_p90" (get "close_bp_err_p90")
    let minPriorDays ← asInt caller "min_prior_days" (get "min_prior_days")
    let maxGapDays ← asInt caller "max_gap_days" (get "max_gap_days")
    let calibratedThrough ← checkedDay parse caller "calibrated_through" (get "calibrated_through")
    let fitStart ← checkedDay parse caller "fit_start" (get "fit_start")
    let holdoutStart ← checkedDay parse caller "holdout_start" (get "holdout_start")
    let holdoutEnd ← checkedDay parse caller "holdout_end" (get "holdout_end")
    .ok (DecompositionConfig.mk ewmaAlpha minPriorDays maxGapDays auctionFractionMean biasCorrection volumeRelErrP90
      closeBpErrP90 calibratedThrough fitStart holdoutStart holdoutEnd))
  [("ewma_alpha", c.ewmaAlpha), ("auction_fraction_mean", c.auctionFractionMean), ("bias_correction", c.biasCorrection),
    ("volume_rel_err_p90", c.volumeRelErrP90), ("close_bp_err_p90", c.closeBpErrP90)].forM (fun field =>
      raiseIf (field.2.isFinite = false) (.quoting (caller ++ " carries a non-finite " ++ field.1 ++ ": ") (.float field.2)))
  raiseIf (inUnit c.ewmaAlpha = false) (.quoting (caller ++ " carries an out-of-range ewma_alpha: ") (.float c.ewmaAlpha))
  raiseIf (c.minPriorDays < 1) (.quoting (caller ++ " carries an out-of-range min_prior_days: ") (.int c.minPriorDays))
  raiseIf (c.maxGapDays < 0) (.quoting (caller ++ " carries an out-of-range max_gap_days: ") (.int c.maxGapDays))
  raiseIf (c.biasCorrection.le (.ofRatio false 0 1) = true)
    (.quoting (caller ++ " carries an out-of-range bias_correction: ") (.float c.biasCorrection))
  raiseIf (c.volumeRelErrP90.lt (.ofRatio false 0 1) = true ∨ c.closeBpErrP90.lt (.ofRatio false 0 1) = true)
    (.value (caller ++ " carries a negative error quantile"))
  .ok c

def frontierFields : List String :=
  ["ewma_alpha", "min_prior_days", "max_gap_days", "coverage", "rel_err_p50", "rel_err_p90", "rel_err_p99"]

/-- A quantile of a frontier point that is missing, or a number. -/
def checkQuantile (caller name : String) (coverage : PyFloat) : Option PyFloat → Except PayloadError Unit
  | none => raiseIf (Arith.double.eq coverage (.ofRatio false 0 1) = false)
      (.value (caller ++ " requires " ++ name ++ " for positive coverage"))
  | some value => raiseIf (value.isFinite = false ∨ value.lt (.ofRatio false 0 1) = true)
      (.quoting (caller ++ " carries an invalid " ++ name ++ ": ") (.float value))

/-- `_frontier_point_from_payload`. -/
def frontierPointFromPayload (payload : Payload) : Except PayloadError (FrontierPoint PyFloat) := do
  let caller := "fit diagnostics frontier"
  let get ← object caller "JSON objects" frontierFields payload
  let p ← reraise (caller ++ " carries mistyped fields: ") (do
    let alpha ← asFloat caller "ewma_alpha" (get "ewma_alpha")
    let minPriorDays ← asInt caller "min_prior_days" (get "min_prior_days")
    let maxGapDays ← asInt caller "max_gap_days" (get "max_gap_days")
    let coverage ← asFloat caller "coverage" (get "coverage")
    let relErrP50 ← asOptionalFloat caller "rel_err_p50" (get "rel_err_p50")
    let relErrP90 ← asOptionalFloat caller "rel_err_p90" (get "rel_err_p90")
    let relErrP99 ← asOptionalFloat caller "rel_err_p99" (get "rel_err_p99")
    .ok (FrontierPoint.mk alpha minPriorDays maxGapDays coverage relErrP50 relErrP90 relErrP99))
  raiseIf ((!p.ewmaAlpha.isFinite || !inUnit p.ewmaAlpha) = true)
    (.quoting (caller ++ " carries an out-of-range ewma_alpha: ") (.float p.ewmaAlpha))
  raiseIf (p.minPriorDays < 1 ∨ p.maxGapDays < 0)
    (.quoting (caller ++ " carries an out-of-range structure: ") (.list [.int p.minPriorDays, .int p.maxGapDays]))
  raiseIf ((!p.coverage.isFinite || !isPart p.coverage) = true)
    (.quoting (caller ++ " carries an out-of-range coverage: ") (.float p.coverage))
  checkQuantile caller "rel_err_p50" p.coverage p.relErrP50
  checkQuantile caller "rel_err_p90" p.coverage p.relErrP90
  checkQuantile caller "rel_err_p99" p.coverage p.relErrP99
  .ok p

def diagnosticsFields : List String :=
  ["fit_start", "fit_end", "holdout_start", "holdout_end", "n_fit_rows", "n_holdout_rows", "n_symbols",
    "holdout_rel_err_p50", "holdout_rel_err_p90", "holdout_rel_err_p99", "holdout_coverage", "abar_fit", "abar_holdout",
    "bias_fit", "bias_holdout", "alpha_at_boundary", "frontier", "table_sha256"]

/-- The points of a frontier, which must not be empty. -/
def frontierFromPayload (caller : String) : Payload → Except PayloadError (List (FrontierPoint PyFloat))
  | .list (x :: xs) => (x :: xs).mapM frontierPointFromPayload
  | _ => .error (.value (caller ++ " carries an empty frontier"))

def fitDiagnosticsFromPayload (parse : String → Option Int) (payload : Payload) :
    Except PayloadError (FitDiagnostics PyFloat) := do
  let caller := "fit diagnostics"
  let get ← object caller "a JSON object" diagnosticsFields payload
  let (d, counts) ← reraise (caller ++ " carries mistyped fields: ") (do
    let p50 ← asFloat caller "holdout_rel_err_p50" (get "holdout_rel_err_p50")
    let p90 ← asFloat caller "holdout_rel_err_p90" (get "holdout_rel_err_p90")
    let p99 ← asFloat caller "holdout_rel_err_p99" (get "holdout_rel_err_p99")
    let coverage ← asFloat caller "holdout_coverage" (get "holdout_coverage")
    let abarFit ← asFloat caller "abar_fit" (get "abar_fit")
    let abarHoldout ← asFloat caller "abar_holdout" (get "abar_holdout")
    let biasFit ← asFloat caller "bias_fit" (get "bias_fit")
    let biasHoldout ← asFloat caller "bias_holdout" (get "bias_holdout")
    let nFitRows ← asInt caller "n_fit_rows" (get "n_fit_rows")
    let nHoldoutRows ← asInt caller "n_holdout_rows" (get "n_holdout_rows")
    let nSymbols ← asInt caller "n_symbols" (get "n_symbols")
    let fitStart ← checkedDay parse caller "fit_start" (get "fit_start")
    let fitEnd ← checkedDay parse caller "fit_end" (get "fit_end")
    let holdoutStart ← checkedDay parse caller "holdout_start" (get "holdout_start")
    let holdoutEnd ← checkedDay parse caller "holdout_end" (get "holdout_end")
    let alphaAtBoundary ← asBool caller "alpha_at_boundary" (get "alpha_at_boundary")
    let tableSha256 ← asStr caller "table_sha256" (get "table_sha256")
    let frontier ← frontierFromPayload caller (get "frontier")
    .ok (FitDiagnostics.mk fitStart fitEnd holdoutStart holdoutEnd nFitRows.toNat nHoldoutRows.toNat nSymbols.toNat p50 p90
      p99 coverage abarFit abarHoldout biasFit biasHoldout alphaAtBoundary frontier tableSha256,
      [("n_fit_rows", nFitRows), ("n_holdout_rows", nHoldoutRows), ("n_symbols", nSymbols)]))
  [("holdout_rel_err_p50", d.holdoutRelErrP50), ("holdout_rel_err_p90", d.holdoutRelErrP90),
    ("holdout_rel_err_p99", d.holdoutRelErrP99)].forM (fun field =>
      raiseIf (field.2.isFinite = false ∨ field.2.lt (.ofRatio false 0 1) = true)
        (.quoting (caller ++ " carries a non-finite " ++ field.1 ++ ": ") (.float field.2)))
  raiseIf ((!d.holdoutCoverage.isFinite || !isPart d.holdoutCoverage) = true)
    (.quoting (caller ++ " carries an out-of-range holdout_coverage: ") (.float d.holdoutCoverage))
  [("abar_fit", d.abarFit), ("abar_holdout", d.abarHoldout)].forM (fun field =>
    raiseIf (field.2.isFinite = false) (.quoting (caller ++ " carries a non-finite " ++ field.1 ++ ": ") (.float field.2)))
  [("bias_fit", d.biasFit), ("bias_holdout", d.biasHoldout)].forM (fun field =>
    raiseIf (field.2.isFinite = false ∨ field.2.le (.ofRatio false 0 1) = true)
      (.quoting (caller ++ " carries an out-of-range " ++ field.1 ++ ": ") (.float field.2)))
  counts.forM (fun field =>
    raiseIf (field.2 < 0) (.quoting (caller ++ " carries an out-of-range " ++ field.1 ++ ": ") (.int field.2)))
  .ok d

/-! ## Saving and loading -/

mutual

/-- What is loaded of what is written with sorted keys; none where a number is not finite, of which no text is written. -/
def reloaded : Payload → Option Payload
  | .float f => if f.isFinite then some (.float f) else none
  | .list xs => (reloadedList xs).map .list
  | .dict items => (reloadedItems items).map (fun items => .dict (items.insertionSort (fun a b => a.1 ≤ b.1)))
  | value => some value

def reloadedList : List Payload → Option (List Payload)
  | [] => some []
  | x :: xs => (reloaded x).bind (fun y => (reloadedList xs).map (fun ys => y :: ys))

def reloadedItems : List (String × Payload) → Option (List (String × Payload))
  | [] => some []
  | (name, x) :: items => (reloaded x).bind (fun y => (reloadedItems items).map (fun ys => (name, y) :: ys))

end

/-- A payload that its own reader accepts, as a file holds it. -/
def saved {α : Type} (fromPayload : Payload → Except PayloadError α) (payload : Payload) : Except PayloadError Payload := do
  let _ ← fromPayload payload
  match reloaded payload with
  | some p => .ok p
  | none => .error (.value "Out of range float values are not JSON compliant")

def saveDecompositionConfig (parse : String → Option Int) (c : DecompositionConfig PyFloat) : Except PayloadError Payload :=
  saved (decompositionConfigFromPayload parse) (decompositionConfigToPayload c)

/-- Of a file that exists and holds a payload. -/
def loadDecompositionConfig (parse : String → Option Int) (payload : Payload) :
    Except PayloadError (DecompositionConfig PyFloat) :=
  reraise "decomposition config is malformed: " (decompositionConfigFromPayload parse payload)

def saveFitDiagnostics (parse : String → Option Int) (d : FitDiagnostics PyFloat) : Except PayloadError Payload :=
  saved (fitDiagnosticsFromPayload parse) (fitDiagnosticsToPayload d)

def loadFitDiagnostics (parse : String → Option Int) (payload : Payload) : Except PayloadError (FitDiagnostics PyFloat) :=
  reraise "fit diagnostics is malformed: " (fitDiagnosticsFromPayload parse payload)

end Nxt
