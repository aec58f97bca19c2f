import KClosingAlpha.Lib.Exc
import KClosingAlpha.Py.Object
/-!
# RetrainGate — the weekly retrain promotion gate (`ml/retrain_gate.py`, bundle checks of `ml/topk_contract.py`)

Bundles and reports are whatever objects they hold: every conversion the gate makes of them may raise.  The texts of
values, the parsers of the standard library, pandas and the models are parameters.  The criterion on the decision-time
report is evaluated before the gate's own checks, and in advisory mode only its findings are recorded: where its
evidence can be read, the gate ends exactly as it does with the criterion off.
-/
namespace Ml.RetrainGate

open Py

inductive PitGateMode where
  | off
  | advisory
  | enforce
  deriving DecidableEq

structure PitGateConfig where
  mode : PitGateMode := .off
  maxReportAgeDays : Int := 14
  minPitNativeMeanNetBp : PyFloat := PyFloat.ofInt 0
  minPitRankIc : PyFloat := PyFloat.ofInt 0
  maxHaircutBp : Option PyFloat := none

inductive PitStatus where
  | off
  | missing
  | malformed
  | stale
  | mismatch
  | insufficient
  | pass
  | fail
  deriving DecidableEq

def PitStatus.text : PitStatus → String
  | off => "OFF"
  | missing => "MISSING"
  | malformed => "MALFORMED"
  | stale => "STALE"
  | mismatch => "MISMATCH"
  | insufficient => "INSUFFICIENT"
  | pass => "PASS"
  | fail => "FAIL"

inductive PitArm where
  | arm1
  | arm2
  | none
  deriving DecidableEq

structure PromotionVerdict where
  promote : Bool
  reasons : List String
  agreement : Option PyFloat
  pitStatus : PitStatus := .off
  pitReasons : List String := []
  pitArm : PitArm := .none
  deriving DecidableEq

/-- A `datetime`: the ordinal of its date and whether it is aware. -/
structure Stamp where
  date : Int
  aware : Bool

/-- The texts of objects and the parsers of the standard library. -/
structure Runtime where
  str : Object → String
  repr : Object → String
  /-- `repr(now)`. -/
  reprStamp : Stamp → String
  /-- `f"{x:.nf}"`. -/
  fixed : Nat → PyFloat → String
  /-- `float(text)`. -/
  floatOfStr : String → Except Error PyFloat
  /-- `datetime.fromisoformat`, which raises nothing but `ValueError` on a text. -/
  fromIsoformat : String → Option Stamp
  /-- `sorted(keys)`. -/
  sorted : List Object → Except Error (List Object)


/-! ## The bundle checks -/

/-- A universe screen; a tick cost of `None` screens nothing. -/
structure UniverseSpec where
  chgMin : PyFloat
  chgMax : PyFloat
  minTradeValue100m : PyFloat
  minMarketCap100m : PyFloat
  excludeCeiling : Bool := true
  maxTickCostBp : Option PyFloat := none
  excludeNonScreenableClass : Bool := false

/-- `dataclasses.asdict(spec)`. -/
def UniverseSpec.asdict (spec : UniverseSpec) : Dict Object :=
  [("chg_min", .float spec.chgMin), ("chg_max", .float spec.chgMax),
   ("min_trade_value_100m", .float spec.minTradeValue100m), ("min_market_cap_100m", .float spec.minMarketCap100m),
   ("exclude_ceiling", .bool spec.excludeCeiling), ("max_tick_cost_bp", spec.maxTickCostBp.elim .none .float),
   ("exclude_non_screenable_class", .bool spec.excludeNonScreenableClass)]

/-- The production screen, and the screen of the defaults. -/
structure Strategy where
  universeSpec : UniverseSpec
  defaults : UniverseSpec

def topkFeatureContractVersion : String := "1"

def legacyFeatureContractVersion : String := "1"

section bundles

variable (rt : Runtime) (strategy : Strategy)

def bundleFeatureContractVersion (bundle : Dict Object) : Except Error String :=
  let invalid (value : Object) : Error :=
    .value s!"bundle 'feature_contract_version' must be a non-empty str, got {rt.repr value}"
  match bundle.lookup "feature_contract_version" with
  | none => .ok legacyFeatureContractVersion
  | some (.str s) => if s = "" then .error (invalid (.str s)) else .ok s
  | some value => .error (invalid value)

def resolvedContract (bundle : Dict Object) : Option String :=
  match bundleFeatureContractVersion rt bundle with
  | .ok version => some version
  | .error _ => none

def featureContractIssue (bundle : Dict Object) : Option String :=
  let legacy := rt.repr (.str legacyFeatureContractVersion)
  let code := rt.repr (.str topkFeatureContractVersion)
  match bundleFeatureContractVersion rt bundle with
  | .error (.value msg) => some msg
  | .error _ => none
  | .ok resolved =>
    if !bundle.has "feature_contract_version" then
      if topkFeatureContractVersion = legacyFeatureContractVersion then none
      else some s!"bundle feature contract version missing (legacy baseline {legacy}) != code version {code}"
    else if resolved ≠ topkFeatureContractVersion then
      some s!"bundle feature contract version {rt.repr (.str resolved)} != code version {code}"
    else none

/-- `_screen_value`. -/
def screenValue : Object → Except Error Object
  | .bool b => .ok (.bool b)
  | .none => .ok .none
  | value => Object.float <$> value.toFloat rt.floatOfStr

/-- The certified universe of a bundle over the fields of the live screen, as the bundle has them. -/
def screened (bundle : Dict Object) : Except Error (Dict Object) :=
  match bundle.lookup "select_universe" with
  | some (.dict items) => do
    let live := strategy.universeSpec.asdict
    let unknown ← rt.sorted ((items.map Prod.fst).filter (fun k => !live.any (fun p => k.eq (.str p.1))))
    if unknown ≠ [] then
      .error (.value s!"bundle select_universe carries fields unknown to live screen: {rt.repr (.list unknown)}")
    else
      .ok (live.map (fun p =>
        (p.1, (Object.lookup items (.str p.1)).getD (strategy.defaults.asdict.getD p.1 .none))))
  | value => .error (.value s!"bundle select_universe is not certified: got {rt.repr (value.getD .none)}")

def certifiedScreen (bundle : Dict Object) : Except Error (Dict Object) := do
  let certified ← screened rt strategy bundle
  certified.mapM (fun p => Prod.mk p.1 <$> screenValue rt p.2)

/-- The strategies whose bundles may serve a class-filtered screen although certified without it. -/
def grandfatheredStrategyIds : List Object := [.str "KCA-TOPK-COSTAWARE-001"]

def isTrue : Object → Bool
  | .bool b => b
  | _ => false

def isFalse : Object → Bool
  | .bool b => !b
  | _ => false

/-- Whether only the class filter differs, off in a grandfathered bundle and on in the live screen. -/
def grandfathered (bundle : Dict Object) (certified live : Dict Object) (differing : List String) : Except Error Bool :=
  if differing = ["exclude_non_screenable_class"] then do
    let listed ← Object.isIn grandfatheredStrategyIds (bundle.getD "strategy_id" .none)
    if !listed then .ok false
    else do
      let was ← screenValue rt (certified.getD "exclude_non_screenable_class" .none)
      if !isFalse was then .ok false
      else isTrue <$> screenValue rt (live.getD "exclude_non_screenable_class" .none)
  else .ok false

/-- A dictionary of the values of some fields, for a message. -/
def valuesOf (d : Dict Object) (names : List String) : Object :=
  .dict (names.map (fun n => (.str n, d.getD n .none)))

def assertBundleScreenParity (bundle : Dict Object) : Except Error Unit := do
  let certified ← screened rt strategy bundle
  let live := strategy.universeSpec.asdict
  let differing ← live.filterM (fun p => do
    let was ← screenValue rt (certified.getD p.1 .none)
    let now ← screenValue rt p.2
    pure (!was.eq now))
  let names := differing.map Prod.fst
  let passes ← grandfathered rt bundle certified live names
  if passes ∨ names = [] then .ok ()
  else
    .error (.value (s!"bundle select_universe differs from live screen in fields {rt.repr (.list (names.map .str))}: " ++
      s!"bundle={rt.repr (valuesOf certified names)} live={rt.repr (valuesOf live names)}"))

end bundles

/-! ## The criterion on the decision-time report -/

section criterion

variable (rt : Runtime)

def isReport : Object → Bool
  | .inst cls _ => decide (cls = "PitHaircutReport")
  | _ => false

/-- `s or t`. -/
def orElse (s t : String) : String := if s = "" then t else s

def fallbackArm (reportArm1 : Object) : PitArm := if reportArm1.isNone then .none else .arm1

/-- `isinstance(recon_report, PitHaircutReport) and str(recon_report.status) == "OK"`. -/
def usable (reconReport : Object) : Except Error Bool :=
  if isReport reconReport then (fun status => decide (rt.str status = "OK")) <$> reconReport.attr "status"
  else .ok false

/-- The report to score, the note on the selection and the arm. -/
def selectPitReport (reportArm1 reconReport : Object) (reconAdopted : Bool) (reconDetail : String) :
    Except Error (Object × String × PitArm) :=
  let detail := strip reconDetail
  let fallback (why : String) : Except Error (Object × String × PitArm) :=
    .ok (reportArm1, s!"pit report arm-1 fallback ({why})", fallbackArm reportArm1)
  if reconAdopted then do
    let ok ← usable rt reconReport
    if ok then
      .ok (reconReport, "pit report arm-2 adopted for scoring" ++ (if detail = "" then "" else s!": {detail}"), .arm2)
    else fallback (orElse detail "arm-2 report missing or unusable")
  else if !reconReport.isNone ∨ detail ≠ "" then fallback (orElse detail "reconstruction verdict not ADOPT")
  else .ok (reportArm1, "", fallbackArm reportArm1)

/-- A field's name when it does not match. -/
def flagUnless (same : Bool) (name : String) : List String := if same then [] else [name]

/-- `dict(candidate[key]) != dict(report.key)`, when the candidate has the key. -/
def mappingMismatch (candidate : Dict Object) (report : Object) (key : String) : Except Error (List String) :=
  match candidate.lookup key with
  | none => .ok [key ++ " (missing from candidate)"]
  | some value => do
    let certified ← value.toDict
    let field ← report.attr key
    let reported ← field.toDict
    .ok (flagUnless ((Object.dict certified).eq (.dict reported)) key)

def seedsMismatch (candidateSeeds reportSeeds : Option (List Object)) : List String :=
  match candidateSeeds, reportSeeds with
  | none, _ => ["seeds (missing from candidate)"]
  | some _, none => ["seeds"]
  | some xs, some ys => flagUnless (Object.eqList xs ys) "seeds"

/-- The identity fields in which the candidate differs from the report. -/
def identityMismatch (candidate : Dict Object) (report : Object) : Except Error (List String) := do
  let strategyId ← report.attr "strategy_id"
  let topK ← report.attr "top_k"
  let screen ← mappingMismatch candidate report "select_universe"
  let version ← report.attr "feature_contract_version"
  let params ← mappingMismatch candidate report "model_params"
  let seeds ← report.attr "seeds"
  let contract := (resolvedContract rt candidate).elim Object.none Object.str
  .ok (flagUnless ((candidate.getD "strategy_id" .none).eq strategyId) "strategy_id" ++
    flagUnless ((candidate.getD "top_k" .none).eq topK) "top_k" ++ screen ++
    flagUnless (contract.eq version) "feature contract version" ++ params ++
    seedsMismatch (candidate.getD "seeds" .none).asSequence seeds.asSequence)

/-- `float(report.name.get("pit_native", nan))`. -/
def pitNative (report : Object) (name : String) : Except Error PyFloat := do
  let arms ← report.attr name
  match arms with
  | .dict items => ((Object.lookup items (.str "pit_native")).getD (.float .nan)).toFloat rt.floatOfStr
  | _ => .error (.attribute "get")

/-- `float(report.haircut.delta)`. -/
def haircutDelta (report : Object) : Except Error PyFloat := do
  let haircut ← report.attr "haircut"
  let delta ← haircut.attr "delta"
  delta.toFloat rt.floatOfStr

/-- The floors and the ceiling the evidence violates. -/
def thresholdFailures (config : PitGateConfig) (report : Object) : Except Error (List String) := do
  let mean ← pitNative rt report "mean_net_bp"
  let ic ← pitNative rt report "rank_ic_mean"
  let floors :=
    flagUnless (mean.isFinite && !mean.lt config.minPitNativeMeanNetBp)
      s!"pit_native mean_net_bp {rt.fixed 2 mean} below floor {rt.fixed 2 config.minPitNativeMeanNetBp}" ++
    flagUnless (ic.isFinite && !ic.lt config.minPitRankIc)
      s!"pit_native rank_ic {rt.fixed 4 ic} below floor {rt.fixed 4 config.minPitRankIc}"
  match config.maxHaircutBp with
  | none => .ok floors
  | some ceiling => do
    let haircut ← haircutDelta rt report
    .ok (floors ++ flagUnless (haircut.isFinite && !ceiling.lt haircut)
      s!"pit haircut {rt.fixed 2 haircut}bp above ceiling {rt.fixed 2 ceiling}bp")

/-- The verdict on a report that is fresh. -/
def scoreFresh (config : PitGateConfig) (candidate : Dict Object) (report : Object) :
    Except Error (PitStatus × List String) := do
  let mismatch ← identityMismatch rt candidate report
  if mismatch ≠ [] then
    .ok (.mismatch, mismatch.map (fun name => s!"identity field {name} does not match the pit_haircut report"))
  else do
    let status ← report.attr "status"
    if rt.str status ≠ "OK" then
      .ok (.insufficient, [s!"pit_haircut report status is {rt.str status}, no usable paired evidence"])
    else do
      let failures ← thresholdFailures rt config report
      .ok (if failures = [] then (.pass, []) else (.fail, failures))

def evaluateSelectedPitGate (config : PitGateConfig) (candidate : Dict Object) (now : Stamp) (report : Object) :
    Except Error (PitStatus × List String) :=
  if config.mode = .off then .ok (.off, [])
  else if !now.aware then .error (.value s!"pit gate now must be timezone-aware, got {rt.reprStamp now}")
  else if report.isNone then .ok (.missing, ["no pit_haircut report available for the candidate configuration"])
  else do
    let generatedAt ← report.attr "generated_at"
    match rt.fromIsoformat (rt.str generatedAt) with
    | none => .ok (.malformed, [s!"pit_haircut report generated_at {rt.repr generatedAt} is not ISO-8601"])
    | some generated =>
      if !generated.aware then
        .ok (.malformed, [s!"pit_haircut report generated_at {rt.repr generatedAt} is not timezone-aware"])
      else
        let ageDays := now.date - generated.date
        if config.maxReportAgeDays < ageDays then
          .ok (.stale, [s!"pit_haircut report is {ageDays} calendar days old (max {config.maxReportAgeDays})"])
        else scoreFresh rt config candidate report

end criterion

/-! ## The gate -/

/-- The recent selection pool as pandas and the models see it. -/
structure EvalFrame (D : Type) where
  columns : List Object
  empty : Bool
  /-- `eval_frame[date_col].to_numpy()`. -/
  column : String → Except Error (List D)
  /-- `np.asarray(model.predict(eval_frame[feature_cols]), dtype=np.float64)`. -/
  predict : Object → List Object → Except Error (List PyFloat)
  /-- Whether the predictions of an eligible day have no spread. -/
  constantWithinDay : List D → List PyFloat → Except Error Bool
  meanDailyRankAgreement : List D → List PyFloat → List PyFloat → Except Error (Option PyFloat)

/-- The arguments of the gate, the mode apart. -/
structure Inputs (D : Type) where
  candidate : Dict Object
  current : Option (Dict Object)
  evalFrame : EvalFrame D
  minAgreement : PyFloat
  dateCol : String := "date"
  pitReport : Object := .none
  pitGate : PitGateConfig
  pitReconReport : Object := .none
  pitReconAdopted : Bool := false
  pitReconDetail : String := ""
  now : Option Stamp := none

/-- What the gate's own checks come to: the arguments of the inner `_verdict`. -/
structure Decision where
  promote : Bool
  reasons : List String
  agreement : Option PyFloat

section gate

variable {D : Type} (rt : Runtime) (strategy : Strategy) (today : Int)

/-- The clock: `Asia/Seoul` now flagUnless one is given. -/
def Inputs.effNow (x : Inputs D) : Stamp := x.now.getD ⟨today, true⟩

def evaluatePitGate (mode : PitGateMode) (x : Inputs D) : Except Error (PitStatus × List String × PitArm) := do
  let (selected, note, arm) ← selectPitReport rt x.pitReport x.pitReconReport x.pitReconAdopted x.pitReconDetail
  let (status, reasons) ← evaluateSelectedPitGate rt { x.pitGate with mode } x.candidate (x.effNow today) selected
  .ok (status, if note ≠ "" ∧ status ≠ .off then note :: reasons else reasons, arm)

/-- What is wrong with the candidate bundle or the frame. -/
def bundleIssues (x : Inputs D) (featureCols : List Object) : Except Error (List String) := do
  let parity ← match assertBundleScreenParity rt strategy x.candidate with
    | .ok () => .ok []
    | .error (.value msg) => .ok ["screen parity: " ++ msg]
    | .error e => .error e
  let missing ← featureCols.filterM (fun c => (fun here => !here) <$> Object.isIn x.evalFrame.columns c)
  .ok (parity ++ flagUnless (!featureCols.isEmpty) "candidate feature_cols is empty" ++
    flagUnless missing.isEmpty s!"gate eval frame is missing features {rt.repr (.list missing)}" ++
    flagUnless (!x.evalFrame.empty) "gate eval frame is empty" ++
    (featureContractIssue rt x.candidate).toList.map (fun issue => s!"candidate feature contract: {issue}"))

/-- Why the candidate is no successor of the live bundle. -/
def successionIssue (current candidate : Dict Object) : Except Error (Option String) :=
  let was := rt.str (current.getD "strategy_id" .none)
  let now := rt.str (candidate.getD "strategy_id" .none)
  let changed := s!"strategy or screen changed vs live bundle ({was} -> {now}); " ++
    "certify manually and rerun with --skip-promotion-gate"
  if !(current.getD "strategy_id" .none).eq (candidate.getD "strategy_id" .none) then .ok (some changed)
  else
    match (do
      let currentScreen ← certifiedScreen rt strategy current
      let candidateScreen ← certifiedScreen rt strategy candidate
      pure (Object.eqAttrs currentScreen candidateScreen)) with
    | .error (.value msg) => .ok (some s!"{changed}: {msg}")
    | .error e => .error e
    | .ok same => .ok (if same then none else some changed)

/-- The rank agreement of the candidate with the live bundle, and the reasons it gives. -/
def agreementDecision (x : Inputs D) (current : Dict Object) (featureCols : List Object) (dates : List D)
    (candidatePred : List PyFloat) (reasons : List String) : Except Error Decision := do
  let currentCols ← (current.getD "feature_cols" (.list [])).iter
  if !Object.eqList currentCols featureCols ∨ resolvedContract rt current ≠ resolvedContract rt x.candidate then
    .ok ⟨false, reasons ++ ["feature contract changed vs live bundle; " ++
      "certify manually and rerun with --skip-promotion-gate"], none⟩
  else do
    let model ← (current.lookup "return_model").elim (.error (.key "return_model")) .ok
    let currentPred ← x.evalFrame.predict model featureCols
    let agreement ← x.evalFrame.meanDailyRankAgreement dates candidatePred currentPred
    let low := match agreement with
      | none => ["no eval day has at least 4 names to measure agreement"]
      | some a =>
        flagUnless (!a.lt x.minAgreement) s!"prediction agreement {rt.fixed 3 a} below {rt.fixed 3 x.minAgreement}"
    .ok ⟨(reasons ++ low).isEmpty, reasons ++ low, agreement⟩

/-- The candidate's predictions, and their agreement with the live bundle's. -/
def predictionDecision (x : Inputs D) (featureCols : List Object) : Except Error Decision := do
  let dates ← x.evalFrame.column x.dateCol
  let model ← (x.candidate.lookup "return_model").elim (.error (.key "return_model")) .ok
  let candidatePred ← x.evalFrame.predict model featureCols
  let reasons ←
    if !candidatePred.all PyFloat.isFinite then .ok ["candidate predictions contain non-finite values"]
    else (fun bad => flagUnless (!bad) "candidate predictions are constant within an eval day") <$>
      x.evalFrame.constantWithinDay dates candidatePred
  match x.current with
  | none => .ok ⟨reasons.isEmpty, reasons, none⟩
  | some current => agreementDecision rt x current featureCols dates candidatePred reasons

/-- The gate's own checks, in their order. -/
def decision (x : Inputs D) : Except Error Decision := do
  let featureCols ← (x.candidate.getD "feature_cols" (.list [])).iter
  let issues ← bundleIssues rt strategy x featureCols
  if issues ≠ [] then .ok ⟨false, issues, none⟩
  else
    match x.current with
    | none => predictionDecision rt x featureCols
    | some current => do
      let issue ← successionIssue rt strategy current x.candidate
      match issue with
      | some reason => .ok ⟨false, [reason], none⟩
      | none => predictionDecision rt x featureCols

/-- The inner `_verdict`. -/
def verdict (mode : PitGateMode) (pitStatus : PitStatus) (pitReasons : List String) (pitArm : PitArm) (d : Decision) :
    PromotionVerdict :=
  if mode = .enforce ∧ pitStatus ≠ .pass then
    { promote := false
      reasons := d.reasons ++ (if pitReasons = [] then [s!"pit gate {pitStatus.text}"]
        else pitReasons.map (fun reason => s!"pit gate {pitStatus.text}: {reason}"))
      agreement := d.agreement, pitStatus, pitReasons, pitArm }
  else { promote := d.promote, reasons := d.reasons, agreement := d.agreement, pitStatus, pitReasons, pitArm }

def evaluateRetrainPromotion (mode : PitGateMode) (x : Inputs D) : Except Error PromotionVerdict := do
  let (pitStatus, pitReasons, pitArm) ← evaluatePitGate rt today mode x
  let d ← decision rt strategy x
  .ok (verdict mode pitStatus pitReasons pitArm d)

end gate

end Ml.RetrainGate
