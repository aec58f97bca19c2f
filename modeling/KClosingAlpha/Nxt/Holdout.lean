import KClosingAlpha.Lib.StableSort
import KClosingAlpha.Nxt.Decomposition
/-!
# Holdout — what a fit learns from, and what production predicts

The parameters of a fit are functions of its fit rows alone (`fitDecomposition_eq_of_sameFitRows`), and the predictor
of production returns for a row the raw prediction that the calibration counts, times the bias and within `(0, 1]`
(`predictShare_eq_gated`).  The rows that decide the split are those that are kept: a row that is dropped takes its date
along.
-/
set_option linter.unusedSectionVars false

namespace Nxt

/-- Exact arithmetic. -/
def Arith.exact : Arith (Flt ℚ) where
  ratio n d := .fin ((n : ℚ) / d)
  add := Flt.add
  sub := Flt.sub
  mul := Flt.mul
  div := Flt.div
  abs := Flt.abs
  lt := Flt.lt
  le := Flt.le
  isFinite := Flt.isFinite
  inf := .inf false
  nan := .nan
  ceil
    | .fin x => ⌈x⌉
    | _ => 0

namespace Arith

@[simp] theorem exact_zero : exact.zero = .fin 0 := by simp [zero, exact]
@[simp] theorem exact_one : exact.one = .fin 1 := by simp [one, exact]
@[simp] theorem exact_mul (x y : Flt ℚ) : exact.mul x y = x.mul y := rfl
@[simp] theorem exact_lt (x y : Flt ℚ) : exact.lt x y = x.lt y := rfl
@[simp] theorem exact_le (x y : Flt ℚ) : exact.le x y = x.le y := rfl
@[simp] theorem exact_isFinite (x : Flt ℚ) : exact.isFinite x = x.isFinite := rfl
@[simp] theorem exact_inf : exact.inf = .inf false := rfl

end Arith

section

variable {F : Type} [DecidableEq F] (A : Arith F) (np : Numpy F)

/-- The rows of a table that are kept. -/
def keptOf (args : FitArgs F) (t : List (CalRow F)) : List (KeptRow F) := t.filterMap (CalRow.kept A args.identityTolerance)

/-- The held out dates of a table and its fit dates. -/
def splitOf (args : FitArgs F) (t : List (CalRow F)) : List String × List String :=
  splitDates A args.holdoutFraction (datesOf (keptOf A args t))

def fitRowsOf (args : FitArgs F) (t : List (CalRow F)) : List (KeptRow F) := fitRows (splitOf A args t).1 (keptOf A args t)

def holdoutRowsOf (args : FitArgs F) (t : List (CalRow F)) : List (KeptRow F) :=
  holdoutRows (splitOf A args t).1 (keptOf A args t)

/-- Two tables with the same dates among their kept rows, and the same kept rows on the fit dates. -/
structure SameFitRows (args : FitArgs F) (t t' : List (CalRow F)) : Prop where
  dates : datesOf (keptOf A args t') = datesOf (keptOf A args t)
  rows : fitRows (splitOf A args t).1 (keptOf A args t') = fitRowsOf A args t

/-- The parameters of a config that are chosen: coefficient, structure, mean auction fraction and bias. -/
def DecompositionConfig.parameters (c : DecompositionConfig F) : F × Int × Int × F × F :=
  (c.ewmaAlpha, c.minPriorDays, c.maxGapDays, c.auctionFractionMean, c.biasCorrection)

/-- The parameters of a choice. -/
def Chosen.parameters (c : Chosen F) : F × Int × Int × F × F :=
  (c.best.ewmaAlpha, c.best.minPriorDays, c.best.maxGapDays, c.abar, c.best.bias)

/-- The raw prediction of a row times the bias, where that is within `(0, 1]`. -/
def gated (history : String → List (HistoryRow F)) (c : DecompositionConfig F) (row : ScopeRow F) : Option F :=
  (predictRaw A (history row.symbol) row.ordinal c.minPriorDays c.maxGapDays c.ewmaAlpha).bind (fun raw =>
    if A.inUnit (A.mul raw c.biasCorrection) then some (A.mul raw c.biasCorrection) else none)

/-- A series, its labels parsed and in the order of their days. -/
def parsedSeries (parse : String → Option Int) (series : List (String × F)) : List (Int × F) :=
  (series.filterMap (fun x => (parse x.1).map (fun day => (day, x.2)))).insertionSort (fun a b => a.1 ≤ b.1)

/-- The proxies of a history. -/
def proxiesOf (priors : List (HistoryRow F)) : List (Int × F) := priors.map (fun row => (row.ordinal, row.proxy))

/-! ## What a returned fit was made of -/

variable {A np} {args : FitArgs F} {t : List (CalRow F)} {f : DecompositionFit F}

/-- A fit that measures a choice on the holdout. -/
structure Measured (A : Arith F) (np : Numpy F) (h d : List String) (kept : List (KeptRow F)) (c : Chosen F)
    (f : DecompositionFit F) : Prop where
  parameters : f.config.parameters = c.parameters
  frontier : f.diagnostics.frontier = c.scored.map (frontierPoint A)
  scores : holdoutScores A c.abar c.best (holdoutRows h kept) ≠ []
  coverage : f.diagnostics.holdoutCoverage =
    A.ratio (holdoutScores A c.abar c.best (holdoutRows h kept)).length (holdoutRows h kept).length
  quantiles : [f.diagnostics.holdoutRelErrP50, f.diagnostics.holdoutRelErrP90, f.diagnostics.holdoutRelErrP99] =
    (quantiles A).map (fun q => np.quantile q ((holdoutScores A c.abar c.best (holdoutRows h kept)).map Prod.fst))
  volumeRelErrP90 : f.config.volumeRelErrP90 = f.diagnostics.holdoutRelErrP90
  abarFit : f.diagnostics.abarFit = c.abar
  biasFit : f.diagnostics.biasFit = c.best.bias
  finite : [f.diagnostics.holdoutRelErrP50, f.diagnostics.holdoutRelErrP90, f.diagnostics.holdoutRelErrP99, c.abar,
    f.diagnostics.abarHoldout, c.best.bias, f.diagnostics.biasHoldout].all A.isFinite = true
  biasHoldout : A.le f.diagnostics.biasHoldout A.zero = false
  closes : closeErrors A (holdoutRows h kept) ≠ []
  closeBpErrP90 : f.config.closeBpErrP90 = np.quantile (A.ratio 9 10) (closeErrors A (holdoutRows h kept)) ∧
    A.isFinite f.config.closeBpErrP90 = true
  days : [f.config.calibratedThrough, f.config.fitStart, f.config.holdoutStart, f.config.holdoutEnd] =
      [d.getLastD "", d.headD "", h.headD "", h.getLastD ""] ∧
    [f.diagnostics.fitStart, f.diagnostics.fitEnd, f.diagnostics.holdoutStart, f.diagnostics.holdoutEnd] =
      [d.headD "", d.getLastD "", h.headD "", h.getLastD ""]

theorem measureOnHoldout_ok {h d : List String} {kept : List (KeptRow F)} {c : Chosen F}
    (hf : measureOnHoldout A np args h d kept c = .ok f) : Measured A np h d kept c f := by
  unfold measureOnHoldout at hf
  simp only [Exc.bind_eq_ok, Exc.raiseIf_eq_ok, Except.ok.injEq] at hf
  obtain ⟨_, hscores, _, hfinite, _, hcloses, _, hclose, rfl⟩ := hf
  rw [not_or, not_not, Bool.not_eq_true] at hfinite
  have hne : holdoutRows h kept ≠ [] := by
    intro hnil
    rw [hnil] at hscores
    exact hscores rfl
  exact
    { parameters := rfl
      frontier := rfl
      scores := hscores
      coverage := by
        simp only [List.length_map]
        rw [if_neg hne]
      quantiles := rfl
      volumeRelErrP90 := rfl
      abarFit := rfl
      biasFit := rfl
      finite := hfinite.1
      biasHoldout := hfinite.2
      closes := hcloses
      closeBpErrP90 := ⟨rfl, by simpa using hclose⟩
      days := ⟨rfl, rfl⟩ }

theorem chooseOnFit_ok {d : List String} {fit : List (KeptRow F)} {c : Chosen F}
    (hc : chooseOnFit A np args d fit = .ok c) :
    2 ≤ d.length ∧ c.abar = abarOf A np fit ∧ c.scored = scoredOf A np args d fit ∧ c.best ∈ c.scored ∧
      A.le c.best.relErrP90 args.maxSelectionRelErrP90 = true := by
  unfold chooseOnFit at hc
  simp only [Exc.bind_eq_ok, Exc.raiseIf_eq_ok] at hc
  obtain ⟨_, hfew, hc⟩ := hc
  rw [not_or, not_lt] at hfew
  split at hc
  · cases hc
  · rename_i best hbest
    cases hc
    exact ⟨hfew.1, rfl, rfl, List.mem_of_find?_eq_some hbest, by simpa using List.find?_some hbest⟩

theorem fitDecomposition_ok (hf : fitDecomposition A np args t = .ok f) :
    checkArgs A args = .ok () ∧ ∃ c, chooseOnFit A np args (splitOf A args t).2 (fitRowsOf A args t) = .ok c ∧
      measureOnHoldout A np args (splitOf A args t).1 (splitOf A args t).2 (keptOf A args t) c = .ok f := by
  unfold fitDecomposition eligibleFrame at hf
  simp only [Exc.bind_eq_ok, Exc.raiseIf_eq_ok, Except.ok.injEq] at hf
  obtain ⟨_, hargs, _, ⟨_, -, _, -, rfl⟩, _, -, _, -, c, hc, hf⟩ := hf
  exact ⟨hargs, c, hc, hf⟩

/-- What the checks of the arguments leave. -/
theorem checkArgs_ok {u : Unit} (h : checkArgs A args = .ok u) :
    (∀ a ∈ args.alphas, badAlpha A a = false) ∧ 3 ≤ args.alphas.dedup.length ∧ args.structures ≠ [] ∧
      (∀ pair ∈ args.structures, 1 ≤ pair.1 ∧ 0 ≤ pair.2) ∧ A.isFinite args.maxSelectionRelErrP90 = true := by
  unfold checkArgs at h
  simp only [Exc.bind_eq_ok, Exc.raiseIf_eq_ok] at h
  obtain ⟨_, halphas, _, hne, _, hpairs, _, -, _, -, _, -, hceiling⟩ := h
  rw [not_or, not_lt, Bool.not_eq_true, List.any_eq_false] at halphas
  refine ⟨fun a ha => by simpa using halphas.2 a ha, halphas.1, hne, fun pair hp => ?_, ?_⟩
  · have hpair := Exc.forM_eq_ok.1 hpairs pair hp
    simp only [Exc.bind_eq_ok, Exc.raiseIf_eq_ok] at hpair
    obtain ⟨_, h1, h2⟩ := hpair
    exact ⟨not_lt.1 h1, not_lt.1 h2⟩
  · by_contra hfin
    exact hceiling (by simp [hfin])

theorem mem_scoreCandidates {history : String → List (HistoryRow F)} {scope : List (ScopeRow F)} {alphas : List F}
    {structures : List (Int × Int)} {c : ScoredCandidate F} :
    c ∈ scoreCandidates A np history scope alphas structures ↔
      ∃ alpha ∈ alphas, ∃ pair ∈ structures, c = scoreCandidate A np history scope alpha pair := by
  unfold scoreCandidates
  rw [List.mem_insertionSort, List.mem_flatMap]
  simp only [List.mem_map, eq_comm]

/-- A row whose true share is a positive number. -/
def ScopeRow.Positive (A : Arith F) (row : ScopeRow F) : Prop := A.isFinite row.true_ = true ∧ A.lt A.zero row.true_ = true

theorem positive_of_kept {r : KeptRow F} (h : r ∈ keptOf A args t) : r.scope.Positive A := by
  obtain ⟨row, -, hr⟩ := List.mem_filterMap.1 h
  unfold CalRow.kept at hr
  split_ifs at hr with hvalid
  obtain ⟨day, -, rfl⟩ := Option.map_eq_some_iff.1 hr
  unfold CalRow.valid at hvalid
  simp only [Bool.and_eq_true] at hvalid
  exact ⟨hvalid.1.2, hvalid.2⟩

/-- A bias that predicts a row is a positive number. -/
theorem bias_of_predictedErrors {raws : List (F × F)} {bias : F} (h : predictedErrors A raws bias ≠ []) :
    A.isFinite bias = true ∧ A.lt A.zero bias = true := by
  unfold predictedErrors at h
  split_ifs at h with hgate
  · simp only [Bool.and_eq_true] at hgate
    exact ⟨hgate.1.2, hgate.2⟩
  · exact absurd rfl h

/-- A candidate below a ceiling that infinity is above has errors. -/
theorem predictedErrors_of_le {history : String → List (HistoryRow F)} {scope : List (ScopeRow F)} {alpha ceiling : F}
    {pair : Int × Int} (hinf : A.le A.inf ceiling = false)
    (h : A.le (scoreCandidate A np history scope alpha pair).relErrP90 ceiling = true) :
    predictedErrors A (rawsOf A history scope alpha pair) (scoreCandidate A np history scope alpha pair).bias ≠ [] := by
  intro hnil
  simp only [scoreCandidate] at hnil
  simp only [scoreCandidate, hnil, quantileOr, List.isEmpty_nil, if_true] at h
  rw [hinf] at h
  cases h

/-! ## Two runs -/

theorem SameFitRows.splitOf_eq {t' : List (CalRow F)} (h : SameFitRows A args t t') : splitOf A args t' = splitOf A args t := by
  unfold splitOf
  rw [h.dates]

theorem SameFitRows.fitRowsOf_eq {t' : List (CalRow F)} (h : SameFitRows A args t t') :
    fitRowsOf A args t' = fitRowsOf A args t := by
  rw [← h.rows, fitRowsOf, h.splitOf_eq]

/-- **The holdout decides no parameter**: runs over two tables with the same fit rows choose the same. -/
theorem fitDecomposition_eq_of_sameFitRows {t' : List (CalRow F)} {f' : DecompositionFit F}
    (h : SameFitRows A args t t') (hf : fitDecomposition A np args t = .ok f) (hf' : fitDecomposition A np args t' = .ok f') :
    f'.config.parameters = f.config.parameters ∧ f'.diagnostics.frontier = f.diagnostics.frontier := by
  obtain ⟨-, c, hc, hm⟩ := fitDecomposition_ok hf
  obtain ⟨-, c', hc', hm'⟩ := fitDecomposition_ok hf'
  rw [h.splitOf_eq, h.fitRowsOf_eq, hc, Except.ok.injEq] at hc'
  subst hc'
  have hfit := measureOnHoldout_ok hm
  have hfit' := measureOnHoldout_ok hm'
  exact ⟨hfit'.parameters.trans hfit.parameters.symm, hfit'.frontier.trans hfit.frontier.symm⟩

end

/-! ## What production predicts -/

section

variable {c : DecompositionConfig (Flt ℚ)} {parse : String → Option Int} {series : List (String × Flt ℚ)}

/-- An entry that production reads for a decision. -/
def readable (decision maxGapDays : Int) (x : Int × Flt ℚ) : Bool :=
  decide (x.1 < decision) && decide (decision - x.1 ≤ maxGapDays) && x.2.isFinite

theorem dated_eq (decision : Int) (c : DecompositionConfig (Flt ℚ)) (series : List (String × Flt ℚ)) :
    (series.filterMap (fun x => (parse x.1).bind (fun day =>
        if decision ≤ day then none
        else if decision - day < 1 ∨ c.maxGapDays < decision - day then none
        else if Arith.exact.isFinite x.2 then some (day, x.2) else none))) =
      (series.filterMap (fun x => (parse x.1).map (fun day => (day, x.2)))).filter (readable decision c.maxGapDays) := by
  rw [List.filter_filterMap]
  congr 1
  funext x
  cases parse x.1 with
  | none => rfl
  | some day =>
    rw [Option.bind_some, Option.map_some, Option.filter_some]
    by_cases hday : decision ≤ day
    · have hr : readable decision c.maxGapDays (day, x.2) = false := by simp [readable, hday.not_gt]
      rw [if_pos hday, hr]
      rfl
    · by_cases hgap : decision - day < 1 ∨ c.maxGapDays < decision - day
      · have hr : readable decision c.maxGapDays (day, x.2) = false := by
          simp only [readable, Bool.and_eq_false_iff, decide_eq_false_iff_not]
          omega
        rw [if_neg hday, if_pos hgap, hr]
        rfl
      · have hr : readable decision c.maxGapDays (day, x.2) = x.2.isFinite := by
          have h1 : day < decision := not_le.1 hday
          have h2 : decision - day ≤ c.maxGapDays := by omega
          simp [readable, h1, h2]
        rw [if_neg hday, if_neg hgap, hr]
        rfl

/-- The gate over a value and the gate over the value before its bias. -/
theorem predictionValue_bias {alpha b : Flt ℚ} {values : List (Flt ℚ)} (hfinite : b.isFinite = true)
    (hpos : Flt.lt (.fin 0) b = true) :
    predictionValue Arith.exact values alpha b true =
      (predictionValue Arith.exact values alpha Arith.exact.one false).bind (fun raw =>
        if Arith.exact.inUnit (Arith.exact.mul raw b) then some (Arith.exact.mul raw b) else none) := by
  obtain ⟨b, rfl, hb⟩ := Flt.exists_of_pos hfinite hpos
  unfold predictionValue
  generalize ewma Arith.exact alpha values = e
  simp only [Arith.inUnit, Arith.exact_zero, Arith.exact_one, Arith.exact_mul, Arith.exact_lt, Arith.exact_le,
    Arith.exact_isFinite]
  cases e with
  | nan => rfl
  | inf m => simp [Flt.mul, Flt.isFinite, hb.ne']
  | fin e =>
    by_cases he : e ≤ 0
    · have hle : e * b ≤ 0 := mul_nonpos_of_nonpos_of_nonneg he hb.le
      simp [he, hle]
    · have hlt : 0 < e * b := mul_pos (not_le.1 he) hb
      by_cases h1 : e * b ≤ 1
      · simp [he, hlt, hlt.not_ge, h1, h1.not_gt]
      · simp [he, hlt, hlt.not_ge, h1, not_le.1 h1]

/-- **Production returns the gated raw prediction** of the same proxies. -/
theorem predictShare_eq_gated {history : String → List (HistoryRow (Flt ℚ))} {row : ScopeRow (Flt ℚ)} {date : String}
    (halpha : badAlpha Arith.exact c.ewmaAlpha = false) (hfinite : c.biasCorrection.isFinite = true)
    (hpos : Flt.lt (.fin 0) c.biasCorrection = true) (hdate : parse date = some row.ordinal)
    (hseries : parsedSeries parse series = proxiesOf (history row.symbol)) :
    predictShare Arith.exact parse series date c = gated Arith.exact history c row := by
  let dated := (series.filterMap (fun x => (parse x.1).map (fun day => (day, x.2)))).filter (readable row.ordinal c.maxGapDays)
  have hsorted : (dated.insertionSort (fun a b => a.1 ≤ b.1)).map Prod.snd =
      ((history row.symbol).filter (fun r => decide (r.ordinal < row.ordinal) &&
        decide (row.ordinal - r.ordinal ≤ c.maxGapDays) && Arith.exact.isFinite r.proxy)).map HistoryRow.proxy := by
    have hfilter : dated.insertionSort (fun a b => a.1 ≤ b.1) =
        (parsedSeries parse series).filter (readable row.ordinal c.maxGapDays) :=
      haveI : IsTrans (Int × Flt ℚ) (fun a b => a.1 ≤ b.1) := ⟨fun _ _ _ h h' => le_trans h h'⟩
      haveI : Std.Total (α := Int × Flt ℚ) (fun a b => a.1 ≤ b.1) := ⟨fun _ _ => le_total _ _⟩
      (StableSort.filter_insertionSort _).symm
    rw [hfilter, hseries, proxiesOf, List.filter_map, List.map_map]
    rfl
  have hlength : dated.length = ((dated.insertionSort (fun a b => a.1 ≤ b.1)).map Prod.snd).length := by
    rw [List.length_map, List.length_insertionSort]
  unfold badAlpha at halpha
  unfold predictShare gated predictRaw
  rw [hdate]
  simp only [dated_eq]
  rw [if_neg (by simpa using halpha), hlength, hsorted]
  split_ifs with hmin
  · rfl
  · exact predictionValue_bias hfinite hpos

/-! ## What the calibration counts -/

/-- A raw prediction is a positive number. -/
theorem predictRaw_pos {priors : List (HistoryRow (Flt ℚ))} {decision m g : Int} {alpha raw : Flt ℚ}
    (h : predictRaw Arith.exact priors decision m g alpha = some raw) : ∃ x, raw = .fin x ∧ 0 < x := by
  unfold predictRaw predictionValue at h
  simp only [Bool.false_and, Bool.or_false, Arith.exact_zero, Arith.exact_one, Arith.exact_mul, Arith.exact_le,
    Arith.exact_isFinite, Flt.mul_fin_one] at h
  split_ifs at h with hmin hgate
  obtain rfl := Option.some.inj h
  rw [Bool.or_eq_true, not_or] at hgate
  generalize ewma Arith.exact alpha _ = raw at hgate
  cases raw with
  | nan => exact absurd rfl hgate.1
  | inf m => exact absurd rfl hgate.1
  | fin x => exact ⟨x, rfl, by simpa using hgate.2⟩

theorem finite_of_inUnit {x : Flt ℚ} (h : Arith.exact.inUnit x = true) : x.isFinite = true := by
  rw [Arith.inUnit, Arith.exact_zero, Arith.exact_one] at h
  cases x with
  | nan => simp [Flt.lt] at h
  | inf m => cases m <;> simp [Flt.lt, Flt.le] at h
  | fin x => rfl

variable {history : String → List (HistoryRow (Flt ℚ))}

/-- The rows that have an error are those that the gate lets through. -/
theorem length_predictedErrors {scope : List (ScopeRow (Flt ℚ))} (hscope : ∀ row ∈ scope, row.Positive Arith.exact)
    (hne : predictedErrors Arith.exact (rawsOf Arith.exact history scope c.ewmaAlpha (c.minPriorDays, c.maxGapDays))
      c.biasCorrection ≠ []) :
    (predictedErrors Arith.exact (rawsOf Arith.exact history scope c.ewmaAlpha (c.minPriorDays, c.maxGapDays))
      c.biasCorrection).length = scope.countP (fun row => (gated Arith.exact history c row).isSome) := by
  unfold predictedErrors at hne ⊢
  split_ifs at hne ⊢ with hgate
  · rw [rawsOf, List.filterMap_filterMap, List.length_filterMap_eq_countP]
    refine List.countP_congr fun row hmem => ?_
    obtain ⟨htrue, hpos⟩ := hscope row hmem
    simp only [Arith.exact_isFinite, Arith.exact_lt, Arith.exact_zero] at htrue hpos
    unfold gated
    cases hraw : predictRaw Arith.exact (history row.symbol) row.ordinal c.minPriorDays c.maxGapDays c.ewmaAlpha with
    | none => rfl
    | some raw =>
      obtain ⟨x, rfl, hx⟩ := predictRaw_pos hraw
      by_cases hunit : Arith.exact.inUnit (Arith.exact.mul (.fin x) c.biasCorrection) = true
      · have hfin := finite_of_inUnit hunit
        simp only [Arith.exact_mul] at hunit hfin
        simp [hx, htrue, hpos, hunit, hfin]
      · simp only [Arith.exact_mul] at hunit
        simp [hx, htrue, hpos, hunit]
  · exact absurd rfl hne

/-- The same over the held out rows. -/
theorem length_holdoutScores {abar : Flt ℚ} {best : ScoredCandidate (Flt ℚ)} {holdout : List (KeptRow (Flt ℚ))}
    (hc : c.parameters = (best.ewmaAlpha, best.minPriorDays, best.maxGapDays, abar, best.bias)) :
    (holdoutScores Arith.exact abar best holdout).length = (holdout.map KeptRow.scope).countP
      (fun row => (gated Arith.exact (buildHistory Arith.exact holdout c.auctionFractionMean) c row).isSome) := by
  simp only [DecompositionConfig.parameters, Prod.mk.injEq] at hc
  obtain ⟨ha, hm, hg, habar, hb⟩ := hc
  rw [holdoutScores, List.length_filterMap_eq_countP, List.countP_map, ha.symm, hm.symm, hg.symm, habar.symm, hb.symm]
  refine List.countP_congr fun row _ => ?_
  rw [Function.comp_apply, gated, KeptRow.scope]
  cases hraw : predictRaw Arith.exact (buildHistory Arith.exact holdout c.auctionFractionMean row.symbol) row.day.ordinal
      c.minPriorDays c.maxGapDays c.ewmaAlpha with
  | none => rfl
  | some raw =>
    obtain ⟨x, rfl, hx⟩ := predictRaw_pos hraw
    simp only [Option.bind_some, Arith.inUnit, Arith.exact_mul, Arith.exact_zero, Arith.exact_one, Arith.exact_le,
      Arith.exact_lt, Arith.exact_isFinite]
    generalize (Flt.fin x).mul c.biasCorrection = corrected
    cases corrected with
    | nan => simp [Flt.isFinite, Flt.lt, hx.not_ge]
    | inf m => cases m <;> simp [Flt.isFinite, Flt.lt, Flt.le, hx.not_ge]
    | fin y =>
      by_cases h0 : y ≤ 0
      · simp [h0, h0.not_gt, hx.not_ge]
      · by_cases h1 : y ≤ 1
        · simp [h0, not_le.1 h0, h1, h1.not_gt, hx.not_ge]
        · simp [h0, h1, not_le.1 h1, hx.not_ge]

/-- Over the rows of `scope` with the proxies of `rows`: production returns the gated raw prediction of each, and
`coverage` is the part of them that has one. -/
structure Counted (rows : List (KeptRow (Flt ℚ))) (scope : List (ScopeRow (Flt ℚ))) (c : DecompositionConfig (Flt ℚ))
    (coverage : Flt ℚ) : Prop where
  predicted (row : ScopeRow (Flt ℚ)) (parse : String → Option Int) (date : String) (series : List (String × Flt ℚ)) :
    row ∈ scope → parse date = some row.ordinal →
      parsedSeries parse series = proxiesOf (buildHistory Arith.exact rows c.auctionFractionMean row.symbol) →
      predictShare Arith.exact parse series date c =
        gated Arith.exact (buildHistory Arith.exact rows c.auctionFractionMean) c row
  coverage : coverage = Arith.exact.ratio
    (scope.countP (fun row => (gated Arith.exact (buildHistory Arith.exact rows c.auctionFractionMean) c row).isSome))
    scope.length

/-- A number is below infinity. -/
theorem inf_le_finite {x : Flt ℚ} (h : x.isFinite = true) : Arith.exact.le Arith.exact.inf x = false := by
  cases x with
  | nan => cases h
  | inf m => cases h
  | fin x => rfl

end

/-! ## Tables -/

/-- numpy's statistics over finite numbers, the quantile by linear interpolation. -/
def Numpy.exact : Numpy (Flt ℚ) :=
  let sorted (l : List (Flt ℚ)) : List (Flt ℚ) := l.insertionSort (fun x y => x.le y = true)
  let quantile (q : Flt ℚ) (l : List (Flt ℚ)) : Flt ℚ :=
    match q.mul (.fin ((l.length - 1 : Nat) : ℚ)) with
    | .fin v =>
      let low := (sorted l).getD ⌊v⌋.toNat .nan
      low.add (((sorted l).getD (min (⌊v⌋.toNat + 1) (l.length - 1)) .nan).sub low |>.mul (.fin (v - ⌊v⌋)))
    | _ => .nan
  { mean := fun l => (l.foldl Flt.add (.fin 0)).div (.fin l.length)
    median := quantile (.fin (1 / 2))
    quantile := quantile }

section

def calDay (text : String) (ordinal : Int) : Day := ⟨text, ordinal⟩

def calDays : List Day :=
  [calDay "2026-01-05" 20458, calDay "2026-01-06" 20459, calDay "2026-01-07" 20460, calDay "2026-01-08" 20461,
    calDay "2026-01-09" 20462, calDay "2026-01-12" 20465]

/-- The row of a symbol: `krx` up to the cutoff, the rest of a thousand in the auction, twice `krx` on the whole tape. -/
def calRow (i : Nat) (symbol : String) (krx : ℚ) : CalRow (Flt ℚ) where
  date := calDays[i]?
  symbol := symbol
  vKrx1520 := .fin krx
  auctionVolume := .fin (1000 - krx)
  vCons1520 := .fin (2 * krx)
  eodVolume := .fin 1000
  closeKrx1519 := .fin 100
  closeCons1519 := .fin 100

/-- Three dates of one symbol and three of two, the auction of the fourth larger than the others. -/
def calTable (first second : ℚ) : List (CalRow (Flt ℚ)) :=
  [calRow 0 "A" first, calRow 1 "A" second, calRow 2 "A" 900, calRow 3 "A" 800, calRow 3 "B" 800, calRow 4 "A" 900,
    calRow 4 "B" 900, calRow 5 "A" 900, calRow 5 "B" 900]

def calArgs : FitArgs (Flt ℚ) where
  alphas := [.fin (1 / 4), .fin (1 / 2), .fin (3 / 4)]
  structures := [(1, 30)]
  identityTolerance := .fin (1 / 100)
  holdoutFraction := .fin (1 / 2)
  minHoldoutDays := 1
  maxSelectionRelErrP90 := .fin 1
  tableSha256 := "0"

/-- The rows of a table on the fit dates of `t`. -/
def onFitDates {F : Type} [DecidableEq F] (A : Arith F) (args : FitArgs F) (t rows : List (CalRow F)) : List (CalRow F) :=
  rows.filter (fun r => decide (∀ h ∈ (splitOf A args t).1, r.date.map Day.text ≠ some h))

/-- The parameters that a fit chooses, if it returns. -/
def parametersOf (t : List (CalRow (Flt ℚ))) : Option (Flt ℚ × Int × Int × Flt ℚ × Flt ℚ) :=
  (fitDecomposition Arith.exact Numpy.exact calArgs t).toOption.map (fun f => f.config.parameters)

theorem exists_of_parametersOf {t : List (CalRow (Flt ℚ))} {p : Flt ℚ × Int × Int × Flt ℚ × Flt ℚ}
    (h : parametersOf t = some p) : ∃ f, fitDecomposition Arith.exact Numpy.exact calArgs t = .ok f ∧
      f.config.parameters = p := by
  unfold parametersOf at h
  cases hf : fitDecomposition Arith.exact Numpy.exact calArgs t with
  | error e =>
    rw [hf] at h
    cases h
  | ok f =>
    rw [hf] at h
    exact ⟨f, rfl, Option.some.inj h⟩

/-- The number of a date of the tables. -/
def calParse (text : String) : Option Int := (calDays.find? (fun d => decide (d.text = text))).map Day.ordinal

end

end Nxt
