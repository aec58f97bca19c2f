import KClosingAlpha.Nxt.Holdout
import KClosingAlpha.Nxt.Payload
import KClosingAlpha.Py.Lookup
import Mathlib.Data.List.GetD
/-!
# Persist — a fit that is saved and loaded

The readers return what was written just where the numbers are within their bounds (`decompositionConfigFromPayload_iff`,
`fitDiagnosticsFromPayload_iff`), in whatever order the keys come.  What a fit returns meets every bound but one: a
quantile of a frontier point may not be finite, where the relative error of a selection row overflows
(`persisted_iff_saveable`).
-/
namespace Nxt

open Exc (raiseIf)
open Py (PyFloat)

variable {parse : String → Option Int}

/-! ## Objects -/

/-- An object with the known keys in any order. -/
theorem object_eq {caller what : String} {known : List String} {items items' : List (String × Payload)}
    (hp : items'.Perm items) (hn : known.Nodup) (hk : items.map Prod.fst = known) :
    object caller what known (.dict items') = .ok (fun name => (items.lookup name).getD .none) := by
  have hmem : ∀ name, name ∈ items'.map Prod.fst ↔ name ∈ known := by
    intro name
    rw [(hp.map Prod.fst).mem_iff, hk]
  have hunknown : (items'.map Prod.fst).filter (fun key => decide (key ∉ known)) = [] :=
    List.filter_eq_nil_iff.2 (fun key hkey => by simpa using (hmem key).1 hkey)
  have hmissing : known.filter (fun name => decide (name ∉ items'.map Prod.fst)) = [] :=
    List.filter_eq_nil_iff.2 (fun name hname => by simpa using (hmem name).2 hname)
  unfold object
  simp only [hunknown, hmissing]
  simp only [ne_eq, not_true_eq_false, raiseIf, if_false, Exc.ok_bind, Py.Dict.lookup_perm hp (hk ▸ hn)]

@[simp] theorem reraise_eq_ok {α : Type} (text : String) (x : Except PayloadError α) (a : α) :
    reraise text x = .ok a ↔ x = .ok a := by
  unfold reraise
  split <;> simp

/-- What the reader of a config requires. -/
structure ConfigValid (parse : String → Option Int) (c : DecompositionConfig PyFloat) : Prop where
  finite : [c.ewmaAlpha, c.auctionFractionMean, c.biasCorrection, c.volumeRelErrP90, c.closeBpErrP90].all PyFloat.isFinite = true
  alpha : inUnit c.ewmaAlpha = true
  minPriorDays : 1 ≤ c.minPriorDays
  maxGapDays : 0 ≤ c.maxGapDays
  bias : c.biasCorrection.le (.ofRatio false 0 1) = false
  quantiles : c.volumeRelErrP90.lt (.ofRatio false 0 1) = false ∧ c.closeBpErrP90.lt (.ofRatio false 0 1) = false
  days : [c.calibratedThrough, c.fitStart, c.holdoutStart, c.holdoutEnd].all (isDay parse) = true

def configItems (c : DecompositionConfig PyFloat) : List (String × Payload) :=
  match decompositionConfigToPayload c with
  | .dict items => items
  | _ => []

theorem checkedDay_eq_ok {caller name s s' : String} :
    checkedDay parse caller name (.str s) = .ok s' ↔ isDay parse s = true ∧ s = s' := by
  simp [checkedDay]

/-- **A config is read back just where it is valid**, with its keys in any order. -/
theorem decompositionConfigFromPayload_iff {c c' : DecompositionConfig PyFloat} {items : List (String × Payload)}
    (hp : items.Perm (configItems c)) :
    decompositionConfigFromPayload parse (.dict items) = .ok c' ↔ c = c' ∧ ConfigValid parse c := by
  unfold decompositionConfigFromPayload
  have hn : configFields.Nodup := by decide
  simp only [object_eq hp hn rfl, Exc.ok_bind]
  simp only [configItems, decompositionConfigToPayload, List.lookup_cons, String.reduceBEq, Option.getD_some, asFloat, asInt,
    Exc.ok_bind]
  simp only [Exc.bind_eq_ok, reraise_eq_ok, checkedDay_eq_ok, Exc.raiseIf_eq_ok, Except.ok.injEq]
  constructor
  · rintro ⟨_, ⟨_, ⟨h1, rfl⟩, _, ⟨h2, rfl⟩, _, ⟨h3, rfl⟩, _, ⟨h4, rfl⟩, rfl⟩, _, hfinite, _, halpha, _, hmin, _, hmax, _, hbias,
      _, hq, rfl⟩
    rw [not_or] at hq
    refine ⟨rfl, ?_, by simpa using halpha, not_lt.1 hmin, not_lt.1 hmax, by simpa using hbias,
      ⟨by simpa using hq.1, by simpa using hq.2⟩, by simp [h1, h2, h3, h4]⟩
    have hall := Exc.forM_eq_ok.1 hfinite
    simpa using hall
  · rintro ⟨rfl, hv⟩
    have hdays := hv.days
    simp only [List.all_cons, List.all_nil, Bool.and_true, Bool.and_eq_true] at hdays
    obtain ⟨h1, h2, h3, h4⟩ := hdays
    refine ⟨c, ⟨_, ⟨h1, rfl⟩, _, ⟨h2, rfl⟩, _, ⟨h3, rfl⟩, _, ⟨h4, rfl⟩, rfl⟩, (), ?_, (), by simp [hv.alpha],
      (), not_lt.2 hv.minPriorDays, (), not_lt.2 hv.maxGapDays, (), by simp [hv.bias], (), by simp [hv.quantiles], rfl⟩
    refine Exc.forM_eq_ok.2 ?_
    simpa using hv.finite

/-! ## The frontier -/

/-- A quantile that a reader accepts beside a coverage. -/
def QuantileValid (coverage : PyFloat) : Option PyFloat → Prop
  | none => Arith.double.eq coverage (.ofRatio false 0 1) = true
  | some x => x.isFinite = true ∧ x.lt (.ofRatio false 0 1) = false

/-- What the reader of a frontier point requires. -/
structure PointValid (p : FrontierPoint PyFloat) : Prop where
  alpha : p.ewmaAlpha.isFinite = true ∧ inUnit p.ewmaAlpha = true
  minPriorDays : 1 ≤ p.minPriorDays
  maxGapDays : 0 ≤ p.maxGapDays
  coverage : p.coverage.isFinite = true ∧ isPart p.coverage = true
  quantiles : ∀ x ∈ [p.relErrP50, p.relErrP90, p.relErrP99], QuantileValid p.coverage x

theorem checkQuantile_iff {caller name : String} {coverage : PyFloat} {x : Option PyFloat} {u : Unit} :
    checkQuantile caller name coverage x = .ok u ↔ QuantileValid coverage x := by
  cases x with
  | none => simp [checkQuantile, QuantileValid]
  | some x => simp [checkQuantile, QuantileValid]

theorem asOptionalFloat_optionalFloat (caller name : String) (x : Option PyFloat) :
    asOptionalFloat caller name (optionalFloat x) = .ok x := by
  cases x with
  | none => rfl
  | some x => rfl

/-- **A frontier point is read back just where it is valid.** -/
theorem frontierPointFromPayload_iff {p p' : FrontierPoint PyFloat} {items : List (String × Payload)}
    (hp : items.Perm (frontierPointItems p)) :
    frontierPointFromPayload (.dict items) = .ok p' ↔ p = p' ∧ PointValid p := by
  unfold frontierPointFromPayload
  have hn : frontierFields.Nodup := by decide
  simp only [object_eq hp hn rfl, Exc.ok_bind]
  simp only [frontierPointItems, List.lookup_cons, String.reduceBEq, Option.getD_some, asFloat, asInt, Exc.ok_bind,
    asOptionalFloat_optionalFloat]
  simp only [Exc.bind_eq_ok, reraise_eq_ok, checkQuantile_iff, Exc.raiseIf_eq_ok, Except.ok.injEq]
  constructor
  · rintro ⟨_, rfl, _, halpha, _, hstruct, _, hcov, _, h50, _, h90, _, h99, rfl⟩
    rw [not_or] at hstruct
    exact ⟨rfl, by simpa using halpha, not_lt.1 hstruct.1, not_lt.1 hstruct.2, by simpa using hcov, by simp [h50, h90, h99]⟩
  · rintro ⟨rfl, hv⟩
    have hq := hv.quantiles
    simp only [List.forall_mem_cons] at hq
    refine ⟨p, rfl, (), by simp [hv.alpha], (), ?_, (), by simp [hv.coverage], (), hq.1, (), hq.2.1, (), hq.2.2.1, rfl⟩
    rw [not_or, not_lt, not_lt]
    exact ⟨hv.minPriorDays, hv.maxGapDays⟩

/-- What writes the points of a frontier, the keys of each in some order. -/
def Writes (ps : List (FrontierPoint PyFloat)) (xs : List Payload) : Prop :=
  List.Forall₂ (fun p x => ∃ items, x = .dict items ∧ items.Perm (frontierPointItems p)) ps xs

theorem mapM_frontierPoint_iff : ∀ {ps ps' : List (FrontierPoint PyFloat)} {xs : List Payload}, Writes ps xs →
    (xs.mapM frontierPointFromPayload = .ok ps' ↔ ps = ps' ∧ ∀ p ∈ ps, PointValid p)
  | [], ps', [], _ => by simp
  | p :: ps, ps', _ :: xs, .cons ⟨items, hx, hp⟩ hxs => by
    rw [hx, Exc.mapM_cons_eq_ok, List.forall_mem_cons]
    constructor
    · rintro ⟨b, bs, hb, hbs, rfl⟩
      obtain ⟨rfl, hv⟩ := (frontierPointFromPayload_iff hp).1 hb
      obtain ⟨rfl, hvs⟩ := (mapM_frontierPoint_iff hxs).1 hbs
      exact ⟨rfl, hv, hvs⟩
    · rintro ⟨rfl, hv, hvs⟩
      exact ⟨p, ps, (frontierPointFromPayload_iff hp).2 ⟨rfl, hv⟩, (mapM_frontierPoint_iff hxs).2 ⟨rfl, hvs⟩, rfl⟩

theorem frontierFromPayload_iff {caller : String} {ps ps' : List (FrontierPoint PyFloat)} {xs : List Payload}
    (hx : Writes ps xs) :
    frontierFromPayload caller (.list xs) = .ok ps' ↔ ps = ps' ∧ ps ≠ [] ∧ ∀ p ∈ ps, PointValid p := by
  cases hx with
  | nil => simp [frontierFromPayload]
  | cons hp hxs =>
    refine (mapM_frontierPoint_iff (.cons hp hxs)).trans (and_congr_right fun _ => ?_)
    exact ⟨fun h => ⟨List.cons_ne_nil _ _, h⟩, fun h => h.2⟩

/-! ## The diagnostics -/

/-- What the reader of the diagnostics requires. -/
structure DiagnosticsValid (parse : String → Option Int) (d : FitDiagnostics PyFloat) : Prop where
  quantiles : ∀ x ∈ [d.holdoutRelErrP50, d.holdoutRelErrP90, d.holdoutRelErrP99],
    x.isFinite = true ∧ x.lt (.ofRatio false 0 1) = false
  coverage : d.holdoutCoverage.isFinite = true ∧ isPart d.holdoutCoverage = true
  abar : d.abarFit.isFinite = true ∧ d.abarHoldout.isFinite = true
  bias : ∀ x ∈ [d.biasFit, d.biasHoldout], x.isFinite = true ∧ x.le (.ofRatio false 0 1) = false
  days : [d.fitStart, d.fitEnd, d.holdoutStart, d.holdoutEnd].all (isDay parse) = true
  frontier : d.frontier ≠ [] ∧ ∀ p ∈ d.frontier, PointValid p

/-- **Diagnostics are read back just where they are valid.** -/
theorem fitDiagnosticsFromPayload_iff {d d' : FitDiagnostics PyFloat} {xs : List Payload} {items : List (String × Payload)}
    (hx : Writes d.frontier xs) (hp : items.Perm (fitDiagnosticsItems d (.list xs))) :
    fitDiagnosticsFromPayload parse (.dict items) = .ok d' ↔ d = d' ∧ DiagnosticsValid parse d := by
  unfold fitDiagnosticsFromPayload
  have hn : diagnosticsFields.Nodup := by decide
  simp only [object_eq hp hn rfl, Exc.ok_bind]
  simp only [fitDiagnosticsItems, List.lookup_cons, String.reduceBEq, Option.getD_some, asFloat, asInt, asBool, asStr,
    Exc.ok_bind]
  simp only [Exc.bind_eq_ok, reraise_eq_ok, checkedDay_eq_ok, frontierFromPayload_iff hx, Exc.raiseIf_eq_ok,
    Except.ok.injEq]
  constructor
  · rintro ⟨_, ⟨_, ⟨h1, rfl⟩, _, ⟨h2, rfl⟩, _, ⟨h3, rfl⟩, _, ⟨h4, rfl⟩, _, ⟨rfl, hne, hpoints⟩, rfl⟩, _, hq, _, hcov, _, habar,
      _, hbias, _, -, rfl⟩
    have hq := Exc.forM_eq_ok.1 hq
    have habar := Exc.forM_eq_ok.1 habar
    have hbias := Exc.forM_eq_ok.1 hbias
    refine ⟨rfl, by simpa using hq, by simpa using hcov, by simpa using habar, by simpa using hbias,
      by simp [h1, h2, h3, h4], hne, hpoints⟩
  · rintro ⟨rfl, hv⟩
    have hdays := hv.days
    simp only [List.all_cons, List.all_nil, Bool.and_true, Bool.and_eq_true] at hdays
    obtain ⟨h1, h2, h3, h4⟩ := hdays
    refine ⟨_, ⟨_, ⟨h1, rfl⟩, _, ⟨h2, rfl⟩, _, ⟨h3, rfl⟩, _, ⟨h4, rfl⟩, _, ⟨rfl, hv.frontier⟩, rfl⟩, (), ?_, (),
      by simp [hv.coverage], (), ?_, (), ?_, (), ?_, rfl⟩
    · exact Exc.forM_eq_ok.2 (by simpa using hv.quantiles)
    · exact Exc.forM_eq_ok.2 (by simpa using hv.abar)
    · exact Exc.forM_eq_ok.2 (by simpa using hv.bias)
    · exact Exc.forM_eq_ok.2 (by simp)

/-! ## Saving and loading -/

def sortItems (items : List (String × Payload)) : List (String × Payload) := items.insertionSort (fun a b => a.1 ≤ b.1)

theorem sortItems_perm (items : List (String × Payload)) : (sortItems items).Perm items := List.perm_insertionSort _ _

theorem reloadedItems_eq : ∀ {items items' : List (String × Payload)},
    List.Forall₂ (fun p q => p.1 = q.1 ∧ reloaded p.2 = some q.2) items items' → reloadedItems items = some items'
  | [], _, .nil => rfl
  | (name, x) :: items, (_, y) :: items', .cons ⟨rfl, hx⟩ h => by
    rw [reloadedItems, hx, reloadedItems_eq h]
    rfl

theorem reloadedItems_self {items : List (String × Payload)} (h : ∀ p ∈ items, reloaded p.2 = some p.2) :
    reloadedItems items = some items := reloadedItems_eq (List.forall₂_same.2 fun p hp => ⟨rfl, h p hp⟩)

theorem reloaded_dict {items items' : List (String × Payload)} (h : reloadedItems items = some items') :
    reloaded (.dict items) = some (.dict (sortItems items')) := by
  rw [reloaded, h]
  rfl

theorem reloaded_float {x : PyFloat} (h : x.isFinite = true) : reloaded (.float x) = some (.float x) := by
  rw [reloaded, if_pos h]

theorem reloaded_config {c : DecompositionConfig PyFloat} (hv : ConfigValid parse c) :
    reloaded (decompositionConfigToPayload c) = some (.dict (sortItems (configItems c))) := by
  have hfinite := hv.finite
  simp only [List.all_cons, List.all_nil, Bool.and_true, Bool.and_eq_true] at hfinite
  obtain ⟨h1, h2, h3, h4, h5⟩ := hfinite
  refine reloaded_dict (reloadedItems_self ?_)
  simp [reloaded, h1, h2, h3, h4, h5]

theorem reloaded_optionalFloat {coverage : PyFloat} {x : Option PyFloat} (h : QuantileValid coverage x) :
    reloaded (optionalFloat x) = some (optionalFloat x) := by
  cases x with
  | none => rfl
  | some x => exact reloaded_float h.1

theorem reloaded_point {p : FrontierPoint PyFloat} (hv : PointValid p) :
    reloaded (.dict (frontierPointItems p)) = some (.dict (sortItems (frontierPointItems p))) := by
  have hq := hv.quantiles
  simp only [List.forall_mem_cons] at hq
  refine reloaded_dict (reloadedItems_self ?_)
  simp only [frontierPointItems, List.forall_mem_cons]
  exact ⟨reloaded_float hv.alpha.1, rfl, rfl, reloaded_float hv.coverage.1, reloaded_optionalFloat hq.1,
    reloaded_optionalFloat hq.2.1, reloaded_optionalFloat hq.2.2.1, by simp⟩

theorem reloaded_frontier : ∀ {ps : List (FrontierPoint PyFloat)}, (∀ p ∈ ps, PointValid p) →
    reloadedList (ps.map (fun p => .dict (frontierPointItems p))) =
      some (ps.map (fun p => .dict (sortItems (frontierPointItems p))))
  | [], _ => rfl
  | p :: ps, h => by
    rw [List.forall_mem_cons] at h
    rw [List.map_cons, reloadedList, reloaded_point h.1, reloaded_frontier h.2]
    rfl

theorem reloaded_diagnostics {d : FitDiagnostics PyFloat} (hv : DiagnosticsValid parse d) :
    reloaded (fitDiagnosticsToPayload d) = some (.dict (sortItems
      (fitDiagnosticsItems d (.list (d.frontier.map (fun p => .dict (sortItems (frontierPointItems p)))))))) := by
  have hq := hv.quantiles
  have hb := hv.bias
  simp only [List.forall_mem_cons] at hq hb
  refine reloaded_dict ?_
  have hlist : reloaded (.list (d.frontier.map (fun p => .dict (frontierPointItems p)))) =
      some (.list (d.frontier.map (fun p => .dict (sortItems (frontierPointItems p))))) := by
    rw [reloaded, reloaded_frontier hv.frontier.2]
    rfl
  exact reloadedItems_eq (.cons ⟨rfl, rfl⟩ (.cons ⟨rfl, rfl⟩ (.cons ⟨rfl, rfl⟩ (.cons ⟨rfl, rfl⟩ (.cons ⟨rfl, rfl⟩
    (.cons ⟨rfl, rfl⟩ (.cons ⟨rfl, rfl⟩ (.cons ⟨rfl, reloaded_float hq.1.1⟩ (.cons ⟨rfl, reloaded_float hq.2.1.1⟩
    (.cons ⟨rfl, reloaded_float hq.2.2.1.1⟩ (.cons ⟨rfl, reloaded_float hv.coverage.1⟩
    (.cons ⟨rfl, reloaded_float hv.abar.1⟩ (.cons ⟨rfl, reloaded_float hv.abar.2⟩ (.cons ⟨rfl, reloaded_float hb.1.1⟩
    (.cons ⟨rfl, reloaded_float hb.2.1.1⟩ (.cons ⟨rfl, rfl⟩ (.cons ⟨rfl, hlist⟩ (.cons ⟨rfl, rfl⟩ .nil))))))))))))))))))

theorem writes_map (g : List (String × Payload) → List (String × Payload)) (hg : ∀ items, (g items).Perm items)
    (ps : List (FrontierPoint PyFloat)) : Writes ps (ps.map (fun p => .dict (g (frontierPointItems p)))) := by
  unfold Writes
  rw [List.forall₂_map_right_iff]
  exact List.forall₂_same.2 fun p _ => ⟨_, rfl, hg _⟩

theorem saved_eq_ok {α : Type} {fromPayload : Payload → Except PayloadError α} {payload p : Payload} :
    saved fromPayload payload = .ok p ↔ (∃ a, fromPayload payload = .ok a) ∧ reloaded payload = some p := by
  unfold saved
  rw [Exc.bind_eq_ok]
  cases reloaded payload <;> simp

/-- A fit whose two payloads are read back as they were, which is saved and loaded again. -/
structure Persisted (parse : String → Option Int) (f : DecompositionFit PyFloat) : Prop where
  config : decompositionConfigFromPayload parse (decompositionConfigToPayload f.config) = .ok f.config
  diagnostics : fitDiagnosticsFromPayload parse (fitDiagnosticsToPayload f.diagnostics) = .ok f.diagnostics
  configFile : ∃ p, saveDecompositionConfig parse f.config = .ok p ∧ loadDecompositionConfig parse p = .ok f.config
  diagnosticsFile : ∃ p, saveFitDiagnostics parse f.diagnostics = .ok p ∧ loadFitDiagnostics parse p = .ok f.diagnostics

/-- **A fit persists just where both its parts are valid.** -/
theorem persisted_iff_valid {f : DecompositionFit PyFloat} :
    Persisted parse f ↔ ConfigValid parse f.config ∧ DiagnosticsValid parse f.diagnostics := by
  have hc {c'} : decompositionConfigFromPayload parse (decompositionConfigToPayload f.config) = .ok c' ↔
      f.config = c' ∧ ConfigValid parse f.config := decompositionConfigFromPayload_iff (List.Perm.refl (configItems f.config))
  have hd {d'} : fitDiagnosticsFromPayload parse (fitDiagnosticsToPayload f.diagnostics) = .ok d' ↔
      f.diagnostics = d' ∧ DiagnosticsValid parse f.diagnostics :=
    fitDiagnosticsFromPayload_iff (writes_map id (fun _ => .refl _) _) (.refl _)
  constructor
  · intro h
    exact ⟨(hc.1 h.config).2, (hd.1 h.diagnostics).2⟩
  · rintro ⟨hcv, hdv⟩
    refine ⟨hc.2 ⟨rfl, hcv⟩, hd.2 ⟨rfl, hdv⟩, ?_, ?_⟩
    · refine ⟨_, saved_eq_ok.2 ⟨⟨_, hc.2 ⟨rfl, hcv⟩⟩, reloaded_config hcv⟩, (reraise_eq_ok _ _ _).2 ?_⟩
      exact (decompositionConfigFromPayload_iff (sortItems_perm _)).2 ⟨rfl, hcv⟩
    · refine ⟨_, saved_eq_ok.2 ⟨⟨_, hd.2 ⟨rfl, hdv⟩⟩, reloaded_diagnostics hdv⟩, (reraise_eq_ok _ _ _).2 ?_⟩
      exact (fitDiagnosticsFromPayload_iff (writes_map sortItems sortItems_perm _) (sortItems_perm _)).2 ⟨rfl, hdv⟩

/-! ## What a fit returns -/

/-- The higher of the two order statistics that linear interpolation at `q` reads, of `n` numbers. -/
def upperIndex (q : PyFloat) (n : Nat) : Nat := min ((PyFloat.mul (.ofInt ((n - 1 : Nat) : Int)) q).floor + 1) (n - 1)

/-- How many numbers are not finite. -/
def overflowing (l : List PyFloat) : Nat := l.countP (fun x => !x.isFinite)

/-- What is relied on of `np.quantile` over numbers without a sign, infinities among them: the quantile is finite just
where the order statistics that it reads are, and it is not negative. -/
structure QuantileSpec (np : Numpy PyFloat) : Prop where
  finite_iff (q : PyFloat) (l : List PyFloat) : q ∈ quantiles Arith.double → l ≠ [] → (∀ x ∈ l, x.unsigned = true) →
    ((np.quantile q l).isFinite = true ↔ overflowing l + upperIndex q l.length < l.length)
  nonneg (q : PyFloat) (l : List PyFloat) : q ∈ quantiles Arith.double → l ≠ [] → (∀ x ∈ l, x.unsigned = true) →
    (np.quantile q l).lt (.ofRatio false 0 1) = false

namespace Arith

@[simp] theorem double_zero : double.zero = .ofRatio false 0 1 := rfl
@[simp] theorem double_one : double.one = .ofRatio false 1 1 := rfl
@[simp] theorem double_lt (x y : PyFloat) : double.lt x y = x.lt y := rfl
@[simp] theorem double_le (x y : PyFloat) : double.le x y = x.le y := rfl
@[simp] theorem double_isFinite (x : PyFloat) : double.isFinite x = x.isFinite := rfl

end Arith

variable {np : Numpy PyFloat} {args : FitArgs PyFloat} {t : List (CalRow PyFloat)} {f : DecompositionFit PyFloat}

/-- A relative error of numbers has no sign. -/
theorem unsigned_relErr {x y : PyFloat} (hx : x.isFinite = true) (hy : y.isFinite = true)
    (hpos : PyFloat.lt (.ofRatio false 0 1) y = true) : (PyFloat.div (PyFloat.abs (PyFloat.sub x y)) y).unsigned = true :=
  PyFloat.unsigned_div (PyFloat.unsigned_abs (PyFloat.not_nan_sub hx hy)) hy hpos

theorem unsigned_predictedErrors {history : String → List (HistoryRow PyFloat)} {scope : List (ScopeRow PyFloat)}
    {alpha bias x : PyFloat} {pair : Int × Int}
    (hx : x ∈ predictedErrors Arith.double (rawsOf Arith.double history scope alpha pair) bias) : x.unsigned = true := by
  unfold predictedErrors at hx
  split_ifs at hx with hgate
  · obtain ⟨⟨raw, true_⟩, hraw, hx⟩ := List.mem_filterMap.1 hx
    obtain ⟨row, -, hraw⟩ := List.mem_filterMap.1 hraw
    obtain ⟨raw', -, hraw⟩ := Option.bind_eq_some_iff.1 hraw
    split_ifs at hraw with hrow
    obtain ⟨rfl, rfl⟩ := Prod.mk.inj (Option.some.inj hraw)
    simp only [Bool.and_eq_true] at hrow
    simp only at hx
    split_ifs at hx with hcorrected
    rw [Bool.and_eq_true] at hcorrected
    exact Option.some.inj hx ▸ unsigned_relErr hcorrected.1 hrow.1.2 hrow.2
  · cases hx

theorem unsigned_holdoutScores {abar : PyFloat} {best : ScoredCandidate PyFloat} {h : List String} {x : PyFloat}
    (hx : x ∈ (holdoutScores Arith.double abar best (holdoutRows h (keptOf Arith.double args t))).map Prod.fst) :
    x.unsigned = true := by
  obtain ⟨⟨err, ratio⟩, hscore, rfl⟩ := List.mem_map.1 hx
  obtain ⟨r, hr, hscore⟩ := List.mem_filterMap.1 hscore
  obtain ⟨hfinite, hpos⟩ := positive_of_kept (List.mem_of_mem_filter hr)
  obtain ⟨raw, -, hscore⟩ := Option.bind_eq_some_iff.1 hscore
  simp only at hscore
  split_ifs at hscore with hraw hgate
  obtain ⟨rfl, -⟩ := Prod.mk.inj (Option.some.inj hscore)
  rw [Bool.or_eq_true, Bool.or_eq_true, not_or, not_or] at hgate
  exact unsigned_relErr (by simpa using hgate.1.1) hfinite hpos

theorem unsigned_closeErrors {rows : List (KeptRow PyFloat)} {x : PyFloat} (hx : x ∈ closeErrors Arith.double rows) :
    x.unsigned = true := by
  obtain ⟨r, hr, rfl⟩ := List.mem_map.1 hx
  have hclose := (List.mem_filter.1 hr).2
  simp only [Bool.and_eq_true] at hclose
  obtain ⟨⟨⟨hkrx, hcons⟩, hpos⟩, -⟩ := hclose
  exact PyFloat.unsigned_mul (unsigned_relErr hcons hkrx hpos) (by decide +kernel) (by decide +kernel)

/-- A coverage is a number from zero to one. -/
theorem coverage_ratio {n d : Nat} (h : n ≤ d) :
    (Arith.double.ratio n d).isFinite = true ∧ isPart (Arith.double.ratio n d) = true := by
  obtain ⟨m, e, hc, heq, hle⟩ := PyFloat.ofRatio_part h
  have hunsigned : (PyFloat.ofRatio false n d).unsigned = true := PyFloat.unsigned_ofRatio n d
  refine ⟨?_, ?_⟩
  · show (PyFloat.ofRatio false n d).isFinite = true
    rw [heq]
    rfl
  · show isPart (PyFloat.ofRatio false n d) = true
    rw [isPart, PyFloat.zero_le_of_unsigned hunsigned, heq, PyFloat.le_one_of_part hle]
    rfl

theorem inUnit_of_not_bad {alpha : PyFloat} (h : badAlpha Arith.double alpha = false) :
    alpha.isFinite = true ∧ inUnit alpha = true := by
  simp only [badAlpha, Arith.double_zero, Arith.double_one, Arith.double_lt, Arith.double_le, Arith.double_isFinite,
    Bool.or_eq_false_iff, Bool.not_eq_false'] at h
  obtain ⟨⟨hfinite, hzero⟩, hone⟩ := h
  have hnan := PyFloat.not_nan_of_isFinite hfinite
  rw [PyFloat.le_eq hnan (PyFloat.not_nan_of_unsigned (PyFloat.unsigned_ofRatio 0 1)), Bool.not_eq_false'] at hzero
  have hle : alpha.le (.ofRatio false 1 1) = true := by
    rw [PyFloat.le_eq hnan (PyFloat.not_nan_of_unsigned (PyFloat.unsigned_ofRatio 1 1)), hone]
    rfl
  exact ⟨hfinite, by rw [inUnit, hzero, hle]; rfl⟩

/-- A number that is positive is not at most zero. -/
theorem not_le_zero {x : PyFloat} (h : PyFloat.lt (.ofRatio false 0 1) x = true) : x.le (.ofRatio false 0 1) = false := by
  simp [PyFloat.le, h]

/-- A number is below infinity. -/
theorem inf_le_double {x : PyFloat} (h : x.isFinite = true) : Arith.double.le Arith.double.inf x = false := by
  cases x with
  | nan => cases h
  | inf s => cases h
  | finite s m e hc => rfl

/-! ## The frontier of a fit -/

/-- The selection rows of a table. -/
def selectionRows (args : FitArgs PyFloat) (t : List (CalRow PyFloat)) : List (ScopeRow PyFloat) :=
  selectionScope (splitOf Arith.double args t).2 (fitRowsOf Arith.double args t)

/-- The relative errors of a candidate on the selection rows that it predicts. -/
def selectionErrors (np : Numpy PyFloat) (args : FitArgs PyFloat) (t : List (CalRow PyFloat)) (alpha : PyFloat)
    (pair : Int × Int) : List PyFloat :=
  let fit := fitRowsOf Arith.double args t
  let raws := rawsOf Arith.double (buildHistory Arith.double fit (abarOf Arith.double np fit)) (selectionRows args t) alpha pair
  predictedErrors Arith.double raws (biasOf Arith.double np raws)

/-- Every candidate with a coverage has few enough errors that overflow for its three quantiles to be finite. -/
def Saveable (np : Numpy PyFloat) (args : FitArgs PyFloat) (t : List (CalRow PyFloat)) : Prop :=
  ∀ alpha ∈ args.alphas, ∀ pair ∈ args.structures,
    Arith.double.eq (Arith.double.ratio (selectionErrors np args t alpha pair).length (selectionRows args t).length)
        Arith.double.zero = false →
      ∀ q ∈ quantiles Arith.double, overflowing (selectionErrors np args t alpha pair) +
        upperIndex q (selectionErrors np args t alpha pair).length < (selectionErrors np args t alpha pair).length

section

variable {alpha : PyFloat} {pair : Int × Int}

/-- A candidate of a fit. -/
def candidateOf (np : Numpy PyFloat) (args : FitArgs PyFloat) (t : List (CalRow PyFloat)) (alpha : PyFloat)
    (pair : Int × Int) : ScoredCandidate PyFloat :=
  scoreCandidate Arith.double np
    (buildHistory Arith.double (fitRowsOf Arith.double args t) (abarOf Arith.double np (fitRowsOf Arith.double args t)))
    (selectionRows args t) alpha pair

theorem length_selectionErrors : (selectionErrors np args t alpha pair).length ≤ (selectionRows args t).length := by
  unfold selectionErrors predictedErrors
  simp only
  split_ifs
  · exact (List.length_filterMap_le _ _).trans (List.length_filterMap_le _ _)
  · exact Nat.zero_le _

theorem coverage_candidateOf : (candidateOf np args t alpha pair).coverage =
    Arith.double.ratio (selectionErrors np args t alpha pair).length (selectionRows args t).length := by
  have hlength : (selectionErrors np args t alpha pair).length ≤ (selectionRows args t).length := length_selectionErrors
  simp only [candidateOf, scoreCandidate]
  split_ifs with hempty
  · rw [List.isEmpty_iff] at hempty
    rw [hempty] at hlength ⊢
    rw [Nat.le_zero.1 hlength]
    rfl
  · rfl

/-- **The point of a candidate is valid just where its quantiles are finite**, or missing. -/
theorem pointValid_iff (hq : QuantileSpec np) (hargs : checkArgs Arith.double args = .ok ()) (ha : alpha ∈ args.alphas)
    (hp : pair ∈ args.structures) :
    PointValid (frontierPoint Arith.double (candidateOf np args t alpha pair)) ↔
      (Arith.double.eq (Arith.double.ratio (selectionErrors np args t alpha pair).length (selectionRows args t).length)
          Arith.double.zero = false →
        ∀ q ∈ quantiles Arith.double, overflowing (selectionErrors np args t alpha pair) +
          upperIndex q (selectionErrors np args t alpha pair).length < (selectionErrors np args t alpha pair).length) := by
  obtain ⟨halphas, -, -, hpairs, -⟩ := checkArgs_ok hargs
  have hcov : (candidateOf np args t alpha pair).coverage =
      Arith.double.ratio (selectionErrors np args t alpha pair).length (selectionRows args t).length := coverage_candidateOf
  have hlength : (selectionErrors np args t alpha pair).length ≤ (selectionRows args t).length := length_selectionErrors
  have hpart := coverage_ratio hlength
  have hunsigned : ∀ x ∈ selectionErrors np args t alpha pair, x.unsigned = true := fun x hx => unsigned_predictedErrors hx
  have hpoint : frontierPoint Arith.double (candidateOf np args t alpha pair) =
      let only (x : PyFloat) : Option PyFloat := if Arith.double.eq (Arith.double.ratio
        (selectionErrors np args t alpha pair).length (selectionRows args t).length) Arith.double.zero then none else some x
      ⟨alpha, pair.1, pair.2, Arith.double.ratio (selectionErrors np args t alpha pair).length (selectionRows args t).length,
        only (quantileOr Arith.double np (Arith.double.ratio 1 2) (selectionErrors np args t alpha pair)),
        only (quantileOr Arith.double np (Arith.double.ratio 9 10) (selectionErrors np args t alpha pair)),
        only (quantileOr Arith.double np (Arith.double.ratio 99 100) (selectionErrors np args t alpha pair))⟩ := by
    unfold frontierPoint
    rw [hcov]
    rfl
  rw [hpoint]
  generalize selectionErrors np args t alpha pair = errors at hpart hunsigned ⊢
  generalize hc : Arith.double.ratio errors.length (selectionRows args t).length = coverage at hpart ⊢
  by_cases hzero : Arith.double.eq coverage Arith.double.zero = true
  · refine iff_of_true ?_ (fun h => by rw [hzero] at h; cases h)
    simp only [hzero, if_true]
    refine ⟨inUnit_of_not_bad (halphas alpha ha), (hpairs pair hp).1, (hpairs pair hp).2, hpart, ?_⟩
    simpa [QuantileValid] using hzero
  · have hne : errors ≠ [] := by
      rintro rfl
      have hnone : coverage = Arith.double.zero :=
        hc.symm.trans ((PyFloat.ofRatio_zero (selectionRows args t).length).trans (PyFloat.ofRatio_zero 1).symm)
      rw [hnone] at hzero
      exact hzero (by decide +kernel)
    have hquantile : ∀ q ∈ quantiles Arith.double, QuantileValid coverage (some (quantileOr Arith.double np q errors)) ↔
        overflowing errors + upperIndex q errors.length < errors.length := by
      intro q hmem
      rw [quantileOr, if_neg (by simpa using hne)]
      exact (and_iff_left (hq.nonneg q errors hmem hne hunsigned)).trans (hq.finite_iff q errors hmem hne hunsigned)
    rw [Bool.not_eq_true] at hzero
    simp only [hzero, Bool.false_eq_true, if_false, forall_const]
    constructor
    · intro h q hmem
      refine (hquantile q hmem).1 (h.quantiles _ ?_)
      simp only [quantiles, List.mem_cons, List.not_mem_nil, or_false] at hmem
      rcases hmem with rfl | rfl | rfl <;> simp
    · intro h
      refine ⟨inUnit_of_not_bad (halphas alpha ha), (hpairs pair hp).1, (hpairs pair hp).2, hpart, ?_⟩
      intro x hx
      simp only [List.mem_cons, List.not_mem_nil, or_false] at hx
      rcases hx with rfl | rfl | rfl
      · exact (hquantile _ (by simp [quantiles])).2 (h _ (by simp [quantiles]))
      · exact (hquantile _ (by simp [quantiles])).2 (h _ (by simp [quantiles]))
      · exact (hquantile _ (by simp [quantiles])).2 (h _ (by simp [quantiles]))

end

/-! ## Every fit -/

/-- The dates of a table are days. -/
def DaysParse (parse : String → Option Int) (t : List (CalRow PyFloat)) : Prop :=
  ∀ r ∈ t, ∀ day, r.date = some day → isDay parse day.text = true

theorem isDay_of_mem (hdays : DaysParse parse t) {text : String} (h : text ∈ datesOf (keptOf Arith.double args t)) :
    isDay parse text = true := by
  unfold datesOf at h
  rw [List.mem_insertionSort, List.mem_dedup] at h
  obtain ⟨r, hr, rfl⟩ := List.mem_map.1 h
  obtain ⟨row, hrow, hr⟩ := List.mem_filterMap.1 hr
  unfold CalRow.kept at hr
  split_ifs at hr
  obtain ⟨day, hday, rfl⟩ := Option.map_eq_some_iff.1 hr
  exact hdays row hrow day hday

theorem headD_mem {l : List String} (h : l ≠ []) : l.headD "" ∈ l := by
  cases l with
  | nil => exact absurd rfl h
  | cons a l => exact List.mem_cons_self

theorem getLastD_mem {l : List String} (h : l ≠ []) : l.getLastD "" ∈ l := by
  rw [List.getLastD_eq_getLast?, List.getLast?_eq_some_getLast h]
  exact List.getLast_mem h

/-- The days of a fit. -/
theorem days_of_fit (hdays : DaysParse parse t) {c : Chosen PyFloat} (h2 : 2 ≤ (splitOf Arith.double args t).2.length)
    (hfit : Measured Arith.double np (splitOf Arith.double args t).1 (splitOf Arith.double args t).2
      (keptOf Arith.double args t) c f) :
    [f.config.calibratedThrough, f.config.fitStart, f.config.holdoutStart, f.config.holdoutEnd].all (isDay parse) = true ∧
      [f.diagnostics.fitStart, f.diagnostics.fitEnd, f.diagnostics.holdoutStart, f.diagnostics.holdoutEnd].all
        (isDay parse) = true := by
  have hfitDates : (splitOf Arith.double args t).2 ≠ [] := by
    intro hnil
    rw [hnil] at h2
    exact absurd h2 (by decide)
  have hholdout : (splitOf Arith.double args t).1 ≠ [] := by
    intro hnil
    apply hfit.scores
    rw [hnil]
    simp [holdoutRows, holdoutScores]
  have hday2 : ∀ x ∈ (splitOf Arith.double args t).2, isDay parse x = true :=
    fun x hx => isDay_of_mem hdays (List.mem_of_mem_drop hx)
  have hday1 : ∀ x ∈ (splitOf Arith.double args t).1, isDay parse x = true :=
    fun x hx => isDay_of_mem hdays (List.mem_of_mem_take hx)
  rw [hfit.days.1, hfit.days.2]
  simp only [List.all_cons, List.all_nil, hday2 _ (headD_mem hfitDates), hday2 _ (getLastD_mem hfitDates),
    hday1 _ (headD_mem hholdout), hday1 _ (getLastD_mem hholdout), Bool.and_self, and_self]

theorem mem_scoredOf {c : ScoredCandidate PyFloat} :
    c ∈ scoredOf Arith.double np args (splitOf Arith.double args t).2 (fitRowsOf Arith.double args t) ↔
      ∃ alpha ∈ args.alphas, ∃ pair ∈ args.structures, c = candidateOf np args t alpha pair := by
  have hstructures : ∀ pair, pair ∈ structuresDeduped args.structures ↔ pair ∈ args.structures := by
    intro pair
    rw [structuresDeduped, List.mem_insertionSort, List.mem_dedup]
  refine mem_scoreCandidates.trans ?_
  simp only [hstructures]
  rfl

/-- The holdout quantiles of a fit are numbers that are not negative. -/
theorem quantiles_of_fit (hq : QuantileSpec np) {c : Chosen PyFloat} {h d : List String}
    (hfit : Measured Arith.double np h d (keptOf Arith.double args t) c f) :
    ∀ x ∈ [f.diagnostics.holdoutRelErrP50, f.diagnostics.holdoutRelErrP90, f.diagnostics.holdoutRelErrP99],
      x.isFinite = true ∧ x.lt (.ofRatio false 0 1) = false := by
  intro x hx
  constructor
  · refine List.all_eq_true.1 hfit.finite x ?_
    simp only [List.mem_cons, List.not_mem_nil, or_false] at hx ⊢
    tauto
  · rw [hfit.quantiles] at hx
    obtain ⟨q, hmem, rfl⟩ := List.mem_map.1 hx
    exact hq.nonneg q _ hmem (by simpa using hfit.scores) (fun x hx => unsigned_holdoutScores hx)

/-- **A fit that returns persists just where no quantile of its frontier reads an error that overflows.** -/
theorem persisted_iff_saveable (parse : String → Option Int) (np : Numpy PyFloat) (args : FitArgs PyFloat)
    (t : List (CalRow PyFloat)) (f : DecompositionFit PyFloat) (hq : QuantileSpec np) (hdays : DaysParse parse t)
    (hf : fitDecomposition Arith.double np args t = .ok f) : Persisted parse f ↔ Saveable np args t := by
  obtain ⟨hargs, c, hc, hm⟩ := fitDecomposition_ok hf
  obtain ⟨h2, habar, hscored, hbest, hceil⟩ := chooseOnFit_ok hc
  obtain ⟨halphas, -, -, hpairs, hceiling⟩ := checkArgs_ok hargs
  have hfit := measureOnHoldout_ok hm
  obtain ⟨hdayc, hdayd⟩ := days_of_fit hdays h2 hfit
  have hquantiles := quantiles_of_fit hq hfit
  obtain ⟨alpha, halpha, pair, hpair, heq⟩ := mem_scoredOf.1 (hscored ▸ hbest)
  obtain ⟨hbfin, hbpos⟩ := bias_of_predictedErrors (predictedErrors_of_le (inf_le_double hceiling) (heq ▸ hceil))
  have hp := hfit.parameters
  simp only [DecompositionConfig.parameters, Chosen.parameters, Prod.mk.injEq, heq] at hp
  obtain ⟨ha, hmin, hmax, hab, hb⟩ := hp
  have hfinite := hfit.finite
  simp only [List.all_cons, List.all_nil, Bool.and_true, Bool.and_eq_true, Arith.double_isFinite] at hfinite
  obtain ⟨-, hf90, -, habfin, habhfin, hbestfin, hbhfin⟩ := hfinite
  have hunit := inUnit_of_not_bad (halphas alpha halpha)
  have hconfig : ConfigValid parse f.config := by
    refine ⟨?_, ?_, ?_, ?_, ?_, ⟨?_, ?_⟩, hdayc⟩
    · simp only [List.all_cons, List.all_nil, Bool.and_true, Bool.and_eq_true]
      rw [ha, hab, hb, hfit.volumeRelErrP90]
      exact ⟨hunit.1, habfin, hbfin, hf90, hfit.closeBpErrP90.2⟩
    · rw [ha]
      exact hunit.2
    · rw [hmin]
      exact (hpairs pair hpair).1
    · rw [hmax]
      exact (hpairs pair hpair).2
    · rw [hb]
      exact not_le_zero hbpos
    · rw [hfit.volumeRelErrP90]
      exact (hquantiles _ (by simp)).2
    · rw [hfit.closeBpErrP90.1]
      exact hq.nonneg _ _ (by simp [quantiles]) hfit.closes (fun x hx => unsigned_closeErrors hx)
  rw [persisted_iff_valid, and_iff_right hconfig]
  constructor
  · intro hv alpha ha pair hp
    refine (pointValid_iff hq hargs ha hp).1 (hv.frontier.2 _ ?_)
    rw [hfit.frontier]
    exact List.mem_map_of_mem (hscored ▸ mem_scoredOf.2 ⟨alpha, ha, pair, hp, rfl⟩)
  · intro hs
    refine ⟨hquantiles, ?_, ?_, ?_, hdayd, ?_, ?_⟩
    · rw [hfit.coverage]
      exact coverage_ratio (List.length_filterMap_le _ _)
    · rw [hfit.abarFit]
      exact ⟨habfin, habhfin⟩
    · simp only [List.forall_mem_cons, List.not_mem_nil, IsEmpty.forall_iff, implies_true, and_true]
      rw [hfit.biasFit, heq]
      exact ⟨⟨hbfin, not_le_zero hbpos⟩, hbhfin, hfit.biasHoldout⟩
    · rw [hfit.frontier]
      exact List.ne_nil_of_mem (List.mem_map_of_mem hbest)
    · intro p hp
      rw [hfit.frontier] at hp
      obtain ⟨c', hc', rfl⟩ := List.mem_map.1 hp
      obtain ⟨alpha, ha, pair, hpair, rfl⟩ := mem_scoredOf.1 (hscored ▸ hc')
      exact (pointValid_iff hq hargs ha hpair).2 (hs alpha ha pair hpair)

/-! ## Two tables -/

def sortedFloats (l : List PyFloat) : List PyFloat := l.insertionSort (fun x y => x.le y = true)

def meanOf (l : List PyFloat) : PyFloat := (l.foldl PyFloat.add (.ofInt 0)).div (.ofInt l.length)

/-- The mean of the one or two numbers in the middle. -/
def medianOf (l : List PyFloat) : PyFloat :=
  meanOf (((sortedFloats l).drop ((l.length - 1) / 2)).take (if l.length % 2 = 1 then 1 else 2))

/-- `_lerp`. -/
def lerp (a b t : PyFloat) : PyFloat :=
  let diff := PyFloat.sub b a
  if (Arith.double.ratio 1 2).le t then b.sub (diff.mul (Arith.double.one.sub t)) else a.add (diff.mul t)

/-- numpy's statistics, where a sum is exact. -/
def Numpy.double : Numpy PyFloat where
  mean := meanOf
  median := medianOf
  quantile q l :=
    let v := PyFloat.mul (.ofInt ((l.length - 1 : Nat) : Int)) q
    let s := sortedFloats l
    lerp (s.getD (min v.floor (l.length - 1)) .nan) (s.getD (min (v.floor + 1) (l.length - 1)) .nan)
      (v.sub (.ofInt v.floor))

/-- The same with the higher order statistic for the quantile, which agrees with it on equal numbers. -/
def Numpy.higher : Numpy PyFloat where
  mean := meanOf
  median := medianOf
  quantile q l :=
    (sortedFloats (l.filter PyFloat.isFinite) ++ l.filter (fun x => !x.isFinite)).getD (upperIndex q l.length) .nan

/-- The order statistic that is read is one of the numbers, finite where the infinities do not reach down to it. -/
theorem higher_spec (q : PyFloat) {l : List PyFloat} (hne : l ≠ []) : ∃ x ∈ l, Numpy.higher.quantile q l = x ∧
    (x.isFinite = true ↔ overflowing l + upperIndex q l.length < l.length) := by
  have hi : upperIndex q l.length < l.length := by
    have := List.length_pos_iff.2 hne
    unfold upperIndex
    omega
  let low := sortedFloats (l.filter PyFloat.isFinite)
  let high := l.filter (fun x => !x.isFinite)
  have hlow : ∀ x ∈ low, x ∈ l ∧ x.isFinite = true := by
    intro x hx
    exact List.mem_filter.1 ((List.mem_insertionSort _).1 hx)
  have hhigh : ∀ x ∈ high, x ∈ l ∧ x.isFinite = false := by
    intro x hx
    simpa using List.mem_filter.1 hx
  have hlength : low.length + high.length = l.length := by
    rw [show low.length = (l.filter PyFloat.isFinite).length from List.length_insertionSort _ _]
    exact (List.length_eq_length_filter_add PyFloat.isFinite).symm
  have hover : overflowing l = high.length := List.countP_eq_length_filter
  have hget : Numpy.higher.quantile q l = (low ++ high).getD (upperIndex q l.length) .nan := rfl
  rw [hget, hover]
  by_cases hk : upperIndex q l.length < low.length
  · have hx : low[upperIndex q l.length] ∈ low := List.getElem_mem hk
    refine ⟨_, (hlow _ hx).1, ?_, iff_of_true (hlow _ hx).2 (by omega)⟩
    rw [List.getD_append _ _ _ _ hk, List.getD_eq_getElem _ _ hk]
  · have hk' : upperIndex q l.length - low.length < high.length := by omega
    have hx : high[upperIndex q l.length - low.length] ∈ high := List.getElem_mem hk'
    refine ⟨_, (hhigh _ hx).1, ?_, iff_of_false (by simp [(hhigh _ hx).2]) (by omega)⟩
    rw [List.getD_append_right _ _ _ _ (not_lt.1 hk), List.getD_eq_getElem _ _ hk']

theorem quantileSpec_higher : QuantileSpec Numpy.higher where
  finite_iff q l _ hne _ := by
    obtain ⟨x, -, hx, hiff⟩ := higher_spec q hne
    rwa [hx]
  nonneg q l _ hne h := by
    obtain ⟨x, hmem, hx, -⟩ := higher_spec q hne
    rw [hx]
    exact PyFloat.lt_zero_of_unsigned (h x hmem)

def fitDays : List Day :=
  [⟨"2026-01-05", 20458⟩, ⟨"2026-01-06", 20459⟩, ⟨"2026-01-07", 20460⟩, ⟨"2026-01-08", 20461⟩, ⟨"2026-01-15", 20468⟩,
    ⟨"2026-01-16", 20469⟩]

def fitParse (text : String) : Option Int := (fitDays.find? (fun d => decide (d.text = text))).map Day.ordinal

/-- A row of a thousand shares at the close. -/
def volumeRow (i : Nat) (symbol : String) (krx auction cons : PyFloat) : CalRow PyFloat where
  date := fitDays[i]?
  symbol := symbol
  vKrx1520 := krx
  auctionVolume := auction
  vCons1520 := cons
  eodVolume := .ofInt 1000
  closeKrx1519 := .ofInt 100
  closeCons1519 := .ofInt 100

/-- A table whose last row is given. -/
def volumeTable (krx auction cons : PyFloat) : List (CalRow PyFloat) :=
  let half := PyFloat.ofInt 500
  let whole := PyFloat.ofInt 1000
  [volumeRow 0 "A" half half whole, volumeRow 1 "A" half half whole, volumeRow 2 "A" half half whole,
    volumeRow 3 "B" half half whole, volumeRow 4 "A" half half whole, volumeRow 5 "A" half half whole,
    volumeRow 5 "B" krx auction cons]

def volumeArgs : FitArgs PyFloat where
  alphas := [Arith.double.ratio 1 4, Arith.double.ratio 1 2, Arith.double.ratio 3 4]
  structures := [(1, 5), (1, 30)]
  identityTolerance := Arith.double.ratio 1 100
  holdoutFraction := Arith.double.ratio 1 2
  minHoldoutDays := 1
  maxSelectionRelErrP90 := Arith.double.one
  tableSha256 := "0"

def tinyTable : List (CalRow PyFloat) := volumeTable (.ofRatio false 1 (10 ^ 300)) (.ofInt 1000) (.ofInt (10 ^ 10))

/-- The last row of a table is one whose krx volume is next to nothing: the fit returns, and its diagnostics cannot be
read back. -/
theorem tiny_share_not_persisted : ∃ f, fitDecomposition Arith.double Numpy.double volumeArgs tinyTable = .ok f ∧
    ¬ Persisted fitParse f := by
  have hrefused : (match fitDecomposition Arith.double Numpy.double volumeArgs tinyTable with
      | .ok f => (match fitDiagnosticsFromPayload fitParse (fitDiagnosticsToPayload f.diagnostics) with
        | .ok _ => false
        | .error _ => true)
      | .error _ => false) = true := by decide +kernel
  cases hf : fitDecomposition Arith.double Numpy.double volumeArgs tinyTable with
  | error e =>
    rw [hf] at hrefused
    cases hrefused
  | ok f =>
    rw [hf] at hrefused
    refine ⟨f, rfl, fun hp => ?_⟩
    simp only [hp.diagnostics] at hrefused
    cases hrefused

/-- With an ordinary last row the fit persists. -/
theorem even_table_persisted : ∃ f, fitDecomposition Arith.double Numpy.higher volumeArgs
    (volumeTable (.ofInt 500) (.ofInt 500) (.ofInt 1000)) = .ok f ∧ Persisted fitParse f := by
  have hok : (fitDecomposition Arith.double Numpy.higher volumeArgs
      (volumeTable (.ofInt 500) (.ofInt 500) (.ofInt 1000))).isOk = true := by decide +kernel
  cases hf : fitDecomposition Arith.double Numpy.higher volumeArgs (volumeTable (.ofInt 500) (.ofInt 500) (.ofInt 1000)) with
  | error e =>
    rw [hf] at hok
    cases hok
  | ok f =>
    refine ⟨f, rfl, (persisted_iff_saveable fitParse Numpy.higher volumeArgs _ f quantileSpec_higher ?_ hf).2 ?_⟩
    · unfold DaysParse
      decide +kernel
    · unfold Saveable
      decide +kernel

end Nxt
