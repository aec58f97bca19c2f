import KClosingAlpha.Ml.AdvisoryGate
/-!
# PitSoundness — what a passing criterion on the decision-time report means

Instants and offsets are told apart here: the criterion compares the dates the two timestamps show.  A report passes
exactly where every check accepts it (`Accepted`), and that is sound (`Sound`) only for a report that is not dated in
the future, under thresholds that are numbers.
-/
namespace Ml.RetrainGate

open Py

/-- A `datetime`: a naive one has a date, an aware one an instant and the offset of its clock, in microseconds. -/
inductive Reading where
  | naive (date : Int)
  | aware (instant offset : Int)

def microsPerDay : Int := 86400000000

/-- What the gate reads of a `datetime`. -/
def Reading.stamp : Reading → Stamp
  | .naive date => ⟨date, false⟩
  | .aware instant offset => ⟨(instant + offset) / microsPerDay, true⟩

/-- The runtime whose `datetime.fromisoformat` is `parse`. -/
def Runtime.parsing (rt : Runtime) (parse : String → Option Reading) : Runtime :=
  { rt with fromIsoformat := fun s => (parse s).map Reading.stamp }

@[simp] theorem parsing_fromIsoformat (rt : Runtime) (parse : String → Option Reading) (s : String) :
    (rt.parsing parse).fromIsoformat s = (parse s).map Reading.stamp := rfl

@[simp] theorem parsing_str (rt : Runtime) (parse : String → Option Reading) : (rt.parsing parse).str = rt.str := rfl

section sound

variable (rt : Runtime) (parse : String → Option Reading) (config : PitGateConfig) (candidate : Dict Object) (now : Reading)
variable (report : Object)

/-- The timestamp of the report and the clock reading, both aware, stand in a relation. -/
def Dated (P : Reading → Reading → Prop) : Prop :=
  ∃ g written, report.attr "generated_at" = .ok g ∧ parse (rt.str g) = some written ∧ written.stamp.aware = true ∧
    now.stamp.aware = true ∧ P written now

/-- The age in calendar days, of which the configuration allows so many. -/
def Recent (written now : Reading) : Prop := now.stamp.date - written.stamp.date ≤ config.maxReportAgeDays

/-- The report was not written after the clock reading. -/
def Past : Reading → Reading → Prop
  | .aware written _, .aware now _ => written ≤ now
  | _, _ => False

/-- A number of the report against a threshold. -/
def Number (x : Except Error PyFloat) (P : PyFloat → Prop) : Prop := ∃ f, x = .ok f ∧ P f

/-- Every threshold of the configuration is met. -/
structure ThresholdsMet : Prop where
  mean : Number (pitNative rt report "mean_net_bp") (fun f => config.minPitNativeMeanNetBp.le f = true)
  ic : Number (pitNative rt report "rank_ic_mean") (fun f => config.minPitRankIc.le f = true)
  haircut : ∀ ceiling, config.maxHaircutBp = some ceiling → Number (haircutDelta rt report) (fun f => f.le ceiling = true)

/-- What a passing report is meant to be: aged between zero and the maximum, of the candidate's configuration, and within
every threshold. -/
structure Sound : Prop where
  age : Dated rt parse now report (fun written now => Past written now ∧ Recent config written now)
  identity : SameIdentity rt candidate report
  thresholds : ThresholdsMet rt config report

/-- No threshold the report violates. -/
structure Unviolated : Prop where
  mean : Number (pitNative rt report "mean_net_bp") (fun f => f.isFinite = true ∧ f.lt config.minPitNativeMeanNetBp = false)
  ic : Number (pitNative rt report "rank_ic_mean") (fun f => f.isFinite = true ∧ f.lt config.minPitRankIc = false)
  haircut : ∀ ceiling, config.maxHaircutBp = some ceiling →
    Number (haircutDelta rt report) (fun f => f.isFinite = true ∧ ceiling.lt f = false)

/-- Every check of the criterion accepts the report. -/
structure Accepted : Prop where
  on : config.mode ≠ .off
  age : report.isNone = false ∧ Dated rt parse now report (Recent config)
  identity : SameIdentity rt candidate report
  status : ∃ status, report.attr "status" = .ok status ∧ rt.str status = "OK"
  thresholds : Unviolated rt config report

/-- No threshold is a NaN. -/
structure Ordered : Prop where
  mean : config.minPitNativeMeanNetBp.isNan = false
  ic : config.minPitRankIc.isNan = false
  haircut : ∀ ceiling, config.maxHaircutBp = some ceiling → ceiling.isNan = false

/-- The criterion's verdict is PASS. -/
def Passes : Prop :=
  ∃ reasons, evaluateSelectedPitGate (rt.parsing parse) config candidate now.stamp report = .ok (.pass, reasons)

end sound

section lemmas

variable {rt : Runtime} {parse : String → Option Reading} {config : PitGateConfig} {candidate : Dict Object} {now : Reading}
variable {report : Object}

theorem flagUnless_and {b c : Bool} {name : String} : flagUnless (b && !c) name = [] ↔ b = true ∧ c = false := by simp

theorem number_congr {x : Except Error PyFloat} {f : PyFloat} (h : x = .ok f) (P : PyFloat → Prop) : Number x P ↔ P f := by
  simp [Number, h]

theorem thresholdFailures_eq_nil : thresholdFailures rt config report = .ok [] ↔ Unviolated rt config report := by
  unfold thresholdFailures
  simp only [Exc.bind_eq_ok]
  constructor
  · rintro ⟨m, hm, i, hi, h⟩
    cases hc : config.maxHaircutBp with
    | none =>
      simp only [hc, Except.ok.injEq, List.append_eq_nil_iff, flagUnless_and] at h
      exact ⟨⟨m, hm, h.1⟩, ⟨i, hi, h.2⟩, fun ceiling hceiling => by rw [hc] at hceiling; cases hceiling⟩
    | some ceiling =>
      simp only [hc, Exc.bind_eq_ok, Except.ok.injEq, List.append_eq_nil_iff, flagUnless_and] at h
      obtain ⟨d, hd, ⟨hmean, hic⟩, hhaircut⟩ := h
      refine ⟨⟨m, hm, hmean⟩, ⟨i, hi, hic⟩, fun ceiling' hceiling => ?_⟩
      rw [hc] at hceiling
      cases hceiling
      exact ⟨d, hd, hhaircut⟩
  · rintro ⟨⟨m, hm, hmean⟩, ⟨i, hi, hic⟩, hhaircut⟩
    refine ⟨m, hm, i, hi, ?_⟩
    cases hc : config.maxHaircutBp with
    | none => simp [hmean, hic]
    | some ceiling =>
      obtain ⟨d, hd, hwithin⟩ := hhaircut ceiling hc
      simp [hd, hmean, hic, hwithin]

theorem SameMapping.reads {key : String} (h : SameMapping candidate report key) : MappingReads candidate report key := by
  obtain ⟨value, field, items, others, hv, hf, hi, ho, -⟩ := h
  intro value' hv'
  rw [hv] at hv'
  cases hv'
  exact ⟨⟨items, hi⟩, field, others, hf, ho⟩

theorem SameIdentity.reads (h : SameIdentity rt candidate report) : IdentityReads candidate report where
  strategyId := h.strategyId.imp fun _ => And.left
  topK := h.topK.imp fun _ => And.left
  selectUniverse := h.selectUniverse.reads
  version := h.version.imp fun _ => And.left
  modelParams := h.modelParams.reads
  seeds := h.seeds.imp fun _ ⟨_, _, hseeds, _⟩ => hseeds

theorem scoreFresh_pass :
    (∃ reasons, scoreFresh rt config candidate report = .ok (.pass, reasons)) ↔
      SameIdentity rt candidate report ∧ (∃ status, report.attr "status" = .ok status ∧ rt.str status = "OK") ∧
        Unviolated rt config report := by
  unfold scoreFresh
  cases hm : identityMismatch rt candidate report with
  | error e =>
    have hno : ¬ SameIdentity rt candidate report := fun hsame => by
      obtain ⟨names, hnames⟩ := identityMismatch_returns.2 hsame.reads
      rw [hm] at hnames
      cases hnames
    simp [hno]
  | ok names =>
    rw [Exc.ok_bind, ← identityMismatch_nil hm, ← thresholdFailures_eq_nil]
    by_cases hn : names = []
    · rw [if_neg (by simpa using hn)]
      cases hs : report.attr "status" with
      | error e => simp
      | ok status =>
        rw [Exc.ok_bind]
        by_cases hok : rt.str status = "OK"
        · rw [if_neg (by simpa using hok)]
          cases ht : thresholdFailures rt config report with
          | error e => simp
          | ok failures =>
            cases failures <;> simp [hn, hok]
        · simp [hok]
    · simp [hn]

theorem sameIdentity_parsing : SameIdentity (rt.parsing parse) candidate report ↔ SameIdentity rt candidate report :=
  ⟨fun h => ⟨h.strategyId, h.topK, h.selectUniverse, h.version, h.modelParams, h.seeds⟩,
    fun h => ⟨h.strategyId, h.topK, h.selectUniverse, h.version, h.modelParams, h.seeds⟩⟩

theorem unviolated_parsing : Unviolated (rt.parsing parse) config report ↔ Unviolated rt config report :=
  ⟨fun h => ⟨h.mean, h.ic, h.haircut⟩, fun h => ⟨h.mean, h.ic, h.haircut⟩⟩

/-- **The verdict is PASS exactly where every check accepts the report.** -/
theorem passes_iff : Passes rt parse config candidate now report ↔ Accepted rt parse config candidate now report := by
  have hfresh : (∃ reasons, scoreFresh (rt.parsing parse) config candidate report = .ok (.pass, reasons)) ↔ _ :=
    scoreFresh_pass
  rw [sameIdentity_parsing, unviolated_parsing, parsing_str] at hfresh
  unfold Passes evaluateSelectedPitGate
  constructor
  · intro h
    by_cases hmode : config.mode = .off
    · simp [hmode] at h
    rw [if_neg hmode] at h
    cases hnow : now.stamp.aware with
    | false => simp [hnow] at h
    | true =>
      cases hnone : report.isNone with
      | true => simp [hnow, hnone] at h
      | false =>
        cases hg : report.attr "generated_at" with
        | error e => simp [hnow, hnone, hg] at h
        | ok g =>
          cases hp : parse (rt.str g) with
          | none => simp [hnow, hnone, hg, hp] at h
          | some written =>
            cases hw : written.stamp.aware with
            | false => simp [hnow, hnone, hg, hp, hw] at h
            | true =>
              by_cases hold : config.maxReportAgeDays < now.stamp.date - written.stamp.date
              · simp [hnow, hnone, hg, hp, hw, hold] at h
              · have hscore : ∃ reasons, scoreFresh (rt.parsing parse) config candidate report = .ok (.pass, reasons) := by
                  simpa [hnow, hnone, hg, hp, hw, hold] using h
                obtain ⟨hsame, hstatus, hunviolated⟩ := hfresh.1 hscore
                exact ⟨hmode, ⟨hnone, g, written, hg, hp, hw, hnow, Int.not_lt.1 hold⟩, hsame, hstatus, hunviolated⟩
  · rintro ⟨hmode, ⟨hnone, g, written, hg, hp, hw, hnow, hage⟩, hsame, hstatus, hunviolated⟩
    obtain ⟨reasons, hscore⟩ := hfresh.2 ⟨hsame, hstatus, hunviolated⟩
    refine ⟨reasons, ?_⟩
    have hnotold : ¬ config.maxReportAgeDays < now.stamp.date - written.stamp.date := Int.not_lt.2 hage
    simp only [if_neg hmode, hnow, hnone, hg, Exc.ok_bind]
    simpa [hp, hw, hnotold] using hscore

theorem le_of_isFinite {f x : PyFloat} (hf : f.isFinite = true) (hx : x.isNan = false) :
    (x.le f = true ↔ f.lt x = false) ∧ (f.le x = true ↔ x.lt f = false) := by
  have hfn : f.isNan = false := by cases f <;> first | rfl | cases hf
  simp [PyFloat.le, hfn, hx]

/-- Thresholds that are numbers are met where they are not violated. -/
theorem Unviolated.met (h : Unviolated rt config report) : ThresholdsMet rt config report ↔ Ordered config := by
  obtain ⟨⟨m, hm, hmfinite, hmean⟩, ⟨i, hi, hifinite, hic⟩, hhaircut⟩ := h
  constructor
  · rintro ⟨⟨m', hm', hmean'⟩, ⟨i', hi', hic'⟩, hhaircut'⟩
    refine ⟨?_, ?_, fun ceiling hceiling => ?_⟩
    · simp only [PyFloat.le, Bool.and_eq_true, Bool.not_eq_true'] at hmean'
      exact hmean'.1.1
    · simp only [PyFloat.le, Bool.and_eq_true, Bool.not_eq_true'] at hic'
      exact hic'.1.1
    · obtain ⟨d, -, hd⟩ := hhaircut' ceiling hceiling
      simp only [PyFloat.le, Bool.and_eq_true, Bool.not_eq_true'] at hd
      exact hd.1.2
  · rintro ⟨hmnan, hinan, hcnan⟩
    refine ⟨⟨m, hm, (le_of_isFinite hmfinite hmnan).1.2 hmean⟩, ⟨i, hi, (le_of_isFinite hifinite hinan).1.2 hic⟩, ?_⟩
    intro ceiling hceiling
    obtain ⟨d, hd, hdfinite, hwithin⟩ := hhaircut ceiling hceiling
    exact ⟨d, hd, (le_of_isFinite hdfinite (hcnan ceiling hceiling)).2.2 hwithin⟩

/-- **PASS is sound exactly for reports that are not dated in the future, under thresholds that are numbers.** -/
theorem passes_sound_iff (rt : Runtime) (parse : String → Option Reading) (config : PitGateConfig)
    (candidate : Dict Object) (now : Reading) (report : Object) :
    (Passes rt parse config candidate now report → Sound rt parse config candidate now report) ↔
      (Accepted rt parse config candidate now report → Dated rt parse now report Past ∧ Ordered config) := by
  rw [passes_iff]
  constructor
  · intro h haccepted
    have hsound := h haccepted
    obtain ⟨g, written, hg, hp, hw, hnow, hpast, -⟩ := hsound.age
    exact ⟨⟨g, written, hg, hp, hw, hnow, hpast⟩, haccepted.thresholds.met.1 hsound.thresholds⟩
  · intro h haccepted
    obtain ⟨⟨g, written, hg, hp, hw, hnow, hpast⟩, hordered⟩ := h haccepted
    obtain ⟨-, g', written', hg', hp', -, -, hrecent⟩ := haccepted.age
    rw [hg] at hg'
    cases hg'
    rw [hp] at hp'
    cases hp'
    exact ⟨⟨g, written, hg, hp, hw, hnow, hpast, hrecent⟩, haccepted.identity, haccepted.thresholds.met.2 hordered⟩

end lemmas

/-! ## A report from next year -/

private def textsOnly : Runtime where
  str value := match value with
    | .str s => s
    | _ => "None"
  repr _ := "None"
  reprStamp _ := "None"
  fixed _ _ := "0.0"
  floatOfStr _ := .error (.value "could not convert string to float")
  fromIsoformat _ := none
  sorted := .ok

/-- Midnight of 2027-10-04 in Seoul. -/
private def nextYear (s : String) : Option Reading :=
  if s = "2027-10-04T00:00:00+09:00" then some (.aware (740257 * microsPerDay) 32400000000) else none

private def bareCandidate : Dict Object :=
  [("strategy_id", .str "KCA-TOPK-COSTAWARE-002"), ("top_k", .int 3), ("select_universe", .dict []),
   ("feature_contract_version", .str "1"), ("model_params", .dict []), ("seeds", .list [.int 7])]

private def bareReport : Object :=
  .inst "PitHaircutReport"
    [("generated_at", .str "2027-10-04T00:00:00+09:00"), ("strategy_id", .str "KCA-TOPK-COSTAWARE-002"), ("top_k", .int 3),
     ("select_universe", .dict []), ("feature_contract_version", .str "1"), ("model_params", .dict []),
     ("seeds", .tuple [.int 7]), ("status", .str "OK"),
     ("mean_net_bp", .dict [(.str "pit_native", .float (PyFloat.ofInt 12))]),
     ("rank_ic_mean", .dict [(.str "pit_native", .float (PyFloat.ofInt 1))])]

/-- At noon of 2026-10-04 the report passes. -/
theorem passes_from_next_year :
    ¬ (Passes textsOnly nextYear { mode := .enforce } bareCandidate (.aware (739892 * microsPerDay) 0) bareReport →
        Sound textsOnly nextYear { mode := .enforce } bareCandidate (.aware (739892 * microsPerDay) 0) bareReport) := by
  intro h
  have hpass : Passes textsOnly nextYear { mode := .enforce } bareCandidate (.aware (739892 * microsPerDay) 0) bareReport :=
    ⟨[], by decide +kernel⟩
  obtain ⟨g, written, hg, hp, -, -, hpast, -⟩ := (h hpass).age
  cases hg
  cases hp
  have hle : 740257 * microsPerDay ≤ 739892 * microsPerDay := hpast
  exact absurd hle (by decide)

end Ml.RetrainGate
