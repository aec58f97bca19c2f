import KClosingAlpha.Ml.RetrainGate
/-!
# AdvisoryGate — what the criterion does to a promotion in advisory mode

The advisory criterion adds its findings to the verdict and nothing else, as long as it returns.  It returns exactly
where the clock is aware and its evidence reads: every conversion on the way to the status succeeds (`Reads`).
-/
namespace Ml.RetrainGate

open Py

/-! ## Evidence that reads -/

section evidence

variable (rt : Runtime) (config : PitGateConfig) (candidate : Dict Object) (now : Stamp) (report : Object)

/-- `dict` reads an identity field on both sides, where the candidate has it. -/
def MappingReads (key : String) : Prop :=
  ∀ value, candidate.lookup key = some value →
    (∃ items, value.toDict = .ok items) ∧ ∃ field items, report.attr key = .ok field ∧ field.toDict = .ok items

def SameMapping (key : String) : Prop :=
  ∃ value field items others, candidate.lookup key = some value ∧ report.attr key = .ok field ∧
    value.toDict = .ok items ∧ field.toDict = .ok others ∧ (Object.dict items).eq (.dict others) = true

structure IdentityReads : Prop where
  strategyId : ∃ v, report.attr "strategy_id" = .ok v
  topK : ∃ v, report.attr "top_k" = .ok v
  selectUniverse : MappingReads candidate report "select_universe"
  version : ∃ v, report.attr "feature_contract_version" = .ok v
  modelParams : MappingReads candidate report "model_params"
  seeds : ∃ v, report.attr "seeds" = .ok v

/-- The report was produced for the candidate's configuration. -/
structure SameIdentity : Prop where
  strategyId : ∃ v, report.attr "strategy_id" = .ok v ∧ (candidate.getD "strategy_id" .none).eq v = true
  topK : ∃ v, report.attr "top_k" = .ok v ∧ (candidate.getD "top_k" .none).eq v = true
  selectUniverse : SameMapping candidate report "select_universe"
  version : ∃ v, report.attr "feature_contract_version" = .ok v ∧
    Object.eq ((resolvedContract rt candidate).elim Object.none Object.str) v = true
  modelParams : SameMapping candidate report "model_params"
  seeds : ∃ v xs ys, report.attr "seeds" = .ok v ∧ (candidate.getD "seeds" .none).asSequence = some xs ∧
    v.asSequence = some ys ∧ Object.eqList xs ys = true

/-- The numbers the thresholds are compared with. -/
structure NumbersRead (ceiling : Option PyFloat) : Prop where
  mean : ∃ f, pitNative rt report "mean_net_bp" = .ok f
  ic : ∃ f, pitNative rt report "rank_ic_mean" = .ok f
  haircut : ceiling.isSome → ∃ f, haircutDelta rt report = .ok f

/-- A timestamp that is malformed, naive or too old settles the status. -/
def Unfresh (generatedAt : Object) : Prop :=
  ∀ generated, rt.fromIsoformat (rt.str generatedAt) = some generated →
    generated.aware = false ∨ config.maxReportAgeDays < now.date - generated.date

/-- The conversions a fresh report is put through succeed. -/
def FreshReads : Prop :=
  IdentityReads candidate report ∧
    (SameIdentity rt candidate report →
      ∃ status, report.attr "status" = .ok status ∧ (rt.str status = "OK" → NumbersRead rt report config.maxHaircutBp))

/-- The conversions on the way to the status of a report succeed. -/
def Reads : Prop :=
  report.isNone = true ∨
    ∃ g, report.attr "generated_at" = .ok g ∧ (Unfresh rt config now g ∨ FreshReads rt config candidate report)

end evidence

section lemmas

variable {rt : Runtime} {config : PitGateConfig} {candidate : Dict Object} {now : Stamp} {report : Object} {key : String}
  {names : List String}

@[simp] theorem flagUnless_eq_nil {same : Bool} {name : String} : flagUnless same name = [] ↔ same = true := by
  cases same <;> simp [flagUnless]

theorem mappingMismatch_returns :
    (∃ names, mappingMismatch candidate report key = .ok names) ↔ MappingReads candidate report key := by
  unfold mappingMismatch MappingReads
  cases candidate.lookup key with
  | none => simp
  | some value => simp

theorem mappingMismatch_nil (h : mappingMismatch candidate report key = .ok names) :
    names = [] ↔ SameMapping candidate report key := by
  unfold mappingMismatch at h
  unfold SameMapping
  cases hv : candidate.lookup key with
  | none =>
    rw [hv] at h
    obtain rfl := Except.ok.inj h
    simp
  | some value =>
    rw [hv] at h
    simp only [Exc.bind_eq_ok] at h
    obtain ⟨items, hi, field, hf, others, ho, h⟩ := h
    obtain rfl := Except.ok.inj h
    rw [flagUnless_eq_nil]
    constructor
    · exact fun heq => ⟨value, field, items, others, rfl, hf, hi, ho, heq⟩
    · rintro ⟨value', field', items', others', hv', hf', hi', ho', heq⟩
      obtain rfl := Option.some.inj hv'
      rw [hf] at hf'
      obtain rfl := Except.ok.inj hf'
      rw [hi] at hi'
      rw [ho] at ho'
      obtain rfl := Except.ok.inj hi'
      obtain rfl := Except.ok.inj ho'
      exact heq

theorem seedsMismatch_nil {xs ys : Option (List Object)} :
    seedsMismatch xs ys = [] ↔ ∃ as bs, xs = some as ∧ ys = some bs ∧ Object.eqList as bs = true := by
  cases xs with
  | none => simp [seedsMismatch]
  | some as =>
    cases ys with
    | none => simp [seedsMismatch]
    | some bs => simp [seedsMismatch]

theorem identityMismatch_returns :
    (∃ names, identityMismatch rt candidate report = .ok names) ↔ IdentityReads candidate report := by
  unfold identityMismatch
  simp only [Exc.bind_eq_ok]
  constructor
  · rintro ⟨names, s, hs, k, hk, u, hu, v, hv, p, hp, d, hd, -⟩
    exact ⟨⟨s, hs⟩, ⟨k, hk⟩, mappingMismatch_returns.1 ⟨u, hu⟩, ⟨v, hv⟩, mappingMismatch_returns.1 ⟨p, hp⟩, ⟨d, hd⟩⟩
  · rintro ⟨⟨s, hs⟩, ⟨k, hk⟩, hu, ⟨v, hv⟩, hp, ⟨d, hd⟩⟩
    obtain ⟨u, hu⟩ := mappingMismatch_returns.2 hu
    obtain ⟨p, hp⟩ := mappingMismatch_returns.2 hp
    exact ⟨_, s, hs, k, hk, u, hu, v, hv, p, hp, d, hd, rfl⟩

theorem identityMismatch_nil (h : identityMismatch rt candidate report = .ok names) :
    names = [] ↔ SameIdentity rt candidate report := by
  unfold identityMismatch at h
  simp only [Exc.bind_eq_ok] at h
  obtain ⟨s, hs, k, hk, u, hu, v, hv, p, hp, d, hd, h⟩ := h
  obtain rfl := Except.ok.inj h
  simp only [List.append_eq_nil_iff, flagUnless_eq_nil, seedsMismatch_nil, mappingMismatch_nil hu, mappingMismatch_nil hp]
  constructor
  · rintro ⟨⟨⟨⟨⟨hs', hk'⟩, hu'⟩, hv'⟩, hp'⟩, as, bs, ha, hb, hab⟩
    exact ⟨⟨s, hs, hs'⟩, ⟨k, hk, hk'⟩, hu', ⟨v, hv, hv'⟩, hp', d, as, bs, hd, ha, hb, hab⟩
  · rintro ⟨⟨s', hs', hse⟩, ⟨k', hk', hke⟩, hu', ⟨v', hv', hve⟩, hp', d', as, bs, hd', ha, hb, hab⟩
    rw [hs] at hs'
    rw [hk] at hk'
    rw [hv] at hv'
    rw [hd] at hd'
    obtain rfl := Except.ok.inj hs'
    obtain rfl := Except.ok.inj hk'
    obtain rfl := Except.ok.inj hv'
    obtain rfl := Except.ok.inj hd'
    exact ⟨⟨⟨⟨⟨hse, hke⟩, hu'⟩, hve⟩, hp'⟩, as, bs, ha, hb, hab⟩

theorem thresholdFailures_returns :
    (∃ failures, thresholdFailures rt config report = .ok failures) ↔ NumbersRead rt report config.maxHaircutBp := by
  unfold thresholdFailures
  simp only [Exc.bind_eq_ok]
  constructor
  · rintro ⟨failures, m, hm, i, hi, h⟩
    refine ⟨⟨m, hm⟩, ⟨i, hi⟩, fun hsome => ?_⟩
    obtain ⟨ceiling, hc⟩ := Option.isSome_iff_exists.1 hsome
    simp only [hc, Exc.bind_eq_ok] at h
    obtain ⟨f, hf, -⟩ := h
    exact ⟨f, hf⟩
  · rintro ⟨⟨m, hm⟩, ⟨i, hi⟩, hh⟩
    cases hc : config.maxHaircutBp with
    | none => exact ⟨_, m, hm, i, hi, rfl⟩
    | some ceiling =>
      obtain ⟨f, hf⟩ := hh (by rw [hc]; rfl)
      exact ⟨_, m, hm, i, hi, by rw [hf]; rfl⟩

theorem scoreFresh_returns :
    (∃ p, scoreFresh rt config candidate report = .ok p) ↔ FreshReads rt config candidate report := by
  unfold scoreFresh FreshReads
  rw [← identityMismatch_returns]
  cases hm : identityMismatch rt candidate report with
  | error e => simp
  | ok names =>
    rw [Exc.ok_bind, ← identityMismatch_nil hm]
    by_cases hn : names = []
    · rw [if_neg (by simpa using hn)]
      cases hs : report.attr "status" with
      | error e => simp [hn]
      | ok status =>
        rw [Exc.ok_bind]
        by_cases hok : rt.str status = "OK"
        · rw [if_neg (by simpa using hok)]
          rw [Exc.returns_bind_ok, thresholdFailures_returns]
          simp [hn, hok]
        · rw [if_pos hok]
          simp [hn, hok]
    · rw [if_pos hn]
      simp [hn]

/-- **The criterion returns exactly where the clock is aware and the evidence reads.** -/
theorem evaluateSelectedPitGate_returns (hmode : config.mode ≠ .off) :
    (∃ p, evaluateSelectedPitGate rt config candidate now report = .ok p) ↔
      now.aware = true ∧ Reads rt config candidate now report := by
  unfold evaluateSelectedPitGate Reads
  rw [if_neg hmode]
  cases ha : now.aware with
  | false => simp
  | true =>
    cases hr : report.isNone with
    | true => simp
    | false =>
      cases hg : report.attr "generated_at" with
      | error e => simp
      | ok g =>
        unfold Unfresh
        rw [Exc.ok_bind]
        cases hp : rt.fromIsoformat (rt.str g) with
        | none => simp [hp]
        | some generated =>
          cases hga : generated.aware with
          | false => simp [hp, hga]
          | true =>
            by_cases hold : config.maxReportAgeDays < now.date - generated.date
            · simp [hp, hga, hold]
            · simp [hp, hga, hold, ← scoreFresh_returns]

end lemmas

/-! ## The gate in advisory mode -/

section gate

variable {D : Type} {rt : Runtime} {strategy : Strategy} {today : Int} {x : Inputs D}

/-- The clock is aware and the evidence of the selected report reads. -/
def Inputs.EvidenceReads (rt : Runtime) (today : Int) (x : Inputs D) : Prop :=
  (x.effNow today).aware = true ∧
    ∀ report note arm,
      selectPitReport rt x.pitReport x.pitReconReport x.pitReconAdopted x.pitReconDetail = .ok (report, note, arm) →
        Reads rt x.pitGate x.candidate (x.effNow today) report

/-- A verdict with other findings of the criterion. -/
def PromotionVerdict.withPit (v : PromotionVerdict) (pitStatus : PitStatus) (pitReasons : List String) (pitArm : PitArm) :
    PromotionVerdict :=
  { v with pitStatus, pitReasons, pitArm }

theorem verdict_advisory (status status' : PitStatus) (reasons reasons' : List String) (arm arm' : PitArm) (d : Decision) :
    verdict .advisory status reasons arm d = (verdict .off status' reasons' arm' d).withPit status reasons arm := rfl

/-- With the criterion off, only the selection of the report precedes the gate's own checks. -/
theorem evaluatePitGate_off (x : Inputs D) :
    evaluatePitGate rt today .off x =
      (fun s => (PitStatus.off, [], s.2.2)) <$>
        selectPitReport rt x.pitReport x.pitReconReport x.pitReconAdopted x.pitReconDetail := by
  unfold evaluatePitGate
  cases selectPitReport rt x.pitReport x.pitReconReport x.pitReconAdopted x.pitReconDetail with
  | error e => rfl
  | ok s => simp [evaluateSelectedPitGate]

/-- A report selected, the advisory criterion returns exactly where its evidence reads. -/
theorem evaluatePitGate_returns {s : Object × String × PitArm}
    (hsel : selectPitReport rt x.pitReport x.pitReconReport x.pitReconAdopted x.pitReconDetail = .ok s) :
    (∃ p, evaluatePitGate rt today .advisory x = .ok p) ↔ x.EvidenceReads rt today := by
  obtain ⟨report, note, arm⟩ := s
  have hreads : (∃ p, evaluateSelectedPitGate rt { x.pitGate with mode := .advisory } x.candidate (x.effNow today) report =
      .ok p) ↔ (x.effNow today).aware = true ∧ Reads rt { x.pitGate with mode := .advisory } x.candidate
        (x.effNow today) report := evaluateSelectedPitGate_returns (by simp)
  have hev : x.EvidenceReads rt today ↔
      (x.effNow today).aware = true ∧ Reads rt x.pitGate x.candidate (x.effNow today) report := by
    unfold Inputs.EvidenceReads
    rw [hsel]
    simp
  rw [hev]
  unfold evaluatePitGate
  rw [hsel, Exc.ok_bind]
  exact (Exc.returns_bind_ok _ _).trans hreads

/-- Where the criterion returns, advisory mode ends as the mode that evaluates nothing does. -/
theorem evaluate_of_returns {p : PitStatus × List String × PitArm} (h : evaluatePitGate rt today .advisory x = .ok p) :
    evaluateRetrainPromotion rt strategy today .advisory x =
      (fun v => v.withPit p.1 p.2.1 p.2.2) <$> evaluateRetrainPromotion rt strategy today .off x := by
  have hoff : ∃ arm, evaluatePitGate rt today .off x = .ok (.off, [], arm) := by
    rw [evaluatePitGate_off]
    unfold evaluatePitGate at h
    obtain ⟨s, hs, -⟩ := (Exc.bind_eq_ok _ _ _).1 h
    rw [hs]
    exact ⟨_, rfl⟩
  obtain ⟨arm, hoff⟩ := hoff
  unfold evaluateRetrainPromotion
  rw [h, hoff, Exc.ok_bind, Exc.ok_bind]
  cases decision rt strategy x with
  | error e => rfl
  | ok d => rfl

/-- **The advisory criterion changes nothing but its own findings**: where the clock is aware and the evidence reads,
the gate ends as it does with the criterion off.  A naive clock is refused. -/
theorem evaluateRetrainPromotion_advisory (rt : Runtime) (strategy : Strategy) (today : Int) (x : Inputs D) :
    (x.EvidenceReads rt today → ∃ status reasons arm,
      evaluateRetrainPromotion rt strategy today .advisory x =
        (fun v => v.withPit status reasons arm) <$> evaluateRetrainPromotion rt strategy today .off x) ∧
      ((x.effNow today).aware = false → ∃ e, evaluateRetrainPromotion rt strategy today .advisory x = .error e) := by
  cases hsel : selectPitReport rt x.pitReport x.pitReconReport x.pitReconAdopted x.pitReconDetail with
  | error e =>
    have hfail (mode : PitGateMode) : evaluateRetrainPromotion rt strategy today mode x = .error e := by
      unfold evaluateRetrainPromotion evaluatePitGate
      rw [hsel]
      rfl
    rw [hfail, hfail]
    exact ⟨fun _ => ⟨.off, [], .none, rfl⟩, fun _ => ⟨e, rfl⟩⟩
  | ok s =>
    refine ⟨fun hev => ?_, fun hnaive => ?_⟩
    · obtain ⟨p, hp⟩ := (evaluatePitGate_returns hsel).2 hev
      exact ⟨p.1, p.2.1, p.2.2, evaluate_of_returns hp⟩
    · cases hp : evaluatePitGate rt today .advisory x with
      | error e =>
        refine ⟨e, ?_⟩
        unfold evaluateRetrainPromotion
        rw [hp]
        rfl
      | ok p =>
        have hev := (evaluatePitGate_returns hsel).1 ⟨p, hp⟩
        rw [hev.1] at hnaive
        cases hnaive

/-! A bootstrap candidate, and a report produced for it the same day. -/

private def plainRuntime : Runtime where
  str value := match value with
    | .str s => s
    | _ => "None"
  repr value := match value with
    | .str s => s!"'{s}'"
    | _ => "None"
  reprStamp _ := "datetime.datetime(2026, 10, 4, 0, 0)"
  fixed _ _ := "0.0"
  floatOfStr _ := .error (.value "could not convert string to float")
  fromIsoformat s := if s = "2026-10-04T15:00:00+09:00" then some ⟨739893, true⟩ else none
  sorted := .ok

private def plainScreen : UniverseSpec where
  chgMin := PyFloat.ofDecimal false 5 (-2)
  chgMax := PyFloat.ofDecimal false 3 (-1)
  minTradeValue100m := PyFloat.ofInt 100
  minMarketCap100m := PyFloat.ofInt 1000

private def plainCandidate : Dict Object :=
  [("strategy_id", .str "KCA-TOPK-COSTAWARE-002"), ("top_k", .int 3),
   ("select_universe", .dict (plainScreen.asdict.map (fun p => (.str p.1, p.2)))), ("feature_contract_version", .str "1"),
   ("model_params", .dict [(.str "num_leaves", .int 31)]), ("seeds", .list [.int 7]),
   ("feature_cols", .list [.str "chg_ratio"]), ("return_model", .inst "LGBMRanker" [])]

private def plainReport (modelParams : Object) : Object :=
  .inst "PitHaircutReport"
    [("generated_at", .str "2026-10-04T15:00:00+09:00"), ("strategy_id", .str "KCA-TOPK-COSTAWARE-002"), ("top_k", .int 3),
     ("select_universe", .dict (plainScreen.asdict.map (fun p => (.str p.1, p.2)))), ("feature_contract_version", .str "1"),
     ("model_params", modelParams), ("seeds", .tuple [.int 7]), ("status", .str "OK"),
     ("mean_net_bp", .dict [(.str "pit_native", .float (PyFloat.ofInt 12))]),
     ("rank_ic_mean", .dict [(.str "pit_native", .float (PyFloat.ofDecimal false 5 (-2)))])]

private def plainInputs (modelParams : Object) (aware : Bool) : Inputs Int where
  candidate := plainCandidate
  current := none
  evalFrame :=
    { columns := [.str "date", .str "chg_ratio"]
      empty := false
      column := fun _ => .ok [739892, 739892]
      predict := fun _ _ => .ok [PyFloat.ofInt 1, PyFloat.ofInt 2]
      constantWithinDay := fun _ _ => .ok false
      meanDailyRankAgreement := fun _ _ _ => .ok none }
  minAgreement := PyFloat.ofDecimal false 95 (-2)
  pitReport := plainReport modelParams
  pitGate := {}
  now := some ⟨739893, aware⟩

private def plainParams : Object := .dict [(.str "num_leaves", .int 31)]

theorem evaluateRetrainPromotion_advisory_fresh :
    (plainInputs plainParams true).EvidenceReads plainRuntime 739893 ∧ ∃ status reasons arm,
      evaluateRetrainPromotion plainRuntime ⟨plainScreen, plainScreen⟩ 739893 .advisory (plainInputs plainParams true) =
        (fun v => v.withPit status reasons arm) <$>
          evaluateRetrainPromotion plainRuntime ⟨plainScreen, plainScreen⟩ 739893 .off (plainInputs plainParams true) := by
  have hreads : (plainInputs plainParams true).EvidenceReads plainRuntime 739893 :=
    (evaluatePitGate_returns (s := (plainReport plainParams, "", .arm1)) rfl).1
      ⟨(.pass, [], .arm1), by decide +kernel⟩
  exact ⟨hreads, (evaluateRetrainPromotion_advisory _ _ _ _).1 hreads⟩

/-- A clock without a time zone stops the advisory gate where the gate without the criterion promotes. -/
theorem advisory_refuses_naive_clock :
    evaluateRetrainPromotion plainRuntime ⟨plainScreen, plainScreen⟩ 739893 .off (plainInputs plainParams false) =
        .ok { promote := true, reasons := [], agreement := none, pitArm := .arm1 } ∧
      evaluateRetrainPromotion plainRuntime ⟨plainScreen, plainScreen⟩ 739893 .advisory (plainInputs plainParams false) =
        .error (.value "pit gate now must be timezone-aware, got datetime.datetime(2026, 10, 4, 0, 0)") := by
  decide +kernel

/-- Nothing weaker would do: a verdict of both modes means that the evidence reads. -/
theorem advisory_returns_iff :
    (∃ v w, evaluateRetrainPromotion rt strategy today .off x = .ok v ∧
      evaluateRetrainPromotion rt strategy today .advisory x = .ok w ∧
        w.promote = v.promote ∧ w.reasons = v.reasons ∧ w.agreement = v.agreement) ↔
      (∃ v, evaluateRetrainPromotion rt strategy today .off x = .ok v) ∧ x.EvidenceReads rt today := by
  constructor
  · rintro ⟨v, w, hv, hw, -⟩
    refine ⟨⟨v, hv⟩, ?_⟩
    obtain ⟨p, hp, -⟩ := (Exc.bind_eq_ok _ _ _).1 hw
    have hsel := hp
    unfold evaluatePitGate at hsel
    obtain ⟨s, hs, -⟩ := (Exc.bind_eq_ok _ _ _).1 hsel
    exact (evaluatePitGate_returns hs).1 ⟨p, hp⟩
  · rintro ⟨⟨v, hv⟩, hev⟩
    obtain ⟨p, hp, -⟩ := (Exc.bind_eq_ok _ _ _).1 hv
    rw [evaluatePitGate_off, Exc.map_eq_ok] at hp
    obtain ⟨s, hs, -⟩ := hp
    obtain ⟨q, hq⟩ := (evaluatePitGate_returns hs).2 hev
    refine ⟨v, v.withPit q.1 q.2.1 q.2.2, hv, ?_, rfl, rfl, rfl⟩
    rw [evaluate_of_returns hq, hv]
    rfl

/-- A report whose model parameters are absent does not read. -/
example :
    (evaluateRetrainPromotion plainRuntime ⟨plainScreen, plainScreen⟩ 739893 .advisory (plainInputs .none true)).isOk = false := by
  decide +kernel

end gate

end Ml.RetrainGate
