import KClosingAlpha.Alert.Reconcile
import KClosingAlpha.Alert.PagerRuns
/-!
# Unmeasured — what a tick does to the issues it could not measure

A class whose measurement raises keeps its keys; one whose measurement answers that it could not measure loses them, and
a running backup keeps them in the open set but not among the keys the pager is told of.  Where neither happens
(`Tick.Covers`), no run of ticks forgets an issue it did not measure (`ticks_keep_unmeasured`).
-/
namespace Alert

/-! ## What is unmeasured -/

/-- `systemctl` did not run, or answered nothing. -/
def Tick.UnitsUnmeasured (t : Tick) : Prop :=
  t.units = .raised ∨ (∃ exc, t.units = .returned (.unavailable exc)) ∨
    ∃ rc lines, rc ≠ 0 ∧ (∀ line ∈ lines, Py.isBlank line = true) ∧ t.units = .returned (.answered rc lines)

/-- What `measure_ops` says it could not measure. -/
def opsMarkers : List (String × List String) :=
  [("ops_measure_unavailable:schedules",
      ["job_late:", "job_overrun:", "timer_inactive:", "host_disk_low:", "ops_measure_unavailable:"]),
    ("ops_measure_unavailable:units", ["job_late:", "job_overrun:"]), ("ops_measure_unavailable:timers", ["timer_inactive:"]),
    ("ops_measure_unavailable:disk", ["host_disk_low:"])]

def isOpsKey (key : String) : Prop :=
  ∃ lead ∈ ["job_late:", "job_overrun:", "timer_inactive:", "host_disk_low:", "ops_measure_unavailable:"],
    hasPrefix lead key = true

/-- The class of a key was not measured; a closed day exempts the tokens. -/
inductive Tick.IsUnmeasured (t : Tick) (key : String) : Prop where
  | units (hk : hasPrefix "failed_unit:" key = true) (h : t.UnitsUnmeasured)
  | tokens (hk : hasPrefix "stale_kis_token:" key = true) (hopen : t.closed = false) (h : t.tokens = .raised)
  | backup (hk : hasPrefix "offsite_backup:" key = true) (h : t.backup = .raised ∨ t.provisional = true)
  | outbox (hk : key = "undelivered_alerts") (h : t.outbox = .raised)
  | ops (hk : isOpsKey key) (h : t.remediation = none ∨ t.ops = none ∨ t.ops = some .raised)
  | marked (marker : String) (leads : List String) (lead : String) (hm : (marker, leads) ∈ opsMarkers) (hl : lead ∈ leads)
      (hk : hasPrefix lead key = true) (items : List (String × String)) (h : t.ops = some (.returned items))
      (hitem : marker ∈ items.map Prod.fst)

/-- The class of a key raised, and keeps its keys. -/
inductive Tick.Raised (t : Tick) (key : String) : Prop where
  | units (hk : hasPrefix "failed_unit:" key = true) (h : t.units = .raised)
  | tokens (hk : hasPrefix "stale_kis_token:" key = true) (hopen : t.closed = false) (h : t.tokens = .raised)
  | backup (hk : hasPrefix "offsite_backup:" key = true) (h : t.backup = .raised)
  | outbox (hk : key = "undelivered_alerts") (h : t.outbox = .raised)
  | ops (lead : String) (hl : lead ∈ Tick.opsKeptPrefixes) (hk : hasPrefix lead key = true) (hr : t.remediation ≠ none)
      (h : t.ops = some .raised)

/-- A key that some measurement of the tick answers. -/
inductive Tick.Answers (t : Tick) (key : String) : Prop where
  | unit (run : Systemctl) (unit : String) (h : t.units = .returned run) (hmem : unit ∈ listFailedKcaUnits run)
      (hk : key = "failed_unit:" ++ unit)
  | token (tokens : List String) (token : String) (hopen : t.closed = false) (h : t.tokens = .returned tokens)
      (hmem : token ∈ tokens) (hk : key = "stale_kis_token:" ++ token)
  | backup (raw : List String) (h : t.backup = .returned raw) (hrun : t.provisional = false) (hmem : key ∈ raw)
      (hdrain : key ≠ "offsite_backup:draining")
  | outbox (count : Int) (h : t.outbox = .returned count) (hpos : 0 < count) (hk : key = "undelivered_alerts")
  | ops (items : List (String × String)) (hr : t.remediation ≠ none) (h : t.ops = some (.returned items))
      (hmem : key ∈ items.map Prod.fst)

/-- The pager has no re-measured source of a key. -/
def File.NoOpenSource (file : File) (key : String) : Prop :=
  ∀ l src, file.load = .ok l → (key, src) ∈ l.sources → src.scope ≠ .opened

/-- The pager's source of a key does not expire by the day. -/
def File.Lasting (file : File) (key : String) (today : Int) : Prop :=
  ∀ l src, file.load = .ok l → l.sources.lookup key = some src → src.scope = .day → today ≤ src.day

/-- Every open key that is not measured raised or is answered all the same, or its backup runs and the pager does not
re-measure it; and its source does not expire. -/
def Tick.Covers (t : Tick) (prev : Py.Dict Entry) (file : File) : Prop :=
  ∀ key e, prev.lookup key = some e → e.isTransient key = true → t.IsUnmeasured key →
    (t.Raised key ∨ t.Answers key ∨
      t.provisional = true ∧ hasPrefix "offsite_backup:" key = true ∧ file.NoOpenSource key) ∧
    file.Lasting key (kstDay t.now)

/-! ## The open set -/

section opens

variable {t : Tick} {prev : Py.Dict Entry} {key lead : String} {e : Entry} {hasState hasHeartbeat : Bool}

theorem mem_sortedKeys {keys : List String} : key ∈ sortedKeys keys ↔ key ∈ keys := by
  unfold sortedKeys
  rw [List.mem_insertionSort, List.mem_dedup]

theorem nodup_sortedKeys (keys : List String) : (sortedKeys keys).Nodup :=
  (List.perm_insertionSort _ _).nodup_iff.2 (List.nodup_dedup _)

theorem mem_keys_of_lookup (h : prev.lookup key = some e) : key ∈ prev.map Prod.fst :=
  List.mem_map_of_mem (Py.Dict.mem_of_lookup h)

theorem mem_prevKeys (h : prev.lookup key = some e) (hk : hasPrefix lead key = true) :
    key ∈ (prevKeys prev lead).map Prod.fst := by
  unfold prevKeys
  rw [List.map_map]
  exact List.mem_map.2 ⟨(key, e), List.mem_filter.2 ⟨Py.Dict.mem_of_lookup h, hk⟩, rfl⟩

/-- A key whose class raised is measured as before. -/
theorem mem_measured_of_raised (h : prev.lookup key = some e) (hr : t.Raised key) :
    key ∈ (t.measured prev).map Prod.fst := by
  unfold Tick.measured
  rw [Py.Dict.mem_keys_update]
  refine .inr ?_
  rw [List.map_append, List.map_append, List.map_append, List.map_append]
  simp only [List.mem_append]
  cases hr with
  | units hk hu =>
    have hmem := mem_prevKeys h hk
    simp [Tick.measureUnits, hu, hmem]
  | tokens hk hopen hu =>
    have hmem := mem_prevKeys h hk
    simp [Tick.measureTokens, hopen, hu, hmem]
  | backup hk hu =>
    have hmem := mem_prevKeys h hk
    simp [Tick.measureBackup, hu, hmem]
  | outbox hk hu =>
    have hmem : key ∈ (t.measureOutbox prev).map Prod.fst := by
      unfold Tick.measureOutbox
      rw [hu, List.map_map]
      exact List.mem_map.2 ⟨(key, e), List.mem_filter.2 ⟨Py.Dict.mem_of_lookup h, decide_eq_true hk⟩, rfl⟩
    simp [hmem]
  | ops lead hl hk hrem hu =>
    have hmem : key ∈ (t.measureOps prev).map Prod.fst := by
      unfold Tick.measureOps
      rw [if_neg (by simpa using hrem), hu, List.map_flatMap]
      exact List.mem_flatMap.2 ⟨lead, hl, mem_prevKeys h hk⟩
    simp [hmem]

theorem mem_measured_of_answers (ha : t.Answers key) : key ∈ (t.measured prev).map Prod.fst := by
  unfold Tick.measured
  rw [Py.Dict.mem_keys_update]
  refine .inr ?_
  rw [List.map_append, List.map_append, List.map_append, List.map_append]
  simp only [List.mem_append]
  cases ha with
  | unit run unit hu hmem hk =>
    have hin : key ∈ (t.measureUnits prev).map Prod.fst := by
      unfold Tick.measureUnits
      rw [hu, List.map_map]
      exact List.mem_map.2 ⟨unit, hmem, hk.symm⟩
    simp [hin]
  | token tokens token hopen hu hmem hk =>
    have hin : key ∈ (t.measureTokens prev).map Prod.fst := by
      unfold Tick.measureTokens
      rw [if_neg (by simp [hopen]), hu, List.map_map]
      exact List.mem_map.2 ⟨token, hmem, hk.symm⟩
    simp [hin]
  | backup raw hu hrun hmem hdrain =>
    have hnot : key ≠ "offsite_backup:running" := by
      rintro rfl
      unfold Tick.provisional at hrun
      rw [hu] at hrun
      exact of_decide_eq_false hrun hmem
    have hin : key ∈ (t.measureBackup prev).map Prod.fst := by
      unfold Tick.measureBackup
      rw [hu]
      dsimp only
      rw [if_neg (by simp [hrun]), List.map_map]
      exact List.mem_map.2 ⟨key, List.mem_filter.2 ⟨hmem, by simp [hnot, hdrain]⟩, rfl⟩
    simp [hin]
  | outbox count hu hpos hk =>
    have hin : key ∈ (t.measureOutbox prev).map Prod.fst := by
      unfold Tick.measureOutbox
      rw [hu]
      dsimp only
      rw [if_pos hpos, hk]
      exact List.mem_singleton_self _
    simp [hin]
  | ops items hrem hu hmem =>
    have hin : key ∈ (t.measureOps prev).map Prod.fst := by
      unfold Tick.measureOps
      rw [if_neg (by simpa using hrem), hu, List.map_map]
      exact hmem
    simp [hin]

theorem transient_measured : ∀ p ∈ t.measured prev, p.2.transient = true := by
  have hprev : ∀ lead, ∀ p ∈ prevKeys prev lead, p.2.transient = true := by
    intro lead p hp
    obtain ⟨q, -, rfl⟩ := List.mem_map.1 hp
    rfl
  refine Py.Dict.forall_mem_update (fun p hp => (by cases hp)) (fun p hp => ?_)
  rw [List.mem_append, List.mem_append, List.mem_append, List.mem_append] at hp
  rcases hp with (((hp | hp) | hp) | hp) | hp
  · unfold Tick.measureUnits at hp
    split at hp
    · exact hprev _ p hp
    · obtain ⟨unit, -, rfl⟩ := List.mem_map.1 hp
      rfl
  · unfold Tick.measureTokens at hp
    split_ifs at hp
    · cases hp
    · split at hp
      · exact hprev _ p hp
      · obtain ⟨token, -, rfl⟩ := List.mem_map.1 hp
        rfl
  · unfold Tick.measureBackup at hp
    split at hp
    · exact hprev _ p hp
    · split_ifs at hp
      · cases hp
      · obtain ⟨item, -, rfl⟩ := List.mem_map.1 hp
        rfl
  · unfold Tick.measureOutbox at hp
    split at hp
    · obtain ⟨q, -, rfl⟩ := List.mem_map.1 hp
      rfl
    · split_ifs at hp
      · rw [List.mem_singleton.1 hp]
      · cases hp
  · unfold Tick.measureOps at hp
    split_ifs at hp
    · cases hp
    · split at hp
      · cases hp
      · obtain ⟨lead, -, hp⟩ := List.mem_flatMap.1 hp
        exact hprev lead p hp
      · obtain ⟨q, -, rfl⟩ := List.mem_map.1 hp
        rfl

/-- What is measured is open, and transient. -/
theorem newOpen_of_measured (h : key ∈ (t.measured prev).map Prod.fst) :
    key ∈ t.newKeys prev ∧ ∃ issue, (t.newOpen prev).lookup key = some issue ∧ issue.transient = true := by
  obtain ⟨issue, hissue⟩ := Py.Dict.exists_lookup_of_mem h
  have hnodup : ((t.measured prev).map Prod.fst).Nodup := Py.Dict.nodup_update List.nodup_nil
  constructor
  · unfold Tick.newKeys Tick.newOpen
    rw [mem_sortedKeys, Py.Dict.mem_keys_update]
    exact .inr h
  · refine ⟨issue, ?_, transient_measured _ (Py.Dict.mem_of_lookup hissue)⟩
    unfold Tick.newOpen
    rw [Py.Dict.lookup_update hnodup, hissue]
    rfl

/-! ### What a tick concludes -/

theorem conclude_stillOpen : (t.conclude prev hasState hasHeartbeat).result.stillOpen = t.newKeys prev := by
  unfold Tick.conclude
  dsimp only
  split_ifs <;> simp_all

theorem conclude_resolved (h : key ∈ (t.conclude prev hasState hasHeartbeat).result.resolved) : key ∈ t.resolved prev := by
  unfold Tick.conclude at h
  dsimp only at h
  split_ifs at h <;> first | exact h | cases h

theorem conclude_measured : (t.conclude prev hasState hasHeartbeat).result.measured = true := by
  unfold Tick.conclude
  dsimp only
  split_ifs <;> rfl

/-- Without a state, a heartbeat is refreshed where a state is stored. -/
theorem conclude_refresh (h : (t.conclude prev false hasHeartbeat).persist = none) :
    (t.conclude prev false hasHeartbeat).refresh = false := by
  unfold Tick.conclude at h ⊢
  simp only [Bool.not_false, Bool.true_or, if_true] at h ⊢
  split_ifs at h ⊢ <;> rfl

/-! ### What a tick stores -/

theorem nodup_prevOpen {s : Stored} (h : s.prevOpen = .ok prev) : (prev.map Prod.fst).Nodup := by
  unfold Stored.prevOpen at h
  split at h
  · rw [← Except.ok.inj h]
    exact Py.Dict.nodup_update (Py.Dict.nodup_update List.nodup_nil)
  · obtain ⟨-, -, h⟩ := (Exc.bind_eq_ok _ _ _).1 h
    rw [← Except.ok.inj h]
    exact Py.Dict.nodup_update List.nodup_nil
  · rw [← Except.ok.inj h]
    exact List.nodup_nil

/-- A key that stays open or is pending is not resolved. -/
theorem not_mem_resolved (h : key ∈ t.newKeys prev ∨ key ∈ (t.pendingResolutions prev).map Prod.fst) :
    key ∉ t.resolved prev := by
  unfold Tick.resolved
  rw [mem_sortedKeys, List.mem_filter, Bool.and_eq_true, Bool.not_eq_true', Bool.not_eq_true', decide_eq_false_iff_not,
    decide_eq_false_iff_not]
  exact fun hmem => h.elim hmem.2.1 hmem.2.2

theorem lookup_pending : (t.pendingResolutions prev).lookup key =
    if (t.provisional && hasPrefix "offsite_backup:" key) = true then prev.lookup key else none :=
  Py.Dict.lookup_filter_key (fun name => t.provisional && hasPrefix "offsite_backup:" name) prev

theorem nodup_pending_keys (h : (prev.map Prod.fst).Nodup) : ((t.pendingResolutions prev).map Prod.fst).Nodup :=
  h.sublist (List.filter_sublist.map Prod.fst)

/-- The items of distinct keys, looked up. -/
theorem lookup_filterMap (f : String → Option Entry) : ∀ {keys : List String}, key ∈ keys →
    (keys.filterMap (fun k => (f k).map (fun v => (k, v)))).lookup key = f key
  | k :: keys, h => by
    rw [List.filterMap_cons]
    by_cases hk : key = k
    · subst hk
      cases hf : f key with
      | none =>
        have hnone : key ∉ (keys.filterMap (fun k => (f k).map (fun v => (k, v)))).map Prod.fst := by
          intro hmem
          obtain ⟨p, hp, rfl⟩ := List.mem_map.1 hmem
          obtain ⟨k, -, hk⟩ := List.mem_filterMap.1 hp
          obtain ⟨v, hv, rfl⟩ := Option.map_eq_some_iff.1 hk
          rw [hf] at hv
          cases hv
        exact Py.Dict.lookup_of_not_mem hnone
      | some v => rw [Option.map_some, List.lookup_cons, beq_iff_eq.2 rfl]
    · have hrest := lookup_filterMap f ((List.mem_cons.1 h).resolve_left hk)
      cases hf : f k with
      | none => exact hrest
      | some v =>
        rw [Option.map_some, List.lookup_cons, beq_eq_false_iff_ne.2 hk]
        exact hrest

theorem keys_filterMap {f : String → Option Entry} {keys : List String} (h : keys.Nodup) :
    ((keys.filterMap (fun k => (f k).map (fun v => (k, v)))).map Prod.fst).Nodup := by
  rw [List.map_filterMap]
  refine h.filterMap (fun a b c ha hb => ?_)
  obtain ⟨p, hp, rfl⟩ := Option.map_eq_some_iff.1 ha
  obtain ⟨q, hq, hqp⟩ := Option.map_eq_some_iff.1 hb
  obtain ⟨v, -, rfl⟩ := Option.map_eq_some_iff.1 hp
  obtain ⟨w, -, rfl⟩ := Option.map_eq_some_iff.1 hq
  exact hqp.symm

/-- An open entry that is still there. -/
def Entry.Still (key : String) (before after : Entry) : Prop :=
  after.isTransient key = true ∧ ∀ seen, before.firstSeen = some seen → after.firstSeen = some seen

/-- **What is persisted of a key that is measured or pending.** -/
theorem persist_still {p : Persist} {date : String} {hb : Option Heartbeat} (hn : (prev.map Prod.fst).Nodup)
    (he : prev.lookup key = some e) (htr : e.isTransient key = true)
    (h : key ∈ (t.measured prev).map Prod.fst ∨ (t.provisional && hasPrefix "offsite_backup:" key) = true) :
    ∃ prev' e', (Stored.mk (some (t.persist prev date p)) hb).prevOpen = .ok prev' ∧ prev'.lookup key = some e' ∧
      e.Still key e' := by
  let f : String → Option Entry := fun k => ((t.newOpen prev).lookup k).map (t.persistEntry prev p k)
  have hopens : (t.persist prev date p).opens = (t.newKeys prev).filterMap (fun k => (f k).map (fun v => (k, v))) := by
    unfold Tick.persist
    refine congrArg (fun g => (t.newKeys prev).filterMap g) (funext fun k => ?_)
    rw [Option.map_map]
    rfl
  have hnopens : ((t.persist prev date p).opens.map Prod.fst).Nodup := hopens ▸ keys_filterMap (nodup_sortedKeys _)
  have hlookup : (((Py.Dict.update [] (t.persist prev date p).opens).update (t.pendingResolutions prev)).lookup key) =
      ((t.pendingResolutions prev).lookup key).or ((t.persist prev date p).opens.lookup key) := by
    rw [Py.Dict.lookup_update (nodup_pending_keys hn), Py.Dict.lookup_update_nil hnopens]
  by_cases hpend : (t.provisional && hasPrefix "offsite_backup:" key) = true
  · refine ⟨_, e, rfl, ?_, htr, fun seen hseen => hseen⟩
    refine hlookup.trans ?_
    rw [lookup_pending, if_pos hpend, he, Option.some_or]
  · obtain ⟨hmem, issue, hissue, htrue⟩ := newOpen_of_measured (h.resolve_right hpend)
    refine ⟨_, t.persistEntry prev p key issue, rfl, ?_, htrue, fun seen hseen => ?_⟩
    · refine hlookup.trans ?_
      rw [lookup_pending, if_neg hpend, Option.none_or, hopens, lookup_filterMap f hmem]
      exact congrArg (Option.map (t.persistEntry prev p key)) hissue
    · unfold Tick.persistEntry
      dsimp only
      rw [he, Option.bind_some, hseen, Option.getD_some]

/-- **A tick keeps what it measures, or has pending, in the open set.** -/
theorem reconcile_still {s s' : Stored} {result : ReconcileResult} (hok : runAuditReconcile t s = .ok (s', result))
    (hprev : s.prevOpen = .ok prev) (he : prev.lookup key = some e) (htr : e.isTransient key = true)
    (h : key ∈ (t.measured prev).map Prod.fst ∨ (t.provisional && hasPrefix "offsite_backup:" key) = true) :
    key ∉ result.resolved ∧ (∃ prev' e', s'.prevOpen = .ok prev' ∧ prev'.lookup key = some e' ∧ e.Still key e') ∧
      (result = unmeasured ∨ result.measured = true ∧ result.stillOpen = t.newKeys prev) := by
  have hsame : ∃ prev' e', s.prevOpen = .ok prev' ∧ prev'.lookup key = some e' ∧ e.Still key e' :=
    ⟨prev, e, hprev, he, htr, fun seen hseen => hseen⟩
  unfold runAuditReconcile at hok
  by_cases hnone : s.state = none ∧ s.heartbeat = none
  · rw [if_pos hnone] at hok
    obtain ⟨rfl, rfl⟩ := Prod.mk.inj (Except.ok.inj hok)
    exact ⟨List.not_mem_nil, hsame, .inl rfl⟩
  · rw [if_neg hnone, hprev, Exc.ok_bind] at hok
    by_cases hdate : s.snapshotDate = ""
    · rw [if_pos hdate] at hok
      obtain ⟨rfl, rfl⟩ := Prod.mk.inj (Except.ok.inj hok)
      exact ⟨List.not_mem_nil, hsame, .inl rfl⟩
    · rw [if_neg hdate] at hok
      obtain ⟨rfl, rfl⟩ := Prod.mk.inj (Except.ok.inj hok)
      have hkept : key ∈ t.newKeys prev ∨ key ∈ (t.pendingResolutions prev).map Prod.fst := by
        refine h.imp (fun hm => (newOpen_of_measured hm).1) (fun hp => ?_)
        exact mem_keys_of_lookup (lookup_pending.trans ((if_pos hp).trans he))
      refine ⟨fun hres => not_mem_resolved hkept (conclude_resolved hres), ?_, .inr ⟨conclude_measured, conclude_stillOpen⟩⟩
      cases hp : (t.conclude prev s.state.isSome s.heartbeat.isSome).persist with
      | some p => exact persist_still (nodup_prevOpen hprev) he htr h
      | none =>
        rw [Option.map_none, Option.none_or]
        obtain ⟨state, heartbeat⟩ := s
        cases state with
        | some state => exact hsame
        | none =>
          have href : (t.conclude prev false heartbeat.isSome).refresh = false := conclude_refresh hp
          simp only [Option.isSome_none, href, Bool.false_eq_true, if_false]
          exact hsame

end opens

/-! ## The pager -/

/-- The pager's source of a key is there still, and where it is exempt it is not re-measured. -/
structure File.Still (key : String) (src : Source) (exempt : Prop) (today : Int) (file : File) : Prop where
  found : ∃ l src', file.load = .ok l ∧ l.sources.lookup key = some src' ∧ src'.kind = src.kind ∧
    src'.firstSeen = src.firstSeen ∧ (src'.scope = .day → today ≤ src'.day)
  apart : exempt → file.NoOpenSource key

section pager

variable {cfg : AlertPolicyConfig} {t : Tick} {file : File} {key source : String} {src : Source} {exempt : Prop} {now : Int}
  {l : Ledger} {kind : IncidentKind} {scope : SourceScope}

/-- What a change of the ledger keeps of a source. -/
theorem File.Still.mutate (h : file.Still key src exempt (kstDay now)) {α : Type} (change : Ledger → Int → Ledger × α)
    (hlookup : ∀ l src', l.sources.lookup key = some src' → (src'.scope = .day → kstDay now ≤ src'.day) →
      ∃ src'', (change l (kstDay now)).1.sources.lookup key = some src'' ∧ src''.kind = src'.kind ∧
        src''.firstSeen = src'.firstSeen ∧ (src''.scope = .day → kstDay now ≤ src''.day))
    (hmem : ∀ l src', l.sources.lookup key = some src' → (∀ other, (key, other) ∈ l.sources → other.scope ≠ .opened) →
      ∀ other, (key, other) ∈ (change l (kstDay now)).1.sources → other.scope ≠ .opened) :
    ∃ l, file.load = .ok l ∧
      (File.ledger (change (l.rollover (kstDay now)) (kstDay now)).1).Still key src exempt (kstDay now) := by
  obtain ⟨l, src', hload, hsrc, hkind, hseen, hlasts⟩ := h.found
  have hroll : (l.rollover (kstDay now)).sources.lookup key = some src' := by
    refine Py.Dict.lookup_filter_of_pos _ hsrc ?_
    by_cases hs : src'.scope = .day
    · simpa [hs] using hlasts hs
    · simp [hs]
  refine ⟨l, hload, ⟨?_, fun hex l' other hl' hother => ?_⟩⟩
  · obtain ⟨src'', hsrc'', hkind'', hseen'', hlasts''⟩ := hlookup _ src' hroll hlasts
    exact ⟨_, src'', rfl, hsrc'', hkind''.trans hkind, hseen''.trans hseen, hlasts''⟩
  · rw [← Except.ok.inj hl'] at hother
    refine hmem _ src' hroll (fun o ho => ?_) other hother
    exact h.apart hex l o hload (List.mem_filter.1 ho).1

/-- Attaching a source keeps the sources there are. -/
theorem lookup_attach {src' : Source} {today : Int} (h : l.sources.lookup key = some src')
    (hlasts : src'.scope = .day → today ≤ src'.day) :
    ∃ src'', (l.attach kind source scope now today).1.sources.lookup key = some src'' ∧ src''.kind = src'.kind ∧
      src''.firstSeen = src'.firstSeen ∧ (src''.scope = .day → today ≤ src''.day) := by
  unfold Ledger.attach
  dsimp only
  rw [Py.Dict.lookup_set]
  split_ifs with hk
  · subst hk
    rw [h]
    exact ⟨_, rfl, rfl, rfl, fun _ => le_refl today⟩
  · exact ⟨src', h, rfl, rfl, hlasts⟩

theorem mem_attach {src' : Source} {today : Int} (h : l.sources.lookup key = some src')
    (hall : ∀ other, (key, other) ∈ l.sources → other.scope ≠ .opened) (other : Source)
    (hother : (key, other) ∈ (l.attach kind source scope now today).1.sources) : other.scope ≠ .opened := by
  rcases Py.Dict.mem_set hother with heq | hother
  · obtain ⟨rfl, rfl⟩ := Prod.mk.inj heq
    rw [h]
    exact hall src' (Py.Dict.mem_of_lookup h)
  · exact hall other hother

theorem sources_page (cfg : AlertPolicyConfig) (l : Ledger) (kind : IncidentKind) (source : String) (scope : SourceScope)
    (now today : Int) : (l.page cfg kind source scope now today).1.sources = (l.attach kind source scope now today).1.sources := by
  rcases page_cases cfg kind source scope now l today with ⟨-, -, -, hfst, -⟩ | ⟨-, heq⟩
  · rw [hfst]
  · rw [heq]

theorem File.Still.observe (h : file.Still key src exempt (kstDay now)) :
    (Alert.observe .fine file kind source scope now).1.Still key src exempt (kstDay now) := by
  obtain ⟨l, hload, hstill⟩ := h.mutate (fun l today => l.attach kind source scope now today)
    (fun l src' h hlasts => lookup_attach h hlasts) (fun l src' h hall => mem_attach h hall)
  rw [observe_fine hload]
  exact hstill

theorem File.Still.page (h : file.Still key src exempt (kstDay now)) (cfg : AlertPolicyConfig) (x : Option String) :
    (Alert.page cfg .fine file kind source scope now x).1.Still key src exempt (kstDay now) := by
  obtain ⟨l, hload, hstill⟩ := h.mutate (fun l today => l.page cfg kind source scope now today)
    (fun l src' h hlasts => by rw [sources_page]; exact lookup_attach h hlasts)
    (fun l src' h hall => by rw [sources_page]; exact mem_attach h hall)
  rw [page_fine hload]
  exact hstill

/-- A resolution of other sources keeps a source, and its kind is not resolved. -/
theorem File.Still.resolve (h : file.Still key src exempt (kstDay now)) {wanted : List String} (hkey : key ∉ wanted) :
    (Alert.resolve .fine file wanted now).1.Still key src exempt (kstDay now) ∧
      ∀ u, Mail.resolved src.kind u ∉ (Alert.resolve .fine file wanted now).2.2 := by
  have hsources : ∀ l : Ledger, (l.resolve wanted).1.sources.lookup key = l.sources.lookup key := by
    intro l
    refine (Py.Dict.lookup_filter_key (fun name => !decide (name ∈ wanted)) l.sources).trans (if_pos ?_)
    simpa using hkey
  obtain ⟨l, hload, hstill⟩ := h.mutate (fun l _ => l.resolve wanted)
    (fun l src' h hlasts => ⟨src', (hsources l).trans h, rfl, rfl, hlasts⟩)
    (fun l src' h hall other hother => hall other (List.mem_filter.1 hother).1)
  rcases resolve_fine hload wanted now with heq | heq
  · rw [heq]
    exact ⟨h, fun u hu => (by cases hu)⟩
  · rw [heq]
    refine ⟨hstill, fun u hu => ?_⟩
    obtain ⟨k, hk, hmail⟩ := List.mem_map.1 hu
    obtain ⟨l', src', hl', hsrc', hkind, -, -⟩ := hstill.found
    have hl' : (Ledger.resolve wanted (l.rollover (kstDay now))).1 = l' := Except.ok.inj hl'
    rw [← hl', hsources] at hsrc'
    refine (mem_resolve.1 hk).2.1 _ (Py.Dict.mem_of_lookup hsrc') hkey ?_
    rw [hkind]
    exact (Mail.resolved.inj hmail).1.symm

/-- Nothing is resolved by a page. -/
theorem File.Still.pageIssueKey (h : file.Still key src exempt (kstDay t.now)) (cfg : AlertPolicyConfig) (issue : String) :
    (Alert.pageIssueKey cfg .fine t file issue).1.Still key src exempt (kstDay t.now) ∧
      ∀ k u, Mail.resolved k u ∉ (Alert.pageIssueKey cfg .fine t file issue).2 := by
  unfold Alert.pageIssueKey
  cases classifyIssueKey issue with
  | none => exact ⟨h, fun k u hu => (by cases hu)⟩
  | some kind =>
    dsimp only
    split_ifs
    · exact ⟨h, fun k u hu => (by cases hu)⟩
    · exact ⟨h.observe, fun k u hu => (by cases hu)⟩
    · exact ⟨h.observe, fun k u hu => (by cases hu)⟩
    · refine ⟨h.observe.page cfg (t.autoAction issue), fun k u hu => ?_⟩
      unfold Alert.page at hu
      dsimp only at hu
      split_ifs at hu
      · cases List.mem_singleton.1 hu
      · cases hu

theorem File.Still.pageIssueKeys (cfg : AlertPolicyConfig) (t : Tick) : ∀ (issues : List String) {file : File}, file.Still key src exempt (kstDay t.now) →
    (Alert.pageIssueKeys cfg .fine t file issues).1.Still key src exempt (kstDay t.now) ∧
      ∀ k u, Mail.resolved k u ∉ (Alert.pageIssueKeys cfg .fine t file issues).2
  | [], _, h => ⟨h, fun k u hu => (by cases hu)⟩
  | issue :: issues, _, h => by
    obtain ⟨hone, hmails⟩ := h.pageIssueKey cfg issue
    obtain ⟨hall, hmore⟩ := File.Still.pageIssueKeys cfg t issues hone
    refine ⟨hall, fun k u hu => ?_⟩
    exact (List.mem_append.1 hu).elim (hmails k u) (hmore k u)

/-- **The pager keeps the source of a key that it is told of, or does not re-measure.** -/
theorem File.Still.pageReconcile (h : file.Still key src exempt (kstDay t.now)) (cfg : AlertPolicyConfig) {result : ReconcileResult}
    (hopen : exempt ∨ key ∈ result.stillOpen) :
    (pageReconcileIncidents cfg .fine t result file).1.Still key src exempt (kstDay t.now) ∧
      ∀ u, Mail.resolved src.kind u ∉ (pageReconcileIncidents cfg .fine t result file).2 := by
  unfold pageReconcileIncidents
  split_ifs
  · exact ⟨h, fun u hu => (by cases hu)⟩
  · obtain ⟨hpaged, hmails⟩ := File.Still.pageIssueKeys cfg t (sortedKeys result.stillOpen) h
    dsimp only
    obtain ⟨l, -, hload, -⟩ := hpaged.found
    have hgone : key ∉ l.gone result.stillOpen reconcileMeasuredPrefixes := by
      intro hmem
      obtain ⟨p, hp, hpk⟩ := List.mem_map.1 hmem
      obtain ⟨hps, hcond⟩ := List.mem_filter.1 hp
      rw [Bool.and_eq_true, Bool.and_eq_true, decide_eq_true_eq, Bool.not_eq_true', decide_eq_false_iff_not] at hcond
      rcases hopen with hex | hopen
      · exact hpaged.apart hex l p.2 hload (hpk ▸ hps) hcond.1.1
      · exact hcond.2 (hpk ▸ hopen)
    obtain ⟨hlast, hmore⟩ := hpaged.resolve hgone
    unfold resolveAbsent
    rw [hload]
    refine ⟨hlast, fun u hu => ?_⟩
    exact (List.mem_append.1 hu).elim (hmails _ u) (hmore u)

end pager

/-! ## Ticks -/

structure World where
  stored : Stored
  file : File
  deriving DecidableEq

/-- A tick that raises stores and pages nothing. -/
def tick (cfg : AlertPolicyConfig) (w : World) (t : Tick) : World × ReconcileResult × List Mail :=
  match runAuditReconcile t w.stored with
  | .ok (stored, result) =>
    (⟨stored, (pageReconcileIncidents cfg .fine t result w.file).1⟩, result,
      (pageReconcileIncidents cfg .fine t result w.file).2)
  | .error _ => (w, unmeasured, [])

def ticks (cfg : AlertPolicyConfig) (w : World) (ts : List Tick) : World := ts.foldl (fun w t => (tick cfg w t).1) w

/-- A key is open and heals by itself. -/
def World.Opens (w : World) (key : String) (e : Entry) : Prop :=
  ∃ prev, w.stored.prevOpen = .ok prev ∧ prev.lookup key = some e ∧ e.isTransient key = true

def World.Pages (w : World) (key : String) (src : Source) : Prop :=
  ∃ l, w.file.load = .ok l ∧ l.sources.lookup key = some src

/-- What is not measured is not resolved: the key stays open since it was first seen, and so does its source. -/
structure Kept (w w' : World) (result : ReconcileResult) (mails : List Mail) (key : String) (e : Entry) : Prop where
  notResolved : key ∉ result.resolved
  opens : ∃ e', w'.Opens key e' ∧ ∀ seen, e.firstSeen = some seen → e'.firstSeen = some seen
  pages : ∀ src, w.Pages key src → (∃ src', w'.Pages key src' ∧ src'.kind = src.kind ∧ src'.firstSeen = src.firstSeen) ∧
    ∀ u, Mail.resolved src.kind u ∉ mails

/-- Every tick of a run covers what it does not measure. -/
def Covered (cfg : AlertPolicyConfig) : World → List Tick → Prop
  | _, [] => True
  | w, t :: ts => (∀ prev, w.stored.prevOpen = .ok prev → t.Covers prev w.file) ∧ Covered cfg (tick cfg w t).1 ts

section ticks

variable {cfg : AlertPolicyConfig} {w : World} {t : Tick} {key : String} {e : Entry}

/-- **One tick.** -/
theorem tick_keeps (cfg : AlertPolicyConfig) (hcov : ∀ prev, w.stored.prevOpen = .ok prev → t.Covers prev w.file) (he : w.Opens key e)
    (hun : t.IsUnmeasured key) : Kept w (tick cfg w t).1 (tick cfg w t).2.1 (tick cfg w t).2.2 key e := by
  obtain ⟨prev, hprev, hlookup, htr⟩ := he
  obtain ⟨hcases, hlasting⟩ := hcov prev hprev key e hlookup htr hun
  have hstays : key ∈ (t.measured prev).map Prod.fst ∨ (t.provisional && hasPrefix "offsite_backup:" key) = true := by
    rcases hcases with hr | ha | ⟨hp, hk, -⟩
    · exact .inl (mem_measured_of_raised hlookup hr)
    · exact .inl (mem_measured_of_answers ha)
    · exact .inr (by rw [hp, hk]; rfl)
  unfold tick
  cases hok : runAuditReconcile t w.stored with
  | error x =>
    refine ⟨List.not_mem_nil, ⟨e, ⟨prev, hprev, hlookup, htr⟩, fun seen hseen => hseen⟩, fun src hsrc => ?_⟩
    exact ⟨⟨src, hsrc, rfl, rfl⟩, fun u hu => (by cases hu)⟩
  | ok out =>
    obtain ⟨stored, result⟩ := out
    obtain ⟨hres, ⟨prev', e', hprev', he', hstill⟩, hresult⟩ := reconcile_still hok hprev hlookup htr hstays
    refine ⟨hres, ⟨e', ⟨prev', hprev', he', hstill.1⟩, hstill.2⟩, fun src ⟨l, hload, hsrc⟩ => ?_⟩
    dsimp only
    rcases hresult with rfl | ⟨hmeasured, hopen⟩
    · exact ⟨⟨src, ⟨l, hload, hsrc⟩, rfl, rfl⟩, fun u hu => (by cases hu)⟩
    · have hbefore : w.file.Still key src (w.file.NoOpenSource key) (kstDay t.now) :=
        ⟨⟨l, src, hload, hsrc, rfl, rfl, hlasting l src hload hsrc⟩, id⟩
      have htold : w.file.NoOpenSource key ∨ key ∈ result.stillOpen := by
        rcases hcases with hr | ha | ⟨-, -, hno⟩
        · exact .inr (hopen ▸ (newOpen_of_measured (mem_measured_of_raised hlookup hr)).1)
        · exact .inr (hopen ▸ (newOpen_of_measured (mem_measured_of_answers ha)).1)
        · exact .inl hno
      obtain ⟨hfile, hmails⟩ := hbefore.pageReconcile cfg htold
      obtain ⟨l', src', hload', hsrc', hkind, hseen, -⟩ := hfile.found
      exact ⟨⟨src', ⟨l', hload', hsrc'⟩, hkind, hseen⟩, hmails⟩

theorem covered_append {as bs : List Tick} (h : Covered cfg w (as ++ bs)) : Covered cfg (ticks cfg w as) bs := by
  induction as generalizing w with
  | nil => exact h
  | cons t as ih => exact ih h.2

end ticks

/-- **A run of ticks that covers what it does not measure forgets none of it**: in each tick nothing unmeasured is
resolved, and a key that is never measured stays open since it was first seen. -/
theorem ticks_keep_unmeasured (cfg : AlertPolicyConfig) (w : World) (ts : List Tick) (h : Covered cfg w ts) :
    (∀ as t bs key e, ts = as ++ t :: bs → (ticks cfg w as).Opens key e → t.IsUnmeasured key →
      Kept (ticks cfg w as) (tick cfg (ticks cfg w as) t).1 (tick cfg (ticks cfg w as) t).2.1
        (tick cfg (ticks cfg w as) t).2.2 key e) ∧
    ∀ key e, w.Opens key e → (∀ t ∈ ts, t.IsUnmeasured key) →
      (∃ e', (ticks cfg w ts).Opens key e' ∧ ∀ seen, e.firstSeen = some seen → e'.firstSeen = some seen) ∧
      ∀ src, w.Pages key src →
        ∃ src', (ticks cfg w ts).Pages key src' ∧ src'.kind = src.kind ∧ src'.firstSeen = src.firstSeen := by
  constructor
  · rintro as t bs key e rfl he hun
    exact tick_keeps cfg (covered_append h).1 he hun
  · intro key e he hun
    induction ts generalizing w e with
    | nil => exact ⟨⟨e, he, fun seen hseen => hseen⟩, fun src hsrc => ⟨src, hsrc, rfl, rfl⟩⟩
    | cons t ts ih =>
      have hkept := tick_keeps cfg h.1 he (hun t List.mem_cons_self)
      obtain ⟨e₁, he₁, hseen₁⟩ := hkept.opens
      obtain ⟨⟨e₂, he₂, hseen₂⟩, hpages⟩ := ih _ h.2 e₁ he₁ (fun u hu => hun u (List.mem_cons_of_mem _ hu))
      refine ⟨⟨e₂, he₂, fun seen hseen => hseen₂ seen (hseen₁ seen hseen)⟩, fun src hsrc => ?_⟩
      obtain ⟨src₁, hsrc₁, hkind₁, hfirst₁⟩ := (hkept.pages src hsrc).1
      obtain ⟨src₂, hsrc₂, hkind₂, hfirst₂⟩ := hpages src₁ hsrc₁
      exact ⟨src₂, hsrc₂, hkind₂.trans hkind₁, hfirst₂.trans hfirst₁⟩

/-! A backup that failed is open, and paged. -/

def failedBackup : Entry := ⟨some true, none, some 0, some 0⟩

def failedSource : Source := ⟨.backupFailing, .opened, 0, 0⟩

def failedBackupWorld : World :=
  ⟨⟨some ⟨"2026-01-15", [("offsite_backup:failed", failedBackup)], []⟩, none⟩,
    .ledger ⟨[("offsite_backup:failed", failedSource)], [("backup_failing", ⟨0, 0⟩)]⟩⟩

/-- All but the backup is measured, and well. -/
def backupTick (backup : Measure (List String)) : Tick :=
  ⟨1, .returned (.answered 0 []), .returned false, .returned [], backup, .returned 0, some (.returned []),
    some ⟨false, fun _ => false⟩, true, 1, fun _ _ _ => false, fun _ => none⟩

theorem failedBackupWorld_opens : failedBackupWorld.Opens "offsite_backup:failed" failedBackup := ⟨_, rfl, rfl, rfl⟩

theorem ticks_keep_unmeasured_raised :
    Kept failedBackupWorld (tick defaultAlertPolicy failedBackupWorld (backupTick .raised)).1
      (tick defaultAlertPolicy failedBackupWorld (backupTick .raised)).2.1
      (tick defaultAlertPolicy failedBackupWorld (backupTick .raised)).2.2 "offsite_backup:failed" failedBackup := by
  have hcov : Covered defaultAlertPolicy failedBackupWorld [backupTick .raised] := by
    refine ⟨fun prev hprev key e he _ _ => ?_, trivial⟩
    obtain rfl : prev = [("offsite_backup:failed", failedBackup)] := (Except.ok.inj hprev).symm
    have hkey : key = "offsite_backup:failed" := by simpa using mem_keys_of_lookup he
    subst hkey
    refine ⟨.inl (.backup (by decide) rfl), fun l src hl hsrc hday => ?_⟩
    obtain rfl := Except.ok.inj hl
    obtain rfl : failedSource = src := Option.some.inj hsrc
    cases hday
  exact (ticks_keep_unmeasured defaultAlertPolicy failedBackupWorld [backupTick .raised] hcov).1 [] (backupTick .raised) []
    "offsite_backup:failed" failedBackup rfl failedBackupWorld_opens (.backup (by decide) (.inl rfl))

/-- **A tick that falls into a running backup forgets that it failed**: the pager's source is gone, and its page clock
with it. -/
theorem running_backup_forgets : failedBackupWorld.Opens "offsite_backup:failed" failedBackup ∧
    (backupTick (.returned ["offsite_backup:running"])).IsUnmeasured "offsite_backup:failed" ∧
    ¬ Kept failedBackupWorld (tick defaultAlertPolicy failedBackupWorld (backupTick (.returned ["offsite_backup:running"]))).1
      (tick defaultAlertPolicy failedBackupWorld (backupTick (.returned ["offsite_backup:running"]))).2.1
      (tick defaultAlertPolicy failedBackupWorld (backupTick (.returned ["offsite_backup:running"]))).2.2
      "offsite_backup:failed" failedBackup := by
  refine ⟨failedBackupWorld_opens, .backup (by decide) (.inr (by decide)), fun hkept => ?_⟩
  obtain ⟨⟨src', ⟨l, hl, hsrc⟩, -, -⟩, -⟩ := hkept.pages failedSource ⟨_, rfl, rfl⟩
  have hfile : (tick defaultAlertPolicy failedBackupWorld (backupTick (.returned ["offsite_backup:running"]))).1.file =
      .ledger ⟨[], []⟩ := by decide +kernel
  rw [hfile] at hl
  rw [← Except.ok.inj hl] at hsrc
  cases hsrc

end Alert
