import KClosingAlpha.Alert.Sentinel
import KClosingAlpha.Alert.Unmeasured
import Mathlib
/-!
# SentinelRuns — which slots a pass finds missed

A schedule that was read from the unit files has a latest slot at every moment, and the search of the last eight days finds it
(`latestDueSlot_isGreatest`).  From it: after a tick of the reconciler a job is open as late exactly when it has not started since
a minute before its latest slot, and nothing excuses it (`jobLate_open_iff`).
-/
namespace Sentinel

open Regex (Text)
open Recurring (Latest)

/-! ## Slots -/

theorem TimeOfDay.micros_bounds (t : TimeOfDay) : 0 ≤ t.micros ∧ t.micros < dayLength := by
  have hh := t.hour_lt
  have hm := t.minute_lt
  have hs := t.sec_lt
  unfold TimeOfDay.micros second dayLength
  push_cast
  constructor <;> omega

/-- The instants a schedule names. -/
def slotTimes (schedule : JobSchedule) : Set ℤ :=
  {t | ∃ slot ∈ schedule.slots, ∃ d : ℤ, weekday d ∈ slot.weekdays ∧ t = slot.at d}

/-- Those at or before a moment. -/
def dueTimes (schedule : JobSchedule) (now : ℤ) : Set ℤ := {t ∈ slotTimes schedule | t ≤ now}

/-- A slot as a rule of the week. -/
def isOn (slot : ScheduleSlot) (w : ℤ) : Prop := w.toNat ∈ slot.weekdays

theorem dueTimes_eq (schedule : JobSchedule) (now : ℤ) :
    dueTimes schedule now = Recurring.due dayLength 7 isOn (fun s => s.timeOfDay.micros) schedule.slots now := rfl

theorem dueSlot_latest {now d : ℤ} (S : Set ℤ) (best : Option ℤ) (slot : ScheduleSlot) (h : Latest S best) :
    Latest (S ∪ {t | weekday d ∈ slot.weekdays ∧ t = slot.at d ∧ t ≤ now}) (dueSlot now d best slot) := by
  unfold dueSlot
  by_cases hon : weekday d ∈ slot.weekdays
  · have hlater : Latest (S ∪ {t | t = slot.at d ∧ t ≤ now}) (Recurring.later now best (slot.at d)) := h.later
    simpa [hon] using hlater
  · simpa [hon] using h

/-- The loop over the slots sees those of one day, the loop over the days those of the window. -/
theorem latestDueSlot_latest (schedule : JobSchedule) (now : ℤ) :
    Latest (Recurring.window dayLength 7 isOn (fun s => s.timeOfDay.micros) schedule.slots now)
      (latestDueSlot schedule now) := by
  have hday : ∀ (S : Set ℤ) (best : Option ℤ) (offset : ℕ), Latest S best →
      Latest (S ∪ {t | ∃ slot ∈ schedule.slots,
        t ∈ {t | weekday (day now - offset) ∈ slot.weekdays ∧ t = slot.at (day now - offset) ∧ t ≤ now}})
        (schedule.slots.foldl (dueSlot now (day now - offset)) best) := fun S best offset h =>
    Latest.foldl _ _ (fun S best slot h => dueSlot_latest S best slot h) schedule.slots S best h
  have hall := Latest.foldl _ _ hday (List.range 8) ∅ none rfl
  rw [Set.empty_union] at hall
  have hset : Recurring.window dayLength 7 isOn (fun s => s.timeOfDay.micros) schedule.slots now =
      {t | ∃ offset ∈ List.range 8, t ∈ {t | ∃ slot ∈ schedule.slots,
        t ∈ {t | weekday (day now - (offset : ℕ)) ∈ slot.weekdays ∧ t = slot.at (day now - (offset : ℕ)) ∧ t ≤ now}}} := by
    ext t
    constructor
    · rintro ⟨k, hk, hk7, slot, hslot, hon, ht, hle⟩
      have hcast : ((k.toNat : ℕ) : ℤ) = k := Int.toNat_of_nonneg hk
      refine ⟨k.toNat, List.mem_range.2 (by omega), slot, hslot, ?_, ?_, hle⟩
      · rw [hcast]
        exact hon
      · rw [hcast]
        exact ht
    · rintro ⟨offset, hoff, slot, hslot, hon, ht, hle⟩
      have hlt := List.mem_range.1 hoff
      exact ⟨offset, by omega, by omega, slot, hslot, hon, ht, hle⟩
  rw [hset]
  exact hall

/-- **What the search finds is the latest due slot, and it finds one where there is one.** -/
theorem latestDueSlot_eq_some_iff {schedule : JobSchedule} {now t : ℤ} :
    latestDueSlot schedule now = some t ↔ IsGreatest (dueTimes schedule now) t := by
  have hspec := latestDueSlot_latest schedule now
  have hwin : ∀ {u : ℤ}, IsGreatest (Recurring.window dayLength 7 isOn (fun s => s.timeOfDay.micros) schedule.slots now) u ↔
      IsGreatest (dueTimes schedule now) u := by
    intro u
    rw [dueTimes_eq]
    exact Recurring.isGreatest_window_iff (by decide) (by decide) (fun s _ => s.timeOfDay.micros_bounds)
  constructor
  · intro h
    rw [h] at hspec
    exact hwin.1 hspec
  · intro h
    have ht := hwin.2 h
    cases hl : latestDueSlot schedule now with
    | none =>
      rw [hl] at hspec
      have hemp : Recurring.window dayLength 7 isOn (fun s => s.timeOfDay.micros) schedule.slots now = ∅ := hspec
      have hmem := ht.1
      rw [hemp] at hmem
      exact absurd hmem (Set.notMem_empty t)
    | some u =>
      rw [hl] at hspec
      have hu : IsGreatest (Recurring.window dayLength 7 isOn (fun s => s.timeOfDay.micros) schedule.slots now) u := hspec
      rw [hu.unique ht]

/-! ## What is read of the unit files -/

section load

variable {decimal : Char → Option ℕ}

theorem weekdayByName_lt {raw : Text} {n : ℕ} (h : weekdayByName.lookup raw = some n) : n < 7 := by
  have hall : ∀ p ∈ weekdayByName, p.2 < 7 := by decide
  obtain ⟨l₁, l₂, hl, -⟩ := List.lookup_eq_some_iff.1 h
  exact hall (raw, n) (by rw [hl]; simp)

/-- A weekday selector names some day of the week. -/
theorem parseWeekdays_ok {raw : Text} {days : Finset ℕ} (h : parseWeekdays raw = .ok days) : ∃ w < 7, w ∈ days := by
  unfold parseWeekdays at h
  by_cases hevery : raw = "*-*-*".toList
  · rw [if_pos hevery] at h
    cases h
    exact ⟨0, by decide, by decide⟩
  · rw [if_neg hevery] at h
    split at h
    · split at h
      · rename_i start stop hstart hstop
        by_cases hlt : stop < start
        · rw [if_pos hlt] at h
          cases h
        · rw [if_neg hlt] at h
          cases h
          exact ⟨start, weekdayByName_lt hstart, Finset.mem_Icc.2 ⟨le_rfl, not_lt.1 hlt⟩⟩
      · cases h
    · split at h
      · rename_i day hday
        cases h
        exact ⟨day, weekdayByName_lt hday, Finset.mem_singleton_self day⟩
      · cases h

/-- A slot that is on at some day of the week. -/
def ScheduleSlot.Falls (slot : ScheduleSlot) : Prop := ∃ w < 7, w ∈ slot.weekdays

theorem parseSlot_ok {value : Text} {slot : ScheduleSlot} (h : parseSlot decimal value = .ok slot) : slot.Falls := by
  unfold parseSlot at h
  split at h
  · cases h
  · rename_i m _ _
    by_cases htz : m.tzPart ≠ "Asia/Seoul".toList
    · rw [if_pos htz] at h
      cases h
    · rw [if_neg htz] at h
      split at h
      · cases h
      · rename_i weekdays hdays
        split_ifs at h
        cases h
        exact parseWeekdays_ok hdays

theorem parseTimerSchedule_ok {timerText : Text} {slots : List ScheduleSlot}
    (h : parseTimerSchedule decimal timerText = .ok slots) : slots ≠ [] ∧ ∀ slot ∈ slots, slot.Falls := by
  unfold parseTimerSchedule at h
  obtain ⟨read, hread, hok⟩ := (Exc.bind_eq_ok _ _ _).1 h
  split_ifs at hok with hempty
  cases hok
  refine ⟨hempty, fun slot hslot => ?_⟩
  obtain ⟨value, -, hvalue⟩ := (Exc.mem_of_mapM_eq_ok hread).1 hslot
  exact parseSlot_ok hvalue

theorem loadSchedule_ok {dir : UnitDir} {timer : String} {timerText : Text} {job : JobSchedule}
    (h : loadSchedule decimal dir timer timerText = .ok job) : job.slots ≠ [] ∧ ∀ slot ∈ job.slots, slot.Falls := by
  unfold loadSchedule at h
  obtain ⟨slots, hslots, hok⟩ := (Exc.bind_eq_ok _ _ _).1 h
  split at hok
  · cases hok
  · obtain ⟨maxRuntime, -, hjob⟩ := (Exc.bind_eq_ok _ _ _).1 hok
    cases hjob
    exact parseTimerSchedule_ok hslots

theorem loadJobSchedules_ok {dir : UnitDir} {jobs : List JobSchedule} (h : loadJobSchedules decimal dir = .ok jobs)
    {job : JobSchedule} (hjob : job ∈ jobs) : job.slots ≠ [] ∧ ∀ slot ∈ job.slots, slot.Falls := by
  unfold loadJobSchedules at h
  obtain ⟨read, hread, rfl⟩ := (Exc.map_eq_ok _ _ _).1 h
  rw [List.mem_insertionSort] at hjob
  obtain ⟨p, -, hp⟩ := (Exc.mem_of_mapM_eq_ok hread).1 hjob
  exact loadSchedule_ok hp

end load

/-- **A schedule that was loaded has a latest slot at every moment, and the search finds it.** -/
theorem latestDueSlot_isGreatest {decimal : Char → Option ℕ} {dir : UnitDir} {jobs : List JobSchedule}
    (h : loadJobSchedules decimal dir = .ok jobs) {job : JobSchedule} (hjob : job ∈ jobs) (now : ℤ) :
    ∃ t, latestDueSlot job now = some t ∧ IsGreatest {u ∈ slotTimes job | u ≤ now} t := by
  obtain ⟨hne, hfalls⟩ := loadJobSchedules_ok h hjob
  obtain ⟨slot, hslot⟩ := List.exists_mem_of_ne_nil _ hne
  obtain ⟨w, hw, hon⟩ := hfalls slot hslot
  have hnonempty : (Recurring.window dayLength 7 isOn (fun s => s.timeOfDay.micros) job.slots now).Nonempty :=
    Recurring.window_nonempty (by decide) (by decide) (fun s _ => s.timeOfDay.micros_bounds) hslot (w := w) (by omega) (by omega)
      (by unfold isOn; simpa using hon)
  cases hl : latestDueSlot job now with
  | none =>
    have hspec := latestDueSlot_latest job now
    rw [hl] at hspec
    exact absurd hspec (Set.nonempty_iff_ne_empty.1 hnonempty)
  | some t => exact ⟨t, rfl, latestDueSlot_eq_some_iff.1 hl⟩

def asciiDecimal (c : Char) : Option ℕ := if c.isDigit then some (c.toNat - 48) else none

/-- One job on the working days. -/
def collectDir : UnitDir where
  timers := [("kca-collect.timer", "[Timer]\nOnCalendar=Mon..Fri 15:20 Asia/Seoul\n".toList)]
  service := fun name => if name = "kca-collect.service" then some "[Service]\nTimeoutStartSec=30min\n".toList else none

theorem collect_hour_lt : 15 < 24 := by decide

theorem collect_minute_lt : 20 < 60 := by decide

theorem collect_sec_lt : 0 < 60 := by decide

def collectJob : JobSchedule where
  unit := "kca-collect.service"
  timer := "kca-collect.timer"
  slots := [⟨Finset.Icc 0 4, ⟨15, 20, 0, collect_hour_lt, collect_minute_lt, collect_sec_lt⟩⟩]
  maxRuntime := 1800 * second
  after := []

theorem collectDir_loads : loadJobSchedules asciiDecimal collectDir = .ok [collectJob] := by rfl

theorem latestDueSlot_isGreatest_monday :
    ∃ t, latestDueSlot collectJob 0 = some t ∧ IsGreatest {u ∈ slotTimes collectJob | u ≤ 0} t :=
  latestDueSlot_isGreatest collectDir_loads (List.mem_singleton_self _) 0

/-! ## Late jobs -/

section late

variable {job : JobSchedule} {starts : Set ℤ} {state : Option UnitRunState} {now grace : ℤ} {predecessor : Bool}

/-- The job has never started, and its timer became active after a moment. -/
def NewlyDeployed (starts : Set ℤ) (state : Option UnitRunState) (now slot : ℤ) : Prop :=
  (∀ t ∈ starts, ¬ t ≤ now) ∧ ∃ since, state.bind UnitRunState.timerActiveSince = some since ∧ slot < since

/-- The job is running. -/
def Runs (state : Option UnitRunState) : Prop := ∃ st, state = some st ∧ isActive st.activeState = true

/-- The latest slot is past its grace, the job has not started since a minute before it, and nothing excuses it: it does not
run, no unit it comes after does, and it is not newly deployed. -/
def Missed (job : JobSchedule) (starts : Set ℤ) (state : Option UnitRunState) (now grace : ℤ) (predecessor : Bool) : Prop :=
  ∃ slot, IsGreatest (dueTimes job now) slot ∧ slot + grace ≤ now ∧
    (∀ t ∈ starts, t ≤ now → t < slot - 60 * second) ∧ ¬ Runs state ∧ predecessor = false ∧
    ¬ NewlyDeployed starts state now slot

/-- What `systemd` says of the last start of a job: the latest of its starts. -/
def Observes (starts : Set ℤ) (now : ℤ) (state : Option UnitRunState) : Prop :=
  Latest {t ∈ starts | t ≤ now} (state.bind UnitRunState.lastStart)

theorem Observes.none_iff (h : Observes starts now state) :
    state.bind UnitRunState.lastStart = none ↔ ∀ t ∈ starts, ¬ t ≤ now := by
  unfold Observes at h
  cases hl : state.bind UnitRunState.lastStart with
  | none =>
    rw [hl] at h
    have hemp : {t ∈ starts | t ≤ now} = ∅ := h
    rw [Set.eq_empty_iff_forall_notMem] at hemp
    exact iff_of_true rfl (fun t ht hle => hemp t ⟨ht, hle⟩)
  | some u =>
    rw [hl] at h
    have hu : IsGreatest {t ∈ starts | t ≤ now} u := h
    simp only [reduceCtorEq, false_iff, not_forall]
    exact ⟨u, hu.1.1, not_not.2 hu.1.2⟩

/-- No start at or after a moment, read off the last start. -/
theorem Observes.before_iff (h : Observes starts now state) (bound : ℤ) :
    (∀ t ∈ starts, t ≤ now → t < bound) ↔
      (state.bind UnitRunState.lastStart).any (fun start => decide (bound ≤ start)) = false := by
  unfold Observes at h
  cases hl : state.bind UnitRunState.lastStart with
  | none =>
    rw [hl] at h
    have hemp : {t ∈ starts | t ≤ now} = ∅ := h
    rw [Set.eq_empty_iff_forall_notMem] at hemp
    exact iff_of_true (fun t ht hle => absurd ⟨ht, hle⟩ (hemp t)) rfl
  | some u =>
    rw [hl] at h
    have hu : IsGreatest {t ∈ starts | t ≤ now} u := h
    rw [Option.any_some, decide_eq_false_iff_not, not_le]
    constructor
    · intro hall
      exact hall u hu.1.1 hu.1.2
    · intro hlt t ht hle
      exact (hu.2 ⟨ht, hle⟩).trans_lt hlt

/-- The branches of `evaluate_job` that end in `LATE`. -/
theorem evaluateJob_late {slot : ℤ} (hslot : latestDueSlot job now = some slot) :
    evaluateJob job state now grace predecessor = .late ↔
      slot + grace ≤ now ∧
      (state.bind UnitRunState.lastStart).any (fun start => decide (slot - 60 * second ≤ start)) = false ∧
      ¬ Runs state ∧ predecessor = false ∧
      ¬ (state.bind UnitRunState.lastStart = none ∧
        ∃ since, state.bind UnitRunState.timerActiveSince = some since ∧ slot < since) := by
  unfold evaluateJob
  rw [hslot]
  dsimp only
  by_cases hgrace : now < slot + grace
  · simp [hgrace]
  · have hpast : slot + grace ≤ now := not_lt.1 hgrace
    rw [if_neg hgrace]
    cases state with
    | none => cases predecessor <;> simp [Runs, hpast]
    | some st =>
      dsimp only
      simp only [Option.bind_some]
      by_cases hnew : st.lastStart = none ∧ st.timerActiveSince.any (fun since => decide (slot < since)) = true
      · rw [if_pos hnew]
        obtain ⟨hnone, hsince⟩ := hnew
        obtain ⟨since, hs, hlt⟩ := (Option.any_eq_true _ _).1 hsince
        refine iff_of_false (by decide) ?_
        rintro ⟨-, -, -, -, hfresh⟩
        exact hfresh ⟨hnone, since, hs, of_decide_eq_true hlt⟩
      · rw [if_neg hnew]
        have hnot : ¬ (st.lastStart = none ∧ ∃ since, st.timerActiveSince = some since ∧ slot < since) := by
          rintro ⟨hnone, since, hs, hlt⟩
          exact hnew ⟨hnone, by rw [hs]; simpa using hlt⟩
        by_cases hact : isActive st.activeState = true
        · have hruns : Runs (some st) := ⟨st, rfl, hact⟩
          rw [if_pos hact]
          split_ifs <;> simp [hruns]
        · have hidle : ¬ Runs (some st) := by
            rintro ⟨st', he, ha⟩
            cases he
            exact hact ha
          rw [if_neg hact]
          by_cases hstart : st.lastStart.any (fun start => decide (slot - 60 * second ≤ start)) = true
          · rw [if_pos hstart]
            refine iff_of_false (by decide) ?_
            rintro ⟨-, hnone, -⟩
            rw [hstart] at hnone
            cases hnone
          · rw [if_neg hstart]
            cases predecessor with
            | true =>
              refine iff_of_false (by decide) ?_
              rintro ⟨-, -, -, hpred, -⟩
              cases hpred
            | false => exact iff_of_true rfl ⟨hpast, eq_false_of_ne_true hstart, hidle, rfl, hnot⟩

/-- **A job is judged late exactly when it missed its latest slot.** -/
theorem evaluateJob_late_iff (hslots : ∃ slot, latestDueSlot job now = some slot) (hobs : Observes starts now state) :
    evaluateJob job state now grace predecessor = .late ↔ Missed job starts state now grace predecessor := by
  obtain ⟨slot, hslot⟩ := hslots
  have hgreatest := latestDueSlot_eq_some_iff.1 hslot
  rw [evaluateJob_late hslot, ← hobs.before_iff, hobs.none_iff]
  constructor
  · rintro ⟨hpast, hstarts, hidle, hpred, hnew⟩
    exact ⟨slot, hgreatest, hpast, hstarts, hidle, hpred, hnew⟩
  · rintro ⟨slot', hgreatest', hpast, hstarts, hidle, hpred, hnew⟩
    rw [hgreatest'.unique hgreatest] at hpast hstarts hnew
    exact ⟨hpast, hstarts, hidle, hpred, hnew⟩

end late

/-! ## A pass -/

section pass

variable {jobs : List JobSchedule} {host : Host} {now : ℤ} {unit : String}

/-- Two texts that start differently differ. -/
theorem append_ne {a b u v : String} (hab : a.toList.isPrefixOf b.toList = false) (hba : b.toList.isPrefixOf a.toList = false) :
    a ++ u ≠ b ++ v := by
  intro h
  have hl : a.toList ++ u.toList = b.toList ++ v.toList := by
    rw [← String.toList_append, ← String.toList_append, h]
  rcases List.prefix_or_prefix_of_prefix (List.prefix_append a.toList u.toList)
    (hl ▸ List.prefix_append b.toList v.toList) with hp | hp
  · rw [List.isPrefixOf_iff_prefix.2 hp] at hab
    cases hab
  · rw [List.isPrefixOf_iff_prefix.2 hp] at hba
    cases hba

theorem append_left_inj {a u v : String} (h : a ++ u = a ++ v) : u = v := by
  have hl : a.toList ++ u.toList = a.toList ++ v.toList := by
    rw [← String.toList_append, ← String.toList_append, h]
  exact String.toList_injective (List.append_cancel_left hl)

theorem mem_jobIssue {u : String} {verdict : JobVerdict} :
    "job_late:" ++ unit ∈ (jobIssue u verdict).map MeasuredIssue.key ↔ verdict = .late ∧ u = unit := by
  cases verdict with
  | late =>
    simp only [jobIssue, List.map_cons, List.map_nil, List.mem_singleton, true_and]
    exact ⟨fun h => (append_left_inj h).symm, fun h => by rw [h]⟩
  | overrun =>
    simp only [jobIssue, List.map_cons, List.map_nil, List.mem_singleton, reduceCtorEq, false_and, iff_false]
    exact append_ne (by decide) (by decide)
  | pending | ok | running => simp [jobIssue]

/-- The late keys of a pass are those of its units. -/
theorem mem_measureOps :
    "job_late:" ++ unit ∈ (measureOps jobs host now).map MeasuredIssue.key ↔
      "job_late:" ++ unit ∈ (unitIssues jobs host.states now).map MeasuredIssue.key := by
  have htimers : "job_late:" ++ unit ∉ (timerIssues host.inactiveTimers).map MeasuredIssue.key := by
    unfold timerIssues unavailable
    split
    · simp only [List.map_cons, List.map_nil, List.mem_singleton]
      exact append_ne (by decide) (by decide)
    · rw [List.map_map]
      intro hmem
      obtain ⟨name, -, hname⟩ := List.mem_map.1 hmem
      exact append_ne (by decide) (by decide) hname.symm
  have hdisk : "job_late:" ++ unit ∉ (diskIssues host.disk).map MeasuredIssue.key := by
    unfold diskIssues unavailable
    split
    · simp only [List.map_cons, List.map_nil, List.mem_singleton]
      exact append_ne (by decide) (by decide)
    · split_ifs
      · simp only [List.map_cons, List.map_nil, List.mem_singleton]
        exact append_ne (by decide) (by decide)
      · simp
  unfold measureOps
  rw [((List.perm_insertionSort _ _).map MeasuredIssue.key).mem_iff, List.map_append, List.map_append, List.mem_append,
    List.mem_append, or_iff_left hdisk, or_iff_left htimers]

/-- **A pass reports a job as late exactly when it missed its latest slot**, whatever the other classes answer. -/
theorem jobLate_measured_iff {decimal : Char → Option ℕ} {dir : UnitDir} (hload : loadJobSchedules decimal dir = .ok jobs)
    {states : Py.Dict UnitRunState} (hstates : host.states = .ok states) (hne : states ≠ []) {starts : String → Set ℤ}
    (hobs : ∀ job ∈ jobs, Observes (starts job.unit) now (states.lookup job.unit)) :
    "job_late:" ++ unit ∈ (measureOps jobs host now).map MeasuredIssue.key ↔
      ∃ job ∈ jobs, job.unit = unit ∧
        Missed job (starts unit) (states.lookup unit) now sentinelGrace (predecessorRunning states job) := by
  have hslots : ∀ job ∈ jobs, ∃ slot, latestDueSlot job now = some slot := by
    intro job hjob
    obtain ⟨slot, hslot, -⟩ := latestDueSlot_isGreatest hload hjob now
    exact ⟨slot, hslot⟩
  have hseen : ¬ (jobs ≠ [] ∧ states = []) := fun h => hne h.2
  rw [mem_measureOps]
  unfold unitIssues
  rw [hstates]
  dsimp only
  rw [if_neg hseen, List.map_flatMap, List.mem_flatMap]
  constructor
  · rintro ⟨job, hjob, hmem⟩
    obtain ⟨hlate, rfl⟩ := mem_jobIssue.1 hmem
    exact ⟨job, hjob, rfl, (evaluateJob_late_iff (hslots job hjob) (hobs job hjob)).1 hlate⟩
  · rintro ⟨job, hjob, rfl, hmissed⟩
    exact ⟨job, hjob, mem_jobIssue.2 ⟨(evaluateJob_late_iff (hslots job hjob) (hobs job hjob)).2 hmissed, rfl⟩⟩

end pass

/-! ## A tick of the reconciler -/

section tick

open Alert (Tick Entry Stored ReconcileResult)

/-- The sentinel as the measurement of a tick. -/
def opsItems (issues : List MeasuredIssue) : List (String × String) := issues.map (fun issue => (issue.key, issue.text))

variable {t : Tick} {prev : Py.Dict Entry} {unit : String}

/-- No entry of the open set keeps a late key as one that does not heal by itself. -/
def Heals (prev : Py.Dict Entry) : Prop :=
  ∀ p ∈ prev, Alert.hasPrefix "job_late:" p.1 = true → p.2.transient ≠ some false

theorem hasPrefix_append (lead text : String) : Alert.hasPrefix lead (lead ++ text) = true := by
  unfold Alert.hasPrefix
  rw [List.isPrefixOf_iff_prefix, String.toList_append]
  exact List.prefix_append _ _

theorem hasPrefix_false {lead lead' text : String} (h : lead.toList.isPrefixOf lead'.toList = false)
    (h' : lead'.toList.isPrefixOf lead.toList = false) : Alert.hasPrefix lead (lead' ++ text) = false := by
  unfold Alert.hasPrefix
  by_contra hcon
  have hp := List.isPrefixOf_iff_prefix.1 (eq_true_of_ne_false hcon)
  rw [String.toList_append] at hp
  rcases List.prefix_or_prefix_of_prefix hp (List.prefix_append lead'.toList text.toList) with hq | hq
  · rw [List.isPrefixOf_iff_prefix.2 hq] at h
    cases h
  · rw [List.isPrefixOf_iff_prefix.2 hq] at h'
    cases h'

theorem isTransient_late : Alert.isTransientIssueKey ("job_late:" ++ unit) = true := by
  unfold Alert.isTransientIssueKey
  rw [Bool.or_eq_true]
  exact .inr (List.any_eq_true.2 ⟨"job_late:", by decide, hasPrefix_append _ _⟩)

theorem not_mem_prevKeys {lead : String} (h : lead.toList.isPrefixOf "job_late:".toList = false)
    (h' : "job_late:".toList.isPrefixOf lead.toList = false) :
    "job_late:" ++ unit ∉ (Alert.prevKeys prev lead).map Prod.fst := by
  unfold Alert.prevKeys
  rw [List.map_map]
  intro hmem
  obtain ⟨p, hp, hkey⟩ := List.mem_map.1 hmem
  have hlead := (List.mem_filter.1 hp).2
  rw [show p.1 = "job_late:" ++ unit from hkey, hasPrefix_false h h'] at hlead
  cases hlead

/-- Among the late keys, a tick that has the sentinel's items measures those, and nothing else. -/
theorem mem_newKeys {issues : List MeasuredIssue} (hrem : t.remediation ≠ none)
    (hops : t.ops = some (.returned (opsItems issues)))
    (hbackup : ∀ raw, t.backup = .returned raw → ∀ item ∈ raw, Alert.hasPrefix "offsite_backup:" item = true)
    (hheals : Heals prev) :
    "job_late:" ++ unit ∈ t.newKeys prev ↔ "job_late:" ++ unit ∈ issues.map MeasuredIssue.key := by
  have hpersistent : "job_late:" ++ unit ∉ (Alert.persistent prev).map Prod.fst := by
    unfold Alert.persistent
    rw [List.map_map]
    intro hmem
    obtain ⟨p, hp, hkey⟩ := List.mem_map.1 hmem
    have hkey' : p.1 = "job_late:" ++ unit := hkey
    obtain ⟨hin, hnot⟩ := List.mem_filter.1 hp
    have hfalse := hheals p hin (by rw [hkey']; exact hasPrefix_append _ _)
    unfold Entry.isTransient at hnot
    rw [hkey', isTransient_late] at hnot
    cases htr : p.2.transient with
    | none => simp [htr] at hnot
    | some b => cases b <;> simp_all
  have hunits : "job_late:" ++ unit ∉ (t.measureUnits prev).map Prod.fst := by
    unfold Tick.measureUnits
    split
    · exact not_mem_prevKeys (by decide) (by decide)
    · rw [List.map_map]
      intro hmem
      obtain ⟨u, -, hkey⟩ := List.mem_map.1 hmem
      exact append_ne (by decide) (by decide) hkey.symm
  have htokens : "job_late:" ++ unit ∉ (t.measureTokens prev).map Prod.fst := by
    unfold Tick.measureTokens
    split_ifs
    · simp
    · split
      · exact not_mem_prevKeys (by decide) (by decide)
      · rw [List.map_map]
        intro hmem
        obtain ⟨u, -, hkey⟩ := List.mem_map.1 hmem
        exact append_ne (by decide) (by decide) hkey.symm
  have hback : "job_late:" ++ unit ∉ (t.measureBackup prev).map Prod.fst := by
    unfold Tick.measureBackup
    split
    · exact not_mem_prevKeys (by decide) (by decide)
    · rename_i raw hraw
      split_ifs
      · simp
      · rw [List.map_map]
        intro hmem
        obtain ⟨item, hitem, hkey⟩ := List.mem_map.1 hmem
        have hlead := hbackup raw hraw item (List.mem_filter.1 hitem).1
        rw [show item = "job_late:" ++ unit from hkey, hasPrefix_false (by decide) (by decide)] at hlead
        cases hlead
  have houtbox : "job_late:" ++ unit ∉ (t.measureOutbox prev).map Prod.fst := by
    have hname : "undelivered_alerts" ≠ "job_late:" ++ unit := by
      rw [← String.append_empty (s := "undelivered_alerts")]
      exact append_ne (by decide) (by decide)
    unfold Tick.measureOutbox
    split
    · rw [List.map_map]
      intro hmem
      obtain ⟨p, hp, hkey⟩ := List.mem_map.1 hmem
      have hp' := of_decide_eq_true (List.mem_filter.1 hp).2
      exact hname (hp' ▸ hkey)
    · split_ifs
      · simp only [List.map_cons, List.map_nil, List.mem_singleton]
        exact fun h => hname h.symm
      · simp
  have hmeasured : (t.measureOps prev).map Prod.fst = issues.map MeasuredIssue.key := by
    unfold Tick.measureOps
    rw [if_neg (by simpa using hrem), hops]
    simp [opsItems, Function.comp_def]
  unfold Tick.newKeys Tick.newOpen
  rw [Alert.mem_sortedKeys, Py.Dict.mem_keys_update, or_iff_right hpersistent]
  unfold Tick.measured
  rw [Py.Dict.mem_keys_update]
  simp only [List.map_append, List.mem_append, List.map_nil, List.not_mem_nil, false_or, hunits, htokens, hback, houtbox,
    hmeasured]

/-- **After a tick that measures with the sentinel, a job is open as late exactly when it missed its latest slot**: whatever
was open before, what the sentinel finds is what is open. -/
theorem jobLate_open_iff {decimal : Char → Option ℕ} {dir : UnitDir} {jobs : List JobSchedule}
    (hload : loadJobSchedules decimal dir = .ok jobs) {host : Host} {states : Py.Dict UnitRunState}
    (hstates : host.states = .ok states) (hne : states ≠ []) {now : ℤ} {starts : String → Set ℤ}
    (hobs : ∀ job ∈ jobs, Observes (starts job.unit) now (states.lookup job.unit))
    (hrem : t.remediation ≠ none) (hops : t.ops = some (.returned (opsItems (measureOps jobs host now))))
    (hbackup : ∀ raw, t.backup = .returned raw → ∀ item ∈ raw, Alert.hasPrefix "offsite_backup:" item = true)
    {s s' : Stored} {result : ReconcileResult} (hprev : s.prevOpen = .ok prev) (hheals : Heals prev)
    (hrun : Alert.runAuditReconcile t s = .ok (s', result)) (hmeasured : result.measured = true) (unit : String) :
    "job_late:" ++ unit ∈ result.stillOpen ↔
      ∃ job ∈ jobs, job.unit = unit ∧
        Missed job (starts unit) (states.lookup unit) now sentinelGrace (predecessorRunning states job) := by
  have hopen : result.stillOpen = t.newKeys prev := by
    unfold Alert.runAuditReconcile at hrun
    by_cases hnone : s.state = none ∧ s.heartbeat = none
    · rw [if_pos hnone] at hrun
      cases hrun
      cases hmeasured
    · rw [if_neg hnone, hprev, Exc.ok_bind] at hrun
      by_cases hdate : s.snapshotDate = ""
      · rw [if_pos hdate] at hrun
        cases hrun
        cases hmeasured
      · rw [if_neg hdate] at hrun
        cases hrun
        exact Alert.conclude_stillOpen
  rw [hopen, mem_newKeys hrem hops hbackup hheals]
  exact jobLate_measured_iff hload hstates hne hobs

/-- The first Monday, at four in the afternoon. -/
def mondayAfternoon : ℤ := 57600 * second

/-- The job has not run. -/
def idleHost : Host where
  states := .ok [("kca-collect.service", ⟨"inactive", "success", none, none, none⟩)]
  inactiveTimers := .ok []
  disk := .ok (1, 2)

/-- Nothing else is open. -/
def mondayTick : Tick :=
  ⟨1, .returned (.answered 0 []), .returned false, .returned [], .returned [], .returned 0,
    some (.returned (opsItems (measureOps [collectJob] idleHost mondayAfternoon))), some ⟨false, fun _ => false⟩, true, 1,
    fun _ _ _ => false, fun _ => none⟩

def mondayStored : Stored := ⟨some ⟨"0001-01-01", [], []⟩, none⟩

def neverStarted : String → Set ℤ := fun _ => ∅

theorem mondayTick_measures : ∃ s' result, Alert.runAuditReconcile mondayTick mondayStored = .ok (s', result) ∧
    result.measured = true := ⟨_, _, rfl, Alert.conclude_measured⟩

theorem jobLate_open_iff_monday : ∃ s' result, Alert.runAuditReconcile mondayTick mondayStored = .ok (s', result) ∧
    "job_late:" ++ "kca-collect.service" ∈ result.stillOpen := by
  obtain ⟨s', result, hrun, hmeasured⟩ := mondayTick_measures
  have hobs : ∀ job ∈ [collectJob], Observes (neverStarted job.unit) mondayAfternoon
      (List.lookup job.unit [("kca-collect.service", ⟨"inactive", "success", none, none, none⟩)]) := by
    intro job hjob
    rw [List.mem_singleton.1 hjob]
    exact Set.sep_empty _
  have hbackup : ∀ raw, mondayTick.backup = .returned raw → ∀ item ∈ raw, Alert.hasPrefix "offsite_backup:" item = true := by
    intro raw hraw item hitem
    cases hraw
    cases hitem
  have hheals : Heals [] := fun p hp => (by cases hp)
  have hslot : latestDueSlot collectJob mondayAfternoon = some (55200 * second) := by decide +kernel
  have hidle : ¬ Runs (some ⟨"inactive", "success", none, none, none⟩) := by
    rintro ⟨st, he, ha⟩
    cases he
    revert ha
    decide
  have hnew : ¬ NewlyDeployed ∅ (some ⟨"inactive", "success", none, none, none⟩) mondayAfternoon (55200 * second) := by
    rintro ⟨-, since, hsince, -⟩
    cases hsince
  have hstates : idleHost.states = .ok [("kca-collect.service", ⟨"inactive", "success", none, none, none⟩)] := rfl
  have hprev : mondayStored.prevOpen = .ok [] := rfl
  refine ⟨s', result, hrun, (jobLate_open_iff collectDir_loads hstates (by decide) hobs (by decide) rfl hbackup hprev hheals hrun
    hmeasured "kca-collect.service").2 ?_⟩
  exact ⟨collectJob, List.mem_singleton_self _, rfl, 55200 * second, latestDueSlot_eq_some_iff.1 hslot, by decide,
    fun t ht => absurd ht (Set.notMem_empty t), hidle, rfl, hnew⟩

end tick

end Sentinel
