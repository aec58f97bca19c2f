import KClosingAlpha.Alert.Pager
import KClosingAlpha.Lib.Threads
/-!
# Backup — the nightly run and the check of its staleness (`offsite_backup`)

The run and the check share three files, each published atomically: the marker of the run in flight, the report of the
last run and the history of what was deferred.  Both are programs over these files, so that they can be interleaved and
cut between any two calls.  What the transfers do elsewhere is one call, which answers with the steps of the report.
-/
namespace Backup

/-! ## What the files hold -/

/-- A date and time: its instant, in microseconds, and its offset.  One without an offset is read as UTC. -/
structure Moment where
  instant : Int
  zone : Option Int
  deriving DecidableEq

def utc (t : Int) : Moment := ⟨t, some 0⟩

/-- A string, as the date or the moment whose ISO form it is. -/
inductive Text where
  | plain (s : String)
  | day (d : Int)
  | moment (m : Moment)
  deriving DecidableEq

/-- `datetime.fromisoformat`; a date is its midnight. -/
def Text.fromisoformat : Text → Option Moment
  | plain _ => none
  | day d => some ⟨d * Alert.kstDaySpan, none⟩
  | moment m => some m

/-- `date.fromisoformat`. -/
def Text.dateFromisoformat : Text → Option Int
  | day d => some d
  | plain _ | moment _ => none

inductive Json where
  | null
  | bool (b : Bool)
  | int (i : Int)
  | float
  | str (t : Text)
  | arr (xs : List Json)
  | obj (kvs : List (String × Json))

namespace Json

/-- `raw.get(key) == s` for a string `s`. -/
def isText (s : String) : Option Json → Bool
  | some (str (.plain s')) => s' = s
  | _ => false

def asText : Json → Option Text
  | str t => some t
  | _ => none

def isObj : Json → Bool
  | obj _ => true
  | _ => false

end Json

structure BackupRunReport where
  startedAt : Text
  finishedAt : Text
  status : String
  steps : List (String × Json)
  corePanels : Option (List Json)

structure BackupProgress where
  startedAt : Text
  deadlineAt : Text
  pid : Int
  host : Text

structure DeferredProgress where
  runStartedAt : Text
  deferredDates : Int
  deferredLoose : List Text
  oldestDeferredDate : Text

/-- What `_write_report` writes. -/
def BackupRunReport.payload (report : BackupRunReport) : Json :=
  .obj ([("started_at", .str report.startedAt), ("finished_at", .str report.finishedAt),
    ("status", .str (.plain report.status)), ("steps", .obj report.steps)] ++
    match report.corePanels with
    | none => []
    | some panels => [("core_panels", .arr panels)])

/-- What `write_backup_progress` writes. -/
def BackupProgress.payload (progress : BackupProgress) : Json :=
  .obj [("started_at", .str progress.startedAt), ("deadline_at", .str progress.deadlineAt), ("pid", .int progress.pid),
    ("host", .str progress.host)]

def DeferredProgress.payload (entry : DeferredProgress) : Json :=
  .obj [("run_started_at", .str entry.runStartedAt), ("deferred_dates", .int entry.deferredDates),
    ("deferred_loose", .arr (entry.deferredLoose.map .str)), ("oldest_deferred_date", .str entry.oldestDeferredDate)]

/-! ## Reading them -/

/-- A moment with an offset. -/
def Text.aware (t : Text) : Bool :=
  match t.fromisoformat with
  | some m => m.zone.isSome
  | none => false

/-- `read_backup_progress`, of the JSON value the file holds. -/
def readBackupProgress : Option Json → Option BackupProgress
  | some (.obj kvs) =>
    match kvs.lookup "started_at", kvs.lookup "deadline_at", kvs.lookup "pid", kvs.lookup "host" with
    | some (.str startedAt), some (.str deadlineAt), some (.int pid), some (.str host) =>
      if startedAt.aware && deadlineAt.aware then some { startedAt, deadlineAt, pid, host } else none
    | _, _, _, _ => none
  | _ => none

/-- An entry of the history that is well formed. -/
def readDeferredEntry : Json → Option DeferredProgress
  | .obj kvs =>
    match kvs.lookup "run_started_at", kvs.lookup "deferred_dates", (kvs.lookup "deferred_loose").getD (.arr []),
      (kvs.lookup "oldest_deferred_date").getD (.str (.plain "")) with
    | some (.str runStartedAt), some (.int deferredDates), .arr loose, .str oldestDeferredDate => do
      let deferredLoose ← loose.mapM Json.asText
      if runStartedAt.fromisoformat.isSome ∧
          (oldestDeferredDate = .plain "" ∨ oldestDeferredDate.dateFromisoformat.isSome) then
        some { runStartedAt, deferredDates, deferredLoose, oldestDeferredDate }
      else none
    | _, _, _, _ => none
  | _ => none

/-- `read_deferred_progress`: one entry that is not well formed empties the history. -/
def readDeferredProgress : Option Json → List DeferredProgress
  | some (.arr items) => (items.mapM readDeferredEntry).getD []
  | _ => []

/-- `LOOSE_SUBTREES`. -/
def looseSubtrees : List String := ["data", "artifacts"]

/-- `_deferred_state_from_steps`. -/
def deferredStateFromSteps (steps : List (String × Json)) : Int × List String × Text :=
  let count := match steps.lookup "capture_seal" with
    | some (.obj sealStep) =>
      match sealStep.lookup "deferred_dates" with
      | some (.int count) => count
      | _ => 0
    | _ => 0
  let loose := looseSubtrees.filter fun sub =>
    match steps.lookup sub with
    | some (.obj step) => Json.isText "deferred" (step.lookup "status")
    | _ => false
  let oldest := match steps.lookup "capture_seal" with
    | some (.obj sealStep) =>
      match sealStep.lookup "oldest_deferred_date" with
      | some (.str oldest) => oldest
      | _ => .plain ""
    | _ => .plain ""
  (count, loose.insertionSort (· ≤ ·), oldest)

/-- `_is_deferred`. -/
def isDeferred (count : Int) (loose : List String) : Bool := decide (0 < count) || !loose.isEmpty

/-- `BACKUP_DEFERRED_MAX_STALLED_RUNS`. -/
def backupDeferredMaxStalledRuns : Nat := 3

/-- `BACKUP_DEFERRED_MAX_AGE_DAYS`. -/
def backupDeferredMaxAgeDays : Int := 21

/-- How many runs, from the last one back, deferred no less than the one before. -/
def stalledRuns : List Int → Nat
  | last :: previous :: counts => if previous ≤ last then stalledRuns (previous :: counts) + 1 else 0
  | _ => 0

/-- `_classify_deferred`, with the newest entry first. -/
def classifyNewestFirst (auditAt : Int) : List DeferredProgress → String
  | [] | [_] => "offsite_backup:draining"
  | current :: earlier =>
    let age := match current.oldestDeferredDate.dateFromisoformat with
      | some oldest => Alert.kstDay auditAt - oldest
      | none => 0
    let newest := (current :: earlier).take backupDeferredMaxStalledRuns
    if backupDeferredMaxAgeDays < age then "offsite_backup:deferred"
    else if backupDeferredMaxStalledRuns ≤ stalledRuns ((current :: earlier).map (·.deferredDates)) + 1 then
      "offsite_backup:deferred"
    else if backupDeferredMaxStalledRuns ≤ (current :: earlier).length ∧
        looseSubtrees.any (fun sub => newest.all (fun entry => decide (Text.plain sub ∈ entry.deferredLoose))) then
      "offsite_backup:deferred"
    else "offsite_backup:draining"

def classifyDeferred (effective : List DeferredProgress) (auditAt : Int) : String :=
  classifyNewestFirst auditAt effective.reverse

/-! ## The files and the calls -/

inductive File where
  | marker
  | report
  | history
  deriving DecidableEq

/-- How the transfers end. -/
inductive Inner where
  | returned (finishedAt : Text) (steps : List (String × Json)) (corePanels : List Json)
  | raised (error : String) (finishedAt : Text)
  | interrupted

inductive Op where
  /-- `json.loads(path.read_text())`, caught. -/
  | loads (f : File)
  | there (f : File)
  | write (f : File) (j : Json)
  | remove (f : File)
  | inner

def Ret : Op → Type
  | .loads _ => Option Json
  | .there _ | .write _ _ | .remove _ => Bool
  | .inner => Inner

inductive Exn where
  | runtime (message : String)
  | os
  /-- An interruption, which no handler takes. -/
  | base

abbrev Program (α : Type) := Prog Op Ret Exn α

def loads (f : File) : Program (Option Json) := .perform (Op.loads f)

def isThere (f : File) : Program Bool := .perform (Op.there f)

def write (f : File) (j : Json) : Program Bool := .perform (Op.write f j)

def remove (f : File) : Program Bool := .perform (Op.remove f)

def inner : Program Inner := .perform Op.inner

/-! ## The run -/

/-- `BACKUP_TOTAL_BUDGET`. -/
def backupTotalBudget : Int := 150 * 60 * 1000000

/-- `BACKUP_PROGRESS_GRACE`. -/
def backupProgressGrace : Int := 30 * 60 * 1000000

/-- `_load_previous_core_panels`. -/
def loadPreviousCorePanels : Program (List Json) := do
  if ← isThere .report then
    match ← loads .report with
    | some (.obj kvs) =>
      match kvs.lookup "core_panels" with
      | some (.arr panels) => pure (panels.filter Json.isObj)
      | _ => pure []
    | _ => pure []
  else pure []

/-- The status of a report: every step is done or deferred. -/
def statusOf (steps : List (String × Json)) : String :=
  if steps.all (fun step => match step.2 with
      | .obj kvs => Json.isText "ok" (kvs.lookup "status") || Json.isText "deferred" (kvs.lookup "status")
      | _ => false) then "ok"
  else "failed"

/-- The steps that failed, sorted. -/
def failedSteps (steps : List (String × Json)) : List String :=
  ((steps.filter (fun step => match step.2 with
    | .obj kvs => Json.isText "failed" (kvs.lookup "status")
    | _ => false)).map Prod.fst).insertionSort (· ≤ ·)

/-- The report of the transfers, or of the exception they raised. -/
def runReport (startedAt : Text) : Program BackupRunReport := do
  match ← inner with
  | .returned finishedAt steps corePanels =>
    pure { startedAt, finishedAt, status := statusOf steps, steps, corePanels := some corePanels }
  | .raised error finishedAt =>
    let previous ← loadPreviousCorePanels
    pure {
      startedAt, finishedAt, status := "failed"
      steps := [("backup_run", .obj [("status", .str (.plain "failed")), ("error", .str (.plain error))])]
      corePanels := if previous.isEmpty then none else some previous }
  | .interrupted => .raise .base

/-- `append_deferred_progress`, which keeps the last fourteen entries. -/
def appendDeferredProgress (entry : DeferredProgress) : Program Bool := do
  let entries := match ← loads .history with
    | some (.arr items) => items.filter Json.isObj
    | _ => []
  write .history (.arr ((entries ++ [entry.payload]).drop (entries.length + 1 - 14)))

/-- What the run leaves when it has started. -/
def progressOf (pid : Int) (host : Text) (now : Int) : BackupProgress where
  startedAt := .moment (utc now)
  deadlineAt := .moment (utc (now + backupTotalBudget + backupProgressGrace))
  pid := pid
  host := host

/-- `run_offsite_backup`. -/
def runOffsiteBackup (pid : Int) (host : Text) (now : Int) : Program BackupRunReport := do
  -- a marker that cannot be written is only logged
  let _ ← write .marker (progressOf pid host now).payload
  let report ← runReport (.moment (utc now))
  if ← write .report report.payload then
    let state := deferredStateFromSteps report.steps
    let _ ← appendDeferredProgress {
      runStartedAt := report.startedAt, deferredDates := state.1, deferredLoose := state.2.1.map .plain
      oldestDeferredDate := state.2.2 }
    let _ ← remove .marker
    if report.status = "ok" then pure report
    else .raise (.runtime ("offsite backup failed: " ++ String.intercalate "," (failedSteps report.steps)))
  else .raise .os

/-! ## The check -/

/-- `BACKUP_SLOT_KST`. -/
def backupSlotKst : Int := (22 * 3600 + 15 * 60) * 1000000

/-- `BACKUP_SLOT_WEEKDAYS`. -/
def backupSlotWeekdays : List Int := [0, 1, 2, 3, 4, 5, 6]

/-- `date.weekday`. -/
def weekday (day : Int) : Int := (day + 3) % 7

def slotOn (day : Int) : Int := day * Alert.kstDaySpan + backupSlotKst - Alert.kstOffset

/-- The loop of `expected_backup_slot`. -/
def slotFrom (auditAt : Int) : Nat → Int → Int
  | 0, day => slotOn day
  | fuel + 1, day =>
    if slotOn day < auditAt ∧ weekday day ∈ backupSlotWeekdays then slotOn day else slotFrom auditAt fuel (day - 1)

/-- `expected_backup_slot`. -/
def expectedBackupSlot (auditAt : Int) : Int := slotFrom auditAt 7 (Alert.kstDay auditAt)

theorem weekday_mem (day : Int) : weekday day ∈ backupSlotWeekdays := by
  have h : 0 ≤ (day + 3) % 7 ∧ (day + 3) % 7 < 7 := by omega
  simp only [weekday, backupSlotWeekdays, List.mem_cons, List.not_mem_nil]
  omega

/-- **The expected slot is the last one strictly before the audit.** -/
theorem expectedBackupSlot_spec (auditAt : Int) :
    expectedBackupSlot auditAt < auditAt ∧ auditAt ≤ expectedBackupSlot auditAt + Alert.kstDaySpan := by
  have hday : ∀ day, slotOn day = day * 86400000000 + 80100000000 - 32400000000 := fun _ => rfl
  have hat : Alert.kstDay auditAt = (auditAt + 32400000000) / 86400000000 := rfl
  have hspan : Alert.kstDaySpan = 86400000000 := rfl
  unfold expectedBackupSlot
  rw [slotFrom]
  by_cases h : slotOn (Alert.kstDay auditAt) < auditAt
  · rw [if_pos ⟨h, weekday_mem _⟩]
    rw [hday, hat] at h ⊢
    omega
  · have h' : slotOn (Alert.kstDay auditAt - 1) < auditAt := by
      rw [hday, hat]
      omega
    rw [if_neg (fun hs => h hs.1), slotFrom, if_pos ⟨h', weekday_mem _⟩]
    rw [hday, hat] at h h' ⊢
    omega

/-- `_fresh_marker_outcome`. -/
def freshMarkerOutcome (progress : Option BackupProgress) (expectedSlot auditAt : Int) : Option (List String) := do
  let progress ← progress
  let markerStarted ← progress.startedAt.fromisoformat
  let markerDeadline ← progress.deadlineAt.fromisoformat
  if markerStarted.instant < expectedSlot then none
  else if auditAt < markerDeadline.instant then some ["offsite_backup:running"]
  else some ["offsite_backup:interrupted"]

/-- What the check takes from a report that it can read. -/
structure LastRun where
  status : Text
  startedRaw : Text
  startedAt : Moment
  steps : Option Json

def readReport : Option Json → Option LastRun
  | some (.obj kvs) =>
    match kvs.lookup "status", kvs.lookup "started_at" with
    | some (.str status), some (.str startedRaw) =>
      startedRaw.fromisoformat.map fun startedAt => { status, startedRaw, startedAt, steps := kvs.lookup "steps" }
    | _, _ => none
  | _ => none

/-- The last part of the check: an ok report that is fresh, whose transfers may have been deferred. -/
def deferredIssues (auditAt : Int) (run : LastRun) : Program (List String) := do
  match run.steps with
  | some (.obj steps) =>
    let state := deferredStateFromSteps steps
    if isDeferred state.1 state.2.1 then
      let history := readDeferredProgress (← loads .history)
      let current : DeferredProgress := {
        runStartedAt := run.startedRaw, deferredDates := state.1, deferredLoose := state.2.1.map .plain
        oldestDeferredDate := state.2.2 }
      let effective :=
        if history.getLast?.map (·.runStartedAt) = some current.runStartedAt then history else history ++ [current]
      pure [classifyDeferred effective auditAt]
    else pure []
  | _ => pure []

/-- `backup_staleness_issues`. -/
def backupStalenessIssues (auditAt : Int) : Program (List String) := do
  let expectedSlot := expectedBackupSlot auditAt
  -- writers publish the report before they clear the marker; the check reads in the opposite order
  let progress := readBackupProgress (← loads .marker)
  let fresh := freshMarkerOutcome progress expectedSlot auditAt
  if ← isThere .report then
    match readReport (← loads .report) with
    | none => pure ["offsite_backup:unreadable"]
    | some run =>
      if run.status ≠ .plain "ok" then pure ["offsite_backup:failed"]
      else if run.startedAt.instant < expectedSlot then pure (fresh.getD ["offsite_backup:stale"])
      else deferredIssues auditAt run
  else pure (fresh.getD ["offsite_backup:missing"])

end Backup
