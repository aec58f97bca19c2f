import KClosingAlpha.Alert.Pager
import KClosingAlpha.Py.Lookup
import Mathlib.Data.List.Dedup
/-!
# Reconcile — the tick between two audits (`audit_reconcile`)

A tick measures the classes that heal by themselves, settles what opened and what was resolved, stores the open set and
then pages from it.  Ticks that only print (`dry_run`) are left out, and so are the texts of subjects, bodies and notes;
what remediation decides is a parameter, as it is of the source.
-/
namespace Alert

def hasPrefix (lead text : String) : Bool := lead.toList.isPrefixOf text.toList

def sortedKeys (keys : List String) : List String := keys.dedup.insertionSort (· ≤ ·)

/-! ## Which issue pages (`alert_policy`) -/

/-- `CRITICAL_UNITS`. -/
def criticalUnits : Py.Dict IncidentKind :=
  [("kca-order-entry", .orderEntry), ("kca-order-exit", .orderExit), ("kca-order-reconcile-entry", .orderReconcileEntry),
    ("kca-order-reconcile-exit", .orderReconcileExit), ("kca-collect", .collect), ("kca-predict", .predict),
    ("kca-finalize-close", .finalizeClose), ("kca-kis-token-warmup", .kisTokenWarmup),
    ("krx-deferred-recreate", .krxDeferredRecreate)]

/-- `BACKUP_FAILING_KEYS`. -/
def backupFailingKeys : List String :=
  ["offsite_backup:failed", "offsite_backup:missing", "offsite_backup:stale", "offsite_backup:unreadable",
    "offsite_backup:interrupted"]

/-- `RECONCILE_MEASURED_PREFIXES`. -/
def reconcileMeasuredPrefixes : List String := ["failed_unit:kca-", "offsite_backup:", "stale_kis_token:"]

/-- `OPEN` for `MEASURED_KINDS`. -/
def incidentScope (kind : IncidentKind) : SourceScope :=
  if kind = .kisTokenWarmup ∨ kind = .kisTokenStale ∨ kind = .backupFailing then .opened else .day

/-- Every trailing `.service` is stripped, on the reversed name. -/
def dropSuffixes : Nat → List Char → List Char
  | 0, cs => cs
  | fuel + 1, cs =>
    if ".service".toList.reverse.isPrefixOf cs then dropSuffixes fuel (cs.drop 8) else cs

def unitBaseName (unit : String) : String :=
  String.ofList (dropSuffixes unit.length (Py.strip unit).toList.reverse).reverse

def classifyUnit (unit : String) : Option IncidentKind :=
  if hasPrefix "kse-alert@" (unitBaseName unit) then some .ksePageUndelivered else criticalUnits.lookup (unitBaseName unit)

def classifyIssueKey (key : String) : Option IncidentKind :=
  if hasPrefix "failed_unit:" key then classifyUnit (String.ofList (key.toList.drop 12))
  else if hasPrefix "stale_kis_token:" key then some .kisTokenStale
  else if key ∈ backupFailingKeys then some .backupFailing
  else none

def issuePageDue (cfg : AlertPolicyConfig) (kind : IncidentKind) (firstSeen now : Int) : Bool :=
  if kind = .backupFailing then decide (cfg.backupPageAfter ≤ now - firstSeen)
  else if kind = .kisTokenStale then
    decide (cfg.decisionWindowStart - cfg.kisTokenPageLead ≤ kstTime now) && decide (kstTime now < cfg.decisionWindowStart)
  else true

/-! ## Measuring -/

/-- A measurement, which raises or returns. -/
inductive Measure (α : Type) where
  | raised
  | returned (a : α)

/-- A run of `systemctl`; the exceptions are `OSError` and `TimeoutExpired`. -/
inductive Systemctl where
  | unavailable (exc : String)
  | answered (returncode : Int) (lines : List String)

/-- `line.split()[0]`. -/
def firstWord (line : String) : String :=
  String.ofList ((line.toList.dropWhile Py.isSpace).takeWhile (fun c => !Py.isSpace c))

def listFailedKcaUnits : Systemctl → List String
  | .unavailable exc => ["<systemctl unavailable: " ++ exc ++ ">"]
  | .answered _ lines => ((lines.filter (fun line => !Py.isBlank line)).map firstWord).insertionSort (· ≤ ·)

/-- An entry of the open set. -/
structure Entry where
  transient : Option Bool
  text : Option String
  firstSeen : Option Int
  lastNotified : Option Int
  deriving DecidableEq

/-- What is measured of a key. -/
structure Issue where
  transient : Bool
  text : String
  deriving DecidableEq

/-- What a remediation that ran decides of a key; one that raised has no say. -/
structure Remediation where
  failed : Bool
  shouldHold : String → Bool

structure Tick where
  now : Int
  units : Measure Systemctl
  snapshotClosed : Measure Bool
  tokens : Measure (List String)
  backup : Measure (List String)
  outbox : Measure Int
  ops : Option (Measure (List (String × String)))
  remediation : Option Remediation
  delivers : Bool
  reminderAfter : Int
  pending : String → Int → Int → Bool
  autoAction : String → Option String

def isTransientIssueKey (key : String) : Bool :=
  decide (key = "undelivered_alerts") ||
    ["offsite_backup:", "failed_unit:", "stale_kis_token:", "job_late:", "job_overrun:", "timer_inactive:",
      "host_disk_low:", "ops_measure_unavailable:"].any (fun lead => hasPrefix lead key)

def Entry.isTransient (e : Entry) (key : String) : Bool := e.transient.getD (isTransientIssueKey key)

/-- `_prev_keys`. -/
def prevKeys (prev : Py.Dict Entry) (lead : String) : Py.Dict Issue :=
  (prev.filter (fun p => hasPrefix lead p.1)).map (fun p => (p.1, ⟨true, p.2.text.getD p.1⟩))

namespace Tick

variable (t : Tick) (prev : Py.Dict Entry)

def measureUnits : Py.Dict Issue :=
  match t.units with
  | .raised => prevKeys prev "failed_unit:"
  | .returned run => (listFailedKcaUnits run).map (fun unit => ("failed_unit:" ++ unit, ⟨true, "실패 유닛: " ++ unit⟩))

def closed : Bool :=
  match t.snapshotClosed with
  | .raised => false
  | .returned closed => closed

def measureTokens : Py.Dict Issue :=
  if t.closed then []
  else
    match t.tokens with
    | .raised => prevKeys prev "stale_kis_token:"
    | .returned tokens => tokens.map (fun token => ("stale_kis_token:" ++ token, ⟨true, "KIS 토큰 누락: " ++ token⟩))

/-- The backup is measured only as running. -/
def provisional : Bool :=
  match t.backup with
  | .raised => false
  | .returned raw => decide ("offsite_backup:running" ∈ raw)

def measureBackup : Py.Dict Issue :=
  match t.backup with
  | .raised => prevKeys prev "offsite_backup:"
  | .returned raw =>
    if t.provisional then []
    else (raw.filter (fun item => !(decide (item = "offsite_backup:running") || decide (item = "offsite_backup:draining")))).map
      (fun item => (item, ⟨true, "백업 이상: " ++ item⟩))

def measureOutbox : Py.Dict Issue :=
  match t.outbox with
  | .raised => (prev.filter (fun p => decide (p.1 = "undelivered_alerts"))).map
      (fun p => (p.1, ⟨true, p.2.text.getD "undelivered_alerts"⟩))
  | .returned count =>
    if 0 < count then [("undelivered_alerts", ⟨true, "미전송 알림: " ++ toString count ++ "건 (outbox 적체)"⟩)] else []

/-- The classes whose keys are kept when their measurement raises. -/
def opsKeptPrefixes : List String := ["job_late:", "job_overrun:", "timer_inactive:", "host_disk_low:"]

/-- `ops_issues_fn` is passed on only where there is a remediation. -/
def measureOps : Py.Dict Issue :=
  if t.remediation.isNone then []
  else
    match t.ops with
    | none => []
    | some .raised => opsKeptPrefixes.flatMap (prevKeys prev)
    | some (.returned items) => items.map (fun p => (p.1, ⟨true, p.2⟩))

/-- `_measure_transient`. -/
def measured : Py.Dict Issue :=
  Py.Dict.update [] (t.measureUnits prev ++ t.measureTokens prev ++ t.measureBackup prev ++ t.measureOutbox prev ++ t.measureOps prev)

end Tick

/-! ## The open set -/

structure AuditState where
  snapshotDate : String
  opens : Py.Dict Entry
  pendingResolutions : Py.Dict Entry
  deriving DecidableEq

/-- A heartbeat; `openIssues` is none in the legacy form. -/
structure Heartbeat where
  snapshotDate : String
  finishedAt : Int
  openIssues : Option (List (String × Issue))
  legacyWarning : Bool
  deriving DecidableEq

structure Stored where
  state : Option AuditState
  heartbeat : Option Heartbeat
  deriving DecidableEq

/-- The open set before a tick. -/
def Stored.prevOpen (s : Stored) : Except Exn (Py.Dict Entry) :=
  match s.state, s.heartbeat with
  | some state, _ => .ok (Py.Dict.update (Py.Dict.update [] state.opens) state.pendingResolutions)
  | none, some hb => do
    Exc.raiseIf (hb.openIssues = none ∧ hb.legacyWarning = true) .os
    .ok (Py.Dict.update [] ((hb.openIssues.getD []).map (fun p =>
      (p.1, ⟨some p.2.transient, some p.2.text, some hb.finishedAt, some hb.finishedAt⟩))))
  | none, none => .ok []

/-- The first date that is not empty. -/
def Stored.snapshotDate (s : Stored) : String :=
  let date := (s.state.map AuditState.snapshotDate).getD ""
  if date = "" then (s.heartbeat.map Heartbeat.snapshotDate).getD "" else date

def persistent (prev : Py.Dict Entry) : Py.Dict Issue :=
  (prev.filter (fun p => !p.2.isTransient p.1)).map (fun p => (p.1, ⟨false, p.2.text.getD p.1⟩))

inductive Action where
  | noop
  | resolved
  | opened
  | changed
  | reminded
  deriving DecidableEq

structure ReconcileResult where
  action : Action
  opened : List String
  resolved : List String
  stillOpen : List String
  notified : Bool
  held : List String
  measured : Bool
  deriving DecidableEq

/-- What is persisted: the keys notified, whether all are reminded of, and the keys held. -/
structure Persist where
  notified : List String
  reminder : Bool
  held : List String

structure Conclusion where
  persist : Option Persist
  refresh : Bool
  result : ReconcileResult

def isRemediationExcluded (key : String) : Bool :=
  if hasPrefix "intraday:tape_expiring:" key then false
  else ["missing:", "collection:", "intraday:", "expiry:"].any (fun lead => hasPrefix lead key)

namespace Tick

variable (t : Tick) (prev : Py.Dict Entry)

def newOpen : Py.Dict Issue := Py.Dict.update (persistent prev) (t.measured prev)

def newKeys : List String := sortedKeys ((t.newOpen prev).map Prod.fst)

def prevNames : List String := prev.map Prod.fst

def opened : List String := (t.newKeys prev).filter (fun key => !decide (key ∈ prevNames prev))

def pendingResolutions : Py.Dict Entry := prev.filter (fun p => t.provisional && hasPrefix "offsite_backup:" p.1)

def resolved : List String :=
  sortedKeys ((prevNames prev).filter (fun key =>
    !decide (key ∈ t.newKeys prev) && !decide (key ∈ prevNames (t.pendingResolutions prev))))

/-- `_held`. -/
def isHeld (key : String) : Bool :=
  match t.remediation with
  | none => false
  | some r => !r.failed && !isRemediationExcluded key && r.shouldHold key

def held : List String := (t.opened prev).filter t.isHeld

/-- Was notified of, or never was open. -/
def wasSilent (key : String) : Bool := (prev.lookup key).any (fun e => e.lastNotified.isNone)

def released : List String :=
  (t.newKeys prev).filter (fun key =>
    wasSilent prev key && !decide (key ∈ t.opened prev) && !t.isHeld key && !isRemediationExcluded key)

def notifyOpened : List String :=
  sortedKeys ((t.opened prev).filter (fun key => !decide (key ∈ t.held prev)) ++ t.released prev)

def silentResolved : List String := (t.resolved prev).filter (wasSilent prev)

def announcedResolved : List String := (t.resolved prev).filter (fun key => !wasSilent prev key)

def persistHeld : List String := t.held prev ++ (t.newKeys prev).filter (fun key => wasSilent prev key && t.isHeld key)

/-- A key that was last notified too long ago. -/
def overdue : Bool :=
  (t.newKeys prev).any (fun key =>
    decide (t.reminderAfter < t.now - ((prev.lookup key).bind Entry.lastNotified).getD t.now))

/-- The branches of `run_audit_reconcile`. -/
def conclude (hasState hasHeartbeat : Bool) : Conclusion :=
  let new := t.newKeys prev
  let held := t.held prev
  let keep : Persist := ⟨[], false, t.persistHeld prev⟩
  if (t.notifyOpened prev).isEmpty && (t.announcedResolved prev).isEmpty then
    let first := if !hasState || !(t.pendingResolutions prev).isEmpty then some keep else none
    if new.isEmpty then
      if !(t.silentResolved prev).isEmpty then
        ⟨some ⟨[], false, []⟩, hasHeartbeat, ⟨.resolved, [], t.resolved prev, [], false, held, true⟩⟩
      else ⟨first, hasHeartbeat, ⟨.noop, [], [], [], false, held, true⟩⟩
    else if !(t.opened prev).isEmpty && !t.overdue prev then
      ⟨some keep, hasHeartbeat, ⟨.opened, t.opened prev, [], new, false, held, true⟩⟩
    else if !t.overdue prev then
      ⟨if hasHeartbeat then some keep else first, hasHeartbeat, ⟨.noop, [], [], new, false, held, true⟩⟩
    else if !t.delivers then ⟨first, false, ⟨.reminded, [], [], new, false, held, true⟩⟩
    else ⟨some ⟨[], true, []⟩, true, ⟨.reminded, [], [], new, true, held, true⟩⟩
  else if !(t.announcedResolved prev).isEmpty && new.isEmpty then
    ⟨some ⟨[], false, []⟩, true, ⟨.resolved, [], t.resolved prev, [], false, held, true⟩⟩
  else if !(t.notifyOpened prev).isEmpty && (t.announcedResolved prev).isEmpty then
    if !t.delivers then ⟨none, false, ⟨.opened, t.opened prev, t.resolved prev, new, false, held, true⟩⟩
    else
      ⟨some ⟨t.notifyOpened prev, false, t.persistHeld prev⟩, true, ⟨.opened, t.opened prev, [], new, true, held, true⟩⟩
  else if (t.notifyOpened prev).isEmpty then
    ⟨some keep, true, ⟨.changed, t.opened prev, t.resolved prev, new, false, held, true⟩⟩
  else if !t.delivers then ⟨none, false, ⟨.changed, t.opened prev, t.resolved prev, new, false, held, true⟩⟩
  else
    ⟨some ⟨t.notifyOpened prev, false, t.persistHeld prev⟩, true,
      ⟨.changed, t.opened prev, t.resolved prev, new, true, held, true⟩⟩

/-- An entry that is persisted. -/
def persistEntry (p : Persist) (key : String) (issue : Issue) : Entry :=
  let before := prev.lookup key
  let firstSeen := (before.bind Entry.firstSeen).getD t.now
  let lastNotified :=
    if key ∈ p.notified ∨ p.reminder = true then some t.now
    else if key ∈ p.held then none
    else some ((before.bind Entry.lastNotified).getD t.now)
  ⟨some issue.transient, some issue.text, some firstSeen, lastNotified⟩

/-- `_persist_state`. -/
def persist (date : String) (p : Persist) : AuditState where
  snapshotDate := date
  opens := (t.newKeys prev).filterMap (fun key =>
    ((t.newOpen prev).lookup key).map (fun issue => (key, t.persistEntry prev p key issue)))
  pendingResolutions := t.pendingResolutions prev

/-- `_refresh_heartbeat`. -/
def refreshed (date : String) (before : Option Heartbeat) : Heartbeat where
  snapshotDate := date
  finishedAt := (before.map Heartbeat.finishedAt).getD t.now
  openIssues := some ((t.newKeys prev).filterMap (fun key => ((t.newOpen prev).lookup key).map (fun issue => (key, issue))))
  legacyWarning := false

end Tick

def unmeasured : ReconcileResult := ⟨.noop, [], [], [], false, [], false⟩

def runAuditReconcile (t : Tick) (s : Stored) : Except Exn (Stored × ReconcileResult) :=
  if s.state = none ∧ s.heartbeat = none then .ok (s, unmeasured)
  else do
    let prev ← s.prevOpen
    if s.snapshotDate = "" then .ok (s, unmeasured)
    else
      let c := t.conclude prev s.state.isSome s.heartbeat.isSome
      .ok (⟨(c.persist.map (t.persist prev s.snapshotDate)).or s.state,
        if c.refresh then some (t.refreshed prev s.snapshotDate s.heartbeat) else s.heartbeat⟩, c.result)

/-! ## Paging -/

/-- One issue of `page_issue_keys`. -/
def pageIssueKey (cfg : AlertPolicyConfig) (io : Access) (t : Tick) (file : File) (key : String) : File × List Mail :=
  match classifyIssueKey key with
  | none => (file, [])
  | some kind =>
    if incidentScope kind ≠ .opened then (file, [])
    else
      let (seen, firstSeen) := observe io file kind key .opened t.now
      if !issuePageDue cfg kind firstSeen t.now then (seen, [])
      else if t.pending key firstSeen t.now then (seen, [])
      else
        let (paged, _, mails) := page cfg io seen kind key .opened t.now (t.autoAction key)
        (paged, mails)

/-- `page_issue_keys`. -/
def pageIssueKeys (cfg : AlertPolicyConfig) (io : Access) (t : Tick) : File → List String → File × List Mail
  | file, [] => (file, [])
  | file, key :: keys =>
    let (next, mails) := pageIssueKey cfg io t file key
    let (last, more) := pageIssueKeys cfg io t next keys
    (last, mails ++ more)

def pageReconcileIncidents (cfg : AlertPolicyConfig) (io : Access) (t : Tick) (result : ReconcileResult) (file : File) :
    File × List Mail :=
  if !result.measured then (file, [])
  else
    let (paged, mails) := pageIssueKeys cfg io t file (sortedKeys result.stillOpen)
    let (last, _, more) := resolveAbsent io paged paged result.stillOpen reconcileMeasuredPrefixes t.now
    (last, mails ++ more)

end Alert
