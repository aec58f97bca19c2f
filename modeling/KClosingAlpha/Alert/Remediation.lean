import KClosingAlpha.Alert.Pager
import Mathlib.Data.List.Dedup
import Mathlib.Data.String.Basic
/-!
# Remediation — reruns of units within bounds (`auto_remediation`)

A tick reads the ledger, settles what was started, plans what to start and starts it, each from the rows that it reads
back.  What the notifications make of the ledger is left out, and so are log lines.
-/
namespace AutoRemediation

open Alert (kstDay)

/-! ## Rows -/

inductive Action where
  | rerunUnit
  deriving DecidableEq

inductive Outcome where
  | started
  | resolved
  | unresolved
  | skippedWindow
  | skippedBudget
  | skippedBusy
  | skippedForbidden
  | failed
  deriving DecidableEq

/-- `_LIFECYCLE_OUTCOMES`. -/
def Outcome.isLifecycle : Outcome → Bool
  | started | resolved | unresolved | failed => true
  | _ => false

structure Row where
  ts : Int
  issueKey : String
  action : Action
  unit : String
  attempt : Nat
  outcome : Outcome
  detail : String
  deriving DecidableEq

/-- `str.splitlines` breaks a line here, and `json.dumps(ensure_ascii=False)` writes these as they are. -/
def breaksLine (text : String) : Bool :=
  text.toList.any (fun c => c.toNat == 0x85 || c.toNat == 0x2028 || c.toNat == 0x2029)

/-- A row is a line; broken within a string, neither part of it is a record. -/
def Row.isRead (r : Row) : Bool := !(breaksLine r.issueKey || breaksLine r.unit || breaksLine r.detail)

/-- `read_remediation_ledger`. -/
def readLedger (rows : List Row) : List Row := rows.filter Row.isRead

/-! ## Rules -/

structure Rule where
  keyPrefix : String
  action : Action
  targetUnit : Option String
  maxAttemptsPerDay : Nat
  deriving DecidableEq

/-- `REMEDIATION_RULES`. -/
def rules : List Rule :=
  [⟨"failed_unit:", .rerunUnit, none, 2⟩, ⟨"job_late:", .rerunUnit, none, 1⟩,
    ⟨"stale_kis_token:", .rerunUnit, some "kca-kis-token-warmup.service", 2⟩,
    ⟨"intraday:tape_expiring:", .rerunUnit, some "kca-tape-sweep.service", 1⟩,
    ⟨"offsite_backup:interrupted", .rerunUnit, some "kca-backup.service", 1⟩]

/-- `SAFE_RERUN_UNITS`. -/
def safeRerunUnits : List String :=
  ["kca-tape-sweep.service", "kca-price-ingest.service", "kca-altdata-capture.service", "kca-archive-intraday.service",
    "kca-archive-intraday-regular.service", "kca-extended-backfill.service", "kca-audit-reconcile.service",
    "kca-backup.service", "kca-backup-prune.service", "kca-core-snapshot.service", "kca-offsite-verify.service",
    "kca-kis-token-warmup.service"]

/-- `DRIVE_LOCK_SIBLINGS`. -/
def driveLockSiblings : List String :=
  ["kca-backup.service", "kca-backup-prune.service", "kca-core-snapshot.service", "kca-offsite-verify.service"]

/-- `REMEDIATION_MIN_SPACING`. -/
def minSpacing : Int := 30 * 60 * 1000000

def hasPrefix (lead text : String) : Bool := lead.toList.isPrefixOf text.toList

def dropPrefix (lead text : String) : String := String.ofList (text.toList.drop lead.length)

def hasSuffix (tail text : String) : Bool := tail.toList.isSuffixOf text.toList

/-- `^kca-[a-z0-9-]+\.service$`. -/
def isUnitName (unit : String) : Bool :=
  let middle := (unit.toList.drop 4).take (unit.length - 12)
  hasPrefix "kca-" unit && hasSuffix ".service" unit && decide (12 < unit.length) &&
    middle.all (fun c => c.isLower || c.isDigit || c == '-')

def normalizeUnit (raw : String) : Option String :=
  let name := Py.strip raw
  if name = "" then none
  else if name.toList.any (fun c => c == ':' || c == '/' || c == ' ') then none
  else some (if hasSuffix ".service" name then name else name ++ ".service")

def matchRule (key : String) : Option Rule := rules.find? (fun rule => hasPrefix rule.keyPrefix key)

def deriveUnit (rule : Rule) (key : String) : Option String :=
  match rule.targetUnit with
  | some unit => some unit
  | none => normalizeUnit (dropPrefix rule.keyPrefix key)

/-- The unit that may be rerun. -/
def isSafe (unit : Option String) : Option String :=
  unit.filter (fun name => isUnitName name && decide (name ∈ safeRerunUnits))

/-- `_remediable_unit`. -/
def remediableUnit (key : String) : Option (Rule × String) :=
  (matchRule key).bind (fun rule => (isSafe (deriveUnit rule key)).map (fun unit => (rule, unit)))

/-! ## What the ledger says of a key -/

/-- The later of two times. -/
def laterTs (latest : Option Int) (ts : Int) : Option Int :=
  match latest with
  | none => some ts
  | some t => if t < ts then some ts else some t

/-- `_attempts_today`. -/
def attemptsToday (history : List Row) (key : String) (now : Int) : Nat × Option Int :=
  history.foldl (fun (count, latest) rec =>
    if rec.issueKey ≠ key then (count, latest)
    else if rec.outcome = .started then
      (if kstDay rec.ts = kstDay now then count + 1 else count, laterTs latest rec.ts)
    else if rec.outcome = .failed then (count, laterTs latest rec.ts)
    else (count, latest)) (0, none)

/-- `_latest_record`: of the rows that count, the last of the latest. -/
def latestRecord (history : List Row) (key : String) (lifecycleOnly : Bool) : Option Row :=
  history.foldl (fun best rec =>
    if rec.issueKey ≠ key then best
    else if lifecycleOnly && !rec.outcome.isLifecycle then best
    else
      match best with
      | none => some rec
      | some b => if b.ts ≤ rec.ts then some rec else some b) none

def sortedKeys (keys : List String) : List String := keys.dedup.insertionSort (· ≤ ·)

/-! ## plan -/

/-- `_repeats_today`. -/
def repeatsToday (rec : Row) (history : List Row) : Bool :=
  !rec.outcome.isLifecycle &&
    (latestRecord history rec.issueKey false).any (fun latest =>
      decide (latest.outcome = rec.outcome) && decide (kstDay latest.ts = kstDay rec.ts))

/-- Siblings of one Drive lock are busy together. -/
def isBusy (unitBusy : String → Bool) (unit : String) : Bool :=
  if unit ∈ driveLockSiblings then (driveLockSiblings.insertionSort (· ≤ ·)).any unitBusy else unitBusy unit

/-- The next record of one key. -/
def planKey (blackout : Int → Int) (unitBusy : String → Bool) (now : Int) (history : List Row) (key : String) : Option Row :=
  (matchRule key).bind (fun rule =>
    let (attempts, latest) := attemptsToday history key now
    let record (unit : String) (outcome : Outcome) (detail : String) : Row :=
      ⟨now, key, rule.action, unit, attempts + 1, outcome, detail⟩
    match isSafe (deriveUnit rule key) with
    | none =>
      let stripped := Py.strip (dropPrefix rule.keyPrefix key)
      let named := ((deriveUnit rule key).filter (fun unit => decide (unit ≠ ""))).getD
        (if stripped = "" then "unknown" else stripped)
      some (record named .skippedForbidden ("forbidden unit for " ++ rule.keyPrefix))
    | some unit =>
      if latest.any (fun t => decide (now - t < minSpacing)) then none
      else if 0 < blackout now then some (record unit .skippedWindow "deploy blackout in effect")
      else if isBusy unitBusy unit then some (record unit .skippedBusy "unit busy or Drive sibling active")
      else if rule.maxAttemptsPerDay ≤ attempts then
        some (record unit .skippedBudget "per-day attempt budget exhausted")
      else some (record unit .started ("rule=" ++ rule.keyPrefix)))

def plan (blackout : Int → Int) (unitBusy : String → Bool) (openKeys : List String) (now : Int) (history : List Row) :
    List Row :=
  ((sortedKeys openKeys).filterMap (planKey blackout unitBusy now history)).filter (fun rec => !repeatsToday rec history)

/-! ## settle -/

/-- The outcome of one key. -/
def settleKey (openKeys : List String) (now : Int) (history : List Row) (key : String) : Option Row :=
  (latestRecord history key true).bind (fun latest =>
    if latest.outcome ≠ .started then none
    else if key ∉ openKeys then
      some { latest with ts := now, issueKey := key, outcome := .resolved, detail := "issue no longer open" }
    else if minSpacing ≤ now - latest.ts then
      some { latest with ts := now, issueKey := key, outcome := .unresolved, detail := "issue still open after spacing" }
    else none)

def settle (openKeys : List String) (now : Int) (history : List Row) : List Row :=
  (sortedKeys (history.map Row.issueKey)).filterMap (settleKey openKeys now history)

/-! ## execute -/

/-- What a tick does to the host: a row appended, and a unit started for an attempt. -/
inductive Event where
  | row (r : Row)
  | start (unit key : String) (ts : Int)
  deriving DecidableEq

/-- A tick, with the failures of `systemctl` for a unit and the clock when one is recorded. -/
structure Tick where
  openKeys : List String
  now : Int
  unitBusy : String → Bool
  resetFailed : String → Option String
  start : String → Option String
  failedAt : Row → Int
  /-- How many attempts are worked off before a crash; none where it comes before the plan is appended. -/
  reach : Option Nat

def Tick.failure (t : Tick) (rec : Row) (detail : String) : Event :=
  .row { rec with ts := t.failedAt rec, outcome := .failed, detail := detail }

/-- One attempt. -/
def Tick.attempt (t : Tick) (rec : Row) : List Event :=
  if !isUnitName rec.unit then [t.failure rec "invalid unit name"]
  else
    match t.resetFailed rec.unit with
    | some detail => [t.failure rec detail]
    | none =>
      .start rec.unit rec.issueKey rec.ts ::
        (match t.start rec.unit with
        | some detail => [t.failure rec detail]
        | none => [])

/-- `execute_remediation`, as far as it comes. -/
def Tick.execute (t : Tick) (planned : List Row) (reach : Nat) : List Event :=
  planned.map .row ++ ((planned.filter (fun rec => decide (rec.outcome = .started))).take reach).flatMap t.attempt

def Event.row? : Event → Option Row
  | .row r => some r
  | .start _ _ _ => none

/-- The ledger. -/
def rowsOf (trace : List Event) : List Row := trace.filterMap Event.row?

/-- A tick after some events. -/
def Tick.events (blackout : Int → Int) (t : Tick) (trace : List Event) : List Event :=
  let history := readLedger (rowsOf trace)
  let settled := settle t.openKeys t.now history
  settled.map .row ++
    (match t.reach with
    | none => []
    | some reach => t.execute (plan blackout t.unitBusy t.openKeys t.now (history ++ settled)) reach)

def run (blackout : Int → Int) (ts : List Tick) : List Event :=
  ts.foldl (fun trace t => trace ++ t.events blackout trace) []

end AutoRemediation
