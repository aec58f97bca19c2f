import KClosingAlpha.Intraday.Backfill
import KClosingAlpha.Lib.KeepLast
import Mathlib
/-!
# BackfillLedger — the durable outcomes of the backfill (`ExtendedBackfillLedger`)

A call reads the ledger under its lock, changes rows and replaces the file whole; a call that raises changes nothing.
The attempts of a failed row are carried from row to row (`record`), and a reopening sets them to one below the limit.
Ledgers written before some of the columns are left out, and so are log lines and the bytes of a backup.
-/
namespace BackfillLedger

open Exc (raiseIf)
open Intraday (CoverageEntry CaptureStatus Exn strippedReason isStructuralFailure)
open KeepLast

/-! ## Rows -/

structure Row where
  snapshotDate : String
  session : String
  symbol : String
  status : String
  rows : Nat
  reason : String
  runId : String
  attemptedAt : String
  vendor : String
  priceBasis : String
  attempts : Nat
  adjustedCopy : Bool
  deriving DecidableEq

abbrev Key := String × String × String

/-- `_LEDGER_KEYS`. -/
def Row.key (row : Row) : Key := (row.snapshotDate, row.session, row.symbol)

/-- `EXTENDED_BACKFILL_MAX_FAILED_ATTEMPTS`. -/
def maxFailedAttempts : Nat := 3

/-! ## Failure classes -/

def deterministicFailureReasons : List String :=
  ["raw_basis_unavailable", "nonpositive_price", "price_basis_raw_basis_unavailable", "price_basis_no_raw_source",
    "price_basis_unknown", "price_basis_nonpositive_price"]

def hasPrefix (lead text : String) : Bool := lead.toList.isPrefixOf text.toList

def isDeterministicFailure (reason : String) : Bool :=
  decide (strippedReason reason ∈ deterministicFailureReasons) || hasPrefix "vendor_failure:rejected:" (strippedReason reason)

/-- `text.split(":")`, of which the first `n` parts are joined again. -/
def leadingParts (n : Nat) (text : String) : String :=
  String.ofList ([':'].intercalate ((text.toList.splitOn ':').take n))

def failureReasonClass (reason : String) : String :=
  let stripped := strippedReason reason
  let hadBasis := hasPrefix "price_basis_" stripped
  let normalized := if hadBasis then String.ofList (stripped.toList.drop 12) else stripped
  let grouped := if hasPrefix "vendor_failure:" normalized then leadingParts 2 normalized else leadingParts 1 normalized
  if grouped = "" then "empty" else if hadBasis then "price_basis_" ++ grouped else grouped

/-! ## record -/

structure RecordCall where
  snapshotDate : String
  session : String
  entries : List CoverageEntry
  runId : String
  /-- `attempted_at.isoformat()`. -/
  attemptedAt : String
  vendor : String
  priceBases : Py.Dict String
  isTransient : Option (String → Bool)
  adjustedCopies : List String
  /-- The symbols of a call differ. -/
  distinct : (entries.filterMap CoverageEntry.symbol).Nodup

structure RecordResult where
  newlyExhausted : Nat
  newlyExhaustedActionable : Nat

namespace RecordCall

variable (call : RecordCall)

/-- The entries that name a symbol. -/
def pending : List (String × CoverageEntry) := call.entries.filterMap (fun e => e.symbol.map (fun s => (s, e)))

def transient (reason : String) : Bool := call.isTransient.elim false (fun f => f reason)

/-- `_latest_attempts`. -/
def before (ledger : List Row) (symbol : String) : Option Row :=
  latest Row.symbol symbol (ledger.filter (fun row =>
    decide (row.snapshotDate = call.snapshotDate) && decide (row.session = call.session)))

/-- The attempts of the symbol's row if it failed. -/
def failedBefore (ledger : List Row) (symbol : String) : Option Nat :=
  ((call.before ledger symbol).filter (fun row => decide (row.status = "FAILED"))).map Row.attempts

/-- The status, reason and attempts of an entry's row. -/
def outcome (ledger : List Row) (symbol : String) (entry : CoverageEntry) : String × String × Nat :=
  if entry.status = .failed then
    if isStructuralFailure entry.reason then ("EXHAUSTED", "exhausted:" ++ entry.reason, 1)
    else if call.transient entry.reason then ("FAILED", entry.reason, (call.failedBefore ledger symbol).getD 0)
    else
      let attempts := (call.failedBefore ledger symbol).elim 1 (· + 1)
      if maxFailedAttempts ≤ attempts then ("EXHAUSTED", "exhausted:" ++ entry.reason, attempts)
      else ("FAILED", entry.reason, attempts)
  else (entry.status.value, entry.reason, 0)

def row (ledger : List Row) (symbol : String) (entry : CoverageEntry) : Row :=
  { snapshotDate := call.snapshotDate, session := call.session, symbol
    status := (call.outcome ledger symbol entry).1, rows := entry.rows, reason := (call.outcome ledger symbol entry).2.1
    runId := call.runId, attemptedAt := call.attemptedAt, vendor := call.vendor
    priceBasis := call.priceBases.getD symbol "", attempts := (call.outcome ledger symbol entry).2.2
    adjustedCopy := decide (symbol ∈ call.adjustedCopies) }

/-- The rows of a call. -/
def incoming (ledger : List Row) : List Row := call.pending.map (fun p => call.row ledger p.1 p.2)

/-- The entries that turned exhausted. -/
def exhausted (ledger : List Row) : List (String × CoverageEntry) :=
  call.pending.filter (fun p => decide ((call.row ledger p.1 p.2).status = "EXHAUSTED"))

end RecordCall

def record (ledger : List Row) (call : RecordCall) : List Row × RecordResult :=
  if call.pending.isEmpty then (ledger, ⟨0, 0⟩)
  else
    (keepLast Row.key (ledger ++ call.incoming ledger),
      { newlyExhausted := (call.exhausted ledger).length
        newlyExhaustedActionable := ((call.exhausted ledger).filter (fun p =>
          !isStructuralFailure p.2.reason && !isDeterministicFailure p.2.reason)).length })

/-! ## record_cached_absent -/

structure AbsentCall where
  snapshotDate : String
  session : String
  symbols : List String
  reason : String
  runId : String
  attemptedAt : String
  vendor : String

/-- `sorted({str(symbol) for symbol in symbols if str(symbol)})`. -/
def AbsentCall.names (call : AbsentCall) : List String :=
  ((call.symbols.filter (fun s => decide (s ≠ ""))).dedup).insertionSort (· ≤ ·)

def AbsentCall.row (call : AbsentCall) (name : String) : Row :=
  { snapshotDate := call.snapshotDate, session := call.session, symbol := name, status := "NOT_APPLICABLE", rows := 0
    reason := call.reason, runId := call.runId, attemptedAt := call.attemptedAt, vendor := call.vendor
    priceBasis := "", attempts := 0, adjustedCopy := false }

def AbsentCall.incoming (call : AbsentCall) : List Row := call.names.map call.row

def recordCachedAbsent (ledger : List Row) (call : AbsentCall) : Except Exn (List Row) :=
  if call.names.isEmpty then .ok ledger
  else do
    raiseIf (Py.isBlank call.reason) (.value "cached absence requires a nonempty reason")
    .ok (keepLast Row.key (ledger ++ call.incoming))

/-! ## reopen_exhausted -/

structure ReopenSelector where
  sessions : List String
  dateFrom : Option String
  dateTo : Option String
  reasonPrefix : Option String
  symbols : List String
  /-- An instant. -/
  attemptedSince : Option Int

/-- How dates are written and instants read. -/
structure Calendar where
  isoformat : Int → String
  /-- `_parse_attempted_instant`. -/
  instant : String → Option Int

structure ReopenCall where
  selector : ReopenSelector
  /-- A day. -/
  asOf : Int
  retentionDays : Int
  runId : String
  attemptedAt : String
  attemptedAtAware : Bool
  /-- The file name of the ledger. -/
  ledgerName : String

structure ReopenPlan where
  matched : Nat
  skippedOutOfRetention : Nat
  reopened : Nat
  byReasonClass : Py.Dict Nat
  keys : List Key
  backupPath : Option String

/-- `_strip_exhausted_markers`. -/
def stripExhaustedMarkers : Nat → List Char → List Char
  | 0, cs => cs
  | fuel + 1, cs => if "exhausted:".toList.isPrefixOf cs then stripExhaustedMarkers fuel (cs.drop 10) else cs

def selects (cal : Calendar) (sel : ReopenSelector) (row : Row) : Bool :=
  (sel.sessions.isEmpty || decide (row.session ∈ sel.sessions)) &&
    sel.dateFrom.all (fun day => decide (day = "") || decide (day ≤ row.snapshotDate)) &&
    sel.dateTo.all (fun day => decide (day = "") || decide (row.snapshotDate ≤ day)) &&
    sel.reasonPrefix.all (fun lead =>
      lead.toList.isPrefixOf (stripExhaustedMarkers row.reason.length row.reason.toList)) &&
    (sel.symbols.isEmpty || decide (row.symbol ∈ sel.symbols)) &&
    sel.attemptedSince.all (fun since => (cal.instant row.attemptedAt).any (fun t => decide (since ≤ t)))

namespace ReopenCall

variable (cal : Calendar) (call : ReopenCall)

/-- Whether the day of a row is still retained. -/
def retained (row : Row) : Bool :=
  decide (cal.isoformat (call.asOf - call.retentionDays) ≤ row.snapshotDate) &&
    decide (row.snapshotDate < cal.isoformat call.asOf)

/-- The exhausted rows that are selected. -/
def candidates (ledger : List Row) : List Row :=
  (keepLast Row.key ledger).filter (fun row => decide (row.status = "EXHAUSTED") && selects cal call.selector row)

def keyLe (a b : Row) : Prop :=
  a.snapshotDate < b.snapshotDate ∨ a.snapshotDate = b.snapshotDate ∧
    (a.session < b.session ∨ a.session = b.session ∧ a.symbol ≤ b.symbol)

instance : DecidableRel keyLe := fun _ _ => inferInstanceAs (Decidable (_ ∨ _))

/-- `_select`: what is reopened, by key, and how many are past their retention. -/
def select (ledger : List Row) : List Row × Nat :=
  (((call.candidates cal ledger).filter (call.retained cal)).insertionSort keyLe,
    ((call.candidates cal ledger).filter (fun row => !call.retained cal row)).length)

/-- The counts by the class of the reason. -/
def counts (matched : List Row) : Py.Dict Nat :=
  matched.foldl (fun d row => d.set (failureReasonClass row.reason) (d.getD (failureReasonClass row.reason) 0 + 1)) []

def reopenedRow (row : Row) : Row :=
  { row with
    status := "FAILED", attempts := maxFailedAttempts - 1, reason := "reopened:" ++ row.reason, runId := call.runId
    attemptedAt := call.attemptedAt }

/-- The last row of a key is changed. -/
def updateLast (k : Key) (f : Row → Row) : List Row → List Row
  | [] => []
  | row :: rows => if row.key = k ∧ k ∉ rows.map Row.key then f row :: rows else row :: updateLast k f rows

end ReopenCall

def reopenExhausted (cal : Calendar) (ledger : List Row) (call : ReopenCall) (apply : Bool) :
    Except Exn (List Row × ReopenPlan) := do
  raiseIf (call.retentionDays < 1) (.value ("retention_days must be >= 1, got " ++ toString call.retentionDays))
  raiseIf (call.attemptedAtAware = false) (.value "attempted_at must be timezone-aware")
  let (matched, skipped) := call.select cal ledger
  let keys := matched.map Row.key
  if !apply then .ok (ledger, ⟨matched.length, skipped, 0, ReopenCall.counts matched, keys, none⟩)
  else if matched.isEmpty then .ok (ledger, ⟨0, skipped, 0, [], [], none⟩)
  else
    .ok (matched.foldl (fun rows row => ReopenCall.updateLast row.key call.reopenedRow rows) ledger,
      ⟨matched.length, skipped, matched.length, ReopenCall.counts matched, keys,
        some (call.ledgerName ++ ".pre-reopen-" ++ call.runId ++ ".bak")⟩)

end BackfillLedger
