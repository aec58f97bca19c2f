import KClosingAlpha.Intraday.Backfill
import KClosingAlpha.Intraday.Shrink
import KClosingAlpha.Lib.Threads
import KClosingAlpha.Py.Lookup
/-!
# TossBackfill — the regular sessions that Toss still serves (`toss_regular_backfill.py`)

A date reads which symbols are settled or stored, fetches the others, and publishes what is complete: the partition, a
manifest, and then the rows of a ledger of its own.  Other processes write the same partitions meanwhile.  A write has its
effect while it holds the lock of the partition, and nobody else writes it then, so it is one step; the fetches of a date
are made one by one, in whatever order they are answered.
-/
namespace Intraday

open Exc (raiseIf)

variable {Cell : Type}

/-- `INTRADAY_SESSION_REGULAR`, which every date is stored and recorded under. -/
def BackfillTask.regular (task : BackfillTask) : BackfillTask := { task with session := "regular" }

/-! ## The ledger of the stream -/

def stockNotFoundReason : String := "toss_stock_not_found"

def cachedNotFoundReason : String := "toss_stock_not_found_cached"

/-- `_delisted_symbols`. -/
def delistedSymbols (ledger : List BackfillRow) : List String :=
  (ledger.filter (fun row => decide (row.status = "NOT_APPLICABLE") &&
    decide (row.reason ∈ [stockNotFoundReason, cachedNotFoundReason]))).map BackfillRow.symbol

/-- The status, reason and attempts a row is recorded with; no failure is transient here. -/
def tossAttempt (before : Option BackfillRow) (entry : CoverageEntry) : String × String × Nat :=
  let failedBefore := (before.filter (fun row => decide (row.status = "FAILED"))).map BackfillRow.attempts
  if entry.status = .failed then
    if isStructuralFailure entry.reason then ("EXHAUSTED", "exhausted:" ++ entry.reason, 1)
    else
      let attempts := failedBefore.elim 1 (· + 1)
      if 3 ≤ attempts then ("EXHAUSTED", "exhausted:" ++ entry.reason, attempts) else ("FAILED", entry.reason, attempts)
  else (entry.status.value, entry.reason, 0)

def tossRow (ledger : List BackfillRow) (task : BackfillTask) (priceBases : Py.Dict String) (symbol : String)
    (entry : CoverageEntry) : BackfillRow :=
  let before := (latestRows ledger task).find? (fun row => decide (row.symbol = symbol))
  { snapshotDate := task.snapshotDate, session := task.session, symbol
    status := (tossAttempt before entry).1, rows := entry.rows, reason := (tossAttempt before entry).2.1, vendor := "toss"
    priceBasis := priceBases.getD symbol "", attempts := (tossAttempt before entry).2.2, adjustedCopy := false }

/-- The rows of `record`; an entry without a symbol is skipped. -/
def tossRows (ledger : List BackfillRow) (task : BackfillTask) (priceBases : Py.Dict String) (entries : List CoverageEntry) :
    List BackfillRow :=
  entries.filterMap (fun entry => entry.symbol.map (fun symbol => tossRow ledger task priceBases symbol entry))

/-- The rows of `record_cached_absent`. -/
def cachedAbsentRows (task : BackfillTask) (symbols : List String) : List BackfillRow :=
  (((symbols.filter (fun s => decide (s ≠ ""))).dedup).mergeSort (fun a b => decide (a ≤ b))).map (fun symbol =>
    { snapshotDate := task.snapshotDate, session := task.session, symbol, status := "NOT_APPLICABLE", rows := 0
      reason := cachedNotFoundReason, vendor := "toss", priceBasis := "", attempts := 0, adjustedCopy := false })

/-! ## The world -/

/-- What the date under way has read and recorded. -/
structure DateUnderWay where
  task : BackfillTask
  /-- The symbols that were terminal when it began. -/
  terminal : List String
  /-- What it read as stored, until it writes. -/
  stored : Option (List String)
  /-- The rows it has put in the ledger. -/
  puts : List BackfillRow

structure TossWorld (Cell : Type) where
  store : World Cell
  ledger : List BackfillRow
  /-- Nothing reads it. -/
  underWay : Option DateUnderWay

namespace TossWorld

/-- Rows are appended, and the ledger is replaced whole. -/
def put (w : TossWorld Cell) (rows : List BackfillRow) : TossWorld Cell :=
  if rows.isEmpty then w
  else
    { w with
      ledger := keepLast (w.ledger ++ rows)
      underWay := w.underWay.map (fun d => { d with puts := d.puts ++ rows }) }

/-- A date begins. -/
def begin (w : TossWorld Cell) (task : BackfillTask) : TossWorld Cell :=
  { w with underWay := some ⟨task, terminalSymbols w.ledger task, none, []⟩ }

/-- What is stored was read, or is not relied upon any longer. -/
def note (w : TossWorld Cell) (stored : Option (List String)) : TossWorld Cell :=
  { w with underWay := w.underWay.map (fun d => { d with stored }) }

end TossWorld

inductive TossOp (Cell : Type) where
  /-- The deadline has passed, or the blackout that has begun outlasts it. -/
  | stopped
  /-- `ledger._read_all()`. -/
  | readLedger
  /-- `ledger.terminal_symbols`. -/
  | terminalSymbols (task : BackfillTask)
  /-- `_stored_partition_symbols`. -/
  | storedSymbols (task : BackfillTask)
  /-- `_evicted_task_partition`. -/
  | evicted (task : BackfillTask)
  /-- `acquire_toss_regular_bars`. -/
  | fetch (task : BackfillTask) (symbol : String)
  /-- `write_intraday_partition`. -/
  | write (args : WriteArgs Cell)
  | manifest (task : BackfillTask) (status : CaptureStatus) (entries : List CoverageEntry)
  /-- `ledger.record`. -/
  | record (task : BackfillTask) (entries : List CoverageEntry) (priceBases : Py.Dict String)
  /-- `ledger.record_cached_absent`. -/
  | recordCachedAbsent (task : BackfillTask) (symbols : List String)

abbrev TossOp.Ans : TossOp Cell → Type
  | stopped | evicted _ => Bool
  | readLedger => List BackfillRow
  | terminalSymbols _ | storedSymbols _ => List String
  | fetch _ _ => Acquisition Cell
  | write _ => Nat
  | manifest _ _ _ | record _ _ _ | recordCachedAbsent _ _ => Unit

abbrev TossOp.Ret (op : TossOp Cell) : Type := Except Exn op.Ans

/-- A ledger call that returns has replaced the ledger; one that raises may have, where the release of its lock raised. -/
def PutsRows {α : Type} (rows : List BackfillRow) (w : TossWorld Cell) (r : Except Exn α) (w' : TossWorld Cell) : Prop :=
  w' = w.put rows ∨ (∃ e, r = .error e) ∧ w' = w

/-- A write does what one of its runs does; what is read is there; the rest raises or returns. -/
def TossExec [DecidableEq Cell] (pd : Pandas Cell) :
    (op : TossOp Cell) → TossWorld Cell → op.Ret → TossWorld Cell → Prop
  | .readLedger, w, r, w' => (∀ rows, r = .ok rows → rows = w.ledger) ∧ w' = w
  | .terminalSymbols task, w, r, w' => (∀ symbols, r = .ok symbols → symbols = Intraday.terminalSymbols w.ledger task) ∧ w' = w.begin task
  | .storedSymbols task, w, r, w' =>
    (∀ symbols, r = .ok symbols → StoredSymbols pd w.store task.target symbols) ∧ w' = w.note r.toOption
  | .fetch _ symbol, w, r, w' => (∀ a, r = .ok a → Acquired pd (zfill6 symbol) a) ∧ w' = w
  | .write args, w, r, w' =>
    ∃ store, Prog.Ends Exec (writeIntradayPartition pd 1 args) w.store r store ∧ w' = { w with store }.note none
  | .record task entries priceBases, w, r, w' => PutsRows (tossRows w.ledger task priceBases entries) w r w'
  | .recordCachedAbsent task symbols, w, r, w' => PutsRows (cachedAbsentRows task symbols) w r w'
  | .stopped, w, _, w' | .evicted _, w, _, w' | .manifest _ _ _, w, _, w' => w' = w

abbrev TossCall (Cell α : Type) := Prog (TossOp Cell) TossOp.Ret Exn α

def TossOp.ask (op : TossOp Cell) : TossCall Cell op.Ans := .call op Prog.ofExcept

/-! ## A date -/

/-- `_OUTAGE_REASON_PREFIXES`. -/
def outageReasonPrefixes : List String := ["transport:", "vendor_failure:", "toss_empty_without_proof", "toss_malformed_page"]

/-- `_is_outage_failure`. -/
def isOutageFailure (reason : String) : Bool := outageReasonPrefixes.any (fun p => p.toList.isPrefixOf reason.toList)

/-- What a run is configured with. -/
structure TossProfile where
  outageMinSample : Nat
  /-- `failures / attempted >= outage_share`, in floats. -/
  atOutageShare : Nat → Nat → Bool
  sample : 0 < outageMinSample

/-- `is_outage`. -/
def TossProfile.isOutage (profile : TossProfile) (attempted : List CoverageEntry) : Bool :=
  decide (profile.outageMinSample ≤ attempted.length) &&
    profile.atOutageShare (attempted.countP (fun entry => isOutageFailure entry.reason)) attempted.length

/-- What is recorded of what was attempted. -/
def TossProfile.kept (profile : TossProfile) (attempted : List CoverageEntry) : List CoverageEntry :=
  if profile.isOutage attempted then attempted.filter (fun entry => !isOutageFailure entry.reason) else attempted

/-- `frames`: what is complete, under the symbols it was fetched for. -/
def tossFrames (fetched : List (String × Acquisition Cell)) : Py.Dict (Frame Cell) :=
  Py.Dict.update [] (fetched.filterMap (fun p =>
    if p.2.2.status = .complete ∧ p.2.1.rows ≠ [] then some (p.1, p.2.1) else none))

/-- The coverage of the write. -/
def tossCoverage (frames : Py.Dict (Frame Cell)) (kept : List CoverageEntry) : Coverage :=
  Py.Dict.update [] (kept.filterMap (fun entry =>
    entry.symbol.bind (fun symbol => if frames.has symbol then some (symbol, entry) else none)))

/-- `chunk`, and what it is written with. -/
def tossWriteArgs (task : BackfillTask) (frames : Py.Dict (Frame Cell)) (kept : List CoverageEntry) : WriteArgs Cell :=
  let sorted := frames.mergeSort (fun a b => decide (a.1 ≤ b.1))
  { df := some ⟨sorted.head?.elim [] (fun p => p.2.columns), sorted.flatMap (fun p => p.2.rows)⟩
    snapshotDate := task.snapshotDate
    session := "regular"
    coverage := some (tossCoverage frames kept)
    batchRows := none
    allowShrinkSymbols := [] }

/-- `price_bases`. -/
def tossPriceBases (kept : List CoverageEntry) : Py.Dict String :=
  Py.Dict.update [] (kept.filterMap (fun entry =>
    if entry.status = .complete then entry.symbol.map (fun symbol => (symbol, "toss_raw")) else none))

/-- The fetches of a date. -/
def fetchAll (task : BackfillTask) : List String → TossCall Cell (List (String × Acquisition Cell))
  | [] => .ret []
  | symbol :: symbols => (TossOp.fetch task symbol).ask.bind fun a =>
    (fetchAll task symbols).bind fun rest => .ret ((symbol, a) :: rest)

/-- What a date leaves for the next ones. -/
structure TossProgress where
  /-- The symbols that Toss does not have. -/
  dead : List String
  unreadable : List String
  outageAborted : Bool

/-- What a date does with the answers: partition, manifest and ledger. -/
def publishTossDate (profile : TossProfile) (task : BackfillTask) (cached : List String)
    (fetched : List (String × Acquisition Cell)) : TossCall Cell Unit :=
  let kept := profile.kept (fetched.map (fun p => p.2.2))
  let frames := tossFrames fetched
  (if frames.isEmpty then .ret () else (TossOp.write (tossWriteArgs task frames kept)).ask.bind fun _ => .ret ()).bind fun _ =>
  (if kept.isEmpty then .ret ()
    else
      (TossOp.manifest task (if kept.all (fun entry => decide (entry.status ∈ goodEntryStates)) then .complete else .part)
        kept).ask.bind fun _ =>
      (TossOp.record task.regular kept (tossPriceBases kept)).ask.bind fun _ => TossOp.readLedger.ask.bind fun _ => .ret ()).bind
  fun _ => if cached.isEmpty then .ret () else (TossOp.recordCachedAbsent task.regular cached).ask

/-- The pending symbols are fetched and published. -/
def runTossPending (profile : TossProfile) (task : BackfillTask) (progress : TossProgress) (fetchable cached : List String) :
    TossCall Cell TossProgress :=
  (TossOp.evicted task.regular).ask.bind fun evicted =>
    if evicted then .ret progress
    else
      (fetchAll task fetchable).bind fun fetched =>
      (publishTossDate profile task cached fetched).bind fun _ =>
        .ret
          { progress with
            dead := progress.dead ++
              (fetched.filter (fun p => decide (p.2.2.reason = stockNotFoundReason))).map Prod.fst
            outageAborted := profile.isOutage (fetched.map (fun p => p.2.2)) }

/-- One date; it is skipped where its partition cannot be read. -/
def runTossTask (profile : TossProfile) (task : BackfillTask) (progress : TossProgress) : TossCall Cell TossProgress :=
  (TossOp.terminalSymbols task.regular).ask.bind fun terminal =>
  (TossOp.storedSymbols task.regular).ask.attempt.bind fun o =>
    match o with
    | .error e =>
      if e.isOSError then
        .ret { progress with unreadable := progress.unreadable ++ [task.snapshotDate ++ "/regular"] }
      else .raise e
    | .ok stored =>
      let pending := task.symbols.filter (fun s => decide (s ∉ terminal) && decide (s ∉ stored))
      let fetchable := pending.filter (fun s => decide (s ∉ progress.dead))
      let cached := pending.filter (fun s => decide (s ∈ progress.dead))
      if fetchable.isEmpty && cached.isEmpty then .ret progress else runTossPending profile task progress fetchable cached

/-- The loop over the dates, until the deadline or an outage. -/
def runTossTasks (profile : TossProfile) : List BackfillTask → TossProgress → TossCall Cell TossProgress
  | [], progress => .ret progress
  | task :: tasks, progress =>
    TossOp.stopped.ask.bind fun stop =>
      if stop then .ret progress
      else
        (runTossTask profile task progress).bind fun progress' =>
          if progress'.outageAborted then .ret progress' else runTossTasks profile tasks progress'

/-- The arguments of a run. -/
structure TossArgs where
  hasClient : Bool
  stopAtAware : Bool
  profile : TossProfile
  tasks : List BackfillTask

/-- Oldest first, by date and session. -/
def TossArgs.ordered (args : TossArgs) : List BackfillTask :=
  args.tasks.mergeSort (fun a b =>
    decide (a.snapshotDate < b.snapshotDate ∨ (a.snapshotDate = b.snapshotDate ∧ a.session ≤ b.session)))

def runTossRegularBackfill (args : TossArgs) : TossCall Cell Unit :=
  (Prog.ofExcept (raiseIf (args.hasClient = false) (.value "toss client must be provided"))).bind fun _ =>
  (Prog.ofExcept (raiseIf (args.stopAtAware = false) (.value "stop_at must be timezone-aware"))).bind fun _ =>
  TossOp.readLedger.ask.bind fun ledger =>
  (runTossTasks args.profile args.ordered ⟨delistedSymbols ledger, [], false⟩).bind fun progress =>
    if progress.unreadable.isEmpty then .ret ()
    else .raise (.os ("Cannot read existing partition evidence for toss tasks " ++ quotedList progress.unreadable))

/-! ## A run beside other writers -/

/-- A run where it is. -/
structure TossRun (Cell : Type) where
  program : TossCall Cell Unit
  world : TossWorld Cell

variable [DecidableEq Cell]

/-- Another process writes, to its end or not. -/
def WritesAtWill (pd : Pandas Cell) (w w' : TossWorld Cell) : Prop :=
  ∃ (c : Write Cell) (store : World Cell), Prog.Reach Exec (c.program pd) w.store store ∧ w' = { w with store }

/-- The run makes its next call, or another process writes. -/
inductive TossRun.Step (pd : Pandas Cell) (beside : TossWorld Cell → TossWorld Cell → Prop) :
    TossRun Cell → TossRun Cell → Prop where
  | own {p p' : TossCall Cell Unit} {w w' : TossWorld Cell} (h : Prog.Next (TossExec pd) p w p' w') :
      Step pd beside ⟨p, w⟩ ⟨p', w'⟩
  | other {p : TossCall Cell Unit} {w w' : TossWorld Cell} (h : beside w w') : Step pd beside ⟨p, w⟩ ⟨p, w'⟩

/-- A run of the backfill beside other writers. -/
def tossBeside (pd : Pandas Cell) (beside : TossWorld Cell → TossWorld Cell → Prop) (args : TossArgs) :
    System (TossRun Cell) where
  start s := s.program = runTossRegularBackfill args ∧ s.world.underWay = none
  step := TossRun.Step pd beside

end Intraday
