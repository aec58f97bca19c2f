import KClosingAlpha.Intraday.Evict
/-!
# Backfill — the nightly backfill of past sessions (`extended_session_backfill.py`)

A task fetches the bars of its pending symbols, takes the adjusted ones again on the raw basis, writes what is complete
in chunks, removes what could not be repaired, and records one ledger row a symbol.  The adjusted copies are a partition
of their own.  What is only counted for the summary or a log is left out, and so are the identity and time of a run.
-/
namespace Intraday

open Exc (raiseIf)

variable {Cell : Type}

/-! ## Tasks and the price basis -/

structure BackfillTask where
  snapshotDate : String
  session : String
  symbols : List String
  deriving DecidableEq

/-- `intraday_partition_path(1, date, session)`. -/
def BackfillTask.target (task : BackfillTask) : Target := .bars 1 task.snapshotDate task.session

/-- A set of symbol-days, grouped as the enumerations group them. -/
structure BackfillPlan where
  tasks : List BackfillTask
  targets : (tasks.map BackfillTask.target).Nodup
  symbols : ∀ task ∈ tasks, task.symbols.Nodup

/-- `text.zfill(6)`. -/
def zfill6 (s : String) : String :=
  match s.toList with
  | '-' :: cs => String.ofList ('-' :: (List.replicate (5 - cs.length) '0' ++ cs))
  | '+' :: cs => String.ofList ('+' :: (List.replicate (5 - cs.length) '0' ++ cs))
  | cs => String.ofList (List.replicate (6 - cs.length) '0' ++ cs)

structure PriceReference where
  adjusted : List (String × String)
  known : List (String × String)

def PriceReference.isAdjusted (ref : PriceReference) (snapshotDate symbol : String) : Bool :=
  decide ((snapshotDate, zfill6 symbol) ∈ ref.adjusted)

def PriceReference.isKnown (ref : PriceReference) (snapshotDate symbol : String) : Bool :=
  decide ((snapshotDate, zfill6 symbol) ∈ ref.known)

/-- `_RAW_SOURCE_SESSIONS`. -/
def rawSourceSessions : List String := ["nxt_aftermarket", "nxt_premarket"]

/-! ## Failure reasons -/

/-- `_strip_terminal_markers`. -/
def stripTerminalMarkers : Nat → List Char → List Char
  | 0, cs => cs
  | fuel + 1, cs =>
    if "exhausted:".toList.isPrefixOf cs then stripTerminalMarkers fuel (cs.drop 10)
    else if "reopened:".toList.isPrefixOf cs then stripTerminalMarkers fuel (cs.drop 9)
    else cs

/-- The reason without its markers, of which there are no more than characters. -/
def strippedReason (reason : String) : String := String.ofList (stripTerminalMarkers reason.length reason.toList)

/-- `_normalized_failure_reason`. -/
def normalizedFailureReason (reason : String) : String :=
  let stripped := strippedReason reason
  if stripped.startsWith "price_basis_" then String.ofList (stripped.toList.drop 12) else stripped

def isTransientFailure (reason : String) : Bool :=
  let normalized := normalizedFailureReason reason
  normalized.startsWith "transport:" || normalized.startsWith "raw_basis_transport:" ||
    decide (normalized = "raw_basis_vendor_error") || normalized.startsWith "raw_basis_vendor_error:" ||
    normalized.startsWith "vendor_failure:transient:"

def isStructuralFailure (reason : String) : Bool := decide (strippedReason reason = "price_basis_no_raw_source")

/-! ## The ledger -/

structure BackfillRow where
  snapshotDate : String
  session : String
  symbol : String
  status : String
  rows : Nat
  reason : String
  vendor : String
  priceBasis : String
  attempts : Nat
  adjustedCopy : Bool
  deriving DecidableEq

/-- `_LEDGER_KEYS`. -/
def BackfillRow.key (row : BackfillRow) : String × String × String := (row.snapshotDate, row.session, row.symbol)

/-- `drop_duplicates(subset=_LEDGER_KEYS, keep="last")`. -/
def keepLast : List BackfillRow → List BackfillRow
  | [] => []
  | row :: rows => if rows.any (fun r => decide (r.key = row.key)) then keepLast rows else row :: keepLast rows

/-- The latest row of each symbol of a date and session. -/
def latestRows (ledger : List BackfillRow) (task : BackfillTask) : List BackfillRow :=
  keepLast (ledger.filter (fun row => decide (row.snapshotDate = task.snapshotDate) && decide (row.session = task.session)))

def terminalLedgerStates : List String := ["COMPLETE", "NO_TRADES", "NOT_APPLICABLE", "EXHAUSTED"]

/-- `terminal_symbols`. -/
def terminalSymbols (ledger : List BackfillRow) (task : BackfillTask) : List String :=
  ((latestRows ledger task).filter (fun row => decide (row.status ∈ terminalLedgerStates))).map BackfillRow.symbol

/-- `unverified_complete_symbols`. -/
def unverifiedCompleteSymbols (ledger : List BackfillRow) (task : BackfillTask) : List String :=
  ((latestRows ledger task).filter (fun row =>
    decide (row.status = "COMPLETE") && decide (row.vendor = "kis") && decide (row.priceBasis = ""))).map BackfillRow.symbol

/-- The status, reason and attempts a row is recorded with. -/
def attemptOf (before : Option BackfillRow) (entry : CoverageEntry) : String × String × Nat :=
  let failedBefore := (before.filter (fun row => decide (row.status = "FAILED"))).map BackfillRow.attempts
  if entry.status = .failed then
    if isStructuralFailure entry.reason then ("EXHAUSTED", "exhausted:" ++ entry.reason, 1)
    else if isTransientFailure entry.reason then ("FAILED", entry.reason, failedBefore.getD 0)
    else
      let attempts := failedBefore.elim 1 (· + 1)
      if 3 ≤ attempts then ("EXHAUSTED", "exhausted:" ++ entry.reason, attempts) else ("FAILED", entry.reason, attempts)
  else (entry.status.value, entry.reason, 0)

/-- The row of one entry. -/
def recordRow (ledger : List BackfillRow) (task : BackfillTask) (priceBases : Py.Dict String) (adjustedCopies : List String)
    (symbol : String) (entry : CoverageEntry) : BackfillRow :=
  let before := (latestRows ledger task).find? (fun row => decide (row.symbol = symbol))
  { snapshotDate := task.snapshotDate, session := task.session, symbol
    status := (attemptOf before entry).1, rows := entry.rows, reason := (attemptOf before entry).2.1, vendor := "kis"
    priceBasis := priceBases.getD symbol "", attempts := (attemptOf before entry).2.2
    adjustedCopy := decide (symbol ∈ adjustedCopies) }

/-! ## The world -/

/-- A row a run recorded, and the frame its entry was acquired with. -/
structure BackfillRecord (Cell : Type) where
  row : BackfillRow
  frame : Frame Cell

structure BackfillWorld (Cell : Type) where
  store : World Cell
  ledger : List BackfillRow
  /-- What the run recorded; nothing reads it. -/
  recorded : List (BackfillRecord Cell)

/-- A frame of one symbol and the entry that classifies it. -/
abbrev Acquisition (Cell : Type) := Frame Cell × CoverageEntry

/-- What the collectors promise of an acquisition, whatever the vendor answers: canonical bars of the symbol, each in a
slot, and some of them where it is complete. -/
structure Acquired (pd : Pandas Cell) (symbol : String) (a : Acquisition Cell) : Prop where
  named : a.2.symbol = some symbol
  columns : a.1.columns = canonicalBarColumns
  own : ∀ row ∈ a.1.rows, pd.key canonicalBarColumns row = symbol
  slot : ∀ row ∈ a.1.rows, pd.missing canonicalBarColumns "symbol" row = false ∧
    pd.missing canonicalBarColumns "ts_hms" row = false
  complete : a.2.status = .complete → a.1.rows ≠ []

inductive BackfillOp (Cell : Type) where
  /-- `clock() >= stop_at`. -/
  | stopped
  | readLedger
  /-- `_stored_partition_symbols`. -/
  | storedSymbols (task : BackfillTask)
  /-- `_evicted_task_partition`. -/
  | evicted (task : BackfillTask)
  | pendingManifest (task : BackfillTask) (pending : List String)
  /-- `backfill_extended_session_bars` of every bucket. -/
  | fetch (task : BackfillTask) (pending : List String)
  /-- `backfill_kiwoom_raw_bars`. -/
  | fetchRaw (task : BackfillTask) (symbol : String)
  /-- `write_intraday_partition`. -/
  | write (args : WriteArgs Cell)
  /-- `remove_intraday_symbols`. -/
  | remove (task : BackfillTask) (symbols : List String)
  /-- `write_kis_adjusted_partition`. -/
  | writeAdjusted (task : BackfillTask) (frames : Py.Dict (Frame Cell))
  | manifest (task : BackfillTask) (status : CaptureStatus) (entries : List CoverageEntry)
  /-- `ledger.record`. -/
  | record (task : BackfillTask) (outcomes : List (Acquisition Cell)) (priceBases : Py.Dict String)
      (adjustedCopies : List String)

abbrev BackfillOp.Ans : BackfillOp Cell → Type
  | stopped | evicted _ | pendingManifest _ _ => Bool
  | readLedger => List BackfillRow
  | storedSymbols _ => List String
  | fetch _ _ => Py.Dict (Acquisition Cell)
  | fetchRaw _ _ => Acquisition Cell
  | write _ | remove _ _ | writeAdjusted _ _ => Nat
  | manifest _ _ _ | record _ _ _ _ => Unit

abbrev BackfillOp.Ret (op : BackfillOp Cell) : Type := Except Exn op.Ans

/-- The rows of a record call, each with its frame; an entry without a symbol is skipped. -/
def recordedOf (ledger : List BackfillRow) (task : BackfillTask) (outcomes : List (Acquisition Cell))
    (priceBases : Py.Dict String) (adjustedCopies : List String) : List (BackfillRecord Cell) :=
  outcomes.filterMap (fun a => a.2.symbol.map (fun symbol =>
    ⟨recordRow ledger task priceBases adjustedCopies symbol a.2, a.1⟩))

/-- A partition that is there names its symbols; of an evicted one the tombstone does. -/
def StoredSymbols (pd : Pandas Cell) (w : World Cell) (t : Target) (symbols : List String) : Prop :=
  match w.files t with
  | some f => ∀ s, s ∈ symbols ↔ "symbol" ∈ f.columns ∧ ∃ row ∈ f.rows, pd.key f.columns row = s
  | none => w.tombstones t = false → symbols = []

/-- A write does what one of its runs does; what is read is there; the rest raises or returns. -/
def BackfillExec [DecidableEq Cell] (pd : Pandas Cell) :
    (op : BackfillOp Cell) → BackfillWorld Cell → op.Ret → BackfillWorld Cell → Prop
  | .write args, w, r, w' =>
    ∃ store, Prog.Ends Exec (writeIntradayPartition pd 1 args) w.store r store ∧ w' = { w with store }
  | .remove task symbols, w, r, w' =>
    ∃ store, Prog.Ends Exec (removeIntradaySymbols pd 1 task.snapshotDate task.session symbols) w.store r store ∧ w' = { w with store }
  | .record task outcomes priceBases adjustedCopies, w, .ok (), w' =>
    let rows := recordedOf w.ledger task outcomes priceBases adjustedCopies
    w' = { w with ledger := keepLast (w.ledger ++ rows.map BackfillRecord.row), recorded := w.recorded ++ rows }
  | .readLedger, w, r, w' => (∀ rows, r = .ok rows → rows = w.ledger) ∧ w' = w
  | .storedSymbols task, w, r, w' => (∀ symbols, r = .ok symbols → StoredSymbols pd w.store task.target symbols) ∧ w' = w
  | .fetch _ _, w, r, w' => (∀ answer, r = .ok answer → ∀ symbol a, answer.lookup symbol = some a → Acquired pd symbol a) ∧ w' = w
  | .fetchRaw _ symbol, w, r, w' => (∀ a, r = .ok a → Acquired pd symbol a) ∧ w' = w
  | _, w, _, w' => w' = w

abbrev BackfillCall (Cell α : Type) := Prog (BackfillOp Cell) BackfillOp.Ret Exn α

def BackfillOp.ask (op : BackfillOp Cell) : BackfillCall Cell op.Ans := .call op Prog.ofExcept

/-! ## A task -/

/-- `_basis_failed_entry`. -/
def basisFailedEntry (entry : CoverageEntry) (reason : String) (refs : List String) : CoverageEntry :=
  { entry with
    status := .failed, rows := 0, reason, rawRefs := entry.rawRefs ++ refs, evidence := by simp, certified := by simp }

/-- What `_raw_one` comes to. -/
structure RawOutcome (Cell : Type) where
  acquisition : Acquisition Cell
  basis : Option String
  /-- Whether the adjusted bars are kept aside. -/
  keepsAdjusted : Bool

/-- `_raw_one`. -/
def rawOne (ref : PriceReference) (hasRawClient : Bool) (task : BackfillTask) (symbol : String) (a : Acquisition Cell) :
    BackfillCall Cell (RawOutcome Cell) :=
  let failed (reason : String) (refs : List String) : Acquisition Cell :=
    (⟨a.1.columns, []⟩, basisFailedEntry a.2 reason refs)
  if !ref.isKnown task.snapshotDate symbol then .ret ⟨failed "price_basis_unknown" [], none, false⟩
  else if !ref.isAdjusted task.snapshotDate symbol then .ret ⟨a, some "kis_raw", false⟩
  else if !hasRawClient ∨ task.session ∉ rawSourceSessions then .ret ⟨failed "price_basis_no_raw_source" [], none, true⟩
  else (BackfillOp.fetchRaw task symbol).ask.bind fun raw =>
    if raw.2.status = .complete then .ret ⟨raw, some "kiwoom_raw", false⟩
    else
      .ret ⟨failed ("price_basis_" ++ raw.2.reason) raw.2.rawRefs, none, decide (raw.2.reason = "raw_basis_unavailable")⟩

/-- What a task has after the price basis of its symbols is settled. -/
structure Settlement (Cell : Type) where
  collected : Py.Dict (Acquisition Cell)
  priceBases : Py.Dict String
  adjustedFrames : Py.Dict (Frame Cell)

/-- One symbol of `basis_targets`. -/
def Settlement.add (st : Settlement Cell) (symbol : String) (a : Acquisition Cell) (o : RawOutcome Cell) :
    Settlement Cell :=
  { collected := st.collected.set symbol o.acquisition
    priceBases := o.basis.elim st.priceBases (fun basis => st.priceBases.set symbol basis)
    adjustedFrames := if o.keepsAdjusted then st.adjustedFrames.set symbol a.1 else st.adjustedFrames }

/-- The symbols of `basis_targets`, with what was fetched for them. -/
def basisTargets (fetched : Py.Dict (Acquisition Cell)) (pending : List String) : List (String × Acquisition Cell) :=
  pending.filterMap (fun symbol => (fetched.lookup symbol).bind (fun a =>
    if a.2.status = .complete ∧ a.1.rows ≠ [] then some (symbol, a) else none))

def settleBases (ref : PriceReference) (hasRawClient : Bool) (task : BackfillTask) :
    List (String × Acquisition Cell) → Settlement Cell → BackfillCall Cell (Settlement Cell)
  | [], st => .ret st
  | (symbol, a) :: targets, st =>
    (rawOne ref hasRawClient task symbol a).bind fun o =>
      settleBases ref hasRawClient task targets (st.add symbol a o)

/-- `comp_chunks`. -/
def compChunks (collected : Py.Dict (Acquisition Cell)) (entries : List CoverageEntry) : List (Acquisition Cell) :=
  entries.filterMap (fun entry =>
    if entry.status = .complete then
      entry.symbol.bind (fun symbol => (collected.lookup symbol).bind (fun a =>
        if a.1.rows = [] then none else some (a.1, entry)))
    else none)

/-- The key a chunk is buffered under: `str(entry.symbol)`. -/
def bufferKey (a : Acquisition Cell) : String := a.2.symbol.getD "None"

/-- The arguments `_flush_buffer` writes with. -/
def chunkArgs (task : BackfillTask) (buffer : List (Acquisition Cell)) : WriteArgs Cell :=
  { df := some
      { columns := buffer.head?.elim [] (fun a => a.1.columns)
        rows := buffer.flatMap (fun a => a.1.rows) }
    snapshotDate := task.snapshotDate
    session := task.session
    coverage := some (buffer.map (fun a => (bufferKey a, a.2)))
    batchRows := none
    allowShrinkSymbols := [] }

/-- `_flush_buffer`. -/
def flushBuffer (task : BackfillTask) (buffer : List (Acquisition Cell)) : BackfillCall Cell Unit :=
  if buffer.isEmpty then .ret () else (BackfillOp.write (chunkArgs task buffer)).ask.bind fun _ => .ret ()

/-- The loop over `comp_chunks`. -/
def writeChunks (maxRows : Int) (task : BackfillTask) :
    List (Acquisition Cell) → List (Acquisition Cell) → BackfillCall Cell Unit
  | [], buffer => flushBuffer task buffer
  | a :: chunks, buffer =>
    if bufferKey a ∈ buffer.map bufferKey then .raise (.value ("Duplicate symbol buffered: " ++ quoted (bufferKey a)))
    else if maxRows ≤ ((buffer ++ [a]).map (fun b => b.1.rows.length)).sum then
      (flushBuffer task (buffer ++ [a])).bind fun _ => writeChunks maxRows task chunks []
    else writeChunks maxRows task chunks (buffer ++ [a])

/-- `collected[symbol]`. -/
def collectedOf (collected : Py.Dict (Acquisition Cell)) (symbol : String) : Except Exn (Acquisition Cell) :=
  (collected.lookup symbol).elim (.error (.key (quoted symbol))) .ok

/-- The symbols of a repair that came to no complete bars. -/
def staleSymbols (repairs : List String) (pending : List String) (outcomes : List (Acquisition Cell)) : List String :=
  ((pending.zip outcomes).filter (fun p => decide (p.1 ∈ repairs) && decide (p.2.2.status ≠ .complete))).map Prod.fst

def goodEntryStates : List CaptureStatus := [.complete, .noTrades, .notApplicable]

/-- The status of a task's manifest. -/
def manifestStatus (outcomes : List (Acquisition Cell)) : CaptureStatus :=
  if outcomes.all (fun a => decide (a.2.status ∈ goodEntryStates)) then .complete else .part

/-- What a task does with the answers: writes, removal, adjusted copies, manifest and ledger. -/
def publishTask (maxRows : Int) (task : BackfillTask) (repairs pending : List String) (st : Settlement Cell) :
    BackfillCall Cell Unit :=
  (Prog.ofExcept (pending.mapM (collectedOf st.collected))).bind fun outcomes =>
  (writeChunks maxRows task (compChunks st.collected (outcomes.map Prod.snd)) []).bind fun _ =>
  (if (staleSymbols repairs pending outcomes).isEmpty then .ret 0
    else (BackfillOp.remove task (staleSymbols repairs pending outcomes)).ask).bind fun _ =>
  (if st.adjustedFrames.isEmpty then .ret 0 else (BackfillOp.writeAdjusted task st.adjustedFrames).ask).bind fun _ =>
  (BackfillOp.manifest task (manifestStatus outcomes) (outcomes.map Prod.snd)).ask.bind fun _ =>
    (BackfillOp.record task outcomes st.priceBases (st.adjustedFrames.map Prod.fst)).ask

/-- The pending symbols are fetched, settled and published. -/
def runPending (ref : PriceReference) (hasRawClient : Bool) (maxRows : Int) (task : BackfillTask)
    (repairs pending : List String) : BackfillCall Cell Unit :=
  (BackfillOp.evicted task).ask.bind fun evicted =>
    if evicted then .ret ()
    else
      (BackfillOp.pendingManifest task pending).ask.bind fun _ =>
      (BackfillOp.fetch task pending).ask.bind fun fetched =>
      (settleBases ref hasRawClient task (basisTargets fetched pending) ⟨fetched, [], []⟩).bind fun st =>
        publishTask maxRows task repairs pending st

/-- One task; its partition is returned where it cannot be read. -/
def runTask (ref : PriceReference) (hasRawClient : Bool) (maxRows : Int) (task : BackfillTask) :
    BackfillCall Cell (List String) :=
  BackfillOp.readLedger.ask.bind fun ledger =>
  (BackfillOp.storedSymbols task).ask.attempt.bind fun o =>
    match o with
    | .error e => if e.isOSError then .ret [task.snapshotDate ++ "/" ++ task.session] else .raise e
    | .ok stored =>
      BackfillOp.readLedger.ask.bind fun ledger' =>
        let repairs := (unverifiedCompleteSymbols ledger' task).filter
          (fun s => decide (s ∈ task.symbols) && ref.isAdjusted task.snapshotDate s)
        let pending := task.symbols.filter (fun s =>
          decide (s ∉ terminalSymbols ledger task ∧ s ∉ stored) || decide (s ∈ repairs))
        if pending.isEmpty then .ret []
        else (runPending ref hasRawClient maxRows task repairs pending).bind fun _ => .ret []

/-- The loop over the tasks, until the stop time. -/
def runTasks (ref : PriceReference) (hasRawClient : Bool) (maxRows : Int) :
    List BackfillTask → BackfillCall Cell (List String)
  | [] => .ret []
  | task :: tasks =>
    BackfillOp.stopped.ask.bind fun stop =>
      if stop then .ret []
      else
        (runTask ref hasRawClient maxRows task).bind fun unreadable =>
          (runTasks ref hasRawClient maxRows tasks).bind fun rest => .ret (unreadable ++ rest)

/-- The arguments of a run, its evidence store apart. -/
structure BackfillArgs where
  clients : Nat
  stopAtAware : Bool
  maxRows : Int
  plan : BackfillPlan
  priceReference : PriceReference
  hasRawClient : Bool

/-- Oldest first, by date and session. -/
def BackfillArgs.ordered (args : BackfillArgs) : List BackfillTask :=
  args.plan.tasks.mergeSort (fun a b =>
    decide (a.snapshotDate < b.snapshotDate ∨ (a.snapshotDate = b.snapshotDate ∧ a.session ≤ b.session)))

def runExtendedSessionBackfill (args : BackfillArgs) : BackfillCall Cell Unit :=
  (Prog.ofExcept (raiseIf (args.clients = 0) (.value "backfill clients must be nonempty"))).bind fun _ =>
  (Prog.ofExcept (raiseIf (args.stopAtAware = false) (.value "stop_at must be timezone-aware"))).bind fun _ =>
  (runTasks args.priceReference args.hasRawClient args.maxRows args.ordered).bind fun unreadable =>
    if unreadable.isEmpty then .ret ()
    else .raise (.os ("Cannot read existing partition evidence for tasks " ++ quotedList unreadable))

end Intraday
