import KClosingAlpha.Intraday.Shrink
/-!
# Tape — harvested ticks, their publication and their ledger (`tape_harvest.py`, `tape_recovery.py`)

A commit publishes what was harvested, one write a day and session, or one a result when that write is refused; checks
the size of each partition; and appends one ledger record a result.  A write of the shrink guard's refuses a symbol
without raising.  What is only counted for a log or a report is left out.
-/
namespace Intraday

variable {Cell : Type}

/-! ## Results -/

structure TapeDayResult (Cell : Type) where
  symbol : String
  day : String
  session : String
  frame : Frame Cell
  entry : CoverageEntry

namespace TapeDayResult

variable (r : TapeDayResult Cell)

def key : String × String × String := (r.symbol, r.day, r.session)

def group : String × String := (r.day, r.session)

/-- `tick_partition_path`. -/
def target : Target := .ticks r.day r.session

/-- How many ticks the result has. -/
def rows : Nat := r.frame.rows.length

end TapeDayResult

/-- What `harvest_symbol_tape` promises of a result. -/
structure Settled (pd : Pandas Cell) (r : TapeDayResult Cell) : Prop where
  symbol : r.entry.symbol = some r.symbol
  named : r.symbol ≠ ""
  session : r.entry.session = r.session
  columns : r.frame.columns = canonicalTickColumns
  own : ∀ row ∈ r.frame.rows, pd.key canonicalTickColumns row = r.symbol
  complete : r.entry.status = .complete → r.frame.rows ≠ []
  noTrades : r.entry.status = .noTrades → r.frame.rows = []
  venue : r.entry.isCertified = true → r.entry.venue ≠ "UNKNOWN"

/-- A set of harvest results: one a symbol, day and session. -/
structure HarvestSet (pd : Pandas Cell) (results : List (TapeDayResult Cell)) : Prop where
  settled : ∀ r ∈ results, Settled pd r
  nodup : (results.map TapeDayResult.key).Nodup

/-! ## The ledger and the disk -/

structure LedgerRecord where
  symbol : String
  day : String
  session : String
  status : String
  reason : String
  runId : String
  runDate : String
  deriving DecidableEq

structure TapeWorld (Cell : Type) where
  store : World Cell
  ledger : List LedgerRecord

inductive TapeOp (Cell : Type) where
  /-- Whether `is_session_closed` holds now. -/
  | closed (day session : String)
  /-- `write_tick_partition`. -/
  | write (args : WriteArgs Cell)
  /-- `_publish_group_manifest`. -/
  | manifest (day session : String) (entries : List CoverageEntry)
  /-- `_partition_row_count`. -/
  | rowCount (t : Target)
  /-- One line of `_append_ledger`. -/
  | appendRecord (record : LedgerRecord)

abbrev TapeOp.Ret : TapeOp Cell → Type
  | closed _ _ => Bool
  | write _ | rowCount _ => Except Exn Nat
  | manifest _ _ _ | appendRecord _ => Except Exn Unit

/-- A write does what one of its runs does; the rest raises or returns. -/
def TapeExec (pd : Pandas Cell) : (op : TapeOp Cell) → TapeWorld Cell → op.Ret → TapeWorld Cell → Prop
  | .closed _ _, w, _, w' => w' = w
  | .write args, w, r, w' => ∃ store, Prog.Ends Exec (writeTickPartition pd args) w.store r store ∧ w' = { w with store }
  | .manifest _ _ _, w, _, w' => w' = w
  | .rowCount t, w, r, w' =>
    (∀ n, r = .ok n → n = (w.store.files t).elim 0 (fun f => f.rows.length)) ∧ w' = w
  | .appendRecord record, w, .ok (), w' => w' = { w with ledger := w.ledger ++ [record] }
  | .appendRecord _, w, .error _, w' => w' = w

abbrev TapeCall (Cell α : Type) := Prog (TapeOp Cell) TapeOp.Ret Exn α

/-! ## The publisher -/

/-- `type(exc).__name__`. -/
def Exn.typeName : Exn → String
  | value _ => "ValueError"
  | nonPositivePrice .. => "NonPositivePriceError"
  | type _ => "TypeError"
  | key _ => "KeyError"
  | os _ => "OSError"
  | runtime _ => "RuntimeError"
  | evicted _ => "EvictedPartitionError"

/-- `_reject_unclosed_day` of every result. -/
def guardAll : List (TapeDayResult Cell) → TapeCall Cell Unit
  | [] => .ret ()
  | r :: rs =>
    .call (.closed r.day r.session) fun closed =>
      if closed then guardAll rs
      else .raise (.value ((if r.session = "regular" then "regular" else "aftermarket") ++
        " session not closed for day: " ++ quoted r.day ++ " symbol=" ++ quoted r.symbol ++ " session=" ++ quoted r.session))

/-- `groups.setdefault((day, session), []).append(result)`. -/
def addToGroup (r : TapeDayResult Cell) :
    List ((String × String) × List (TapeDayResult Cell)) → List ((String × String) × List (TapeDayResult Cell))
  | [] => [(r.group, [r])]
  | (g, items) :: groups => if g = r.group then (g, items ++ [r]) :: groups else (g, items) :: addToGroup r groups

/-- The groups of a flush. -/
def groupResults (results : List (TapeDayResult Cell)) : List ((String × String) × List (TapeDayResult Cell)) :=
  results.foldl (fun groups r => addToGroup r groups) []

/-- The arguments `_write_group` writes with. -/
def groupArgs (batchRows : Int) (day session : String) (certified : List (TapeDayResult Cell)) : WriteArgs Cell :=
  { df := some
      { columns := (certified.head?.elim [] (fun r => r.frame.columns))
        rows := (certified.filter (fun r => decide (r.entry.status = .complete))).flatMap (fun r => r.frame.rows) }
    snapshotDate := day
    session
    coverage := some (certified.foldl (fun coverage r => match r.entry.symbol with
      | some symbol => if symbol = "" then coverage else Py.Dict.set coverage symbol r.entry
      | none => coverage) [])
    batchRows := some batchRows
    allowShrinkSymbols := [] }

/-- The results a flush could not write, and why. -/
abbrev Failed := List ((String × String × String) × String)

/-- The results of a refused group, one by one. -/
def isolate (batchRows : Int) (day session : String) : List (TapeDayResult Cell) → TapeCall Cell Failed
  | [] => .ret []
  | r :: rs =>
    .call (.write (groupArgs batchRows day session [r])) fun o =>
      match o with
      | .ok _ => isolate batchRows day session rs
      | .error e =>
        if e.isValueError then
          (isolate batchRows day session rs).bind fun failed =>
            .ret (((r.symbol, day, session), "publish_rejected:" ++ e.typeName) :: failed)
        else .raise e

theorem failEntry_evidence (entry : CoverageEntry) (reason : String) :
    CaptureStatus.failed = .noTrades ∨ CaptureStatus.failed = .notApplicable → Py.isBlank reason = false ∧ entry.rawRefs ≠ [] := by
  simp

theorem failEntry_certified (entry : CoverageEntry) : entry.venue = "UNKNOWN" → CaptureStatus.failed ≠ .complete := by simp

/-- `entry.model_copy(update=...)` of a refused result. -/
def failEntry (entry : CoverageEntry) (reason : String) : CoverageEntry :=
  { entry with
    status := .failed, rows := 0, reason, evidence := failEntry_evidence entry reason
    certified := failEntry_certified entry }

/-- The certified results of a group, in one write if it goes through. -/
def writeCertified (batchRows : Int) (day session : String) (certified : List (TapeDayResult Cell)) : TapeCall Cell Failed :=
  if certified.isEmpty then .ret []
  else
    .call (.write (groupArgs batchRows day session certified)) fun o =>
      match o with
      | .ok _ => .ret []
      | .error e => if e.isValueError then isolate batchRows day session certified else .raise e

/-- One group of `flush`. -/
def flushGroup (batchRows : Int) (day session : String) (items : List (TapeDayResult Cell)) : TapeCall Cell Failed :=
  (guardAll items).bind fun _ =>
    (writeCertified batchRows day session (items.filter (fun r => r.entry.isCertified))).bind fun failed =>
    .call (.manifest day session (items.map (fun r => match failed.lookup r.key with
      | some reason => failEntry r.entry reason
      | none => r.entry))) fun o => (Prog.ofExcept o).bind fun _ => .ret failed

/-- The loop of `flush`. -/
def flushGroups (batchRows : Int) : List ((String × String) × List (TapeDayResult Cell)) → TapeCall Cell Failed
  | [] => .ret []
  | ((day, session), items) :: groups =>
    (flushGroup batchRows day session items).bind fun failed =>
      (flushGroups batchRows groups).bind fun failed' => .ret (failed ++ failed')

/-! ## The commit -/

/-- What `run_walk_tasks` has since its last commit. -/
structure WalkState (Cell : Type) where
  buffer : List (TapeDayResult Cell)
  expected : List ((String × String × String) × Nat)
  pendingLedger : List LedgerRecord

/-- `expected[key] = expected.get(key, 0) + n`. -/
def addExpected {κ : Type} [DecidableEq κ] (key : κ) (n : Nat) : List (κ × Nat) → List (κ × Nat)
  | [] => [(key, n)]
  | (k, m) :: rest => if k = key then (k, m + n) :: rest else (k, m) :: addExpected key n rest

/-- The record of a result, as it is pending. -/
def pendingRecord (runId runDate : String) (r : TapeDayResult Cell) : LedgerRecord :=
  { symbol := r.symbol, day := r.day, session := r.session, status := r.entry.status.value, reason := r.entry.reason
    runId, runDate }

/-- One result of a walk. -/
def WalkState.add (runDate : String) (st : WalkState Cell) (r : TapeDayResult Cell × String) : WalkState Cell :=
  { buffer := st.buffer ++ [r.1]
    expected := if r.1.entry.status = .complete then addExpected r.1.key r.1.rows st.expected else st.expected
    pendingLedger := st.pendingLedger ++ [pendingRecord r.2 runDate r.1] }

/-- The results since the last commit, each with the id of its walk. -/
def collect (runDate : String) (results : List (TapeDayResult Cell × String)) : WalkState Cell :=
  results.foldl (WalkState.add runDate) ⟨[], [], []⟩

/-- `group_expected`. -/
def groupExpected (failed : Failed) (expected : List ((String × String × String) × Nat)) : List ((String × String) × Nat) :=
  expected.foldl (fun groups p => if (failed.lookup p.1).isSome then groups else addExpected p.1.2 p.2 groups) []

/-- `_verify_groups`. -/
def verifyGroups : List ((String × String) × Nat) → TapeCall Cell Unit
  | [] => .ret ()
  | ((day, session), minimum) :: groups =>
    .call (.rowCount (.ticks day session)) fun o =>
      match o with
      | .error _ => .raise (.runtime ("Tape backfill publication failed day=" ++ day ++ " session=" ++ session))
      | .ok total =>
        if total < minimum then
          .raise (.runtime ("Tape backfill publication verification failed day=" ++ day ++ " session=" ++ session ++
            ": total=" ++ toString total ++ " expected=" ++ toString minimum))
        else verifyGroups groups

/-- A pending record, with what the flush failed. -/
def settleRecord (failed : Failed) (record : LedgerRecord) : LedgerRecord :=
  match failed.lookup (record.symbol, record.day, record.session) with
  | some reason => { record with status := CaptureStatus.failed.value, reason }
  | none => record

/-- `_append_ledger`. -/
def appendLedger : List LedgerRecord → TapeCall Cell Unit
  | [] => .ret ()
  | record :: records =>
    .call (.appendRecord record) fun o =>
      match o with
      | .error _ => .raise (.runtime "Tape backfill ledger write failed")
      | .ok () => appendLedger records

/-- `_commit`. -/
def commit (batchRows : Int) (st : WalkState Cell) : TapeCall Cell Unit :=
  (flushGroups batchRows (groupResults st.buffer)).bind fun failed =>
    (verifyGroups (groupExpected failed st.expected)).bind fun _ =>
      appendLedger (st.pendingLedger.map (settleRecord failed))

end Intraday
