import KClosingAlpha.Intraday.Frame
import KClosingAlpha.Lib.Prog
import Mathlib.Data.List.Sort
import Mathlib.Logic.Function.Basic
/-!
# Store — the partition writes of `intraday_store.py`, step by step

A write stages what it keeps and what comes in, counts it, and moves it over the partition; a write that leaves nothing
removes the partition.  Every step may raise; what it raises leaves the partitions alone.  Parquet gives the rows back
as they were written, in batches of any size; casts between column types do not change a row.  Log lines are left out,
the coverage log apart, which computes.
-/
namespace Intraday

open Exc (raiseIf)

variable {Cell : Type}

/-! ## The disk -/

/-- `intraday_partition_path` and `tick_partition_path`. -/
inductive Target where
  | bars (barIntervalMinutes : Int) (snapshotDate session : String)
  | ticks (snapshotDate session : String)
  deriving DecidableEq

structure World (Cell : Type) where
  files : Target → Option (Frame Cell)
  tombstones : Target → Bool
  /-- The staging file of the write that runs. -/
  staging : Option (Frame Cell)
  /-- How often a partition was replaced or removed; nothing reads it. -/
  publications : Nat

inductive Op (Cell : Type) where
  | tombstone (t : Target)
  | lock (t : Target)
  | unlock (t : Target)
  | isThere (t : Target)
  | rowCount (t : Target)
  | read (t : Target)
  | preserve (symbol : String) (status : CaptureStatus)
  | quarantine (symbol : String) (rows : List (Row Cell))
  | backup (t : Target)
  | convert (f : Frame Cell)
  | create (f : Frame Cell)
  | append (f : Frame Cell)
  /-- Closing a writer that is not open does nothing. -/
  | close
  | stagedCount
  | replace (t : Target)
  | unlink (t : Target)
  | unstage
  | logCoverage (f : Frame Cell)

/-- What an operation returns when it does not raise. -/
abbrev Op.Ans : Op Cell → Type
  | tombstone _ | isThere _ => Bool
  | rowCount _ | stagedCount => Nat
  | read _ => List String × List (List (Row Cell))
  | _ => Unit

abbrev Op.Ret (op : Op Cell) : Type := Except Exn op.Ans

/-- What the file system calls raise is an `OSError`; the parquet library and pandas raise anything. -/
def Op.MayRaise : Op Cell → Exn → Prop
  | tombstone _, e | lock _, e | unlock _, e | isThere _, e | backup _, e | replace _, e | unlink _, e | unstage, e =>
    e.isOSError = true
  | _, _ => True

/-- What an operation does when it does not raise. -/
def Op.Does : (op : Op Cell) → World Cell → op.Ans → World Cell → Prop
  | tombstone t, w, b, w' => b = w.tombstones t ∧ w' = w
  | isThere t, w, b, w' => b = (w.files t).isSome ∧ w' = w
  | rowCount t, w, n, w' => n = (w.files t).elim 0 (fun f => f.rows.length) ∧ w' = w
  | read t, w, a, w' => (∃ f, w.files t = some f ∧ a.1 = f.columns ∧ a.2.flatten = f.rows) ∧ w' = w
  | create f, w, _, w' => w' = { w with staging := some f }
  | append f, w, _, w' =>
    ∃ g, w.staging = some g ∧ g.columns = f.columns ∧ w' = { w with staging := some { g with rows := g.rows ++ f.rows } }
  | stagedCount, w, n, w' => n = w.staging.elim 0 (fun f => f.rows.length) ∧ w' = w
  | replace t, w, _, w' =>
    w.staging.isSome = true ∧
      w' = { w with files := Function.update w.files t w.staging, staging := none, publications := w.publications + 1 }
  | unlink t, w, _, w' =>
    w' = { w with files := Function.update w.files t none, publications := w.publications + 1 }
  | unstage, w, _, w' => w' = { w with staging := none }
  | _, w, _, w' => w' = w

/-- An operation returns, or raises and may leave part of a staging file. -/
def Exec (op : Op Cell) (w : World Cell) (r : op.Ret) (w' : World Cell) : Prop :=
  match r with
  | .error e => op.MayRaise e ∧ ∃ staging, w' = { w with staging }
  | .ok a => op.Does w a w'

/-- A disk that answers: what it is told to raise, it raises. -/
def answer (faults : Op Cell → Option Exn) (op : Op Cell) (w : World Cell) : op.Ret × World Cell :=
  match faults op with
  | some e => (.error e, w)
  | none =>
    match op with
    | .tombstone t => (.ok (w.tombstones t), w)
    | .isThere t => (.ok (w.files t).isSome, w)
    | .rowCount t => (.ok ((w.files t).elim 0 (fun f => f.rows.length)), w)
    | .read t =>
      match w.files t with
      | some f => (.ok (f.columns, [f.rows]), w)
      | none => (.error (.os "no such file"), w)
    | .create f => (.ok (), { w with staging := some f })
    | .append f =>
      match w.staging with
      | some g =>
        if g.columns = f.columns then (.ok (), { w with staging := some { g with rows := g.rows ++ f.rows } })
        else (.error (.value "Target schema's field names are not matching the table's field names"), w)
      | none => (.error (.os "no such file"), w)
    | .stagedCount => (.ok (w.staging.elim 0 (fun f => f.rows.length)), w)
    | .replace t =>
      if w.staging.isSome then
        (.ok (), { w with
          files := Function.update w.files t w.staging, staging := none, publications := w.publications + 1 })
      else (.error (.os "no such file"), w)
    | .unlink t => (.ok (), { w with files := Function.update w.files t none, publications := w.publications + 1 })
    | .unstage => (.ok (), { w with staging := none })
    | .lock _ | .unlock _ | .preserve _ _ | .quarantine _ _ | .backup _ | .convert _ | .close | .logCoverage _ => (.ok (), w)

theorem answer_exec (faults : Op Cell → Option Exn) (hf : ∀ op e, faults op = some e → op.MayRaise e) (op : Op Cell)
    (w : World Cell) : Exec op w (answer faults op w).1 (answer faults op w).2 := by
  unfold answer
  cases hop : faults op with
  | some e => exact ⟨hf op e hop, w.staging, rfl⟩
  | none =>
    cases op with
    | tombstone | isThere | rowCount | stagedCount => exact ⟨rfl, rfl⟩
    | create | unlink | unstage | lock | unlock | preserve | quarantine | backup | convert | close | logCoverage => rfl
    | read t =>
      dsimp only
      split
      next f h => exact ⟨⟨f, h, rfl, List.append_nil _⟩, rfl⟩
      · exact ⟨trivial, w.staging, rfl⟩
    | append f =>
      dsimp only
      split
      next g h =>
        split
        next hcol => exact ⟨g, h, hcol, rfl⟩
        · exact ⟨trivial, w.staging, rfl⟩
      · exact ⟨trivial, w.staging, rfl⟩
    | replace t =>
      dsimp only
      split
      next h => exact ⟨h, rfl⟩
      · exact ⟨rfl, w.staging, rfl⟩

abbrev Call (Cell α : Type) := Prog (Op Cell) Op.Ret Exn α

def ask (op : Op Cell) : Call Cell op.Ans := .call op Prog.ofExcept

/-! ## Before the rewrite -/

/-- `_batch_rows_or_default`; what the default is does not matter. -/
def batchRowsOrDefault : Option Int → Except Exn Unit
  | none => .ok ()
  | some n => raiseIf (n ≤ 0) (.value ("batch_rows must be positive: " ++ toString n))

/-- `_require_known_session`. -/
def requireKnownSession (session : String) : Except Exn Unit :=
  raiseIf (session ∉ verifiedSessions) (.value ("Unknown intraday session: " ++ quoted session))

/-- `require_writable`. -/
def requireWritable (t : Target) : Call Cell Unit :=
  (ask (.tombstone t)).bind fun evicted => if evicted then .raise (.evicted "Partition is evicted") else .ret ()

/-- `exclusive_file_lock`: what its release raises is dropped when the body raised. -/
def withLock {α : Type} (t : Target) (body : Call Cell α) : Call Cell α :=
  (ask (.lock t)).bind fun _ => body.attempt.bind fun o =>
    match o with
    | .ok a => (ask (.unlock t)).bind fun _ => .ret a
    | .error e => (ask (.unlock t)).attempt.bind fun _ => .raise e

/-- The symbols a coverage certifies as untraded. -/
def noTradesSymbols (session : String) (coverage : Coverage) : List String :=
  (coverage.filter (fun p => decide (p.2.status = .noTrades) && decide (p.2.session = session) &&
    decide (p.2.venue ≠ "UNKNOWN") && !p.2.rawRefs.isEmpty)).map Prod.fst

/-- What `_require_certified` makes of one entry: accepted, or the error and whether the attempt is preserved. -/
def certify (session symbol : String) (entry : CoverageEntry) : Except (Exn × Bool) Unit :=
  if entry.venue = "UNKNOWN" then .error (.value ("UNKNOWN venue cannot certify " ++ quoted symbol), false)
  else if session = consolidated then
    if entry.status = .notApplicable ∧ entry.reason = "toss_consolidated_tape" then .ok ()
    else
      .error (.value ("Only consolidated-tape attempts belong in the consolidated partition: " ++ quoted symbol ++
        " status=" ++ entry.status.value), true)
  else if entry.isCertified then .ok ()
  else
    .error (.value ("Non-certified attempt cannot replace authoritative partition: " ++ quoted symbol ++ " status=" ++
      entry.status.value), true)

/-- The loop of `_require_certified`. -/
def certifyAll (session : String) (coverage : Coverage) : List String → Call Cell Unit
  | [] => .ret ()
  | symbol :: symbols =>
    match coverage.lookup symbol with
    | none => .raise (.key (quoted symbol))
    | some entry =>
      match certify session symbol entry with
      | .ok () => certifyAll session coverage symbols
      | .error (e, false) => .raise e
      | .error (e, true) => (ask (.preserve symbol entry.status)).bind fun _ => .raise e

/-- `_require_certified`. -/
def requireCertified (session : String) (coverage : Coverage) (symbols : List String) : Call Cell (List String) :=
  (certifyAll session coverage symbols).bind fun _ => .ret (symbols ++ noTradesSymbols session coverage)

variable (pd : Pandas Cell)

/-- The loop of `_check_legacy_unchanged`. -/
def legacyUnchanged (stored incoming : Frame Cell) : List String → Except Exn Unit
  | [] => .ok ()
  | symbol :: symbols =>
    let old := stored.rows.filter
      (fun r => decide (pd.key stored.columns r = symbol) && !pd.missing stored.columns "symbol" r)
    let new := incoming.rows.filter (fun r => decide (pd.key incoming.columns r = symbol))
    if old.isEmpty then legacyUnchanged stored incoming symbols
    else if old.length = new.length ∧ ¬ stored.columns ⊆ incoming.columns then .error (.key "not in index")
    else if framesEqual pd ⟨stored.columns, old⟩ ⟨incoming.columns, new⟩ then legacyUnchanged stored incoming symbols
    else .error (.value ("Changed uncertified attempt requires certification: " ++ quoted symbol))

/-- `_check_legacy_unchanged`. -/
def checkLegacyUnchanged (t : Target) (incoming : Frame Cell) (symbols : List String) : Call Cell Unit :=
  (ask (.read t)).bind fun stored =>
    if "symbol" ∉ stored.1 ∧ stored.2 ≠ [] then .raise (.value "Legacy partition missing key columns: ['symbol']")
    else Prog.ofExcept (legacyUnchanged pd ⟨stored.1, stored.2.flatten⟩ incoming symbols)

/-! ## The shrink guard -/

/-- `_stored_symbol_counts`. -/
def storedSymbolCounts (t : Target) : Call Cell (String → Nat) :=
  (ask (.isThere t)).bind fun there =>
    if there then (ask (.read t)).bind fun stored =>
      if "symbol" ∉ stored.1 ∧ stored.2 ≠ [] then .raise (.value "Legacy partition missing key columns: ['symbol']")
      else .ret (fun s => (stored.2.map (pd.count stored.1 s)).sum)
    else .ret (fun _ => 0)

/-- `_quarantine_shrink_rows` of every rejected symbol. -/
def quarantineAll (incoming : Frame Cell) : List String → Call Cell Unit
  | [] => .ret ()
  | symbol :: symbols =>
    let rows := incoming.rows.filter (fun r => decide (pd.key incoming.columns r = symbol))
    if rows.isEmpty then quarantineAll incoming symbols
    else (ask (.quarantine symbol rows)).bind fun _ => quarantineAll incoming symbols

/-- `_apply_shrink_guard`. -/
def applyShrinkGuard (t : Target) (incoming : Option (Frame Cell)) (replaced allowShrinkSymbols : List String) :
    Call Cell (Frame Cell × List String) :=
  (storedSymbolCounts pd t).bind fun before =>
    match incoming with
    | none => .raise (.type "object of type 'NoneType' has no len()")
    | some incoming =>
      let rejected := replaced.filter (fun s => decide (pd.count incoming.columns s incoming.rows < before s) &&
        decide (s ∉ allowShrinkSymbols))
      (quarantineAll pd incoming (rejected.dedup.mergeSort (fun a b => decide (a ≤ b)))).bind fun _ =>
        .ret ({ incoming with
            rows := incoming.rows.filter (fun r => decide (pd.key incoming.columns r ∉ rejected)) },
          replaced.filter (fun s => decide (s ∉ rejected)))

/-! ## The rewrite -/

/-- What the loop over the stored batches has so far. -/
structure Staged where
  opened : Bool
  keptRows : Nat
  beforeSymbols : List String

/-- The first table opens the writer. -/
def writeTable (opened : Bool) (f : Frame Cell) : Call Cell Unit := if opened then ask (.append f) else ask (.create f)

/-- The loop over the stored batches. -/
def keepRows (columns replaced : List String) : List (List (Row Cell)) → Staged → Call Cell Staged
  | [], st => .ret st
  | batch :: batches, st =>
    let keep := if "symbol" ∈ columns then batch.filter (fun r => decide (pd.key columns r ∉ replaced)) else batch
    let before := if "symbol" ∈ columns then st.beforeSymbols ++ batch.map (pd.key columns) else st.beforeSymbols
    if keep.isEmpty then keepRows columns replaced batches { st with beforeSymbols := before }
    else (writeTable st.opened ⟨columns, keep⟩).bind fun _ =>
      keepRows columns replaced batches ⟨true, st.keptRows + keep.length, before⟩

/-- The `try` of `_bounded_symbol_replace`. -/
def stage (t : Target) (incoming : Frame Cell) (replaced : List String) (beforeCount : Nat) : Call Cell Nat :=
  (ask (.isThere t)).bind fun there =>
    (if there then (ask (.read t)).bind fun stored => keepRows pd stored.1 replaced stored.2 ⟨false, 0, []⟩
      else .ret ⟨false, 0, []⟩).bind fun st =>
    (if incoming.rows.isEmpty then .ret st.opened
      else (writeTable st.opened incoming).bind fun _ => .ret true).bind fun opened =>
    if opened then
      (ask .close).bind fun _ => (ask .stagedCount).bind fun staged =>
        if staged ≠ st.keptRows + incoming.rows.length then
          .raise (.os ("Staged partition verification failed: expected=" ++
            toString (st.keptRows + incoming.rows.length) ++ " staged=" ++ toString staged))
        else (ask (.replace t)).bind fun _ => .ret staged
    else
      (ask (.isThere t)).bind fun there =>
        if there && !st.beforeSymbols.isEmpty && st.beforeSymbols.all (fun s => decide (s ∈ replaced)) then
          (ask (.unlink t)).bind fun _ => .ret 0
        else .ret beforeCount

/-- The `try` and its `finally`. -/
def stageAndClean (t : Target) (incoming : Frame Cell) (replaced : List String) (beforeCount : Nat) : Call Cell Nat :=
  (stage pd t incoming replaced beforeCount).attempt.bind fun o =>
    match o with
    | .ok n => (ask .unstage).bind fun _ => .ret n
    | .error e => (ask .close).bind fun _ => (ask .unstage).bind fun _ => .raise e

/-- The rows in the order they are written in. -/
def ordered (sortOutput : Bool) (incoming : Frame Cell) : Frame Cell :=
  if sortOutput then { incoming with rows := pd.sortRows incoming.columns incoming.rows } else incoming

/-- `_bounded_symbol_replace` under the lock. -/
def replaceLocked (t : Target) (incoming : Option (Frame Cell)) (replaced : List String) (sortOutput : Bool)
    (allowShrinkSymbols : List String) : Call Cell Nat :=
  (requireWritable t).bind fun _ => (ask (.rowCount t)).bind fun beforeCount =>
    if replaced.isEmpty then .ret beforeCount
    else (applyShrinkGuard pd t incoming replaced allowShrinkSymbols).bind fun guarded =>
      if guarded.2.isEmpty then .ret beforeCount
      else
        (ask (.isThere t)).bind fun there => (if there then ask (.backup t) else .ret ()).bind fun _ =>
          (if guarded.1.rows.isEmpty then .ret () else ask (.convert guarded.1)).bind fun _ =>
            stageAndClean pd t (ordered pd sortOutput guarded.1) guarded.2 beforeCount

/-- `_bounded_symbol_replace`. -/
def boundedSymbolReplace (t : Target) (incoming : Option (Frame Cell)) (replaced : List String) (sortOutput : Bool)
    (allowShrinkSymbols : List String) : Call Cell Nat :=
  (requireWritable t).bind fun _ => withLock t (replaceLocked pd t incoming replaced sortOutput allowShrinkSymbols)

/-! ## The two writes -/

/-- A write of a frame without rows: only untraded symbols are replaced. -/
def writeEmpty (k : Layout Cell) (t : Target) (df : Option (Frame Cell)) (session : String) (coverage : Option Coverage)
    (allowShrinkSymbols : List String) : Call Cell Nat :=
  match coverage with
  | none => ask (.rowCount t)
  | some coverage =>
    if (noTradesSymbols session coverage).isEmpty then ask (.rowCount t)
    else boundedSymbolReplace pd t df (noTradesSymbols session coverage) k.sortOutput allowShrinkSymbols

/-- A write of a frame with rows. -/
def writeRows (k : Layout Cell) (t : Target) (df : Frame Cell) (snapshotDate session : String)
    (coverage : Option Coverage) (allowShrinkSymbols : List String) : Call Cell Nat :=
  (Prog.ofExcept (validateFrame pd k df snapshotDate session coverage)).bind fun symbols =>
    (Prog.ofExcept (k.reconcile pd df.rows)).bind fun rows =>
      let reconciled : Frame Cell := { df with rows }
      (match coverage with
        | none =>
          (ask (.isThere t)).bind fun there =>
            (if there then checkLegacyUnchanged pd t reconciled symbols else .ret ()).bind fun _ => .ret symbols
        | some coverage => requireCertified session coverage symbols).bind fun replaced =>
      (boundedSymbolReplace pd t (some reconciled) replaced k.sortOutput allowShrinkSymbols).bind fun total =>
        (if k.logsCoverage then ask (.logCoverage reconciled) else .ret ()).bind fun _ => .ret total

/-- The arguments of a write. -/
structure WriteArgs (Cell : Type) where
  df : Option (Frame Cell)
  snapshotDate : String
  session : String
  coverage : Option Coverage
  batchRows : Option Int
  allowShrinkSymbols : List String

/-- A write of one layout. -/
def writePartition (k : Layout Cell) (t : Target) (args : WriteArgs Cell) : Call Cell Nat :=
  (Prog.ofExcept (batchRowsOrDefault args.batchRows)).bind fun _ =>
    (Prog.ofExcept (requireKnownSession args.session)).bind fun _ => (requireWritable t).bind fun _ =>
      match args.df with
      | none => writeEmpty pd k t none args.session args.coverage args.allowShrinkSymbols
      | some df =>
        if df.rows.isEmpty then writeEmpty pd k t (some df) args.session args.coverage args.allowShrinkSymbols
        else writeRows pd k t df args.snapshotDate args.session args.coverage args.allowShrinkSymbols

/-- `write_tick_partition`. -/
def writeTickPartition (args : WriteArgs Cell) : Call Cell Nat :=
  writePartition pd tickLayout (.ticks args.snapshotDate args.session) args

/-- `write_intraday_partition`. -/
def writeIntradayPartition [DecidableEq Cell] (barIntervalMinutes : Int) (args : WriteArgs Cell) : Call Cell Nat :=
  writePartition pd barLayout (.bars barIntervalMinutes args.snapshotDate args.session) args

end Intraday
