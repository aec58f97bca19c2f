import KClosingAlpha.Intraday.Shrink
import KClosingAlpha.Lib.Threads
/-!
# Evict — `evict_verified_partitions`, and the writers it shares the partitions with

An eviction hashes a partition, looks for the hash in a listing of the remote copy, and then takes the partition's lock,
hashes again, writes a tombstone and unlinks.  The writers are the ones that take the same lock.  All of them run at the
same time over one disk; any of them may be killed anywhere, and the kernel then lets go of its locks.  Counts that are
only logged are left out.
-/
namespace Intraday

/-! ## The disk they share -/

/-- The partitions below the history directory: those of the two writes, the adjusted bars, and the rest. -/
inductive Partition where
  | store (t : Target)
  | kisAdjusted (snapshotDate session : String)
  | other (dir name : String)
  deriving DecidableEq

namespace Partition

/-- `str(snapshot_date)[:7]`. -/
def month (snapshotDate : String) : String := String.ofList (snapshotDate.toList.take 7)

/-- `path.parent`, relative to the history directory. -/
def dir : Partition → String
  | store (.bars m snapshotDate session) => "intraday/" ++ toString m ++ "m/" ++ session ++ "/" ++ month snapshotDate
  | store (.ticks snapshotDate session) => "intraday/ticks/" ++ session ++ "/" ++ month snapshotDate
  | kisAdjusted snapshotDate session => "intraday/1m_kis_adjusted/" ++ session ++ "/" ++ month snapshotDate
  | other dir _ => dir

/-- `path.name`. -/
def name : Partition → String
  | store (.bars _ snapshotDate _) | store (.ticks snapshotDate _) | kisAdjusted snapshotDate _ => snapshotDate ++ ".parquet"
  | other _ name => name

def rel (p : Partition) : String := p.dir ++ "/" ++ p.name

end Partition

structure Tombstone where
  part : String
  remotePath : String
  md5 : String
  size : Nat
  rows : Nat
  symbols : List String
  evictedAt : String

/-- `_RemoteMonth`. -/
structure RemoteMonth where
  md5 : Py.Dict String
  size : Py.Dict Nat

/-- What the eviction reads off the bytes of a file. -/
structure Reader (Bytes : Type) where
  md5 : Bytes → String
  size : Bytes → Nat
  rowsAndSymbols : Bytes → Nat × List String

structure Disk (Caller Bytes : Type) where
  files : Partition → Option Bytes
  tombstones : Partition → Option Tombstone
  /-- Who holds the sidecar lock. -/
  lock : Partition → Option Caller
  /-- What the remote has listed of a directory; nothing reads it. -/
  listings : List (String × RemoteMonth)

/-! ## The eviction -/

inductive EvictOp where
  | clock
  | isDir (root : String)
  /-- `_candidates`. -/
  | candidates (root : String) (cutoff : Int)
  | md5 (p : Partition)
  | size (p : Partition)
  | readTombstone (p : Partition)
  | tombstoneExists (p : Partition)
  /-- `_list_remote_month`; `none` is unverifiable. -/
  | listMonth (remoteDir : String)
  | lock (p : Partition)
  | unlock (p : Partition)
  | rowsAndSymbols (p : Partition)
  /-- `datetime.now(UTC).isoformat()`. -/
  | now
  | stageTombstone (p : Partition) (t : Tombstone)
  /-- The `os.replace` of the staged tombstone. -/
  | publishTombstone (p : Partition) (t : Tombstone)
  | syncDir (p : Partition)
  | unlink (p : Partition)

namespace EvictOp

abbrev Ans : EvictOp → Type
  | clock => Int
  | isDir _ | tombstoneExists _ => Bool
  | candidates _ _ => List Partition
  | md5 _ | now => String
  | size _ => Nat
  | readTombstone _ => Option Tombstone
  | listMonth _ => Option RemoteMonth
  | rowsAndSymbols _ => Nat × List String
  | _ => Unit

abbrev Ret (op : EvictOp) : Type := Except Exn op.Ans

end EvictOp

abbrev EvictCall (α : Type) := Prog EvictOp EvictOp.Ret Exn α

def EvictOp.ask (op : EvictOp) : EvictCall op.Ans := .call op Prog.ofExcept

structure EvictionFamily where
  relroots : List String
  retentionDays : Int

structure EvictArgs where
  /-- The day, counted. -/
  today : Int
  families : List EvictionFamily
  remoteBase : String
  dryRun : Bool
  deadline : Option Int
  maxFiles : Int

/-- The report as it grows, and what a run remembers. -/
structure EvictState where
  evicted : List String
  kept : List (String × String)
  bytesFreed : Nat
  stopped : Bool
  capped : Bool
  done : Bool
  months : List (String × Option RemoteMonth)

namespace EvictState

/-- `_keep`. -/
def keep (st : EvictState) (p : Partition) (reason : String) : EvictState := { st with kept := st.kept ++ [(p.rel, reason)] }

def evict (st : EvictState) (p : Partition) (size : Nat) : EvictState :=
  { st with evicted := st.evicted ++ [p.rel], bytesFreed := st.bytesFreed + size }

end EvictState

/-- The local bytes and the tombstone, before the lock. -/
def inspect (p : Partition) : EvictCall (String × Nat × Option Tombstone) :=
  (EvictOp.md5 p).ask.bind fun md5 => (EvictOp.size p).ask.bind fun size => (EvictOp.readTombstone p).ask.bind fun tomb =>
    .ret (md5, size, tomb)

/-- Why a listing does not verify a partition. -/
def unverified (p : Partition) (md5 : String) (size : Nat) : Option RemoteMonth → Option String
  | none => some "remote_unverifiable"
  | some month =>
    match month.md5.lookup p.name, month.size.lookup p.name with
    | some remoteMd5, some remoteSize =>
      if remoteMd5 = "" then some "remote_unverifiable"
      else if remoteMd5 ≠ md5 ∨ remoteSize ≠ size then some "remote_mismatch"
      else none
    | _, _ => some "remote_missing"

/-- `months[path.parent]`, listed once a run. -/
def monthOf (remoteBase : String) (p : Partition) (st : EvictState) : EvictCall (Option RemoteMonth × EvictState) :=
  match st.months.lookup p.dir with
  | some month => .ret (month, st)
  | none => (EvictOp.listMonth (remoteBase ++ "/" ++ p.dir)).ask.bind fun month =>
    .ret (month, { st with months := (p.dir, month) :: st.months })

/-- Why a partition is kept. -/
def whyKept (remoteBase : String) (p : Partition) (md5 : String) (size : Nat) (tomb : Option Tombstone) (st : EvictState) :
    EvictCall (Option String × EvictState) :=
  match tomb with
  | some t => .ret (if t.md5 = md5 then none else some "tombstone_conflict", st)
  | none => (monthOf remoteBase p st).bind fun r => .ret (unverified p md5 size r.1, r.2)

/-- `_write_tombstone`. -/
def writeTombstone (p : Partition) (t : Tombstone) : EvictCall Unit :=
  (EvictOp.stageTombstone p t).ask.bind fun _ => (EvictOp.publishTombstone p t).ask.bind fun _ => (EvictOp.syncDir p).ask

/-- The tombstone, if there was none. -/
def buryFirst (remoteBase : String) (p : Partition) (md5 : String) (size : Nat) : Option Tombstone → EvictCall Unit
  | some _ => .ret ()
  | none => (EvictOp.rowsAndSymbols p).ask.bind fun stored => EvictOp.now.ask.bind fun evictedAt =>
    writeTombstone p
      { part := p.rel, remotePath := remoteBase ++ "/" ++ p.rel, md5, size, rows := stored.1, symbols := stored.2
        evictedAt }

/-- `_evict_locked`. -/
def evictLocked (remoteBase : String) (p : Partition) (tomb : Option Tombstone) (md5 : String) (size : Nat) : EvictCall Unit :=
  (buryFirst remoteBase p md5 size tomb).bind fun _ => (EvictOp.unlink p).ask

/-- What is done under the lock; `false` when the partition changed in the meantime. -/
def recheckAndEvict (remoteBase : String) (p : Partition) (tomb : Option Tombstone) (md5 : String) (size : Nat) :
    EvictCall Bool :=
  (EvictOp.md5 p).ask.bind fun md5' =>
    if md5' ≠ md5 then .ret false
    else (EvictOp.size p).ask.bind fun size' =>
      if size' ≠ size then .ret false
      else (evictLocked remoteBase p tomb md5 size).bind fun _ => .ret true

/-- The handler around the lock. -/
def evictFailed (p : Partition) (st : EvictState) (e : Exn) : EvictCall EvictState :=
  if e.isOSError then .ret (st.keep p "local_unreadable") else .raise e

/-- The locked section; what the release raises is dropped when the section raised. -/
def evictUnderLock (remoteBase : String) (p : Partition) (tomb : Option Tombstone) (md5 : String) (size : Nat)
    (st : EvictState) : EvictCall EvictState :=
  (EvictOp.lock p).ask.attempt.bind fun acquired =>
    match acquired with
    | .error e => evictFailed p st e
    | .ok _ => (recheckAndEvict remoteBase p tomb md5 size).attempt.bind fun section_ =>
      (EvictOp.unlock p).ask.attempt.bind fun released =>
        match section_, released with
        | .error e, _ => evictFailed p st e
        | .ok true, .ok _ => .ret (st.evict p size)
        | .ok true, .error e => evictFailed p st e
        | .ok false, .ok _ => .ret (st.keep p "changed_during_eviction")
        | .ok false, .error e => evictFailed p (st.keep p "changed_during_eviction") e

/-- One candidate. -/
def evictFile (args : EvictArgs) (p : Partition) (st : EvictState) : EvictCall EvictState :=
  (inspect p).attempt.bind fun inspected =>
    match inspected with
    | .error e =>
      if e.isOSError || e.isValueError then
        (EvictOp.tombstoneExists p).ask.bind fun there =>
          .ret (st.keep p (if there then "tombstone_conflict" else "local_unreadable"))
      else .raise e
    | .ok (md5, size, tomb) =>
      (whyKept args.remoteBase p md5 size tomb st).bind fun r =>
        match r.1 with
        | some reason => .ret (r.2.keep p reason)
        | none =>
          if args.dryRun then .ret (r.2.evict p size) else evictUnderLock args.remoteBase p tomb md5 size r.2

/-- Whether the deadline has passed. -/
def pastDeadline : Option Int → EvictCall Bool
  | none => .ret false
  | some deadline => EvictOp.clock.ask.bind fun now => .ret (decide (deadline ≤ now))

/-- The candidates of a root. -/
def evictFiles (args : EvictArgs) : List Partition → EvictState → EvictCall EvictState
  | [], st => .ret st
  | p :: ps, st =>
    (pastDeadline args.deadline).bind fun past =>
      if past then .ret { st with stopped := true, done := true }
      else if args.maxFiles ≤ st.evicted.length then .ret { st with capped := true, done := true }
      else (evictFile args p st).bind fun st => evictFiles args ps st

/-- The roots of a family. -/
def evictRoots (args : EvictArgs) (cutoff : Int) : List String → EvictState → EvictCall EvictState
  | [], st => .ret st
  | root :: roots, st =>
    if st.done then evictRoots args cutoff roots st
    else (EvictOp.isDir root).ask.bind fun there =>
      if there then
        (EvictOp.candidates root cutoff).ask.bind fun ps => (evictFiles args ps st).bind fun st =>
          evictRoots args cutoff roots st
      else evictRoots args cutoff roots st

def evictFamilies (args : EvictArgs) : List EvictionFamily → EvictState → EvictCall EvictState
  | [], st => .ret st
  | family :: families, st =>
    (evictRoots args (args.today - family.retentionDays) family.relroots st).bind fun st => evictFamilies args families st

/-- `evict_verified_partitions`. -/
def evictVerifiedPartitions (args : EvictArgs) : EvictCall EvictState :=
  evictFamilies args args.families ⟨[], [], 0, false, false, false, []⟩

/-! ## The writers -/

variable {Cell : Type}

/-- `remove_intraday_symbols`. -/
def removeIntradaySymbols (pd : Pandas Cell) (barIntervalMinutes : Int) (snapshotDate session : String)
    (symbols : List String) : Call Cell Nat :=
  (requireWritable (.bars barIntervalMinutes snapshotDate session)).bind fun _ =>
    if symbols.isEmpty then ask (.rowCount (.bars barIntervalMinutes snapshotDate session))
    else (ask (.isThere (.bars barIntervalMinutes snapshotDate session))).bind fun there =>
      if there then
        boundedSymbolReplace pd (.bars barIntervalMinutes snapshotDate session) (some ⟨canonicalBarColumns, []⟩) symbols true
          symbols
      else ask (.rowCount (.bars barIntervalMinutes snapshotDate session))

inductive AdjustOp where
  | lock
  | tombstone
  | readExisting
  | publish
  | unlock

abbrev AdjustOp.Ans : AdjustOp → Type
  | tombstone => Bool
  | _ => Unit

abbrev AdjustCall (α : Type) := Prog AdjustOp (fun op => Except Exn op.Ans) Exn α

def AdjustOp.ask (op : AdjustOp) : AdjustCall op.Ans := .call op Prog.ofExcept

/-- `write_kis_adjusted_partition`, where `checked` is what the checks of the frames make of them: they come first and
touch no file. -/
def writeKisAdjustedPartition (checked : Except Exn Nat) : AdjustCall Nat :=
  (Prog.ofExcept checked).bind fun rows => if rows = 0 then .ret 0 else
    AdjustOp.lock.ask.bind fun _ =>
      (AdjustOp.tombstone.ask.bind fun evicted =>
        if evicted then (.raise (.evicted "Partition is evicted") : AdjustCall Unit)
        else AdjustOp.readExisting.ask.bind fun _ => AdjustOp.publish.ask).attempt.bind fun o =>
      match o with
      | .ok _ => AdjustOp.unlock.ask.bind fun _ => .ret rows
      | .error e => AdjustOp.unlock.ask.attempt.bind fun _ => .raise e

/-! ## What a call does to the disk -/

variable {Caller Bytes : Type} [DecidableEq Caller]

namespace Disk

/-- The lock is free, and taken. -/
def Takes (c : Caller) (p : Partition) (w w' : Disk Caller Bytes) : Prop :=
  w.lock p = none ∧ w' = { w with lock := Function.update w.lock p (some c) }

/-- The lock is let go of, if it was held. -/
def release (w : Disk Caller Bytes) (c : Caller) (p : Partition) : Disk Caller Bytes :=
  { w with lock := fun q => if q = p ∧ w.lock p = some c then none else w.lock q }

/-- The process is gone. -/
def exit (w : Disk Caller Bytes) (c : Caller) : Disk Caller Bytes :=
  { w with lock := fun q => if w.lock q = some c then none else w.lock q }

def put (w : Disk Caller Bytes) (p : Partition) (file : Option Bytes) : Disk Caller Bytes :=
  { w with files := Function.update w.files p file }

end Disk

/-- A call of an eviction. -/
def EvictExec (rd : Reader Bytes) (c : Caller) : (op : EvictOp) → Disk Caller Bytes → op.Ret → Disk Caller Bytes → Prop
  | .md5 p, w, r, w' => (∀ md5, r = .ok md5 → ∃ b, w.files p = some b ∧ md5 = rd.md5 b) ∧ w' = w
  | .size p, w, r, w' => (∀ size, r = .ok size → ∃ b, w.files p = some b ∧ size = rd.size b) ∧ w' = w
  | .rowsAndSymbols p, w, r, w' => (∀ a, r = .ok a → ∃ b, w.files p = some b ∧ a = rd.rowsAndSymbols b) ∧ w' = w
  | .readTombstone p, w, r, w' => (∀ t, r = .ok t → t = w.tombstones p) ∧ w' = w
  | .tombstoneExists p, w, r, w' => (∀ b, r = .ok b → b = (w.tombstones p).isSome) ∧ w' = w
  | .listMonth _, w, .ok none, w' => w' = w
  | .listMonth dir, w, .ok (some month), w' => w' = { w with listings := (dir, month) :: w.listings }
  | .lock p, w, .ok _, w' => w.Takes c p w'
  | .unlock p, w, _, w' => w' = w.release c p
  | .publishTombstone p t, w, .ok _, w' => w' = { w with tombstones := Function.update w.tombstones p (some t) }
  | .unlink p, w, .ok _, w' => (w.files p).isSome ∧ w' = w.put p none
  | _, w, _, w' => w' = w

/-- A call of a write; what a read answers is open. -/
def StoreExec (c : Caller) : (op : Op Cell) → Disk Caller Bytes → op.Ret → Disk Caller Bytes → Prop
  | .tombstone t, w, r, w' => (∀ b, r = .ok b → b = (w.tombstones (.store t)).isSome) ∧ w' = w
  | .lock t, w, .ok _, w' => w.Takes c (.store t) w'
  | .unlock t, w, _, w' => w' = w.release c (.store t)
  | .replace t, w, .ok _, w' => ∃ b, w' = w.put (.store t) (some b)
  | .unlink t, w, .ok _, w' => w' = w.put (.store t) none
  | _, w, _, w' => w' = w

/-- A call of the write of one partition of adjusted bars. -/
def AdjustExec (c : Caller) (p : Partition) : (op : AdjustOp) → Disk Caller Bytes → Except Exn op.Ans → Disk Caller Bytes → Prop
  | .tombstone, w, r, w' => (∀ b, r = .ok b → b = (w.tombstones p).isSome) ∧ w' = w
  | .lock, w, .ok _, w' => w.Takes c p w'
  | .unlock, w, _, w' => w' = w.release c p
  | .publish, w, .ok _, w' => ∃ b, w' = w.put p (some b)
  | _, w, _, w' => w' = w

/-! ## All of them at once -/

/-- Where a process is. -/
inductive Job (Cell : Type) where
  | idle
  | evicts (p : EvictCall EvictState)
  | writes (p : Call Cell Nat)
  | adjusts (snapshotDate session : String) (p : AdjustCall Nat)

/-- A process begins something, makes its next call, or is gone: it returned, raised, or was killed. -/
inductive Job.Step [DecidableEq Cell] (rd : Reader Bytes) (pd : Pandas Cell) (c : Caller) :
    Job Cell → Disk Caller Bytes → Job Cell → Disk Caller Bytes → Prop where
  | evict (args : EvictArgs) (w : Disk Caller Bytes) : Step rd pd c .idle w (.evicts (evictVerifiedPartitions args)) w
  | write (call : Write Cell) (w : Disk Caller Bytes) : Step rd pd c .idle w (.writes (call.program pd)) w
  | remove (m : Int) (snapshotDate session : String) (symbols : List String) (w : Disk Caller Bytes) :
      Step rd pd c .idle w (.writes (removeIntradaySymbols pd m snapshotDate session symbols)) w
  | adjust (snapshotDate session : String) (checked : Except Exn Nat) (w : Disk Caller Bytes) :
      Step rd pd c .idle w (.adjusts snapshotDate session (writeKisAdjustedPartition checked)) w
  | evicts {p p' : EvictCall EvictState} {w w' : Disk Caller Bytes} (h : Prog.Next (EvictExec rd c) p w p' w') :
      Step rd pd c (.evicts p) w (.evicts p') w'
  | writes {p p' : Call Cell Nat} {w w' : Disk Caller Bytes} (h : Prog.Next (StoreExec c) p w p' w') :
      Step rd pd c (.writes p) w (.writes p') w'
  | adjusts {snapshotDate session : String} {p p' : AdjustCall Nat} {w w' : Disk Caller Bytes}
      (h : Prog.Next (AdjustExec c (.kisAdjusted snapshotDate session)) p w p' w') :
      Step rd pd c (.adjusts snapshotDate session p) w (.adjusts snapshotDate session p') w'
  | gone (l : Job Cell) (w : Disk Caller Bytes) : Step rd pd c l w .idle (w.exit c)

abbrev Host (Caller Cell Bytes : Type) := Threads.State Caller (Job Cell) (Disk Caller Bytes)

/-- Nobody runs and nothing was evicted. -/
def Host.Start (s : Host Caller Cell Bytes) : Prop :=
  (∀ c, s.thread c = .idle) ∧ (∀ p, s.world.tombstones p = none) ∧ (∀ p, s.world.lock p = none) ∧ s.world.listings = []

/-- Any number of evictions and writers, in any order. -/
def host [DecidableEq Cell] (rd : Reader Bytes) (pd : Pandas Cell) : System (Host Caller Cell Bytes) :=
  Threads.system Host.Start (Job.Step rd pd)

end Intraday
