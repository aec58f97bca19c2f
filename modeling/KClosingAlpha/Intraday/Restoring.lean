import KClosingAlpha.Intraday.Eviction
/-!
# Restoring — `restore_partitions`, beside the evictions and the writers

A restore downloads a partition next to its place, checks it against the tombstone, moves it into its place and drops the
tombstone.  It takes no lock of the partition: its operator is asked to run it under the flock of the Drive writers, and
an eviction is one of them.  Nothing enforces that, so when a restore or an eviction may begin is a parameter here.
-/
namespace Intraday

/-! ## The restore -/

inductive RestoreOp where
  | readTombstone (p : Partition)
  | partitionExists (p : Partition)
  /-- `rclone copyto` to the staging file; its exit code. -/
  | copyto (source : String) (p : Partition)
  | stagedIsFile (p : Partition)
  | stagedSize (p : Partition)
  | stagedMd5 (p : Partition)
  | replace (p : Partition)
  | unlinkStaged (p : Partition)
  | unlinkTombstone (p : Partition)

namespace RestoreOp

abbrev Ans : RestoreOp → Type
  | readTombstone _ => Option Tombstone
  | partitionExists _ | stagedIsFile _ => Bool
  | copyto _ _ => Int
  | stagedSize _ => Nat
  | stagedMd5 _ => String
  | replace _ | unlinkStaged _ | unlinkTombstone _ => Unit

abbrev Ret (op : RestoreOp) : Type := Except Exn op.Ans

end RestoreOp

abbrev RestoreCall (α : Type) := Prog RestoreOp RestoreOp.Ret Exn α

def RestoreOp.ask (op : RestoreOp) : RestoreCall op.Ans := .call op Prog.ofExcept

/-- `isinstance(exc, (RuntimeError, OSError, SubprocessError))`; a subprocess that fails is a `runtime`. -/
def Exn.failsRestore : Exn → Bool
  | .os _ | .runtime _ | .evicted _ => true
  | .value _ | .nonPositivePrice .. | .type _ | .key _ => false

/-- The download, checked and moved into place. -/
def downloadAndReplace (remoteBase : String) (p : Partition) (tomb : Tombstone) : RestoreCall Unit :=
  (RestoreOp.copyto (remoteBase ++ "/" ++ tomb.part) p).ask.bind fun returncode =>
    if returncode ≠ 0 then .raise (.runtime "rclone copyto exit")
    else (RestoreOp.stagedIsFile p).ask.bind fun there =>
      if there = false then .raise (.runtime "size or md5 mismatch")
      else (RestoreOp.stagedSize p).ask.bind fun size =>
        if size ≠ tomb.size then .raise (.runtime "size or md5 mismatch")
        else (RestoreOp.stagedMd5 p).ask.bind fun md5 =>
          if md5 ≠ tomb.md5 then .raise (.runtime "size or md5 mismatch")
          else (RestoreOp.replace p).ask

/-- What follows the tombstone; `false` when the partition failed. -/
def restoreBuried (remoteBase : String) (p : Partition) (tomb : Tombstone) : RestoreCall Bool :=
  (downloadAndReplace remoteBase p tomb).attempt.bind fun moved =>
    -- the `finally`, whose exception hides the other
    (RestoreOp.unlinkStaged p).ask.bind fun _ =>
      match moved with
      | .error e => if e.failsRestore then .ret false else .raise e
      | .ok _ => (RestoreOp.unlinkTombstone p).ask.bind fun _ => .ret true

/-- One partition. -/
def restoreFile (remoteBase : String) (dryRun : Bool) (p : Partition) : RestoreCall Bool :=
  (RestoreOp.readTombstone p).ask.attempt.bind fun read =>
    match read with
    | .error e => if e.isValueError then .ret false else .raise e
    | .ok none => .ret false
    | .ok (some tomb) => (RestoreOp.partitionExists p).ask.bind fun there =>
      if there then .ret false else if dryRun then .ret true else restoreBuried remoteBase p tomb

/-- The loop over the paths; what was restored, and what failed. -/
def restoreFiles (remoteBase : String) (dryRun : Bool) :
    List Partition → List String → List String → RestoreCall (List String × List String)
  | [], restored, failed => .ret (restored, failed)
  | p :: ps, restored, failed => (restoreFile remoteBase dryRun p).bind fun ok =>
    if ok then restoreFiles remoteBase dryRun ps (restored ++ [p.rel]) failed
    else restoreFiles remoteBase dryRun ps restored (failed ++ [p.rel])

/-- `restore_partitions`. -/
def restorePartitions (remoteBase : String) (dryRun : Bool) (ps : List Partition) : RestoreCall (List String) :=
  (restoreFiles remoteBase dryRun ps [] []).bind fun r =>
    if r.2.isEmpty then .ret r.1 else .raise (.runtime "Partition restore failed")

/-! ## The disk, and what a restore stages on it -/

structure Archive (Caller Bytes : Type) where
  disk : Disk Caller Bytes
  /-- `<name>.restore.tmp` beside each partition. -/
  staged : Partition → Option Bytes
  /-- Who holds the flock of the Drive writers. -/
  drive : Option Caller

variable {Caller Bytes Cell : Type}

namespace Archive

def stage (w : Archive Caller Bytes) (p : Partition) (file : Option Bytes) : Archive Caller Bytes :=
  { w with staged := Function.update w.staged p file }

/-- The staging file is moved into its place. -/
def moveIn (w : Archive Caller Bytes) (p : Partition) (b : Bytes) : Archive Caller Bytes :=
  { w.stage p none with disk := w.disk.put p (some b) }

def dropTombstone (w : Archive Caller Bytes) (p : Partition) : Archive Caller Bytes :=
  { w with disk := { w.disk with tombstones := Function.update w.disk.tombstones p none } }

end Archive

/-- A call of a restore; a download leaves anything in the staging file. -/
def RestoreExec (rd : Reader Bytes) : (op : RestoreOp) → Archive Caller Bytes → op.Ret → Archive Caller Bytes → Prop
  | .readTombstone p, w, r, w' => (∀ t, r = .ok t → t = w.disk.tombstones p) ∧ w' = w
  | .partitionExists p, w, r, w' => (∀ b, r = .ok b → b = (w.disk.files p).isSome) ∧ w' = w
  | .copyto _ p, w, _, w' => ∃ file, w' = w.stage p file
  | .stagedIsFile p, w, r, w' => (∀ b, r = .ok b → b = (w.staged p).isSome) ∧ w' = w
  | .stagedSize p, w, r, w' => (∀ size, r = .ok size → ∃ b, w.staged p = some b ∧ size = rd.size b) ∧ w' = w
  | .stagedMd5 p, w, r, w' => (∀ md5, r = .ok md5 → ∃ b, w.staged p = some b ∧ md5 = rd.md5 b) ∧ w' = w
  | .replace p, w, .ok _, w' => ∃ b, w.staged p = some b ∧ w' = w.moveIn p b
  | .unlinkStaged p, w, .ok _, w' => w' = w.stage p none
  | .unlinkTombstone p, w, .ok _, w' => (w.disk.tombstones p).isSome ∧ w' = w.dropTombstone p
  | .replace _, w, .error _, w' | .unlinkStaged _, w, .error _, w' | .unlinkTombstone _, w, .error _, w' => w' = w

/-! ## Restores, evictions and writers at once -/

/-- Where a process is. -/
inductive Task (Cell : Type) where
  | job (l : Job Cell)
  | restores (p : RestoreCall (List String))

variable [DecidableEq Caller]

/-- The process is gone; the kernel lets go of its locks. -/
def Archive.exit (w : Archive Caller Bytes) (c : Caller) : Archive Caller Bytes :=
  { w with disk := w.disk.exit c, drive := if w.drive = some c then none else w.drive }

/-- A process begins something, makes its next call, or is gone.  `begins` is how an eviction or a restore begins. -/
inductive Task.Step [DecidableEq Cell] (begins : Caller → Archive Caller Bytes → Archive Caller Bytes → Prop)
    (rd : Reader Bytes) (pd : Pandas Cell) (c : Caller) :
    Task Cell → Archive Caller Bytes → Task Cell → Archive Caller Bytes → Prop where
  | evict (args : EvictArgs) {w w' : Archive Caller Bytes} (h : begins c w w') :
      Step begins rd pd c (.job .idle) w (.job (.evicts (evictVerifiedPartitions args))) w'
  | restore (remoteBase : String) (dryRun : Bool) (ps : List Partition) {w w' : Archive Caller Bytes} (h : begins c w w') :
      Step begins rd pd c (.job .idle) w (.restores (restorePartitions remoteBase dryRun ps)) w'
  | job {l l' : Job Cell} {w : Archive Caller Bytes} {disk' : Disk Caller Bytes} (h : Job.Step rd pd c l w.disk l' disk')
      (hbegun : l = .idle → ∀ p, l' ≠ .evicts p) (hthere : l' ≠ .idle) :
      Step begins rd pd c (.job l) w (.job l') { w with disk := disk' }
  | restores {p p' : RestoreCall (List String)} {w w' : Archive Caller Bytes} (h : Prog.Next (RestoreExec rd) p w p' w') :
      Step begins rd pd c (.restores p) w (.restores p') w'
  | gone (l : Task Cell) (w : Archive Caller Bytes) : Step begins rd pd c l w (.job .idle) (w.exit c)

/-- Restores and evictions under the flock of the Drive writers. -/
def underFlock (c : Caller) (w w' : Archive Caller Bytes) : Prop := w.drive = none ∧ w' = { w with drive := some c }

/-- Restores and evictions whenever they are started. -/
def atWill (_ : Caller) (w w' : Archive Caller Bytes) : Prop := w' = w

abbrev Vault (Caller Cell Bytes : Type) := Threads.State Caller (Task Cell) (Archive Caller Bytes)

/-- Nobody runs, and nothing was evicted. -/
def Vault.Start (s : Vault Caller Cell Bytes) : Prop :=
  (∀ c, s.thread c = .job .idle) ∧ (∀ p, s.world.disk.tombstones p = none) ∧ (∀ p, s.world.disk.lock p = none) ∧
    s.world.disk.listings = [] ∧ s.world.drive = none

/-- Any number of restores, evictions and writers, in any order. -/
def vault [DecidableEq Cell] (begins : Caller → Archive Caller Bytes → Archive Caller Bytes → Prop) (rd : Reader Bytes)
    (pd : Pandas Cell) : System (Vault Caller Cell Bytes) :=
  Threads.system Vault.Start (Task.Step begins rd pd)

/-- A partition is there, or its tombstone is. -/
def Present (w : Disk Caller Bytes) (p : Partition) : Prop := (w.files p).isSome ∨ (w.tombstones p).isSome

namespace Task

/-- A writer. -/
def writes : Task Cell → Bool
  | job (.evicts _) | restores _ => false
  | job _ => true

end Task

/-- A step, unless it is a writer's that leaves nothing of the partition. -/
def Vault.Keeping (step : Caller → Task Cell → Archive Caller Bytes → Task Cell → Archive Caller Bytes → Prop)
    (p : Partition) (s s' : Vault Caller Cell Bytes) : Prop :=
  ∃ c, Threads.Step step c s s' ∧ ¬ ((s.thread c).writes = true ∧ (s.world.disk.files p).isSome ∧ s'.world.disk.files p = none)

end Intraday
