import KClosingAlpha.Lib.Threads
import KClosingAlpha.Offsite.Restore
import Mathlib.Data.List.GetD
import Mathlib.Logic.Function.Basic
/-!
# Seal — passes that pack, upload and record the files of the capture tree

A pass plans the selected dates against their ledgers and hands each to a worker, which stages, uploads and verifies one
segment after the other.  The coordinator appends what was verified to the ledgers, date by date in the order of the plan.
Files are published all the while, transfers fail, a worker meets the deadline, and a pass may stop anywhere; the selection
of the dates by their modification times is left open.
-/
namespace Offsite

variable {Bytes Archive : Type}

/-- The capture tree, the remote objects, and the text of every ledger. -/
structure Store (Bytes Archive : Type) where
  tree : Tree Bytes
  remote : Remote Archive
  ledger : Tier → String → List Char

structure Config where
  remoteRoot : String
  /-- `max_segment_member_bytes`. -/
  limit : Int
  /-- `seal_workers`. -/
  workers : Nat

/-! ## What a worker does -/

def remoteDir (config : Config) (tier : Tier) (tradingDate : String) : String :=
  config.remoteRoot ++ "/" ++ tier.name ++ "/" ++ String.ofList (tradingDate.toList.take 7) ++ "/" ++ tradingDate

/-- `_remote_path`. -/
def remotePath (config : Config) (tier : Tier) (tradingDate segment : String) : String :=
  remoteDir config tier tradingDate ++ "/" ++ segment ++ ".tar.zst"

/-- What a worker asks of its surroundings. -/
inductive SealOp (Archive : Type) where
  /-- `now_fn() >= deadline`. -/
  | now
  | lsf (dir : String)
  /-- `_build_archive`, and the names of its members read back. -/
  | stage (members : List SegmentMember)
  | md5sum (remote : String)
  | copyto (archive : Archive) (remote : String)

/-- The answers; `none` and `false` are calls that fail. -/
def SealRet : SealOp Archive → Type
  | .now => Bool
  | .lsf _ => Option (List String)
  | .stage _ => Except SealError Archive
  | .md5sum _ => Option (Option String)
  | .copyto _ _ => Bool

abbrev Worker (Archive α : Type) := Prog (SealOp Archive) SealRet SealError α

namespace Ask

def now : Worker Archive Bool := Prog.call SealOp.now Prog.ret

def lsf (dir : String) : Worker Archive (Option (List String)) := Prog.call (SealOp.lsf dir) Prog.ret

def stage (members : List SegmentMember) : Worker Archive (Except SealError Archive) := Prog.call (SealOp.stage members) Prog.ret

def md5sum (remote : String) : Worker Archive (Option (Option String)) := Prog.call (SealOp.md5sum remote) Prog.ret

def copyto (archive : Archive) (remote : String) : Worker Archive Bool := Prog.call (SealOp.copyto archive remote) Prog.ret

end Ask

/-- One member of `_build_archive`: the file with the size and the hash it was planned with. -/
def stageMember (tools : Tools Bytes Archive) (t : Tree Bytes) (m : SegmentMember) : Except SealError (String × Bytes) :=
  match t.lookup m.path with
  | some (.file b) =>
    if (tools.size b : Int) ≠ m.size then .error (.sizeChanged m.path)
    else if tools.sha256 b ≠ m.sha256 then .error (.hashChanged m.path)
    else .ok (m.path, b)
  | _ => .error (.missing m.path)

/-- `_build_archive` and `_verify_archive_members`. -/
def stageArchive (tools : Tools Bytes Archive) (t : Tree Bytes) (members : List SegmentMember) : Except SealError Archive := do
  let files ← members.mapM (stageMember tools t)
  let archive := tools.tar files
  let names := (tools.untar archive).map Prod.fst
  Exc.raiseIf (names.mergeSort (fun a b => a ≤ b) ≠ (members.map SegmentMember.path).mergeSort (fun a b => a ≤ b))
    SealError.roundTrip
  pure archive

/-- `md5sum` of a remote object, compared with the local archive. -/
def checkRemote (localMd5 remote : String) : Worker Archive Unit := do
  match ← Ask.md5sum remote with
  | none => .raise .transfer
  | some sum => if sum ≠ some localMd5 then .raise (.remoteMismatch remote) else .ret ()

/-- `_seal_one_segment`. -/
def sealOneSegment (tools : Tools Bytes Archive) (remote : String) (members : List SegmentMember) (alreadyRemote : Bool) :
    Worker Archive (Nat × String) := do
  let staged ← Ask.stage members
  let archive ← Prog.ofExcept staged
  if alreadyRemote then
    checkRemote (tools.md5 archive) remote
    pure (tools.archiveSize archive, tools.md5 archive)
  else
    match ← Ask.copyto archive remote with
    | false => .raise .transfer
    | true =>
      checkRemote (tools.md5 archive) remote
      pure (tools.archiveSize archive, tools.md5 archive)

structure VerifiedSegment where
  index : Nat
  localBytes : Nat
  localMd5 : String
  deriving DecidableEq

structure GroupOutcome where
  verified : List VerifiedSegment
  complete : Bool
  failure : Option SealError
  deriving DecidableEq

/-- The segments from `index` on, after those verified before it. -/
def sealSegments (tools : Tools Bytes Archive) (config : Config) (tier : Tier) (tradingDate : String) (existing : List String) :
    Nat → List (List SegmentMember) → List VerifiedSegment → Worker Archive GroupOutcome
  | _, [], verified => .ret ⟨verified, true, none⟩
  | index, members :: rest, verified => do
    match ← Ask.now with
    | true => .ret ⟨verified, false, none⟩
    | false =>
      let segment ← Prog.ofExcept (segmentName tools members)
      let remote := remotePath config tier tradingDate segment
      match ← (sealOneSegment tools remote members (existing.contains (segment ++ ".tar.zst"))).attempt with
      | .error e => .ret ⟨verified, false, some e⟩
      | .ok (localBytes, localMd5) =>
        sealSegments tools config tier tradingDate existing (index + 1) rest (verified ++ [⟨index, localBytes, localMd5⟩])

/-- `_seal_group`. -/
def sealGroup (tools : Tools Bytes Archive) (config : Config) (tier : Tier) (tradingDate : String)
    (segments : List (List SegmentMember)) : Worker Archive GroupOutcome := do
  match ← Ask.lsf (remoteDir config tier tradingDate) with
  | none => .ret ⟨[], false, some .transfer⟩
  | some existing => sealSegments tools config tier tradingDate existing 0 segments []

/-- The surroundings of a worker.  Any call may fail; a sum is that of the object that is there; an upload, whether it
fails or not, may leave something where nothing was and never replaces what is there (`--immutable`). -/
def answers (tools : Tools Bytes Archive) : Prog.Exec (SealOp Archive) SealRet (Store Bytes Archive)
  | .now, w, _, w' | .lsf _, w, _, w' => w' = w
  | .stage members, w, r, w' => w' = w ∧ ∀ archive, r = .ok archive → stageArchive tools w.tree members = .ok archive
  | .md5sum remote, w, r, w' =>
    w' = w ∧ ∀ sum, r = some (some sum) → ∃ archive, w.remote.lookup remote = some archive ∧ sum = tools.md5 archive
  | .copyto _ remote, w, _, w' =>
    w' = w ∨ w.remote.lookup remote = none ∧ ∃ archive, w' = { w with remote := w.remote ++ [(remote, archive)] }

/-! ## What the coordinator does -/

/-- A date with its planned segments. -/
structure Job where
  tier : Tier
  tradingDate : String
  segments : List (List SegmentMember)

def Job.key (job : Job) : Tier × String := (job.tier, job.tradingDate)

inductive Future (Archive : Type) where
  | unsubmitted
  | running (p : Worker Archive GroupOutcome)
  | finished (outcome : GroupOutcome)

def Future.isUnsubmitted : Future Archive → Bool
  | unsubmitted => true
  | _ => false

def Future.isRunning : Future Archive → Bool
  | running _ => true
  | _ => false

/-- A pass under the seal lock.  `selected` keeps the trees that the dates were planned on. -/
structure Pass (Bytes Archive : Type) where
  todo : List (Tier × String)
  selected : List ((Tier × String) × Tree Bytes)
  jobs : List Job
  futures : Nat → Future Archive
  nextCommit : Nat
  /-- The entries of the next job that are appended. -/
  appended : Nat
  failed : Bool
  deferredDates : Nat

structure SealReport (Bytes : Type) where
  deferredDates : Nat
  selected : List ((Tier × String) × Tree Bytes)

namespace Store

/-- What `read_ledger` makes of a ledger. -/
def entries (w : Store Bytes Archive) (tier : Tier) (tradingDate : String) : Except LedgerError (List LedgerEntry) :=
  readLedger tier.name tradingDate (w.ledger tier tradingDate)

def publish (w : Store Bytes Archive) (path : String) (node : Node Bytes) (hclean : cleanPath path = true)
    (hapart : ∀ n ∈ w.tree.nodes, apart n.1 path = true) : Store Bytes Archive :=
  { w with tree := w.tree.add path node hclean hapart }

/-- `_append_ledger_entry`. -/
def append (w : Store Bytes Archive) (tier : Tier) (tradingDate : String) (e : LedgerEntry) : Store Bytes Archive :=
  { w with
    ledger := fun tier' date' =>
      if tier' = tier ∧ date' = tradingDate then w.ledger tier' date' ++ e.line else w.ledger tier' date' }

end Store

/-- The entry of a verified segment. -/
def ledgerEntry (config : Config) (job : Job) (v : VerifiedSegment) (segment : String) (members : List SegmentMember)
    (committedAt : String) : LedgerEntry where
  tier := job.tier.name
  tradingDate := job.tradingDate
  segmentName := segment
  remotePath := remotePath config job.tier job.tradingDate segment
  members
  archiveBytes := v.localBytes
  archiveMd5 := v.localMd5
  committedAt

/-- What happens in a pass. -/
inductive PassStep (tools : Tools Bytes Archive) (config : Config) (w : Store Bytes Archive) (p : Pass Bytes Archive) :
    Store Bytes Archive → Pass Bytes Archive → Prop
  /-- A date is planned; one with nothing to do gets no job. -/
  | plan (tier : Tier) (tradingDate : String) (rest : List (Tier × String)) (entries : List LedgerEntry)
      (segments : List (List SegmentMember)) (htodo : p.todo = (tier, tradingDate) :: rest)
      (hread : w.entries tier tradingDate = .ok entries)
      (hplan : planSegments tools config.limit w.tree tier tradingDate (sealedSizes entries) = .ok segments) :
      PassStep tools config w p w
        { p with
          todo := rest
          selected := p.selected ++ [((tier, tradingDate), w.tree)]
          jobs := if segments = [] then p.jobs else p.jobs ++ [⟨tier, tradingDate, segments⟩] }
  | submit (i : Nat) (job : Job) (htodo : p.todo = []) (hjob : p.jobs[i]? = some job)
      (hnext : (p.futures i).isUnsubmitted = true) (hbefore : ∀ j < i, (p.futures j).isUnsubmitted = false)
      (hworkers : (List.range p.jobs.length).countP (fun j => (p.futures j).isRunning) < config.workers)
      (hfailed : p.failed = false) :
      PassStep tools config w p w
        { p with futures := Function.update p.futures i (.running (sealGroup tools config job.tier job.tradingDate job.segments)) }
  | work (i : Nat) (q q' : Worker Archive GroupOutcome) (w' : Store Bytes Archive) (hrun : p.futures i = .running q)
      (hstep : Prog.Next (answers tools) q w q' w') :
      PassStep tools config w p w' { p with futures := Function.update p.futures i (.running q') }
  | collect (i : Nat) (outcome : GroupOutcome) (hrun : p.futures i = .running (.ret outcome)) :
      PassStep tools config w p w
        { p with futures := Function.update p.futures i (.finished outcome), failed := p.failed || outcome.failure.isSome }
  | append (job : Job) (outcome : GroupOutcome) (v : VerifiedSegment) (members : List SegmentMember) (segment committedAt : String)
      (htodo : p.todo = []) (hjob : p.jobs[p.nextCommit]? = some job) (hdone : p.futures p.nextCommit = .finished outcome)
      (hv : outcome.verified[p.appended]? = some v) (hmembers : job.segments[v.index]? = some members)
      (hname : segmentName tools members = .ok segment) :
      PassStep tools config w p
        (w.append job.tier job.tradingDate (ledgerEntry config job v segment members committedAt))
        { p with appended := p.appended + 1 }
  | commit (job : Job) (outcome : GroupOutcome) (htodo : p.todo = []) (hjob : p.jobs[p.nextCommit]? = some job)
      (hdone : p.futures p.nextCommit = .finished outcome) (hall : p.appended = outcome.verified.length) :
      PassStep tools config w p w
        { p with
          nextCommit := p.nextCommit + 1
          appended := 0
          deferredDates := if outcome.complete && outcome.failure.isNone then p.deferredDates else p.deferredDates + 1 }

/-- The store, the pass that holds the seal lock, and what the last pass returned. -/
structure Sealer (Bytes Archive : Type) where
  store : Store Bytes Archive
  pass : Option (Pass Bytes Archive)
  report : Option (SealReport Bytes)

inductive SealStep (tools : Tools Bytes Archive) (config : Config) (s : Sealer Bytes Archive) : Sealer Bytes Archive → Prop
  | publish (path : String) (node : Node Bytes) (hclean : cleanPath path = true)
      (hapart : ∀ n ∈ s.store.tree.nodes, apart n.1 path = true) :
      SealStep tools config s { s with store := s.store.publish path node hclean hapart }
  /-- What is in flight does not stay. -/
  | discard (path : String) (hflight : isInflight path = true) :
      SealStep tools config s { s with store := { s.store with tree := s.store.tree.remove path } }
  /-- The dates that a scan selects are directories, each listed once. -/
  | start (dates : List (Tier × String)) (hfree : s.pass = none) (hnodup : dates.Nodup)
      (hdates : ∀ d ∈ dates, isDateName d.2 = true) :
      SealStep tools config s ⟨s.store, some ⟨dates, [], [], fun _ => .unsubmitted, 0, 0, false, 0⟩, none⟩
  | pass (p p' : Pass Bytes Archive) (w' : Store Bytes Archive) (hpass : s.pass = some p)
      (hstep : PassStep tools config s.store p w' p') : SealStep tools config s ⟨w', some p', s.report⟩
  /-- There is nothing left to commit, or the next date was never submitted: it and the rest are deferred. -/
  | report (p : Pass Bytes Archive) (hpass : s.pass = some p) (htodo : p.todo = [])
      (hend : p.jobs.length ≤ p.nextCommit ∨ (p.futures p.nextCommit).isUnsubmitted = true) (hfailed : p.failed = false) :
      SealStep tools config s
        ⟨s.store, none, some ⟨p.deferredDates + (List.range p.jobs.length).countP (fun j =>
          decide (p.nextCommit ≤ j) && (p.futures j).isUnsubmitted), p.selected⟩⟩
  /-- An exception, or the process dies. -/
  | stop : SealStep tools config s ⟨s.store, none, none⟩

/-- Seal passes over a tree that files are published into, from an empty store on. -/
def sealing (tools : Tools Bytes Archive) (config : Config) : System (Sealer Bytes Archive) where
  start s := s = ⟨⟨Tree.empty, [], fun _ _ => []⟩, none, none⟩
  step := SealStep tools config

end Offsite
