import KClosingAlpha.Intraday.Frame
import KClosingAlpha.Lib.Threads
import Mathlib.Data.Int.Order.Basic
import Mathlib.Data.List.Lex
import Mathlib.Data.List.MinMax
import Mathlib.Data.Prod.Lex
import Mathlib.Data.String.Basic
/-!
# Store — the capture store (`capture_store.py`)

Everything is published once, under the lock of its path: bytes that are already there are compared, never replaced.  A
manifest is published after the evidence it refers to was verified, a decision as its frozen input and then its manifest.
A reader takes the manifests of a day, verified again, and of those that were complete by its cutoff the latest.

Paths are split at their slashes; only a decision's run id, which is checked too late, can lead elsewhere.  JSON, parquet, the hash and the clocks of a frame are a
parameter, with what the store relies on: a manifest is read back as it was written, and so are the clocks of a frame.
-/
namespace Capture

open Intraday (CaptureStatus quoted)

inductive Exn where
  | value (msg : String)
  /-- A `ValueError` of the contracts' validators. -/
  | validation
  | fileNotFound (msg : String)
  | os (msg : String)
  | rawCapture (msg : String)
  | other (msg : String)
  deriving DecidableEq

/-! ## Contracts -/

abbrev Path := List String

def Path.text (p : Path) : String := "/".intercalate p

/-- The next segment of a path is followed. -/
def Path.enter (p : Path) (segment : String) : Path :=
  if segment = "" ∨ segment = "." then p
  else if segment = ".." ∧ p ≠ [] ∧ p.getLast? ≠ some ".." then p.dropLast
  else p ++ [segment]

/-- `".." in text`, on characters. -/
def hasDots : List Char → Bool
  | '.' :: '.' :: _ => true
  | _ :: cs => hasDots cs
  | [] => false

/-- `_require_path_safe`. -/
def pathSafe (value : String) : Bool :=
  !Py.isBlank value && !value.toList.any (fun c => c = '/' || c = '\\' || c = '\x00') && decide (Py.strip value = value) &&
    !(decide (value = ".") || hasDots value.toList)

structure ArtifactRef where
  path : Path
  sha256 : String
  bytes : Nat
  rows : Option Nat
  deriving DecidableEq

structure CoverageEntry where
  status : CaptureStatus
  rawRefs : List ArtifactRef
  deriving DecidableEq

/-- `status in GOOD_ENTRY_STATES`. -/
def CoverageEntry.isGood (e : CoverageEntry) : Bool :=
  decide (e.status = .complete) || decide (e.status = .noTrades) || decide (e.status = .notApplicable)

structure Cohort where
  tradingDate : String
  cohortId : String
  eligibleSymbols : List String
  deriving DecidableEq

/-- `CaptureManifest`, with what of its context is read; clocks are instants. -/
structure Manifest where
  tradingDate : String
  runId : String
  cohort : Option Cohort
  completedAt : Int
  entries : List CoverageEntry
  artifacts : List ArtifactRef
  status : CaptureStatus
  routed : pathSafe runId = true
  deriving DecidableEq

namespace Manifest

/-- `manifest-{status}.json`. -/
def name (m : Manifest) : String := String.ofList ("manifest-".toList ++ m.status.value.toList.map Char.toLower ++ ".json".toList)

def path (m : Manifest) : Path := ["manifests", m.tradingDate, m.runId, m.name]

/-- Every reference `_verify_manifest_refs` checks. -/
def refs (m : Manifest) : List ArtifactRef := m.artifacts ++ m.entries.flatMap CoverageEntry.rawRefs

-- written out: the search would go through the completeness of the integers, which does not compute
instance runOrder : LinearOrder (Int ×ₗ String) := @Prod.Lex.instLinearOrder Int String Int.instLinearOrder inferInstance

instance : Preorder (Int ×ₗ String) := runOrder.toPreorder

/-- The order of runs. -/
def key (m : Manifest) : Int ×ₗ String := toLex (m.completedAt, m.runId)

end Manifest

/-- The columns of a frame, in their order. -/
abbrev Frame (Cell : Type) := Py.Dict (List Cell)

/-- A column, empty where there is none. -/
def column {Cell : Type} (f : Frame Cell) (name : String) : List Cell := f.getD name []

/-- The clocks of the rows, as they are concatenated. -/
def clockCells {Cell : Type} (f : Frame Cell) : List Cell :=
  column f "snapshot_timestamp" ++ column f "feature_available_timestamp"

/-- What the store takes from its libraries. -/
structure Runtime (Cell Bytes : Type) where
  sha256 : Bytes → String
  size : Bytes → Nat
  /-- `_canonical_json(manifest.model_dump(mode="json"))`. -/
  dump : Manifest → Bytes
  /-- Whether `json.loads` takes the bytes. -/
  parses : Bytes → Bool
  /-- `CaptureManifest.model_validate` of what the bytes parse to. -/
  validate : Bytes → Option Manifest
  toParquet : Frame Cell → Except Exn Bytes
  readParquet : Bytes → Except Exn (Frame Cell)
  /-- `astype(str)`. -/
  str : Cell → String
  /-- A text as a cell. -/
  cell : String → Cell
  /-- `pd.to_datetime`, in Seoul time where no zone is given; `none` is `NaT`. -/
  toDatetime : List Cell → Except Exn (List (Option Int))
  /-- `date.fromisoformat(text).isoformat()`. -/
  fromIsoformat : String → Except Exn String
  parses_dump : ∀ m, parses (dump m) = true
  validate_dump : ∀ m, validate (dump m) = some m
  clocks_readParquet : ∀ f b f', toParquet f = .ok b → readParquet b = .ok f' →
    toDatetime (clockCells f') = toDatetime (clockCells f)

variable {Cell Bytes : Type} (rt : Runtime Cell Bytes)

/-! ## Frames -/

/-- `len(frame)`. -/
def rowCount (f : Frame Cell) : Nat := f.head?.elim 0 (fun c => c.2.length)

def symbolColumn (f : Frame Cell) : Option String :=
  if f.has "symbol" then some "symbol" else if f.has "종목코드" then some "종목코드" else none

/-- The symbols are the eligible members, each once. -/
def retains (f : Frame Cell) (symbolCol : String) (cohort : Cohort) : Bool :=
  let symbols := (column f symbolCol).map rt.str
  symbols.all (fun s => decide (s ∈ cohort.eligibleSymbols)) && cohort.eligibleSymbols.all (fun s => decide (s ∈ symbols)) &&
    decide symbols.Nodup

/-- `_decision_frame`. -/
def decisionFrame (f : Frame Cell) (cohort : Cohort) : Except Exn Unit :=
  match symbolColumn f with
  | none => .error (.value "decision frame must carry a symbol column")
  | some symbolCol =>
    if !f.has "admitted" then .error (.value "decision frame must carry unchanged admission flags")
    else if !(f.has "snapshot_timestamp" && f.has "feature_available_timestamp") then
      .error (.value "decision frame must carry decision-time provenance columns")
    else if !retains rt f symbolCol cohort then
      .error (.value "decision frame must retain every eligible cohort member exactly once")
    else .ok ()

/-- The clocks of the rows of a frame. -/
def stamps (f : Frame Cell) : Except Exn (List (Option Int)) := rt.toDatetime (clockCells f)

/-! ## The disk -/

abbrev Files (Bytes : Type) := List (Path × Bytes)

structure Disk (Caller Bytes : Type) where
  files : Files Bytes
  /-- Who holds the sidecar lock. -/
  lock : Path → Option Caller

inductive StoreOp (Bytes : Type) where
  | lock (p : Path)
  | unlock (p : Path)
  | isThere (p : Path)
  /-- `none` is `FileNotFoundError`. -/
  | readBytes (p : Path)
  /-- `atomic_write_bytes`. -/
  | write (p : Path) (data : Bytes)

abbrev StoreOp.Ans : StoreOp Bytes → Type
  | isThere _ => Bool
  | readBytes _ => Option Bytes
  | lock _ | unlock _ | write _ _ => Unit

abbrev StoreOp.Ret (op : StoreOp Bytes) : Type := Except Exn op.Ans

abbrev StoreCall (Bytes α : Type) := Prog (StoreOp Bytes) StoreOp.Ret Exn α

def StoreOp.ask (op : StoreOp Bytes) : StoreCall Bytes op.Ans := .call op Prog.ofExcept

variable {Caller : Type} [DecidableEq Caller]

namespace Disk

/-- The lock is free, and taken. -/
def Takes (c : Caller) (p : Path) (w w' : Disk Caller Bytes) : Prop :=
  w.lock p = none ∧ w' = { w with lock := Function.update w.lock p (some c) }

/-- The lock is let go of, if it was held. -/
def release (w : Disk Caller Bytes) (c : Caller) (p : Path) : Disk Caller Bytes :=
  { w with lock := fun q => if q = p ∧ w.lock p = some c then none else w.lock q }

/-- The process is gone. -/
def exit (w : Disk Caller Bytes) (c : Caller) : Disk Caller Bytes :=
  { w with lock := fun q => if w.lock q = some c then none else w.lock q }

end Disk

/-- `os.replace` onto a path. -/
def putFile (p : Path) (data : Bytes) : Files Bytes → Files Bytes
  | [] => [(p, data)]
  | (q, old) :: files => if q = p then (q, data) :: files else (q, old) :: putFile p data files

def StoreExec (c : Caller) : (op : StoreOp Bytes) → Disk Caller Bytes → op.Ret → Disk Caller Bytes → Prop
  | .lock p, w, .ok _, w' => w.Takes c p w'
  | .unlock p, w, _, w' => w' = w.release c p
  | .isThere p, w, r, w' => (∀ b, r = .ok b → b = (w.files.lookup p).isSome) ∧ w' = w
  | .readBytes p, w, r, w' => (∀ o, r = .ok o → o = w.files.lookup p) ∧ w' = w
  | .write p data, w, .ok _, w' => w' = { w with files := putFile p data w.files }
  | .lock _, w, .error _, w' | .write _ _, w, .error _, w' => w' = w

/-! ## Publishing -/

variable [DecidableEq Bytes]

/-- `_MAX_ARTIFACT_BYTES`. -/
def maxArtifactBytes : Nat := 64 * 1024 * 1024

/-- The reference to some bytes. -/
def refOf (p : Path) (data : Bytes) (rows : Option Nat) : ArtifactRef := ⟨p, rt.sha256 data, rt.size data, rows⟩

/-- `_publish_bytes` under the lock. -/
def publishLocked (rel target : Path) (data : Bytes) (rows : Option Nat) : StoreCall Bytes ArtifactRef :=
  (StoreOp.isThere target).ask.bind fun there =>
    if there then
      (StoreOp.readBytes target).ask.bind fun existing =>
        match existing with
        | none => .raise (.os "No such file or directory")
        | some existing =>
          if existing = data then .ret (refOf rt rel existing rows)
          else .raise (.value ("conflicting immutable artifact identity: " ++ quoted rel.text))
    else (StoreOp.write target data).ask.bind fun _ => .ret (refOf rt rel data rows)

/-- `_publish_bytes`, of a path and where it leads; what the release raises is dropped when the section raised. -/
def publishBytes (rel target : Path) (data : Bytes) (rows : Option Nat) : StoreCall Bytes ArtifactRef :=
  if maxArtifactBytes < rt.size data then .raise (.value ("artifact exceeds bounded size: " ++ quoted rel.text))
  else (StoreOp.lock target).ask.bind fun _ => (publishLocked rt rel target data rows).attempt.bind fun o =>
    match o with
    | .ok ref => (StoreOp.unlock target).ask.bind fun _ => .ret ref
    | .error e => (StoreOp.unlock target).ask.attempt.bind fun _ => .raise e

/-- `_check_ref`, with what the path holds. -/
def checkRef (ref : ArtifactRef) : Option Bytes → Except Exn Bytes
  | none => .error (.value ("missing referenced evidence: " ++ quoted ref.path.text))
  | some data =>
    if rt.size data ≠ ref.bytes ∨ rt.sha256 data ≠ ref.sha256 then
      .error (.value ("hash-inconsistent evidence: " ++ quoted ref.path.text))
    else .ok data

/-- `_verify_manifest_refs`. -/
def verifyRefs : List ArtifactRef → StoreCall Bytes Unit
  | [] => .ret ()
  | ref :: refs => (StoreOp.readBytes ref.path).ask.bind fun data =>
    (Prog.ofExcept (checkRef rt ref data)).bind fun _ => verifyRefs refs

/-- `publish_manifest`. -/
def publishManifest (m : Manifest) : StoreCall Bytes ArtifactRef :=
  if m.status = .complete ∧ m.entries.any (fun e => !e.isGood) then
    .raise (.value "COMPLETE manifest cannot certify failed or pending entries")
  else (verifyRefs rt m.refs).bind fun _ => publishBytes rt m.path m.path (rt.dump m) none

/-- The arguments of `publish_decision`; a naive clock is `none`. -/
structure DecisionArgs (Cell : Type) where
  frame : Frame Cell
  cohort : Cohort
  runId : String
  completedAt : Option Int
  entries : List CoverageEntry

namespace DecisionArgs

variable (args : DecisionArgs Cell)

/-- The frame with the identity of its run. -/
def stamped : Frame Cell :=
  Py.Dict.set (Py.Dict.set args.frame "capture_run_id" (List.replicate (rowCount args.frame) (rt.cell args.runId))) "cohort_id"
    (List.replicate (rowCount args.frame) (rt.cell args.cohort.cohortId))

def inputPath : Path := ["decision", args.cohort.tradingDate, args.runId, "input.parquet"]

/-- Where it leads. -/
def inputTarget : Path :=
  ((args.runId.toList.splitOn '/').map String.ofList ++ ["input.parquet"]).foldl Path.enter
    ["decision", args.cohort.tradingDate]

end DecisionArgs

/-- `publish_decision`. -/
def publishDecision (args : DecisionArgs Cell) : StoreCall Bytes ArtifactRef :=
  match args.completedAt with
  | none => .raise (.value "completed_at must be timezone-aware")
  | some completedAt =>
    (Prog.ofExcept (decisionFrame rt args.frame args.cohort)).bind fun _ =>
    (Prog.ofExcept (stamps rt args.frame)).bind fun clocks =>
      if (clocks.filterMap id).max?.any (fun floor => decide (completedAt < floor)) then
        .raise (.value "completed_at precedes decision-time evidence")
      else
        (Prog.ofExcept (rt.toParquet (args.stamped rt))).bind fun data =>
        (publishBytes rt args.inputPath args.inputTarget data (some (rowCount (args.stamped rt)))).bind fun inputRef =>
          if h : pathSafe args.runId = true then
            publishManifest rt
              { tradingDate := args.cohort.tradingDate, runId := args.runId, cohort := some args.cohort, completedAt
                entries := args.entries, artifacts := [inputRef]
                status := if args.entries.all CoverageEntry.isGood then .complete else .part, routed := h }
          else .raise .validation

/-- `append_response`: the path below `raw`, and the compressed envelope. -/
def appendResponse (route : Path) (envelope : Bytes) : StoreCall Bytes ArtifactRef :=
  publishBytes rt ("raw" :: route) ("raw" :: route) envelope none

/-- `publish_frame`: the path below `normalized`. -/
def publishFrame (route : Path) (f : Frame Cell) : StoreCall Bytes ArtifactRef :=
  ((Prog.ofExcept (rt.toParquet f)).bind fun data =>
    publishBytes rt ("normalized" :: route) ("normalized" :: route) data (some (rowCount f))).attempt.bind fun o =>
      match o with
      | .ok ref => .ret ref
      | .error (.os msg) => .raise (.rawCapture msg)
      | .error e => .raise e

/-! ## Reading -/

/-- A name of the form `manifest-*.json`. -/
def isManifestName (name : String) : Bool :=
  "manifest-".toList.isPrefixOf name.toList && ".json".toList.isSuffixOf name.toList

/-- Below the directory of a day, and named like a manifest. -/
def isManifestOf (day : String) : Path → Bool
  | "manifests" :: d :: rest => decide (d = day) && rest.getLast?.any isManifestName
  | _ => false

/-- `sorted(day_dir.rglob("manifest-*.json"))`: files, and the directories on their way. -/
def manifestPaths (files : Files Bytes) (day : String) : List Path :=
  ((files.flatMap (fun file => file.1.inits)).dedup.filter (isManifestOf day)).mergeSort (fun p q => decide (p ≤ q))

/-- One manifest of a day. -/
def loadManifest (files : Files Bytes) (p : Path) : Except Exn Manifest :=
  match files.lookup p with
  | none => .error (.value ("unreadable manifest evidence: " ++ quoted (p.getLast?.getD "")))
  | some data =>
    if !rt.parses data then .error (.value ("unreadable manifest evidence: " ++ quoted (p.getLast?.getD "")))
    else
      match rt.validate data with
      | none => .error (.value ("invalid manifest evidence: " ++ quoted (p.getLast?.getD "")))
      | some m => do
        let _ ← m.refs.mapM (fun ref => checkRef rt ref (files.lookup ref.path))
        return m

/-- `read_manifests`. -/
def readManifests (files : Files Bytes) (snapshotDate : String) : Except Exn (List Manifest) := do
  let day ← rt.fromIsoformat snapshotDate
  let found ← (manifestPaths files day).mapM (loadManifest rt files)
  return found.mergeSort (fun a b => decide (a.key ≤ b.key))

/-- What a reader may choose. -/
def Manifest.qualifies (cutoff : Int) (runId : Option String) (m : Manifest) : Bool :=
  decide (m.status = .complete) && decide (m.completedAt ≤ cutoff) &&
    match runId with
    | none => m.cohort.isSome
    | some runId => decide (m.runId = runId)

/-- `_cutoff`. -/
def requireAware : Option Int → Except Exn Int
  | some cutoff => .ok cutoff
  | none => .error (.value "available_by must be an aware cutoff")

/-- `_select_decision`. -/
def selectDecision (files : Files Bytes) (snapshotDate : String) (availableBy : Option Int) (runId : Option String) :
    Except Exn Manifest := do
  let cutoff ← requireAware availableBy
  let manifests ← readManifests rt files snapshotDate
  match (manifests.filter (Manifest.qualifies cutoff runId)).argmax Manifest.key with
  | some m => return m
  | none => .error (.fileNotFound ("no qualifying verified decision capture: " ++ quoted snapshotDate))

/-- `ref.path.endswith("/input.parquet")`. -/
def ArtifactRef.isInput (ref : ArtifactRef) : Bool := decide (1 < ref.path.length) && decide (ref.path.getLast? = some "input.parquet")

/-- `read_decision`. -/
def readDecision (files : Files Bytes) (snapshotDate : String) (availableBy : Option Int) (runId : Option String) :
    Except Exn (Frame Cell) := do
  let chosen ← selectDecision rt files snapshotDate availableBy runId
  match (chosen.artifacts.filter ArtifactRef.isInput).head?, chosen.cohort with
  | none, _ => throw (.value "qualifying manifest carries no decision input")
  | some _, none => throw (.value "qualifying manifest carries no cohort")
  | some ref, some cohort =>
    let data ← checkRef rt ref (files.lookup ref.path)
    let f ← rt.readParquet data
    match symbolColumn f with
    | none => throw (.value "persisted decision input carries no symbol column")
    | some symbolCol =>
      if retains rt f symbolCol cohort then return f
      else throw (.value "persisted decision input cannot be reconciled with its cohort")

/-! ## All publishers at once -/

/-- What may be published. -/
inductive Publish (Cell Bytes : Type) where
  | manifest (m : Manifest)
  | decision (args : DecisionArgs Cell)
  | response (route : Path) (envelope : Bytes)
  | frame (route : Path) (f : Frame Cell)

def Publish.prog : Publish Cell Bytes → StoreCall Bytes ArtifactRef
  | manifest m => publishManifest rt m
  | decision args => publishDecision rt args
  | response route envelope => appendResponse rt route envelope
  | frame route f => publishFrame rt route f

/-- A manifest with a cohort is a decision's, and a run is named neither like a path nor like a manifest. -/
def Publish.Regular : Publish Cell Bytes → Prop
  | manifest m => m.cohort = none ∧ isManifestName m.runId = false
  | decision args => pathSafe args.runId = true ∧ isManifestName args.runId = false
  | response _ _ | frame _ _ => True

/-- Where a publisher is. -/
inductive Job (Bytes : Type) where
  | idle
  | publishes (p : StoreCall Bytes ArtifactRef)

/-- A publisher begins something, makes its next call, or is gone. -/
inductive Job.Step (allowed : Publish Cell Bytes → Prop) (c : Caller) :
    Job Bytes → Disk Caller Bytes → Job Bytes → Disk Caller Bytes → Prop where
  | begins (x : Publish Cell Bytes) (h : allowed x) (w : Disk Caller Bytes) : Step allowed c .idle w (.publishes (x.prog rt)) w
  | publishes {p p' : StoreCall Bytes ArtifactRef} {w w' : Disk Caller Bytes} (h : Prog.Next (StoreExec c) p w p' w') :
      Step allowed c (.publishes p) w (.publishes p') w'
  | gone (l : Job Bytes) (w : Disk Caller Bytes) : Step allowed c l w .idle (w.exit c)

abbrev Host (Caller Bytes : Type) := Threads.State Caller (Job Bytes) (Disk Caller Bytes)

/-- Nobody publishes yet. -/
def Host.Start (content : Files Bytes) (s : Host Caller Bytes) : Prop :=
  (∀ c, s.thread c = .idle) ∧ s.world.files = content ∧ ∀ p, s.world.lock p = none

/-- Any number of publishers, in any order, over what was there. -/
def host (allowed : Publish Cell Bytes → Prop) (content : Files Bytes) : System (Host Caller Bytes) :=
  Threads.system (Host.Start content) (Job.Step rt allowed)

end Capture
