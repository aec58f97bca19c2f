import KClosingAlpha.Offsite.PriceForm
import KClosingAlpha.Py.Json
import KClosingAlpha.Py.Whole
import Mathlib.Data.List.DropRight
import Mathlib.Data.List.Sort
import Mathlib.Data.String.Basic
/-!
# CoreSnapshot — dated snapshots of the core panels (`core_snapshot`)

A run stats the core files, compares them with the manifest of the dated directory that sorts last on the remote, copies
them to a stage and uploads it to the directory of its day; then it prunes the dated directories and the shared base files.
Every call of `rclone` may fail, and between any two calls the core files and the form of the price history may change.
-/
namespace CoreSnapshot

open PriceForm (Frame Kind RelPath OffsiteFile OffsiteManifest)

inductive Exn where
  | runtime (message : String)
  | calledProcess (returncode : Int)
  | timeout
  | os
  | overflow
  deriving DecidableEq

/-! ## Dated directories -/

/-- `DATED_DIR_RE`. -/
def isDatedDir (name : String) : Bool :=
  match name.toList with
  | [y₁, y₂, y₃, y₄, '-', m₁, m₂, '-', d₁, d₂] => [y₁, y₂, y₃, y₄, m₁, m₂, d₁, d₂].all Char.isDigit
  | _ => false

/-- The name of a dated directory, as `isoformat` writes a date. -/
@[ext] structure Day where
  name : String
  dated : isDatedDir name = true
  deriving DecidableEq

instance : LinearOrder Day := LinearOrder.lift' Day.name fun _ _ h => Day.ext h

def Day.ofName (name : String) : Option Day := if h : isDatedDir name = true then some ⟨name, h⟩ else none

/-- `name[:7]`. -/
def Day.month (d : Day) : String := String.ofList (d.name.toList.take 7)

/-- `CORE_SNAPSHOT_KEEP_WEEKLY`. -/
def keepWeekly : Nat := 8

/-- `CORE_SNAPSHOT_KEEP_MONTHLY`. -/
def keepMonthly : Nat := 12

/-- The first snapshot of a month. -/
def firstOfMonth (names : List Day) (month : String) : Option Day :=
  (names.filter (fun d => month.toList.isPrefixOf d.name.toList)).min?

/-- `select_snapshots_to_prune`. -/
def selectSnapshotsToPrune (snapshotNames : List Day) : List Day :=
  let names := snapshotNames.dedup.insertionSort (· ≤ ·)
  if names.length < keepWeekly then []
  else
    let weekly := names.drop (names.length - keepWeekly)
    let months := (((names.map Day.month).dedup).insertionSort (· ≥ ·)).take keepMonthly
    let keep := weekly ++ months.filterMap (firstOfMonth names)
    names.filter (fun d => decide (d ∉ keep))

/-! ## The core panels -/

structure CorePanelStat where
  relpath : String
  sha256 : String
  bytes : Int
  rows : Option Int
  maxDate : String
  deriving DecidableEq

/-- `PRICE_HISTORY_RELPATH`. -/
def priceHistoryRelpath : String := "data/history/price_history.parquet"

/-- `FIXED_CORE_REL_PATHS`. -/
def fixedCoreRelPaths : List String :=
  [priceHistoryRelpath, "data/history/archive.parquet", "data/parquet/topk_decisions.parquet",
    "data/parquet/rank_pool_predictions.parquet"]

/-- `PAPER_GLOB_DIR`. -/
def paperGlobDir : String := "data/paper"

/-- `BUNDLE_DIR`. -/
def bundleDir : String := "artifacts/models/topk_ranker"

/-- `CORE_BUNDLE_TRACKED_FILENAMES`. -/
def coreBundleTrackedFilenames : List String := ["sizing_pipeline_bundle.joblib", "retrain_registry.jsonl"]

/-- `relpath[len(dir) + 1:]`, if the path starts with the directory. -/
def below (dir relpath : String) : Option (List Char) :=
  if (dir ++ "/").toList.isPrefixOf relpath.toList then some (relpath.toList.drop (dir ++ "/").toList.length) else none

/-- `is_tracked_core_relpath`. -/
def isTrackedCoreRelpath (relpath : String) : Bool :=
  if relpath ∈ fixedCoreRelPaths then true
  else match below paperGlobDir relpath with
    | some rest => decide ('/' ∉ rest) && ".parquet".toList.isSuffixOf rest
    | none => match below bundleDir relpath with
      | some rest => decide ('/' ∉ rest) && decide (String.ofList rest ∈ coreBundleTrackedFilenames)
      | none => false

/-- `abs_path.suffix == ".parquet"`. -/
def isParquet (relpath : String) : Bool :=
  let name := (relpath.toList.reverse.takeWhile (· ≠ '/')).reverse
  ".parquet".toList.isSuffixOf name && decide (".parquet".toList.length < name.length)

/-- `_DATE_COLUMNS`. -/
def dateColumns : List String := ["date", "decision_date", "trading_date"]

/-! ## The guard -/

/-- The entry of a path in `{entry.relpath: entry for entry in stats}`. -/
def latest (stats : List CorePanelStat) (relpath : String) : Option CorePanelStat :=
  stats.reverse.find? (fun entry => decide (entry.relpath = relpath))

def toFloat (i : Int) : Except Exn Py.PyFloat :=
  if (Py.PyFloat.ofInt i).isFinite then .ok (.ofInt i) else .error .overflow

/-- `CORE_ROW_SHRINK_TOLERANCE`. -/
def coreRowShrinkTolerance : Py.PyFloat := .ofInt 0

def rowsShrank : Option Int → Option Int → Except Exn Bool
  | some rows, some oldRows => do
    let current ← toFloat rows
    let old ← toFloat oldRows
    pure (Py.PyFloat.lt current (Py.PyFloat.sub old coreRowShrinkTolerance))
  | _, _ => .ok false

def maxDateRegressed (entry old : CorePanelStat) : Bool :=
  decide (entry.maxDate ≠ "") && decide (old.maxDate ≠ "") && decide (entry.maxDate < old.maxDate)

def issue (relpath reason : String) : String := "core_panel:" ++ relpath ++ ":" ++ reason

/-- The issues of one file that is there. -/
def panelIssues (entry : CorePanelStat) (old : Option CorePanelStat) : Except Exn (List String) :=
  if entry.sha256 = "" then .ok [issue entry.relpath "unreadable"]
  else match old with
    | none => .ok []
    | some old => do
      let shrank ← rowsShrank entry.rows old.rows
      pure ((if shrank then [issue entry.relpath "rows_shrank"] else []) ++
        (if maxDateRegressed entry old then [issue entry.relpath "max_date_regressed"] else []))

/-- `validate_core_panels`. -/
def validateCorePanels (stats previous : List CorePanelStat) (acceptedMissing : List String) : Except Exn (List String) := do
  let prev := previous.filter (fun entry => isTrackedCoreRelpath entry.relpath)
  let gone := (prev.map (·.relpath)).dedup.filter (fun relpath =>
    decide (relpath ∉ stats.map (·.relpath)) && decide (relpath ∉ acceptedMissing))
  let found ← ((stats.map (·.relpath)).dedup.insertionSort (· ≤ ·)).mapM fun relpath =>
    match latest stats relpath with
    | none => .ok []
    | some entry => panelIssues entry (latest prev relpath)
  pure ((gone.map (issue · "missing") ++ found.flatten).insertionSort (· ≤ ·))

/-! ## The manifest -/

/-- What pandas, parquet, and hashing make of a file; `repr` is `str` of a list or a dictionary. -/
structure Reader (Payload : Type) where
  sha256 : Payload → String
  sha256_inj : Function.Injective sha256
  sha256_ne : ∀ b, sha256 b ≠ ""
  numRows : Payload → Option Nat
  /-- The greatest date of a column: none when it raises, and none within it of an empty column. -/
  maxDate : Payload → String → Option (Option String)
  repr : Py.Json → String

section manifest

variable (repr : Py.Json → String)

def str : Py.Json → String
  | .str s => s
  | .null => "None"
  | .bool true => "True"
  | .bool false => "False"
  | .int i => toString i
  | value => repr value

/-- `int(value)`, unless it raises. -/
def int : Py.Json → Option Int
  | .int i => some i
  | .bool b => some (if b then 1 else 0)
  | .str s => Py.intOfChars (Py.stripChars s.toList)
  | _ => none

def readEntry (item : Py.Json) : Option CorePanelStat :=
  match item with
  | .obj _ => do
    let relpath ← item.get? "relpath"
    let sha256 ← item.get? "sha256"
    let bytes ← (item.get? "bytes").bind int
    let rows ← match item.get? "rows" with
      | none | some .null => some none
      | some value => (int value).map some
    let maxDate := match item.get? "max_date" with
      | none => ""
      | some value => str repr value
    pure { relpath := str repr relpath, sha256 := str repr sha256, bytes, rows, maxDate }
  | _ => none

/-- The entries of a manifest; of a text that is none, there are none. -/
def entriesOf (text : List Char) : List CorePanelStat :=
  match Py.Json.loads text with
  | some (.arr items) => items.filterMap (readEntry repr)
  | _ => []

end manifest

def entryJson (entry : CorePanelStat) : Py.Json :=
  .obj [("bytes", .int entry.bytes), ("max_date", .str entry.maxDate), ("relpath", .str entry.relpath),
    ("rows", match entry.rows with
      | none => .null
      | some rows => .int rows),
    ("sha256", .str entry.sha256)]

/-- The text of `manifest.json`. -/
def manifestText (stats : List CorePanelStat) : List Char :=
  Py.Json.print (.arr ((stats.insertionSort (fun a b => a.relpath ≤ b.relpath)).map entryJson))

/-! ## The calls -/

variable {Cell Payload Digest : Type}

/-- A file of a snapshot: a core file, or a file of the form that is not of its base. -/
inductive SnapFile (Digest : Type) where
  | core (relpath : String)
  | form (p : RelPath Digest)
  deriving DecidableEq

/-- A dated directory, or what is staged for one.  Of the manifest of the form there is the text, as it is parsed, with the
frame it was made from. -/
structure Dir (Cell Payload Digest : Type) where
  files : SnapFile Digest → Option Payload
  form : Option (Option (OffsiteManifest Digest × Frame Cell))
  manifest : Option (List Char)

def Dir.empty : Dir Cell Payload Digest := ⟨fun _ => none, none, none⟩

def Dir.put [DecidableEq Digest] (d : Dir Cell Payload Digest) (p : SnapFile Digest) (b : Payload) : Dir Cell Payload Digest :=
  { d with files := fun q => if q = p then some b else d.files q }

/-- `subprocess.CompletedProcess`. -/
structure Completed (α : Type) where
  returncode : Int
  stdout : α
  stderr : String

inductive Op (Cell Payload Digest : Type) where
  /-- The regular files below a directory of the project. -/
  | rglob (dir : String)
  | isFile (relpath : String)
  /-- `st_size` and `sha256_file`. -/
  | digest (relpath : String)
  | numRows (relpath : String)
  | maxDate (relpath column : String)
  | readFormManifest
  /-- `is_file` and `st_size` of a file of the form. -/
  | formSize (p : RelPath Digest)
  | copyCore (entry : CorePanelStat)
  | copyForm (p : RelPath Digest)
  /-- Of `m`, the manifest that was read, nothing is used. -/
  | copyFormManifest (m : OffsiteManifest Digest)
  | lsfDirs
  | cat (day : Day)
  | lsfBlobs
  | lsfForm (day : Day)
  | catForm (day : Day)
  | copyBlobs (blobs : List (RelPath Digest × Payload))
  | copy (day : Day) (staging : Dir Cell Payload Digest)
  | purge (day : Day)
  | deleteBlobs (stale : List (RelPath Digest))

/-- The answers; `none` is a call that raises, and of a call of `rclone` one that times out.  A listing of the form says
whether the manifest is in it. -/
def Ret : Op Cell Payload Digest → Type
  | .rglob _ => List String
  | .isFile _ => Bool
  | .digest _ => Option (Nat × String)
  | .numRows _ => Option Nat
  | .maxDate _ _ => Option (Option String)
  | .readFormManifest => Option (Option (OffsiteManifest Digest))
  | .formSize _ => Option Nat
  | .copyCore _ | .copyForm _ => Option Payload
  | .copyFormManifest _ => Option (Option (OffsiteManifest Digest × Frame Cell))
  | .lsfDirs => Option (Completed (List String))
  | .cat _ => Option (Completed (List Char))
  | .lsfBlobs => Option (Completed (List (RelPath Digest)))
  | .lsfForm _ => Option (Completed Bool)
  | .catForm _ => Option (Completed (Option (OffsiteManifest Digest)))
  | .copyBlobs _ | .copy _ _ | .purge _ | .deleteBlobs _ => Option (Completed Unit)

abbrev Program (Cell Payload Digest α : Type) := Prog (Op Cell Payload Digest) Ret Exn α

/-- The answer of a call, or what it raises. -/
def orRaise {α : Type} (e : Exn) (call : Program Cell Payload Digest (Option α)) : Program Cell Payload Digest α := do
  match ← call with
  | none => .raise e
  | some a => pure a

def rglob (dir : String) : Program Cell Payload Digest (List String) := .perform (Op.rglob dir)

def isFile (relpath : String) : Program Cell Payload Digest Bool := .perform (Op.isFile relpath)

def digest (relpath : String) : Program Cell Payload Digest (Option (Nat × String)) := .perform (Op.digest relpath)

def numRows (relpath : String) : Program Cell Payload Digest (Option Nat) := .perform (Op.numRows relpath)

def maxDate (relpath column : String) : Program Cell Payload Digest (Option (Option String)) :=
  .perform (Op.maxDate relpath column)

def readFormManifest : Program Cell Payload Digest (Option (Option (OffsiteManifest Digest))) := .perform Op.readFormManifest

def formSize (p : RelPath Digest) : Program Cell Payload Digest (Option Nat) := .perform (Op.formSize p)

/-- `_rclone`. -/
def rclone {α : Type} (call : Program Cell Payload Digest (Option (Completed α))) :
    Program Cell Payload Digest (Completed α) := orRaise .timeout call

def stderrOf {α : Type} (c : Completed α) : String := Py.strip c.stderr

/-! ## What is there -/

def addPaths (paths found : List String) : List String :=
  found.foldl (fun paths child => if child ∈ paths then paths else paths ++ [child]) paths

/-- `core_panel_paths`; the patterns of both directories are those that are tracked. -/
def corePanelPaths : Program Cell Payload Digest (List String) := do
  let paper ← rglob paperGlobDir
  let paths := addPaths fixedCoreRelPaths ((paper.filter isTrackedCoreRelpath).insertionSort (· ≤ ·))
  let bundle ← rglob bundleDir
  pure (addPaths paths ((bundle.filter isTrackedCoreRelpath).insertionSort (· ≤ ·)))

/-- The loop over the date columns of `_stat_one`. -/
def maxDateOf (relpath : String) : List String → Program Cell Payload Digest String
  | [] => pure ""
  | column :: columns => do
    match ← maxDate relpath column with
    | none => maxDateOf relpath columns
    | some none => pure ""
    | some (some peak) => pure peak

/-- `_stat_one`. -/
def statOne (relpath : String) : Program Cell Payload Digest (Option CorePanelStat) := do
  if ← isFile relpath then
    match ← digest relpath with
    | none => pure (some { relpath, sha256 := "", bytes := 0, rows := none, maxDate := "" })
    | some (size, sha256) =>
      if isParquet relpath then
        match ← numRows relpath with
        | none => pure (some { relpath, sha256 := "", bytes := size, rows := none, maxDate := "" })
        | some rows =>
          let maxDate ← maxDateOf relpath dateColumns
          pure (some { relpath, sha256, bytes := size, rows := some rows, maxDate })
      else pure (some { relpath, sha256, bytes := size, rows := none, maxDate := "" })
  else pure none

def statAll : List String → Program Cell Payload Digest (List CorePanelStat)
  | [] => pure []
  | relpath :: relpaths => do
    let entry ← statOne relpath
    let entries ← statAll relpaths
    pure (match entry with
      | none => entries
      | some entry => entry :: entries)

/-- `collect_core_stats`. -/
def collectCoreStats : Program Cell Payload Digest (List CorePanelStat) := do
  statAll (← corePanelPaths)

/-- `line.strip().rstrip("/")`. -/
def lineName (line : String) : String := String.ofList ((Py.stripChars line.toList).rdropWhile (· = '/'))

/-- `"directory not found" in stderr.lower()`. -/
def saysNotFound (stderr : String) : Bool :=
  decide ("directory not found".toList <:+: stderr.toList.map Char.toLower)

/-- `_list_remote_snapshot_dirs`. -/
def listRemoteSnapshotDirs : Program Cell Payload Digest (List Day) := do
  let listing ← rclone (.perform Op.lsfDirs)
  if listing.returncode ≠ 0 then
    if saysNotFound listing.stderr ∨ listing.returncode = 3 then pure [] else .raise (.calledProcess listing.returncode)
  else pure (((listing.stdout.map lineName).filterMap Day.ofName).insertionSort (· ≤ ·))

/-- `_read_remote_manifest`. -/
def readRemoteManifest (repr : Py.Json → String) (snapshot : Day) : Program Cell Payload Digest (List CorePanelStat) := do
  let result ← rclone (.perform (Op.cat snapshot))
  pure (if result.returncode ≠ 0 then [] else entriesOf repr result.stdout)

/-- What a run compares with: the manifest of the dated directory that sorts last. -/
def readPrevious (repr : Py.Json → String) (names : List Day) : Program Cell Payload Digest (List CorePanelStat) :=
  match names.getLast? with
  | none => pure []
  | some newest => readRemoteManifest repr newest

/-- `_list_remote_files`, of the answer. -/
def listed {α : Type} (missing : α) (listing : Completed α) : Option α :=
  if listing.returncode = 3 then some missing else if listing.returncode ≠ 0 then none else some listing.stdout

/-- The loop of `usable_price_history_form`. -/
def formIsThere : List (OffsiteFile Digest) → Program Cell Payload Digest Bool
  | [] => pure true
  | entry :: entries => do
    if (← formSize entry.relpath) = some entry.bytes then formIsThere entries else pure false

/-- `usable_price_history_form`, whose files the caller takes. -/
def usablePriceHistoryForm (stat : CorePanelStat) : Program Cell Payload Digest (Option (OffsiteManifest Digest)) := do
  match ← readFormManifest with
  | none => pure none
  | some text =>
    match PriceForm.parseManifest text with
    | .error _ => pure none
    | .ok m =>
      if m.sourceSha256 ≠ stat.sha256 then pure none
      else if ← formIsThere m.files then pure (some m) else pure none

/-! ## The stage -/

section programs

variable [DecidableEq Digest]

/-- The core files, but for the monolith when its form is taken. -/
def stageCore (formTaken : Bool) : List CorePanelStat → Dir Cell Payload Digest →
    Program Cell Payload Digest (Dir Cell Payload Digest)
  | [], staging => pure staging
  | entry :: stats, staging => do
    if formTaken && decide (entry.relpath = priceHistoryRelpath) then stageCore formTaken stats staging
    else do
      let b ← orRaise .os (.perform (Op.copyCore entry))
      stageCore formTaken stats (staging.put (.core entry.relpath) b)

/-- The files of the form: those of the base that are missing on the remote, and the others. -/
def stageForm (missing : List (OffsiteFile Digest)) : List (OffsiteFile Digest) → Dir Cell Payload Digest →
    List (RelPath Digest × Payload) → Program Cell Payload Digest (Dir Cell Payload Digest × List (RelPath Digest × Payload))
  | [], staging, blobStage => pure (staging, blobStage)
  | item :: items, staging, blobStage => do
    if item.kind ≠ .base ∨ item ∈ missing then
      let b ← orRaise .os (.perform (Op.copyForm item.relpath))
      if item.kind = .base then stageForm missing items staging (blobStage ++ [(item.relpath, b)])
      else stageForm missing items (staging.put (.form item.relpath) b) blobStage
    else stageForm missing items staging blobStage

local instance lawfulRelPath : LawfulBEq (RelPath Digest) := inferInstance

/-- The form is staged and its base is uploaded; the base files there are then. -/
def carryForm (m : OffsiteManifest Digest) (blobs : List (RelPath Digest)) (staging : Dir Cell Payload Digest) :
    Program Cell Payload Digest (Dir Cell Payload Digest × List (RelPath Digest)) := do
  let missing := m.files.filter (fun f => decide (f.kind = .base ∧ f.relpath ∉ blobs))
  let staged ← stageForm missing m.files staging []
  let text ← orRaise .os (.perform (Op.copyFormManifest m))
  let staging := { staged.1 with form := some text }
  if missing = [] then pure (staging, blobs)
  else do
    -- base files land before the snapshot that references them
    let sent ← rclone (.perform (Op.copyBlobs staged.2))
    if sent.returncode ≠ 0 then .raise (.runtime ("core snapshot blob upload failed: " ++ stderrOf sent))
    else pure (staging, blobs ++ missing.map (·.relpath))

/-! ## Retention -/

/-- `CORE_SNAPSHOT_REMOTE_ROOT`. -/
def coreSnapshotRemoteRoot : String := "gdrive:quant-lake/live/k-closing-alpha/snapshots"

def target (day : Day) : String := coreSnapshotRemoteRoot ++ "/" ++ day.name

def purgeAll : List Day → Program Cell Payload Digest Unit
  | [] => pure ()
  | name :: names => do
    let purged ← rclone (.perform (Op.purge name))
    if purged.returncode ≠ 0 then .raise (.runtime ("core snapshot prune failed: " ++ target name)) else purgeAll names

/-- The loop of `_gc_price_history_blobs`; none when the sweep is given up. -/
def referencedBlobs : List Day → Program Cell Payload Digest (Option (List (RelPath Digest)))
  | [] => pure (some [])
  | name :: names => do
    let listing ← rclone (.perform (Op.lsfForm name))
    match listed false listing with
    | none => pure none
    | some false => referencedBlobs names
    | some true => do
      let shown ← rclone (.perform (Op.catForm name))
      if shown.returncode ≠ 0 then pure none
      else match PriceForm.parseManifest shown.stdout with
        | .error _ => pure none
        | .ok m => do
          match ← referencedBlobs names with
          | none => pure none
          | some referenced => pure (some (m.base.map (·.relpath) ++ referenced))

/-- `_gc_price_history_blobs`. -/
def gcPriceHistoryBlobs (keptSnapshots : List Day) (blobs : List (RelPath Digest)) : Program Cell Payload Digest Nat := do
  match ← referencedBlobs keptSnapshots with
  | none => pure 0
  | some referenced =>
    let stale := blobs.dedup.filter (fun p => decide (p ∉ referenced))
    if stale = [] then pure 0
    else do
      let deleted ← rclone (.perform (Op.deleteBlobs stale))
      if deleted.returncode ≠ 0 then .raise (.runtime ("core snapshot blob gc failed: " ++ stderrOf deleted))
      else pure stale.length

/-! ## The run -/

/-- The form that is taken, with the base files that are on the remote. -/
def chooseForm (stats : List CorePanelStat) :
    Program Cell Payload Digest (Option (OffsiteManifest Digest × List (RelPath Digest))) := do
  match stats.find? (fun entry => decide (entry.relpath = priceHistoryRelpath)) with
  | none => pure none
  | some stat =>
    match ← usablePriceHistoryForm stat with
    | none => pure none
    | some m => do
      match listed [] (← rclone (.perform Op.lsfBlobs)) with
      | none => .raise (.runtime "core snapshot blob listing failed")
      | some blobs => pure (some (m, blobs))

/-- The stage of a run, and the base files that are on the remote when the form is taken. -/
def stage (stats : List CorePanelStat) (taken : Option (OffsiteManifest Digest × List (RelPath Digest))) :
    Program Cell Payload Digest (Dir Cell Payload Digest × Option (List (RelPath Digest))) := do
  let staging ← stageCore taken.isSome stats .empty
  match taken with
  | none => pure ({ staging with manifest := some (manifestText stats) }, none)
  | some (m, blobs) => do
    let carried ← carryForm m blobs staging
    pure ({ carried.1 with manifest := some (manifestText stats) }, some carried.2)

/-- What a run uploads: the dated directories it has listed, the stage, and the base files when the form is taken. -/
structure Upload (Cell Payload Digest : Type) where
  names : List Day
  staging : Dir Cell Payload Digest
  blobs : Option (List (RelPath Digest))

/-- `run_core_snapshot` before its upload. -/
def prepare (repr : Py.Json → String) (acceptedMissing : List String) :
    Program Cell Payload Digest (Upload Cell Payload Digest) := do
  let stats ← collectCoreStats
  let names ← listRemoteSnapshotDirs
  let previous ← readPrevious repr names
  let issues ← .ofExcept (validateCorePanels stats previous acceptedMissing)
  if issues ≠ [] then .raise (.runtime ("core snapshot validation failed: " ++ String.intercalate "; " issues))
  else do
    let taken ← chooseForm stats
    let staged ← stage stats taken
    pure { names, staging := staged.1, blobs := staged.2 }

/-- `run_core_snapshot` after its upload: what was pruned. -/
def retain (day : Day) (up : Upload Cell Payload Digest) : Program Cell Payload Digest (List String) := do
  let allNames := ((up.names ++ [day]).dedup).insertionSort (· ≤ ·)
  let pruned := selectSnapshotsToPrune allNames
  purgeAll pruned
  match up.blobs with
  | none => pure (pruned.map target)
  | some blobs => do
    let _ ← gcPriceHistoryBlobs (allNames.filter (fun d => decide (d ∉ pruned))) blobs
    pure (pruned.map target)

/-- `run_core_snapshot`. -/
def runCoreSnapshot (repr : Py.Json → String) (day : Day) (acceptedMissing : List String) :
    Program Cell Payload Digest (List String) := do
  let up ← prepare repr acceptedMissing
  let uploaded ← rclone (.perform (Op.copy day up.staging))
  if uploaded.returncode ≠ 0 then .raise (.runtime ("core snapshot upload failed: " ++ stderrOf uploaded))
  else retain day up

end programs

end CoreSnapshot
