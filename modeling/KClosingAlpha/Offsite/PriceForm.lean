import KClosingAlpha.Lib.Delta
import KClosingAlpha.Lib.Prog
/-!
# PriceForm — the base and patch form of the price history (`price_history_offsite`)

The monolith is kept off site as month files of a base, a patch of the rows that changed since, and the keys deleted
since, listed in a manifest.  File names hold the digest of their content.  Frames, parquet files and hashes are those
of the libraries; hashes and digests are taken to be free of collisions.
-/
namespace PriceForm

inductive Exn where
  | os
  | value (message : String)
  | key
  | stopIteration
  | assertion
  deriving DecidableEq

/-- `except (OSError, ValueError)`. -/
def Exn.isCaught : Exn → Bool
  | os | value _ => true
  | key | stopIteration | assertion => false

/-- A table: its columns, and its rows in their order. -/
structure Frame (Cell : Type) where
  columns : List String
  rows : List (List Cell)
  deriving DecidableEq

/-- What the libraries do with cells, frames and files. -/
structure Pandas (Cell Payload Digest : Type) where
  nan : Cell
  /-- `_parquet_bytes`, whose category columns are plain ones. -/
  write : Frame Cell → Payload
  read : Payload → Option (Frame Cell)
  read_write : ∀ f, read (write f) = some f
  size : Payload → Nat
  md5 : Payload → Digest
  md5_inj : Function.Injective md5
  /-- `hash_pandas_object`, row by row. -/
  hash : List Cell → Nat
  hash_inj : Function.Injective hash
  /-- The year and month of a date, unless it is null. -/
  month : Cell → Option Nat
  /-- `round().astype("Int32")`, or the overflow. -/
  int32 : Cell → Option Cell
  int32_idem : ∀ c d, int32 c = some d → int32 d = some d
  /-- `to_numeric(…).astype("float32")`. -/
  float32 : Cell → Cell
  float32_idem : ∀ c, float32 (float32 c) = float32 c
  /-- `to_numeric(…).astype("int64")`, or the overflow. -/
  int64 : Cell → Option Cell
  int64_idem : ∀ c d, int64 c = some d → int64 d = some d
  /-- The order of `sort_values`. -/
  le : Cell → Cell → Bool

variable {Cell Payload Digest : Type} [DecidableEq Cell] [DecidableEq Digest]

/-! ## Frames -/

/-- `KEY_COLUMNS`. -/
def keyColumns : List String := ["symbol", "date"]

def cell (columns : List String) (name : String) (r : List Cell) : Option Cell := (columns.zip r).lookup name

/-- `PRICE_HISTORY_NULLABLE_INT32_COLUMNS`. -/
def int32Columns : List String := ["open", "high", "low", "close", "prev_close"]

/-- `PRICE_HISTORY_FLOAT32_COLUMNS`. -/
def float32Columns : List String :=
  ["market_cap_100m", "trade_value_100m", "foreign_netbuy", "inst_netbuy", "program_netbuy", "v_kospi", "v_kosdaq"]

section frames

variable (pd : Pandas Cell Payload Digest)

/-- The key of a row. -/
def keyOf (columns : List String) (r : List Cell) : List Cell :=
  keyColumns.map (fun name => (cell columns name r).getD pd.nan)

/-- `frame[list(KEY_COLUMNS)]`. -/
def keyFrame (f : Frame Cell) : Except Exn (Frame Cell) :=
  if ∀ name ∈ keyColumns, name ∈ f.columns then .ok ⟨keyColumns, f.rows.map (keyOf pd f.columns)⟩ else .error .key

/-- `pd.concat`: frames with the same columns are appended, others are laid out over all their columns. -/
def concat : List (Frame Cell) → Frame Cell
  | [] => ⟨[], []⟩
  | f :: fs =>
    if ∀ g ∈ fs, g.columns = f.columns then ⟨f.columns, (f :: fs).flatMap (·.rows)⟩
    else
      let columns := ((f :: fs).flatMap (·.columns)).eraseDups
      ⟨columns, (f :: fs).flatMap fun g => g.rows.map fun r => columns.map fun name => (cell g.columns name r).getD pd.nan⟩

def castCell (name : String) (c : Cell) : Option Cell :=
  if name ∈ int32Columns then pd.int32 c
  else if name ∈ float32Columns then some (pd.float32 c)
  else if name = "volume" then pd.int64 c
  else some c

def castRow : List String → List Cell → Option (List Cell)
  | name :: names, c :: r => do
    let d ← castCell pd name c
    let r' ← castRow names r
    some (d :: r')
  | _, _ => some []

/-- The order of the sort keys that a frame has. -/
def rowLe (columns : List String) (r s : List Cell) : Bool :=
  let keys (r : List Cell) := (keyColumns.filter (fun name => decide (name ∈ columns))).filterMap (fun name => cell columns name r)
  let rec le : List Cell → List Cell → Bool
    | c :: cs, d :: ds => if pd.le c d && pd.le d c then le cs ds else pd.le c d
    | _, _ => true
  le (keys r) (keys s)

/-- `downcast_price_history_frame`. -/
def downcastPriceHistoryFrame (f : Frame Cell) : Except Exn (Frame Cell) :=
  match f.rows.mapM (castRow pd f.columns) with
  | none => .error (.value "overflow")
  | some rows => .ok ⟨f.columns, rows.insertionSort (fun r s => rowLe pd f.columns r s = true)⟩

/-- A frame that `write_price_history_parquet` has written. -/
def Monolith (f : Frame Cell) : Prop := ∃ g, downcastPriceHistoryFrame pd g = .ok f

/-- `_hashes`, of the keys and of the rows. -/
def hashes (f : Frame Cell) : Except Exn (List Nat × List Nat) := do
  let keys ← keyFrame pd f
  pure (keys.rows.map pd.hash, f.rows.map pd.hash)

end frames

/-! ## Files -/

inductive Kind where
  | base
  | patch
  | deletes
  deriving DecidableEq

/-- Where a file is kept: the month of the base, or its kind. -/
inductive Stem where
  | base (month : Nat)
  | patch
  | deletes
  deriving DecidableEq

/-- A path of the form, named after the digest of its content. -/
structure RelPath (Digest : Type) where
  stem : Stem
  digest : Digest
  deriving DecidableEq

structure OffsiteFile (Digest : Type) where
  relpath : RelPath Digest
  kind : Kind
  md5 : Digest
  bytes : Nat
  rows : Nat
  deriving DecidableEq

structure OffsiteManifest (Digest : Type) where
  sourceSha256 : String
  rows : Nat
  columns : List String
  files : List (OffsiteFile Digest)

structure ExportReport (Digest : Type) where
  files : Nat
  written : List (RelPath Digest)
  removed : List (RelPath Digest)
  rebased : Bool
  patchRows : Nat
  deleteRows : Nat
  rows : Nat
  sourceSha256 : String

inductive Op (Cell Payload Digest : Type) where
  | readBytes (p : RelPath Digest)
  | isFile (p : RelPath Digest)
  | writeBytes (p : RelPath Digest) (b : Payload)
  /-- The text of the manifest, parsed; `none` within it is a text that is no manifest. -/
  | readManifest
  /-- The manifest is replaced.  Of `current`, from which it was made, nothing is written. -/
  | writeManifest (m : OffsiteManifest Digest) (current : Frame Cell)
  | list
  | unlink (p : RelPath Digest)
  | rmdirs

def Ret (Cell : Type) {Payload Digest : Type} : Op Cell Payload Digest → Type
  | .readBytes _ => Option Payload
  | .isFile _ | .writeBytes _ _ | .writeManifest _ _ | .unlink _ | .rmdirs => Bool
  | .readManifest => Option (Option (OffsiteManifest Digest))
  | .list => Option (List (RelPath Digest))

abbrev Program (Cell Payload Digest : Type) (α : Type) := Prog (Op Cell Payload Digest) (Ret Cell) Exn α

section programs

variable {α : Type}

def readBytes (p : RelPath Digest) : Program Cell Payload Digest (Option Payload) := .perform (Op.readBytes p)

def isFile (p : RelPath Digest) : Program Cell Payload Digest Bool := .perform (Op.isFile p)

/-- The files of the form that are there. -/
def list : Program Cell Payload Digest (List (RelPath Digest)) := do
  match ← (.perform Op.list : Program Cell Payload Digest _) with
  | none => .raise .os
  | some ps => pure ps

/-- A call that answers whether it succeeded; `OSError` when it did not. -/
def orRaise (call : Program Cell Payload Digest Bool) : Program Cell Payload Digest Unit := do
  if ← call then pure () else .raise .os

def writeBytes (p : RelPath Digest) (b : Payload) : Program Cell Payload Digest Unit :=
  orRaise (.perform (Op.writeBytes p b))

def writeManifest (m : OffsiteManifest Digest) (current : Frame Cell) : Program Cell Payload Digest Unit :=
  orRaise (.perform (Op.writeManifest m current))

def unlink (p : RelPath Digest) : Program Cell Payload Digest Unit := orRaise (.perform (Op.unlink p))

def rmdirs : Program Cell Payload Digest Unit := orRaise (.perform Op.rmdirs)

/-- `parse_manifest`, after its text has been read. -/
def parseManifest : Option (OffsiteManifest Digest) → Except Exn (OffsiteManifest Digest)
  | none => .error (.value "malformed manifest")
  | some m =>
    if m.files.countP (fun f => decide (f.kind ≠ .base)) = 2 then .ok m
    else .error (.value "price_history offsite manifest must list base files plus one patch and one deletes file")

/-- `read_manifest`. -/
def readManifest : Program Cell Payload Digest (OffsiteManifest Digest) := do
  match ← (.perform Op.readManifest : Program Cell Payload Digest _) with
  | none => .raise .os
  | some text => .ofExcept (parseManifest text)

def OffsiteManifest.base (m : OffsiteManifest Digest) : List (OffsiteFile Digest) :=
  m.files.filter (fun f => decide (f.kind = .base))

variable (pd : Pandas Cell Payload Digest)

/-- `_load`. -/
def load (entry : OffsiteFile Digest) : Program Cell Payload Digest (Frame Cell) := do
  match ← readBytes entry.relpath with
  | none => .raise .os
  | some payload =>
    if pd.md5 payload ≠ entry.md5 then .raise (.value "md5 mismatch")
    else match pd.read payload with
      | none => .raise (.value "not a parquet file")
      | some frame =>
        if frame.rows.length ≠ entry.rows then .raise (.value "row count mismatch") else pure frame

def loadAll : List (OffsiteFile Digest) → Program Cell Payload Digest (List (Frame Cell))
  | [] => pure []
  | entry :: entries => do
    let part ← load pd entry
    let parts ← loadAll entries
    pure (part :: parts)

/-- `next(_load(out_dir, f) for f in files if f.kind == kind)`. -/
def loadNext (kind : Kind) (m : OffsiteManifest Digest) : Program Cell Payload Digest (Frame Cell) :=
  match m.files.find? (fun f => decide (f.kind = kind)) with
  | none => .raise .stopIteration
  | some entry => load pd entry

/-- What `rebuild_frame` makes of the frames it has loaded. -/
def assemble (m : OffsiteManifest Digest) (parts : List (Frame Cell)) (patch deletes : Frame Cell) :
    Except Exn (Frame Cell) := do
  let base := if parts = [] then ⟨patch.columns, []⟩ else concat pd parts
  let patchKeys ← keyFrame pd patch
  let deleteKeys ← keyFrame pd deletes
  let _ ← keyFrame pd base
  let kept := base.rows.filter (fun r => decide (keyOf pd base.columns r ∉ patchKeys.rows ++ deleteKeys.rows))
  let frame := concat pd [⟨base.columns, kept⟩, patch]
  if frame.columns ≠ m.columns ∨ frame.rows.length ≠ m.rows then
    .error (.value "rebuilt frame does not match the manifest columns/rows")
  else downcastPriceHistoryFrame pd frame

/-- `rebuild_frame`. -/
def rebuildFrame : Program Cell Payload Digest (Frame Cell) := do
  let m ← readManifest
  let parts ← loadAll pd m.base
  let patch ← loadNext pd .patch m
  let deletes ← loadNext pd .deletes m
  .ofExcept (assemble pd m parts patch deletes)

/-! ## The export -/

/-- `_entry`. -/
def entryOf (stem : Stem) (kind : Kind) (frame : Frame Cell) : OffsiteFile Digest × Payload :=
  let payload := pd.write frame
  let digest := pd.md5 payload
  ({ relpath := ⟨stem, digest⟩, kind, md5 := digest, bytes := pd.size payload, rows := frame.rows.length }, payload)

/-- The month of a row. -/
def monthOf (columns : List String) (r : List Cell) : Option Nat := (cell columns "date" r).bind pd.month

/-- `base_files`. -/
def baseFiles (frame : Frame Cell) : Except Exn (List (OffsiteFile Digest × Payload)) :=
  if "date" ∉ frame.columns then .error (.value "price_history frame has no date column")
  else if frame.rows.any (fun r => (monthOf pd frame.columns r).isNone) then
    .error (.value "price_history frame has null dates")
  else
    let months := (frame.rows.filterMap (monthOf pd frame.columns)).dedup.insertionSort (· ≤ ·)
    .ok (months.map fun month => entryOf pd (.base month) .base
      ⟨frame.columns, frame.rows.filter (fun r => decide (monthOf pd frame.columns r = some month))⟩)

/-- `_publish`: whether the file had to be written. -/
def publish (file : OffsiteFile Digest × Payload) : Program Cell Payload Digest Bool := do
  if ← isFile file.1.relpath then
    match ← readBytes file.1.relpath with
    | none => .raise .os
    | some payload =>
      if pd.size payload = file.1.bytes ∧ pd.md5 payload = file.1.md5 then pure false
      else do
        writeBytes file.1.relpath file.2
        pure true
  else do
    writeBytes file.1.relpath file.2
    pure true

/-- The paths that had to be written. -/
def publishAll : List (OffsiteFile Digest × Payload) → Program Cell Payload Digest (List (RelPath Digest))
  | [] => pure []
  | file :: files => do
    let wrote ← publish pd file
    let written ← publishAll files
    pure (if wrote then file.1.relpath :: written else written)

/-- `_usable_base`. -/
def usableBase (columns : List String) : Program Cell Payload Digest (Option (List (OffsiteFile Digest))) := do
  match ← (readManifest : Program Cell Payload Digest _).attempt with
  | .ok m => pure (if m.columns = columns then some m.base else none)
  | .error e => if e.isCaught then pure none else .raise e

/-- Where the keys of the base stand in the current frame, for the rows that are the same there. -/
def samePositions (curKeys curRows : List Nat) (part : List Nat × List Nat) : List Nat :=
  (part.1.zip part.2).filterMap fun row =>
    (curKeys.idxOf? row.1).filter (fun pos => decide (curRows[pos]? = some row.2))

/-- The loop of `_diff`: which current rows are still marked as changed, and the keys that are gone. -/
def diffLoop (curKeys curRows : List Nat) :
    List (OffsiteFile Digest) → List Bool → List (Frame Cell) → Program Cell Payload Digest (List Bool × List (Frame Cell))
  | [], changed, gone => pure (changed, gone)
  | entry :: base, changed, gone => do
    let part ← load pd entry
    let hs ← .ofExcept (hashes pd part)
    let same := samePositions curKeys curRows hs
    let missing := part.rows.filter (fun r => decide (pd.hash (keyOf pd part.columns r) ∉ curKeys))
    let keys ← .ofExcept (keyFrame pd ⟨part.columns, missing⟩)
    diffLoop curKeys curRows base (changed.zipIdx.map (fun mark => mark.1 && decide (mark.2 ∉ same))) (gone ++ [keys])

/-- `_diff`. -/
def diff (current : Frame Cell) (curKeys curRows : List Nat) (base : List (OffsiteFile Digest)) :
    Program Cell Payload Digest (Frame Cell × Frame Cell) := do
  let out ← diffLoop pd curKeys curRows base (current.rows.map (fun _ => true)) []
  let deletes := if out.2 = [] then ⟨keyColumns, []⟩ else concat pd out.2
  pure (⟨current.columns, ((current.rows.zip out.1).filter (·.2)).map Prod.fst⟩, deletes)

/-- The row hashes of the base that are kept. -/
def keptHashes (dropped : List Nat) : List (OffsiteFile Digest) → Program Cell Payload Digest (List Nat)
  | [] => pure []
  | entry :: base => do
    let part ← load pd entry
    let hs ← .ofExcept (hashes pd part)
    let rest ← keptHashes dropped base
    pure (((hs.1.zip hs.2).filter (fun row => decide (row.1 ∉ dropped))).map Prod.snd ++ rest)

/-- `_rebuilds_rows`. -/
def rebuildsRows (curRows : List Nat) : Program Cell Payload Digest Bool := do
  let m ← readManifest
  let patch ← loadNext pd .patch m
  let deletes ← loadNext pd .deletes m
  let patchHashes ← .ofExcept (hashes pd patch)
  let deleteHashes ← .ofExcept (hashes pd deletes)
  let kept ← keptHashes pd (patchHashes.1 ++ deleteHashes.1) m.base
  pure (decide ((patchHashes.2 ++ kept).insertionSort (· ≤ ·) = curRows.insertionSort (· ≤ ·)))

/-- The loop of `_remove_unlisted`. -/
def unlinkUnlisted (listed : List (RelPath Digest)) : List (RelPath Digest) → Program Cell Payload Digest (List (RelPath Digest))
  | [] => pure []
  | p :: ps => do
    if p ∈ listed then unlinkUnlisted listed ps
    else do
      unlink p
      let removed ← unlinkUnlisted listed ps
      pure (p :: removed)

/-- `_remove_unlisted`. -/
def removeUnlisted (listed : List (RelPath Digest)) : Program Cell Payload Digest (List (RelPath Digest)) := do
  let paths ← list
  let removed ← unlinkUnlisted listed paths
  rmdirs
  pure removed

/-- What an export is given: the monolith, its checksum, and when a patch is too large for it. -/
structure Source (Cell : Type) where
  sha256 : String
  current : Frame Cell
  /-- `n > rebase_ratio * max(rows, 1)`, of floats. -/
  exceeds : Nat → Nat → Bool

variable (src : Source Cell) (curKeys curRows : List Nat)

/-- The base that a round keeps, with its patch and deletes; none when it builds a new base. -/
def planRound (base : Option (List (OffsiteFile Digest))) :
    Program Cell Payload Digest (Option (List (OffsiteFile Digest) × Frame Cell × Frame Cell)) :=
  match base with
  | none => pure none
  | some base => do
    match ← (diff pd src.current curKeys curRows base).attempt with
    | .ok out =>
      pure (if src.exceeds (out.1.rows.length + out.2.rows.length) src.current.rows.length then none
        else some (base, out.1, out.2))
    | .error e => if e.isCaught then pure none else .raise e

/-- The rest of a round: the files, the manifest, and the check that they rebuild the rows. -/
def publishRound (rebased : Bool) (base : List (OffsiteFile Digest)) (patch deletes : Frame Cell) (written : List (RelPath Digest)) :
    Program Cell Payload Digest (List (RelPath Digest) ⊕ ExportReport Digest) := do
  let extra := [entryOf pd .patch .patch patch, entryOf pd .deletes .deletes deletes]
  let wrote ← publishAll pd extra
  let written := written ++ wrote
  let listed := base ++ extra.map Prod.fst
  writeManifest {
    sourceSha256 := src.sha256, rows := src.current.rows.length, columns := src.current.columns, files := listed }
    src.current
  if ← rebuildsRows pd curRows then
    let removed ← removeUnlisted (listed.map (·.relpath))
    pure (.inr {
      files := listed.length, written := written.dedup, removed, rebased, patchRows := patch.rows.length
      deleteRows := deletes.rows.length, rows := src.current.rows.length, sourceSha256 := src.sha256 })
  else if rebased then .raise (.value "price_history offsite form does not rebuild the monolith rows")
  else pure (.inl written)

/-- One round of the loop of `export_offsite_form`: a report, or what it has written. -/
def exportRound (base : Option (List (OffsiteFile Digest))) (written : List (RelPath Digest)) :
    Program Cell Payload Digest (List (RelPath Digest) ⊕ ExportReport Digest) := do
  match ← planRound pd src curKeys curRows base with
  | some (base, patch, deletes) => publishRound pd src curRows false base patch deletes written
  | none => do
    let built ← .ofExcept (baseFiles pd src.current)
    let wrote ← publishAll pd built
    publishRound pd src curRows true (built.map Prod.fst) ⟨src.current.columns, []⟩ ⟨keyColumns, []⟩ (written ++ wrote)

/-- `export_offsite_form`: a round with the base there is, and one that forces a new base. -/
def exportOffsiteForm (src : Source Cell) : Program Cell Payload Digest (ExportReport Digest) := do
  let hs ← .ofExcept (hashes pd src.current)
  let base ← if hs.1.Nodup then usableBase src.current.columns else pure none
  match ← exportRound pd src hs.1 hs.2 base [] with
  | .inr report => pure report
  | .inl written =>
    match ← exportRound pd src hs.1 hs.2 none written with
    | .inr report => pure report
    | .inl _ => .raise .assertion

end programs

end PriceForm
