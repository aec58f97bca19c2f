import KClosingAlpha.Lib.KeepLast
import KClosingAlpha.Lib.ZeroFill
import KClosingAlpha.Py.Value
import Mathlib.Data.List.Sort
import Mathlib.Data.String.Basic
/-!
# Archive — the snapshots of the candidates (`daily/archive.py`, `data/parquet_loader.py`)

One file holds every capture of every date.  A capture replaces the rows of its own date and time; on every write the
types of the columns are found anew from their contents, and a stock code is filled with zeros when it is read.  Columns
that are not archived, the lock and the log lines are left out.
-/
namespace Archive

open KeepLast (keepLast)

/-- The archived columns beside the date, the code and the capture's time. -/
inductive Col where
  | name | market | open_ | high | low | close | prevClose | volume | tradeValue | marketCap | institutionNet | foreignNet
  | rate | kospi | kosdaq | vKospi | marketBreadth | admitted | flowFailed | indexFailed | breadthFailed | quoteFailed
  | priceAnomaly | decisionClose | closeConfirmed
  | featureAvailable | decisionTimestamp | executionTimestamp
  | synthetic | theme
deriving DecidableEq

/-- A cell; a flag is the number that the file gives back for it. -/
inductive Cell (F : Type) where
  | missing
  | int (i : Int)
  | float (f : F)
  | text (s : String)
  | time (t : Int)
deriving DecidableEq

/-- What is used of pandas: `to_numeric` of a text, the texts of numbers and times, `to_datetime` in the market's zone, and
15:30 of a date. -/
structure Pandas (F : Type) where
  toNumeric : String → Option (Int ⊕ F)
  ofInt : Int → F
  strFloat : F → String
  strTime : Int → String
  toDatetime : Cell F → Option Int
  kstTimestamp : String → Int

structure Row (F : Type) where
  date : String
  stamp : Option Int
  code : Cell F
  values : Col → Cell F

/-- The file: whether it has the column of the capture's time, and its rows. -/
structure File (F : Type) where
  stamped : Bool
  rows : List (Row F)

section

variable {F : Type} [DecidableEq F] (pd : Pandas F)

/-! ## Types of the columns -/

namespace Cell

def isText : Cell F → Bool
  | text _ => true
  | _ => false

/-- Missing, or white space. -/
def isBlank : Cell F → Bool
  | missing => true
  | text s => Py.isBlank s
  | _ => false

/-- `pd.to_numeric(…, errors="coerce")` of a cell. -/
def number : Cell F → Option (Int ⊕ F)
  | int i => some (.inl i)
  | float f => some (.inr f)
  | text s => pd.toNumeric s
  | _ => none

/-- `str(cell)`. -/
def str : Cell F → String
  | missing => "None"
  | int i => toString i
  | float f => pd.strFloat f
  | text s => s
  | time t => pd.strTime t

/-- The cell as a number. -/
def asNumber (ints : Bool) (x : Cell F) : Cell F :=
  match x.number pd with
  | none => missing
  | some (.inl i) => if ints then int i else float (pd.ofInt i)
  | some (.inr f) => float f

/-- The cell as a text; three texts stand for what is missing. -/
def asText (x : Cell F) : Cell F := if x.str pd ∈ ["nan", "None", "<NA>"] then missing else text (x.str pd)

end Cell

/-- A column of objects, that is, one with texts. -/
def isObject (col : List (Cell F)) : Bool := col.any Cell.isText

/-- Every entry parses as a number. -/
def isNumeric (col : List (Cell F)) : Bool :=
  decide (0 < col.countP (fun x => !x.isBlank)) &&
    decide (col.countP (fun x => !x.isBlank) = col.countP (fun x => (x.number pd).isSome))

/-- Every entry is an integer. -/
def isIntegral (col : List (Cell F)) : Bool := col.all (fun x => (x.number pd).any Sum.isLeft)

/-- What becomes of a cell of a column. -/
def cleanCell (col : List (Cell F)) (x : Cell F) : Cell F :=
  if isObject col then
    if isNumeric pd col then x.asNumber pd (isIntegral pd col) else x.asText pd
  else x

def codeColumn (rows : List (Row F)) : List (Cell F) := rows.map Row.code

def column (c : Col) (rows : List (Row F)) : List (Cell F) := rows.map (fun r => r.values c)

/-- `_clean_df_for_parquet`; dates are no numbers. -/
def cleanDfForParquet (rows : List (Row F)) : List (Row F) :=
  rows.map (fun r =>
    { r with
      code := cleanCell pd (codeColumn rows) r.code
      values := fun c => cleanCell pd (column c rows) (r.values c) })

/-! ## Writing -/

/-- The rows of a file that a write leaves: by capture where the file has the time, else by date. -/
def keptRows (A : File F) (rows : List (Row F)) : List (Row F) :=
  A.rows.filter (fun r =>
    if A.stamped then decide ((r.date, r.stamp) ∉ rows.map (fun q => (q.date, q.stamp)))
    else decide (r.date ∉ rows.map Row.date))

def Row.identity (r : Row F) : String × Option Int × Cell F := (r.date, r.stamp, r.code)

/-- The rows of a file and those that are put there. -/
def combined (A : File F) (rows : List (Row F)) : List (Row F) := keepLast Row.identity (keptRows A rows ++ rows)

def upsertConditionParquet (A : File F) (rows : List (Row F)) : File F :=
  if rows.isEmpty then A else ⟨true, cleanDfForParquet pd (combined A rows)⟩

/-- `astype(str).str.zfill(6)`. -/
def readCode (x : Cell F) : String := String.ofList (ZeroFill.zfill 6 (x.str pd).toList)

/-- `LEGACY_THEME_PLACEHOLDER`. -/
def legacyThemePlaceholder : String := "테마 없음"

/-- A theme that is stored, or missing. -/
def readTheme (x : Cell F) : Cell F :=
  if x = .missing ∨ Py.strip (x.str pd) = "" ∨ Py.strip (x.str pd) = legacyThemePlaceholder then .missing else x

/-- `_standardize_archive_df` of a row with the archived columns. -/
def standardize (r : Row F) : Row F :=
  { r with
    code := .text (readCode pd r.code)
    values := fun
      | .theme => readTheme pd (r.values .theme)
      | c => r.values c }

/-- A frame of candidates: which of the two columns that default it has, and its rows. -/
structure Snapshot (F : Type) where
  hasStamp : Bool
  hasSynthetic : Bool
  rows : List (Row F)

/-- `_ensure_tz`, or the fallback where the column is absent. -/
def ensureTz (x : Cell F) (fallback : Int) : Cell F := .time ((pd.toDatetime x).getD fallback)

/-- A row of a snapshot with its date and its times. -/
def stampRow (S : Snapshot F) (date : String) (r : Row F) : Row F :=
  let stamp := (if S.hasStamp then r.stamp else none).getD (pd.kstTimestamp date)
  { date := date
    stamp := some stamp
    code := r.code
    values := fun
      | .synthetic => if S.hasStamp then (if S.hasSynthetic then r.values .synthetic else .int 0) else .int 1
      | .featureAvailable => ensureTz pd (r.values .featureAvailable) stamp
      | .decisionTimestamp => ensureTz pd (r.values .decisionTimestamp) stamp
      | .executionTimestamp => ensureTz pd (r.values .executionTimestamp) stamp
      | c => r.values c }

/-- The rows that a snapshot of a date is stored as. -/
def prepare (S : Snapshot F) (date : String) : List (Row F) :=
  let out := S.rows.map (fun r => standardize pd (stampRow pd S date r))
  if 1 < (out.map Row.stamp).dedup.length then keepLast (fun r => (r.stamp, r.code)) out
  else keepLast (fun r => (r.date, r.code)) out

def upsertArchiveSnapshot (A : File F) (S : Snapshot F) (date : String) : File F :=
  upsertConditionParquet pd A (prepare pd S date)

/-! ## Reading -/

/-- Captures in the order of their times, those without one first. -/
def stampLe (a b : Row F) : Bool :=
  match a.stamp, b.stamp with
  | none, _ => true
  | some _, none => false
  | some x, some y => decide (x ≤ y)

/-- The rows of a date in the order of their captures. -/
def captures (A : File F) (date : String) : List (Row F) :=
  ((A.rows.filter (fun r => decide (r.date = date))).map (standardize pd)).insertionSort (fun a b => stampLe a b = true)

def fetchArchiveSnapshot (A : File F) (date : String) : List (Row F) :=
  (keepLast (fun r => (r.date, r.code)) (captures pd A date)).insertionSort (fun a b => a.code.str pd ≤ b.code.str pd)

end

end Archive
