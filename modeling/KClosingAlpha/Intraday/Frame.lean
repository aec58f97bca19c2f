import KClosingAlpha.Lib.Exc
import KClosingAlpha.Py.Value
import Mathlib.Data.List.Dedup
import Mathlib.Data.Rat.Floor
/-!
# Frame — intraday rows, their coverage, and what a frame is checked for (`intraday_store.py`)

A frame is its columns and its rows; what a cell is stays open, and what pandas reads off it is a parameter.  Bars and
ticks are checked the same way and differ in their columns, and in that bars of one slot are collapsed (`Layout`).
-/
namespace Intraday

open Exc (raiseIf)

/-- What a call raises. -/
inductive Exn where
  | value (msg : String)
  | nonPositivePrice (kind snapshotDate session : String) (symbols : List String) (rows : Nat)
  | type (msg : String)
  | key (msg : String)
  | os (msg : String)
  | runtime (msg : String)
  | evicted (msg : String)
  deriving DecidableEq

/-- `isinstance(exc, ValueError)`. -/
def Exn.isValueError : Exn → Bool
  | value _ | nonPositivePrice .. => true
  | type _ | key _ | os _ | runtime _ | evicted _ => false

/-- `isinstance(exc, OSError)`; a lock that is not acquired in time is one. -/
def Exn.isOSError : Exn → Bool
  | os _ => true
  | value _ | nonPositivePrice .. | type _ | key _ | runtime _ | evicted _ => false

theorem Exn.isOSError_of_isValueError {e : Exn} (h : e.isValueError = true) : e.isOSError = false := by
  cases e with
  | value | nonPositivePrice => rfl
  | type | key | os | runtime | evicted => cases h

/-! ## Coverage -/

inductive CaptureStatus where
  | pending
  | complete
  | part
  | failed
  | noTrades
  | notApplicable
  | unknown
  deriving DecidableEq

def CaptureStatus.value : CaptureStatus → String
  | pending => "PENDING"
  | complete => "COMPLETE"
  | part => "PARTIAL"
  | failed => "FAILED"
  | noTrades => "NO_TRADES"
  | notApplicable => "NOT_APPLICABLE"
  | unknown => "UNKNOWN"

/-- `CoverageEntry`, with what its validator refuses. -/
structure CoverageEntry where
  symbol : Option String
  venue : String
  session : String
  status : CaptureStatus
  rows : Nat
  reason : String
  rawRefs : List String
  evidence : status = .noTrades ∨ status = .notApplicable → Py.isBlank reason = false ∧ rawRefs ≠ []
  certified : venue = "UNKNOWN" → status ≠ .complete

abbrev Coverage := Py.Dict CoverageEntry

/-- The two attempts that are published. -/
def CoverageEntry.isCertified (e : CoverageEntry) : Bool := decide (e.status = .complete) || decide (e.status = .noTrades)

/-- `INTRADAY_VERIFIED_SESSIONS`. -/
def verifiedSessions : List String :=
  ["regular", "regular_consolidated", "nxt_premarket", "nxt_aftermarket", "krx_aftermarket"]

/-- `INTRADAY_SESSION_REGULAR_CONSOLIDATED`. -/
def consolidated : String := "regular_consolidated"

/-! ## Rows -/

variable {Cell : Type}

/-- What pandas makes of a cell: `astype(str)`, `isna`, `to_numeric(errors="coerce")`, and the order it sorts in. -/
structure Pandas (Cell : Type) where
  str : Cell → String
  isna : Cell → Bool
  toNumeric : Cell → Option Rat
  le : Cell → Cell → Bool

/-- A row, one cell a column. -/
abbrev Row (Cell : Type) := List Cell

/-- A frame in memory, or a partition on disk. -/
structure Frame (Cell : Type) where
  columns : List String
  rows : List (Row Cell)
  deriving DecidableEq

def canonicalBarColumns : List String :=
  ["snapshot_date", "symbol", "ts_hms", "open", "high", "low", "close", "volume", "value_krw", "has_trade", "vendor"]

def canonicalTickColumns : List String :=
  ["snapshot_date", "symbol", "ts_hms", "price", "volume", "trade_strength", "ask1", "bid1", "truncated", "vendor"]

/-- The cell of a row in a column. -/
def cell (columns : List String) (name : String) (r : Row Cell) : Option Cell := (columns.zip r).lookup name

namespace Pandas

variable (pd : Pandas Cell) (columns : List String)

/-- A column as text. -/
def strOf (name : String) (r : Row Cell) : String := (cell columns name r).elim "" pd.str

/-- The symbol a row is stored and replaced under. -/
def key (r : Row Cell) : String := pd.strOf columns "symbol" r

/-- A column as a number. -/
def numOf (name : String) (r : Row Cell) : Option Rat := (cell columns name r).bind pd.toNumeric

def missing (name : String) (r : Row Cell) : Bool := (cell columns name r).all pd.isna

/-- `a <= b` in one column; a row without the cell comes last. -/
def leOf (name : String) (a b : Row Cell) : Bool :=
  match cell columns name a, cell columns name b with
  | some x, some y => pd.le x y
  | none, some _ => false
  | _, none => true

/-- `sort_values(["symbol", "ts_hms"], kind="stable")`. -/
def sortRows (rows : List (Row Cell)) : List (Row Cell) :=
  rows.mergeSort (fun a b =>
    if pd.leOf columns "symbol" a b && pd.leOf columns "symbol" b a then pd.leOf columns "ts_hms" a b
    else pd.leOf columns "symbol" a b)

/-- `sorted({str(item) for item in df["symbol"]})`. -/
def symbols (rows : List (Row Cell)) : List String :=
  (rows.map (pd.key columns)).dedup.mergeSort (fun a b => decide (a ≤ b))

/-- How many rows a symbol has: `value_counts`. -/
def count (s : String) (rows : List (Row Cell)) : Nat := rows.countP (fun r => decide (pd.key columns r = s))

theorem mem_symbols {s : String} {rows : List (Row Cell)} : s ∈ pd.symbols columns rows ↔ ∃ r ∈ rows, pd.key columns r = s := by
  unfold symbols
  rw [(List.mergeSort_perm _ _).mem_iff, List.mem_dedup, List.mem_map]

/-- A row as `_frames_equal` writes it, one text a column of the old frame. -/
def text (order : List String) (r : Row Cell) : List String :=
  order.map (fun name => if pd.missing columns name r then "∅" else pd.strOf columns name r)

end Pandas

/-- `_frames_equal`, on a frame that has every column of the old one. -/
def framesEqual (pd : Pandas Cell) (old new : Frame Cell) : Bool :=
  decide (old.rows.length = new.rows.length) &&
    (old.rows.map (pd.text old.columns old.columns)).isPerm (new.rows.map (pd.text new.columns old.columns))

/-! ## Checks -/

/-- `_is_valid_hhmmss`. -/
def isValidHhmmss (value : Int) : Bool :=
  decide (0 ≤ value) && decide (value ≤ 235959) && decide (value / 10000 ≤ 23) && decide (value / 100 % 100 ≤ 59) &&
    decide (value % 100 ≤ 59)

/-- `int(x)`: towards zero. -/
def truncInt (q : Rat) : Int := q.num.tdiv q.den

/-- `repr` of a text. -/
def quoted (s : String) : String := "'" ++ s ++ "'"

/-- `repr` of a list of texts. -/
def quotedList (l : List String) : String := "[" ++ String.intercalate ", " (l.map quoted) ++ "]"

/-- What sets bars and ticks apart. -/
structure Layout (Cell : Type) where
  name : String
  kind : String
  columns : List String
  priceColumns : List String
  /-- What the rows become before they are handed to the rewrite. -/
  reconcile : Pandas Cell → List (Row Cell) → Except Exn (List (Row Cell))
  sortOutput : Bool
  /-- Whether the coverage of the published rows is logged. -/
  logsCoverage : Bool
  subset : ∀ pd rows rows', reconcile pd rows = .ok rows' → rows' ⊆ rows

/-- `assert_canonical_bars` and `assert_canonical_ticks`. -/
def assertCanonical (k : Layout Cell) (df : Frame Cell) : Except Exn Unit :=
  raiseIf (df.columns ≠ k.columns)
    (.value ("Non-canonical " ++ k.name.toLower ++ " frame: missing=" ++
      quotedList (k.columns.filter (fun c => decide (c ∉ df.columns))) ++ " extra=" ++
      quotedList (df.columns.filter (fun c => decide (c ∉ k.columns)))))

/-- `_validate_tick_frame` and `_validate_bar_frame`. -/
def validateFrame (pd : Pandas Cell) (k : Layout Cell) (df : Frame Cell) (snapshotDate session : String)
    (coverage : Option Coverage) : Except Exn (List String) := do
  assertCanonical k df
  raiseIf (df.rows.any (fun r => decide (pd.strOf df.columns "snapshot_date" r ≠ snapshotDate)) = true)
    (.value (k.name ++ " frame carries non-requested snapshot_date for " ++ quoted snapshotDate))
  raiseIf (df.rows.any (fun r => (pd.numOf df.columns "ts_hms" r).isNone) = true)
    (.value (k.name ++ " frame carries non-numeric ts_hms"))
  match (df.rows.filterMap (fun r => (pd.numOf df.columns "ts_hms" r).map truncInt)).find? (fun t => !isValidHhmmss t) with
  | some raw => .error (.value (k.name ++ " frame carries invalid HHMMSS: " ++ toString raw))
  | none => do
    raiseIf (df.rows.any (fun r => (pd.numOf df.columns "volume" r).all (fun q => decide (q < 0))) = true)
      (.value (k.name ++ " frame carries invalid negative volume"))
    let bad := df.rows.filter
      (fun r => k.priceColumns.any (fun c => (pd.numOf df.columns c r).all (fun q => decide (q ≤ 0))))
    raiseIf (bad ≠ []) (.nonPositivePrice k.kind snapshotDate session (pd.symbols df.columns bad) bad.length)
    let symbols := pd.symbols df.columns df.rows
    match coverage with
    | none => .ok symbols
    | some coverage => do
      let missing := symbols.filter (fun s => !coverage.has s)
      raiseIf (missing ≠ []) (.value (k.name ++ " frame symbols lack coverage certification: " ++ quotedList missing))
      match symbols.find? (fun s => (coverage.lookup s).any (fun e => decide (e.session ≠ session))) with
      | some s => .error (.value (k.name ++ " coverage session mismatch for " ++ quoted s))
      | none => .ok symbols

/-- The symbols of a frame that passes. -/
theorem validateFrame_eq_ok {pd : Pandas Cell} {k : Layout Cell} {df : Frame Cell} {snapshotDate session : String}
    {coverage : Option Coverage} {symbols : List String}
    (h : validateFrame pd k df snapshotDate session coverage = .ok symbols) : symbols = pd.symbols df.columns df.rows := by
  unfold validateFrame at h
  simp only [Exc.bind_eq_ok] at h
  obtain ⟨-, -, -, -, -, -, h⟩ := h
  split at h
  · cases h
  · simp only [Exc.bind_eq_ok] at h
    obtain ⟨-, -, -, -, h⟩ := h
    split at h
    · cases h
      rfl
    · simp only [Exc.bind_eq_ok] at h
      obtain ⟨-, -, h⟩ := h
      split at h
      · cases h
      · cases h
        rfl

theorem nodup_eraseDups {α : Type} [BEq α] [LawfulBEq α] : ∀ l : List α, l.eraseDups.Nodup
  | [] => List.nodup_nil
  | a :: l => by
    have hlen : (l.filter (fun b => !b == a)).length < (a :: l).length :=
      Nat.lt_succ_of_le (List.length_filter_le _ l)
    rw [List.eraseDups_cons, List.nodup_cons]
    refine ⟨fun h => ?_, nodup_eraseDups _⟩
    simpa using (List.mem_filter.1 (List.mem_eraseDups.1 h)).2
  termination_by l => l.length
  decreasing_by exact hlen

variable [DecidableEq Cell]

/-- `_deduplicate_bars`. -/
def deduplicateBars (pd : Pandas Cell) (rows : List (Row Cell)) : Except Exn (List (Row Cell)) :=
  let columns := canonicalBarColumns
  let slot := fun r => (cell columns "symbol" r, cell columns "ts_hms" r)
  let distinct := (rows.filter (fun r => !pd.missing columns "symbol" r && !pd.missing columns "ts_hms" r)).eraseDups
  match distinct.find? (fun r => decide (1 < distinct.countP (fun r' => decide (slot r' = slot r)))) with
  | some r =>
    .error (.value ("Contradictory bar slot for " ++ quoted (pd.key columns r) ++ " ts=" ++ pd.strOf columns "ts_hms" r))
  | none => .ok (pd.sortRows columns (if distinct.isEmpty then rows else distinct))

theorem deduplicateBars_subset (pd : Pandas Cell) (rows rows' : List (Row Cell)) (h : deduplicateBars pd rows = .ok rows') :
    rows' ⊆ rows := by
  unfold deduplicateBars at h
  dsimp only at h
  split at h
  · cases h
  · cases h
    intro r hr
    have hr' := (List.mergeSort_perm _ _).mem_iff.1 hr
    split_ifs at hr'
    · exact hr'
    · exact List.mem_of_mem_filter (List.mem_eraseDups.1 hr')

def barLayout : Layout Cell :=
  { name := "Bar", kind := "bars", columns := canonicalBarColumns, priceColumns := ["open", "high", "low", "close"]
    reconcile := deduplicateBars, sortOutput := true, logsCoverage := true, subset := deduplicateBars_subset }

def tickLayout : Layout Cell :=
  { name := "Tick", kind := "ticks", columns := canonicalTickColumns, priceColumns := ["price"]
    reconcile := fun _ rows => .ok rows, sortOutput := false, logsCoverage := false
    subset := fun _ _ _ h => by cases h; exact List.Subset.refl _ }

end Intraday
