import KClosingAlpha.Intraday.Backfill
import KClosingAlpha.Lib.Flt
/-!
# BarSchema — vendor minute bars in one schema (`normalize_bar_frame`)

Each vendor's branch reads its own columns, and two of the five put the bars in order of their times.  A number is
exact or missing; what pandas reads off a cell is a parameter.  KIS tells a cumulative traded value, and a difference of it
is a bar's value just where the bar can have it.
-/
namespace BarSchema

open Exc (raiseIf)
open Flt (nan fin)
open Intraday (Exn Frame Row cell quoted quotedList zfill6 truncInt)

inductive BarVendor where
  | kis | ls | kiwoom | toss | dbsec
deriving DecidableEq

namespace BarVendor

def name : BarVendor → String
  | kis => "kis"
  | ls => "ls"
  | kiwoom => "kiwoom"
  | toss => "toss"
  | dbsec => "dbsec"

def all : List BarVendor := [kis, ls, kiwoom, toss, dbsec]

/-- `VENDOR_BUSINESS_DATE_FIELDS`. -/
def businessDateField : BarVendor → String
  | kis => "stck_bsop_date"
  | ls => "date"
  | kiwoom => "cntr_tm"
  | toss => "timestamp"
  | dbsec => "Date"

/-- `_KIS_BAR_REQUIRED` to `_DBSEC_BAR_REQUIRED`. -/
def required : BarVendor → List String
  | kis => ["stck_cntg_hour", "stck_oprc", "stck_hgpr", "stck_lwpr", "stck_prpr", "cntg_vol", "acml_tr_pbmn"]
  | ls => ["time", "open", "high", "low", "close", "jdiff_vol", "value"]
  | kiwoom => ["cntr_tm", "cur_prc", "open_pric", "high_pric", "low_pric", "trde_qty"]
  | toss => ["timestamp", "openPrice", "highPrice", "lowPrice", "closePrice", "volume"]
  | dbsec => ["Date", "Hour", "Oprc", "Hprc", "Lprc", "Prpr", "CntgVol"]

end BarVendor

def lsValueUnitKrw : ℚ := 1000000

/-- What pandas makes of a cell: `astype(str)`, and `to_numeric(errors="coerce")` of a cell and of a text. -/
structure Reader (Cell : Type) where
  str : Cell → String
  number : Cell → Flt ℚ
  ofText : String → Flt ℚ

/-- A row of `work`, with the value beside it; the value of a KIS row is the cumulative one before it is differenced. -/
structure Work where
  tsHms : Flt ℚ
  open_ : Flt ℚ
  high : Flt ℚ
  low : Flt ℚ
  close : Flt ℚ
  volume : Flt ℚ
  value : Flt ℚ
deriving DecidableEq

/-- A row of CANONICAL_BAR_COLUMNS. -/
structure Bar where
  snapshotDate : String
  symbol : String
  tsHms : Int
  open_ : Int
  high : Int
  low : Int
  close : Int
  volume : Int
  valueKrw : Int
  hasTrade : Bool
  vendor : BarVendor
deriving DecidableEq

/-- `text.replace("-", "")[:8]`. -/
def dateText (s : String) : String := String.ofList ((s.toList.filter (· ≠ '-')).take 8)

/-- `text[-6:]`. -/
def lastSix (s : String) : String := String.ofList (s.toList.drop (s.toList.length - 6))

/-- The time of a Toss timestamp: after the first T, up to the point, without colons. -/
def tossHms (s : String) : Option String :=
  match s.toList.dropWhile (· ≠ 'T') with
  | [] => none
  | _ :: rest => some (String.ofList (((rest.takeWhile (· ≠ 'T')).takeWhile (· ≠ '.')).filter (· ≠ ':')))

def Work.closeTimesVolume (w : Work) : Flt ℚ := Flt.mul w.close w.volume

section

variable {Cell : Type} (rd : Reader Cell) (columns : List String)

def Reader.strOf (name : String) (r : Row Cell) : String := (cell columns name r).elim "" rd.str

/-- `pd.to_numeric(df[name].astype(str), errors="coerce")`. -/
def Reader.text (name : String) (r : Row Cell) : Flt ℚ := rd.ofText (rd.strOf columns name r)

/-- `pd.to_numeric(df[name], errors="coerce")`. -/
def Reader.num (name : String) (r : Row Cell) : Flt ℚ := (cell columns name r).elim nan rd.number

/-- The row of `work` a vendor's branch builds. -/
def BarVendor.work (v : BarVendor) (r : Row Cell) : Work :=
  match v with
  | .kis =>
    { tsHms := rd.text columns "stck_cntg_hour" r
      open_ := rd.text columns "stck_oprc" r
      high := rd.text columns "stck_hgpr" r
      low := rd.text columns "stck_lwpr" r
      close := rd.text columns "stck_prpr" r
      volume := rd.text columns "cntg_vol" r
      value := rd.text columns "acml_tr_pbmn" r }
  | .ls =>
    { tsHms := rd.text columns "time" r
      open_ := rd.num columns "open" r
      high := rd.num columns "high" r
      low := rd.num columns "low" r
      close := rd.num columns "close" r
      volume := rd.num columns "jdiff_vol" r
      value := Flt.mul (rd.num columns "value" r) (fin lsValueUnitKrw) }
  | .kiwoom =>
    let close := Flt.abs (rd.text columns "cur_prc" r)
    let volume := Flt.abs (rd.text columns "trde_qty" r)
    { tsHms := rd.ofText (lastSix (rd.strOf columns "cntr_tm" r))
      open_ := Flt.abs (rd.text columns "open_pric" r)
      high := Flt.abs (rd.text columns "high_pric" r)
      low := Flt.abs (rd.text columns "low_pric" r)
      close := close
      volume := volume
      value := Flt.mul close volume }
  | .toss =>
    let close := rd.text columns "closePrice" r
    let volume := rd.text columns "volume" r
    { tsHms := (tossHms (rd.strOf columns "timestamp" r)).elim nan rd.ofText
      open_ := rd.text columns "openPrice" r
      high := rd.text columns "highPrice" r
      low := rd.text columns "lowPrice" r
      close := close
      volume := volume
      value := Flt.mul close volume }
  | .dbsec =>
    let close := rd.text columns "Prpr" r
    let volume := rd.text columns "CntgVol" r
    { tsHms := rd.text columns "Hour" r
      open_ := rd.text columns "Oprc" r
      high := rd.text columns "Hprc" r
      low := rd.text columns "Lprc" r
      close := close
      volume := volume
      value := Flt.mul close volume }

/-- The order of `sort_values("ts_hms")`: NaN comes last. -/
def Work.tsLe (a b : Work) : Bool := b.tsHms.isNan || Flt.le a.tsHms b.tsHms

/-- `sort_values("ts_hms", kind="stable")`. -/
def sortTs (ws : List Work) : List Work := ws.mergeSort Work.tsLe

/-- Whether a bar can have traded the difference. -/
def Work.accepts (w : Work) (candidate : Flt ℚ) : Bool :=
  let zeroOk := decide (w.volume = fin 0) && decide (candidate = fin 0)
  let bandOk := Flt.lt (fin 0) w.volume && Flt.le (Flt.mul w.low w.volume) candidate &&
    Flt.le candidate (Flt.mul w.high w.volume)
  zeroOk || bandOk

/-- The values of KIS bars: the difference of the cumulative value, clipped, or close times volume. -/
def kisValues : Option (Flt ℚ) → List Work → List Work
  | _, [] => []
  | before, w :: ws =>
    let diff := before.elim w.value (Flt.sub w.value)
    let candidate := Flt.maximum diff (fin 0)
    { w with value := if w.accepts candidate then candidate else w.closeTimesVolume } :: kisValues (some w.value) ws

/-- The table before the casts. -/
def BarVendor.table (v : BarVendor) (rows : List (Row Cell)) : List Work :=
  let work := rows.map (v.work rd columns)
  match v with
  | .kis => kisValues none (sortTs work)
  | .dbsec => sortTs work
  | .ls | .kiwoom | .toss => work

end

/-- A cast to an integer type: towards zero, and around. -/
def castInt (bits : Nat) : Flt ℚ → Int
  | .fin q => (truncInt q).bmod (2 ^ bits)
  | .nan | .inf _ => 0

/-- What `astype` refuses. -/
def Work.castable (w : Work) : Bool :=
  [w.tsHms, w.open_, w.high, w.low, w.close, w.volume, w.value].all Flt.isFinite

def Work.toBar (v : BarVendor) (snapshotDate code : String) (w : Work) : Bar :=
  { snapshotDate := snapshotDate
    symbol := code
    tsHms := castInt 32 w.tsHms
    open_ := castInt 32 w.open_
    high := castInt 32 w.high
    low := castInt 32 w.low
    close := castInt 32 w.close
    volume := castInt 64 w.volume
    valueKrw := castInt 64 w.value
    hasTrade := Flt.lt (fin 0) (w.volume.fillna (fin 0))
    vendor := v }

section

variable {Cell : Type} (rd : Reader Cell)

/-- `filter_to_business_date`: rows without a date field are taken as they are. -/
def filterToBusinessDate (v : BarVendor) (df : Frame Cell) (snapshotDate : String) : List (Row Cell) :=
  if v.businessDateField ∈ df.columns then
    df.rows.filter (fun r => decide (dateText (rd.strOf df.columns v.businessDateField r) = dateText snapshotDate))
  else df.rows

/-- `_require_columns`. -/
def requireColumns (columns : List String) (v : BarVendor) : Except Exn Unit :=
  let missing := v.required.filter (fun c => decide (c ∉ columns))
  raiseIf (missing ≠ []) (.value ("Missing required " ++ v.name ++ " source columns: " ++ quotedList missing))

def normalizeBarFrame (df : Option (Frame Cell)) (vendor snapshotDate symbol : String) : Except Exn (List Bar) :=
  match BarVendor.all.find? (fun v => decide (v.name = vendor)) with
  | none => .error (.value ("Unknown intraday vendor: " ++ quoted vendor ++
      " (expected one of 'kis', 'ls', 'kiwoom', 'toss', 'dbsec')"))
  | some v =>
    match df with
    | none => .ok []
    | some df =>
      let rows := filterToBusinessDate rd v df snapshotDate
      if rows = [] then .ok []
      else do
        requireColumns df.columns v
        let table := v.table rd df.columns rows
        raiseIf (table.any (fun w => !w.castable) = true) (.value "Cannot convert non-finite values (NA or inf) to integer")
        .ok (table.map (Work.toBar v snapshotDate (zfill6 symbol)))

end

/-! ## Values in range -/

/-- An integer of a target type. -/
def InRange (bits : Nat) (x : Flt ℚ) : Prop :=
  ∃ n : Int, x = fin (n : ℚ) ∧ -(2 ^ bits : Nat) ≤ n * 2 ∧ n * 2 < (2 ^ bits : Nat)

/-- Values are exact, in the range of the target integer types. -/
structure Work.Exact (w : Work) : Prop where
  tsHms : InRange 32 w.tsHms
  open_ : InRange 32 w.open_
  high : InRange 32 w.high
  low : InRange 32 w.low
  close : InRange 32 w.close
  volume : InRange 64 w.volume
  value : InRange 64 w.value

/-- A cast changes no value in range. -/
theorem fin_castInt {bits : Nat} {x : Flt ℚ} (h : InRange bits x) : x = fin (castInt bits x : ℚ) := by
  obtain ⟨n, rfl, hlo, hhi⟩ := h
  have htrunc : truncInt (n : ℚ) = n := by simp [truncInt]
  rw [castInt, htrunc, Int.bmod_eq_of_le_mul_two hlo hhi]

instance (bits : Nat) (x : Flt ℚ) : Decidable (InRange bits x) :=
  decidable_of_iff (x = fin (castInt bits x : ℚ) ∧ -(2 ^ bits : Nat) ≤ castInt bits x * 2 ∧
      castInt bits x * 2 < (2 ^ bits : Nat))
    ⟨fun h => ⟨castInt bits x, h⟩, fun h => by
      have hx := fin_castInt h
      obtain ⟨n, hn, hlo, hhi⟩ := h
      have hcast : castInt bits x = n := by
        rw [hn, Flt.fin.injEq, Int.cast_inj] at hx
        rw [hn]
        exact hx.symm
      rw [hcast]
      exact ⟨hn, hlo, hhi⟩⟩

instance (w : Work) : Decidable w.Exact :=
  decidable_of_iff (InRange 32 w.tsHms ∧ InRange 32 w.open_ ∧ InRange 32 w.high ∧ InRange 32 w.low ∧ InRange 32 w.close ∧
      InRange 64 w.volume ∧ InRange 64 w.value)
    ⟨fun ⟨ht, ho, hh, hl, hc, hv, hval⟩ => ⟨ht, ho, hh, hl, hc, hv, hval⟩,
      fun h => ⟨h.tsHms, h.open_, h.high, h.low, h.close, h.volume, h.value⟩⟩

theorem castInt_le_iff {bits : Nat} {x y : Flt ℚ} (hx : InRange bits x) (hy : InRange bits y) :
    castInt bits x ≤ castInt bits y ↔ Flt.le x y = true := by
  conv_rhs => rw [fin_castInt hx, fin_castInt hy]
  rw [Flt.fin_le_fin, decide_eq_true_eq, Int.cast_le]

theorem castInt_inj {bits : Nat} {x y : Flt ℚ} (hx : InRange bits x) (hy : InRange bits y)
    (h : castInt bits x = castInt bits y) : x = y := by
  rw [fin_castInt hx, fin_castInt hy, h]

theorem tsLe_iff {a b : Work} (ha : a.Exact) (hb : b.Exact) :
    a.tsLe b = true ↔ castInt 32 a.tsHms ≤ castInt 32 b.tsHms := by
  rw [castInt_le_iff ha.tsHms hb.tsHms, Work.tsLe, fin_castInt hb.tsHms, Flt.isNan_fin, Bool.false_or]

/-! ## Order -/

theorem tsLe_trans (a b c : Work) (hab : a.tsLe b = true) (hbc : b.tsLe c = true) : a.tsLe c = true := by
  simp only [Work.tsLe] at *
  rcases ha : a.tsHms with _ | (_ | _) | x <;> rcases hb : b.tsHms with _ | (_ | _) | y <;>
    rcases hc : c.tsHms with _ | (_ | _) | z <;> simp_all [Flt.le, Flt.isNan]
  exact le_trans hab hbc

theorem tsLe_total (a b : Work) : (a.tsLe b || b.tsLe a) = true := by
  simp only [Work.tsLe]
  rcases a.tsHms with _ | (_ | _) | x <;> rcases b.tsHms with _ | (_ | _) | y <;> simp [Flt.le, Flt.isNan]
  exact le_total x y

theorem tsLe_antisymm {a b : Work} (hab : a.tsLe b = true) (hba : b.tsLe a = true) : a.tsHms = b.tsHms := by
  simp only [Work.tsLe] at *
  rcases ha : a.tsHms with _ | (_ | _) | x <;> rcases hb : b.tsHms with _ | (_ | _) | y <;>
    simp_all [Flt.le, Flt.isNan]
  exact le_antisymm hab hba

theorem sortTs_sorted (ws : List Work) : (sortTs ws).Pairwise (fun a b => a.tsLe b = true) :=
  List.pairwise_mergeSort tsLe_trans tsLe_total ws

theorem sortTs_perm (ws : List Work) : (sortTs ws).Perm ws := List.mergeSort_perm ws _

/-- **Rows of distinct times are sorted in one way.** -/
theorem sortTs_eq_of_perm {ws ws' : List Work} (hp : ws'.Perm ws) (hd : (ws.map Work.tsHms).Nodup) :
    sortTs ws' = sortTs ws := by
  refine List.Perm.eq_of_pairwise (fun a b ha hb hab hba => ?_) (sortTs_sorted ws') (sortTs_sorted ws)
    ((sortTs_perm ws').trans (hp.trans (sortTs_perm ws).symm))
  have ha' : a ∈ ws := hp.mem_iff.1 ((sortTs_perm ws').mem_iff.1 ha)
  have hb' : b ∈ ws := (sortTs_perm ws).mem_iff.1 hb
  exact List.inj_on_of_nodup_map hd ha' hb' (tsLe_antisymm hab hba)

/-! ## The values of KIS bars -/

/-- A row without its value. -/
def Work.quote (w : Work) : Work := { w with value := nan }

def Bar.quote (b : Bar) : Bar := { b with valueKrw := 0 }

theorem kisValues_quote : ∀ (before : Option (Flt ℚ)) (ws : List Work),
    (kisValues before ws).map Work.quote = ws.map Work.quote
  | _, [] => rfl
  | before, w :: ws => by
    rw [kisValues, List.map_cons, List.map_cons, kisValues_quote (some w.value) ws]
    rfl

/-- A KIS value is a difference that the bar can have, or close times volume. -/
theorem value_of_mem_kisValues {w : Work} : ∀ {before : Option (Flt ℚ)} {ws : List Work}, w ∈ kisValues before ws →
    (∃ candidate, w.accepts candidate = true ∧ w.value = candidate) ∨ w.value = w.closeTimesVolume
  | _, [], h => by cases h
  | before, w' :: ws, h => by
    rw [kisValues, List.mem_cons] at h
    rcases h with rfl | h
    · dsimp only
      split_ifs with haccept
      · exact .inl ⟨_, haccept, rfl⟩
      · exact .inr rfl
    · exact value_of_mem_kisValues h

/-- Between two bounds, whichever is the lower. -/
def Between (a b x : Int) : Prop := min a b ≤ x ∧ x ≤ max a b

theorem between_of_close {low close high volume : Int} (hl : low ≤ close) (hh : close ≤ high) :
    Between (low * volume) (high * volume) (close * volume) := by
  rcases le_total 0 volume with hv | hv
  · exact ⟨le_trans (min_le_left _ _) (mul_le_mul_of_nonneg_right hl hv),
      le_trans (mul_le_mul_of_nonneg_right hh hv) (le_max_right _ _)⟩
  · exact ⟨le_trans (min_le_right _ _) (mul_le_mul_of_nonpos_right hh hv),
      le_trans (mul_le_mul_of_nonpos_right hl hv) (le_max_left _ _)⟩

/-- **The value of a KIS bar lies in its band.** -/
theorem between_of_kis {before : Option (Flt ℚ)} {ws : List Work} {w : Work} (hw : w ∈ kisValues before ws)
    (hx : w.Exact) (snapshotDate code : String) :
    let b := w.toBar .kis snapshotDate code
    b.low ≤ b.close → b.close ≤ b.high → Between (b.low * b.volume) (b.high * b.volume) b.valueKrw := by
  intro b hl hh
  have hlow := fin_castInt hx.low
  have hhigh := fin_castInt hx.high
  have hclose := fin_castInt hx.close
  have hvolume := fin_castInt hx.volume
  have hvalue := fin_castInt hx.value
  rcases value_of_mem_kisValues hw with ⟨candidate, haccept, hcand⟩ | hcv
  · rw [← hcand, Work.accepts, hvalue, hlow, hhigh, hvolume] at haccept
    simp only [Flt.fin_mul_fin, Flt.fin_le_fin, Flt.fin_lt_fin, Flt.fin.injEq, Bool.or_eq_true, Bool.and_eq_true,
      decide_eq_true_eq] at haccept
    rcases haccept with ⟨hv0, hc0⟩ | ⟨⟨-, hlo⟩, hhi⟩
    · have hv : b.volume = 0 := by exact_mod_cast hv0
      have hc : b.valueKrw = 0 := by exact_mod_cast hc0
      rw [hv, hc, mul_zero, mul_zero]
      exact ⟨by simp, by simp⟩
    · have hlo' : b.low * b.volume ≤ b.valueKrw := by exact_mod_cast hlo
      have hhi' : b.valueKrw ≤ b.high * b.volume := by exact_mod_cast hhi
      exact ⟨le_trans (min_le_left _ _) hlo', le_trans hhi' (le_max_right _ _)⟩
  · rw [Work.closeTimesVolume, hvalue, hclose, hvolume, Flt.fin_mul_fin, Flt.fin.injEq] at hcv
    have hcv' : b.valueKrw = b.close * b.volume := by exact_mod_cast hcv
    rw [hcv']
    exact between_of_close hl hh

/-! ## Canonical form -/

section

variable {Cell : Type} (rd : Reader Cell)

/-- The times of the rows of the business date, in the order they came in. -/
def times (v : BarVendor) (df : Frame Cell) (snapshotDate : String) : List (Flt ℚ) :=
  (filterToBusinessDate rd v df snapshotDate).map (fun r => (v.work rd df.columns r).tsHms)

/-- One row a row of the business date, in order of time, whatever the order of the input, KIS values in their band. -/
structure IsCanonical (v : BarVendor) (df : Frame Cell) (snapshotDate symbol : String) (out : List Bar) : Prop where
  rows : (out.map Bar.quote).Perm ((filterToBusinessDate rd v df snapshotDate).map
    (fun r => ((v.work rd df.columns r).toBar v snapshotDate (zfill6 symbol)).quote))
  sorted : out.Pairwise (fun a b => a.tsHms ≤ b.tsHms)
  permuted : ∀ df' : Frame Cell, df'.columns = df.columns → df'.rows.Perm df.rows → (times rd v df snapshotDate).Nodup →
    normalizeBarFrame rd (some df') v.name snapshotDate symbol = .ok out
  banded : v = .kis → ∀ b ∈ out, b.low ≤ b.close → b.close ≤ b.high →
    Between (b.low * b.volume) (b.high * b.volume) b.valueKrw

variable {rd} {v : BarVendor} {df df' : Frame Cell} {snapshotDate symbol : String} {out : List Bar}

theorem find_name (v : BarVendor) : BarVendor.all.find? (fun v' => decide (v'.name = v.name)) = some v := by
  cases v <;> decide

theorem table_quote (columns : List String) (rows : List (Row Cell)) :
    ((v.table rd columns rows).map Work.quote).Perm (rows.map (fun r => (v.work rd columns r).quote)) := by
  have hsort := ((sortTs_perm (rows.map (v.work rd columns))).map Work.quote)
  rw [List.map_map] at hsort
  cases v with
  | kis =>
    rw [BarVendor.table, kisValues_quote]
    exact hsort
  | dbsec => exact hsort
  | ls | kiwoom | toss =>
    rw [BarVendor.table, List.map_map]
    exact .refl _

theorem table_nil_iff (columns : List String) (rows : List (Row Cell)) : v.table rd columns rows = [] ↔ rows = [] := by
  have hquote : ((v.table rd columns rows).map Work.quote).Perm (rows.map (fun r => (v.work rd columns r).quote)) :=
    table_quote columns rows
  have hlen := hquote.length_eq
  rw [List.length_map, List.length_map] at hlen
  rw [← List.length_eq_zero_iff, hlen, List.length_eq_zero_iff]

/-- What a run returns is the table, cast. -/
theorem out_of_ok (h : normalizeBarFrame rd (some df) v.name snapshotDate symbol = .ok out) :
    out = (v.table rd df.columns (filterToBusinessDate rd v df snapshotDate)).map
      (Work.toBar v snapshotDate (zfill6 symbol)) := by
  simp only [normalizeBarFrame, find_name] at h
  split_ifs at h with hnil
  · rw [(table_nil_iff _ _).2 hnil]
    exact (Except.ok.inj h).symm
  · simp only [Exc.bind_eq_ok] at h
    obtain ⟨-, -, -, -, h⟩ := h
    exact (Except.ok.inj h).symm

/-- A run reads the rows through the table alone. -/
theorem normalizeBarFrame_congr (hcolumns : df'.columns = df.columns)
    (htable : v.table rd df.columns (filterToBusinessDate rd v df' snapshotDate) =
      v.table rd df.columns (filterToBusinessDate rd v df snapshotDate)) :
    normalizeBarFrame rd (some df') v.name snapshotDate symbol =
      normalizeBarFrame rd (some df) v.name snapshotDate symbol := by
  have hnil : filterToBusinessDate rd v df' snapshotDate = [] ↔ filterToBusinessDate rd v df snapshotDate = [] := by
    have hleft : v.table rd df.columns (filterToBusinessDate rd v df' snapshotDate) = [] ↔
        filterToBusinessDate rd v df' snapshotDate = [] := table_nil_iff df.columns _
    rw [← hleft, htable, table_nil_iff]
  simp only [normalizeBarFrame, find_name, hcolumns, htable, hnil]

theorem filterToBusinessDate_perm (hcolumns : df'.columns = df.columns) (hp : df'.rows.Perm df.rows) :
    (filterToBusinessDate rd v df' snapshotDate).Perm (filterToBusinessDate rd v df snapshotDate) := by
  simp only [filterToBusinessDate, hcolumns]
  split_ifs
  · exact hp.filter _
  · exact hp

theorem rows_canonical (h : normalizeBarFrame rd (some df) v.name snapshotDate symbol = .ok out) :
    (out.map Bar.quote).Perm ((filterToBusinessDate rd v df snapshotDate).map
      (fun r => ((v.work rd df.columns r).toBar v snapshotDate (zfill6 symbol)).quote)) := by
  have htable : ((v.table rd df.columns (filterToBusinessDate rd v df snapshotDate)).map Work.quote).Perm
      ((filterToBusinessDate rd v df snapshotDate).map (fun r => (v.work rd df.columns r).quote)) := table_quote df.columns _
  have hquote := htable.map (fun w => (w.toBar v snapshotDate (zfill6 symbol)).quote)
  rw [List.map_map, List.map_map] at hquote
  rw [out_of_ok h, List.map_map]
  exact hquote

theorem sorted_iff (h : normalizeBarFrame rd (some df) v.name snapshotDate symbol = .ok out)
    (hx : ∀ w ∈ v.table rd df.columns (filterToBusinessDate rd v df snapshotDate), w.Exact) :
    out.Pairwise (fun a b => a.tsHms ≤ b.tsHms) ↔
      (v.table rd df.columns (filterToBusinessDate rd v df snapshotDate)).Pairwise (fun a b => a.tsLe b = true) := by
  rw [out_of_ok h, List.pairwise_map]
  exact List.Pairwise.iff_of_mem fun ha hb => (tsLe_iff (hx _ ha) (hx _ hb)).symm

theorem banded_canonical (h : normalizeBarFrame rd (some df) v.name snapshotDate symbol = .ok out)
    (hx : ∀ w ∈ v.table rd df.columns (filterToBusinessDate rd v df snapshotDate), w.Exact) (hv : v = .kis) :
    ∀ b ∈ out, b.low ≤ b.close → b.close ≤ b.high → Between (b.low * b.volume) (b.high * b.volume) b.valueKrw := by
  subst hv
  intro b hb
  rw [out_of_ok h] at hb
  obtain ⟨w, hw, rfl⟩ := List.mem_map.1 hb
  exact between_of_kis hw (hx w hw) snapshotDate (zfill6 symbol)

/-- The branches that sort. -/
theorem canonical_of_sorting (h : normalizeBarFrame rd (some df) v.name snapshotDate symbol = .ok out)
    (hx : ∀ w ∈ v.table rd df.columns (filterToBusinessDate rd v df snapshotDate), w.Exact) (hv : v = .kis ∨ v = .dbsec) :
    IsCanonical rd v df snapshotDate symbol out := by
  refine ⟨rows_canonical h, (sorted_iff h hx).2 ?_, fun df' hcolumns hp hd => ?_, banded_canonical h hx⟩
  · have hsorted := sortTs_sorted ((filterToBusinessDate rd v df snapshotDate).map (v.work rd df.columns))
    rcases hv with rfl | rfl
    · have hts : (kisValues none (sortTs ((filterToBusinessDate rd .kis df snapshotDate).map
          (BarVendor.kis.work rd df.columns)))).map Work.quote = _ := kisValues_quote _ _
      have hquote : ∀ ws : List Work, ws.Pairwise (fun a b => a.tsLe b = true) ↔
          (ws.map Work.quote).Pairwise (fun a b => a.tsLe b = true) := fun ws => by
        rw [List.pairwise_map]
        rfl
      rw [BarVendor.table, hquote, hts, ← hquote]
      exact hsorted
    · exact hsorted
  · rw [← h]
    refine normalizeBarFrame_congr hcolumns ?_
    have hperm : (filterToBusinessDate rd v df' snapshotDate).Perm (filterToBusinessDate rd v df snapshotDate) :=
      filterToBusinessDate_perm hcolumns hp
    have hrows := hperm.map (v.work rd df.columns)
    have hsort : sortTs ((filterToBusinessDate rd v df' snapshotDate).map (v.work rd df.columns)) =
        sortTs ((filterToBusinessDate rd v df snapshotDate).map (v.work rd df.columns)) :=
      sortTs_eq_of_perm hrows (by rwa [List.map_map])
    rcases hv with rfl | rfl
    · simp only [BarVendor.table, hsort]
    · simp only [BarVendor.table, hsort]

theorem length_le_one_of_reverse {l : List Int} (hs : l.Pairwise (· ≤ ·)) (hr : l.reverse.Pairwise (· ≤ ·))
    (hd : l.Nodup) : l.length ≤ 1 := by
  rw [List.pairwise_reverse] at hr
  match l with
  | [] => simp
  | [_] => simp
  | a :: b :: l =>
    have hab := (List.pairwise_cons.1 hs).1 b List.mem_cons_self
    have hba := (List.pairwise_cons.1 hr).1 b List.mem_cons_self
    exact absurd (le_antisymm hab hba) (fun heq => (List.nodup_cons.1 hd).1 (heq ▸ List.mem_cons_self))

theorem eq_of_perm_of_length_le_one {α : Type} {l l' : List α} (hp : l'.Perm l) (h : l.length ≤ 1) : l' = l := by
  match l with
  | [] => exact hp.eq_nil
  | [a] => exact List.perm_singleton.1 hp

/-- The branches that leave the rows as they came. -/
theorem canonical_of_plain (h : normalizeBarFrame rd (some df) v.name snapshotDate symbol = .ok out)
    (hx : ∀ w ∈ v.table rd df.columns (filterToBusinessDate rd v df snapshotDate), w.Exact)
    (hv : ∀ rows, v.table rd df.columns rows = rows.map (v.work rd df.columns)) (hkis : v ≠ .kis) :
    IsCanonical rd v df snapshotDate symbol out ↔
      (times rd v df snapshotDate).Pairwise (fun a b => Flt.le a b = true) ∧
        ((times rd v df snapshotDate).Nodup → (times rd v df snapshotDate).length ≤ 1) := by
  have hout := out_of_ok h
  rw [hv] at hout hx
  have hexact : ∀ r ∈ filterToBusinessDate rd v df snapshotDate, (v.work rd df.columns r).Exact := fun r hr =>
    hx _ (List.mem_map_of_mem hr)
  have hsorted : out.Pairwise (fun a b => a.tsHms ≤ b.tsHms) ↔
      (times rd v df snapshotDate).Pairwise (fun a b => Flt.le a b = true) := by
    rw [hout, times, List.pairwise_map, List.pairwise_map, List.pairwise_map]
    exact List.Pairwise.iff_of_mem fun ha hb => castInt_le_iff (hexact _ ha).tsHms (hexact _ hb).tsHms
  constructor
  · intro hc
    refine ⟨hsorted.1 hc.sorted, fun hd => ?_⟩
    -- The input turned around gives the output turned around, which is the output only where there is one time.
    have hrev := out_of_ok (hc.permuted ⟨df.columns, df.rows.reverse⟩ rfl (List.reverse_perm _) hd)
    have hfilter : filterToBusinessDate rd v ⟨df.columns, df.rows.reverse⟩ snapshotDate =
        (filterToBusinessDate rd v df snapshotDate).reverse := by
      simp only [filterToBusinessDate]
      split_ifs
      · exact List.filter_reverse
      · rfl
    rw [hv, hfilter, List.map_reverse, List.map_reverse, ← hout] at hrev
    have hnodup : (out.map Bar.tsHms).Nodup := by
      have hcast : out.map Bar.tsHms = (filterToBusinessDate rd v df snapshotDate).map
          (fun r => castInt 32 (v.work rd df.columns r).tsHms) := by
        rw [hout, List.map_map, List.map_map]
        rfl
      rw [hcast]
      refine List.Nodup.map_on (fun a ha b hb heq => ?_) (List.Nodup.of_map _ hd)
      exact List.inj_on_of_nodup_map hd ha hb (castInt_inj (hexact a ha).tsHms (hexact b hb).tsHms heq)
    have hpair : (out.map Bar.tsHms).Pairwise (· ≤ ·) := List.pairwise_map.2 hc.sorted
    have hlen := length_le_one_of_reverse hpair (by rwa [← List.map_reverse, ← hrev]) hnodup
    rwa [hout, List.length_map, List.length_map, List.length_map, ← List.length_map
      (f := fun r => (v.work rd df.columns r).tsHms)] at hlen
  · rintro ⟨hs, hone⟩
    refine ⟨rows_canonical h, hsorted.2 hs, fun df' hcolumns hp hd => ?_, fun hk => absurd hk hkis⟩
    rw [← h]
    refine normalizeBarFrame_congr hcolumns ?_
    have hrows : (filterToBusinessDate rd v df' snapshotDate).Perm (filterToBusinessDate rd v df snapshotDate) :=
      filterToBusinessDate_perm hcolumns hp
    have hlen := hone hd
    rw [times, List.length_map] at hlen
    rw [eq_of_perm_of_length_le_one hrows hlen]

/-- **Which bar frames are canonical**: those of the vendors whose branch sorts, and of the others those whose rows come in
order with a time that repeats, or with one row. -/
theorem canonical_iff (h : normalizeBarFrame rd (some df) v.name snapshotDate symbol = .ok out)
    (hx : ∀ w ∈ v.table rd df.columns (filterToBusinessDate rd v df snapshotDate), w.Exact) :
    IsCanonical rd v df snapshotDate symbol out ↔ v = .kis ∨ v = .dbsec ∨
      ((times rd v df snapshotDate).Pairwise (fun a b => Flt.le a b = true) ∧
        ((times rd v df snapshotDate).Nodup → (times rd v df snapshotDate).length ≤ 1)) := by
  cases v with
  | kis => simpa using canonical_of_sorting h hx (.inl rfl)
  | dbsec => simpa using canonical_of_sorting h hx (.inr rfl)
  | ls | kiwoom | toss => simpa using canonical_of_plain h hx (fun _ => rfl) (by decide)

end

/-! ## Bars that come newest first -/

/-- Cells are texts, and a number is its decimal digits. -/
def digits : Reader String where
  str s := s
  number s := if s.toList.all Char.isDigit then fin (Nat.ofDigitChars 10 s.toList 0) else nan
  ofText s := if s.toList.all Char.isDigit then fin (Nat.ofDigitChars 10 s.toList 0) else nan

def kiwoomRow (cntrTm : String) : Row String := [cntrTm, "70000", "70000", "70000", "70000", "10"]

/-- Two minutes as the vendor answers them. -/
def newestFirst : Frame String :=
  { columns := ["cntr_tm", "cur_prc", "open_pric", "high_pric", "low_pric", "trde_qty"]
    rows := [kiwoomRow "20260602090100", kiwoomRow "20260602090000"] }

def minute (hms : Int) : Bar := ⟨"2026-06-02", "005930", hms, 70000, 70000, 70000, 70000, 10, 700000, true, .kiwoom⟩

/-- **Bars are not sorted in every branch**: nor is the output the same for the rows in another order. -/
theorem kiwoom_not_sorted :
    normalizeBarFrame digits (some newestFirst) "kiwoom" "2026-06-02" "005930" = .ok [minute 90100, minute 90000] ∧
      normalizeBarFrame digits (some { newestFirst with rows := newestFirst.rows.reverse }) "kiwoom" "2026-06-02" "005930" =
        .ok [minute 90000, minute 90100] ∧
      ¬ [minute 90100, minute 90000].Pairwise (fun a b => a.tsHms ≤ b.tsHms) := by
  refine ⟨?_, ?_, ?_⟩ <;> decide +kernel

theorem kiwoom_not_canonical :
    ¬ IsCanonical digits .kiwoom newestFirst "2026-06-02" "005930" [minute 90100, minute 90000] := by
  rw [canonical_iff (by decide +kernel) (by decide +kernel)]
  decide +kernel

end BarSchema
