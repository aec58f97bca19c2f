import KClosingAlpha.Intraday.Backfill
import KClosingAlpha.Lib.Round
import KClosingAlpha.Ml.TopkFeatures
import Mathlib
/-!
# StoredHistory — a price history as it is written (`data/panel_integrity.py`, `data/parquet_codec.py`)

A panel is healed, checked and then rounded.  The change ratio is derived before the rounding and stored as it is, while
`close` and `prev_close` are rounded each on its own: the stored panel is clean just where rounding keeps their ratio.
Prices are computed exactly.  The columns that neither the healing nor the check reads (flows, values, the board) are left
out; a panel may lack `open`, `high`, `low` and `volume`.
-/
namespace StoredHistory

set_option linter.unusedSectionVars false

open Exc (raiseIf)
open Flt (nan fin inf)
open TopkFeatures (deriveChgRatio krxDailyLimitRatio)
open Round (halfEven)

/-- A panel row; a date that is NaT is `⊤`. -/
structure PanelRow (K : Type) where
  date : WithTop Int
  symbol : String
  open_ : Option (Flt K)
  high : Option (Flt K)
  low : Option (Flt K)
  close : Flt K
  prevClose : Flt K
  volume : Option (Flt K)
  chgRatio : Flt K
  dailyChangePct : Flt K
deriving DecidableEq

inductive WriteError (K : Type) where
  | integrity (mismatching total : Nat) (rows : List (String × WithTop Int × Flt K × Flt K))
  | value (msg : String)
  | volumeOverflow (vmax : Flt K)
  | cast (msg : String)
deriving DecidableEq

variable {K : Type} [Field K] [LinearOrder K] [IsStrictOrderedRing K] [FloorRing K]

/-! ## Healing and the check -/

def PanelRow.key (r : PanelRow K) : Lex (String × WithTop Int) := toLex (r.symbol, r.date)

/-- `sort_values([symbol_col, date_col], kind="stable")`. -/
def sortRows (rows : List (PanelRow K)) : List (PanelRow K) := rows.mergeSort (fun a b => decide (a.key ≤ b.key))

/-- The order the healing and the check work in. -/
def normalized (rows : List (PanelRow K)) : List (PanelRow K) :=
  sortRows (rows.map (fun r => { r with symbol := Intraday.zfill6 r.symbol }))

/-- `groupby(keys).shift(1)`: the close of the row before among those of the symbol. -/
def shifted (before : List (PanelRow K)) (symbol : String) : Flt K :=
  (before.find? (fun r => decide (r.symbol = symbol))).elim nan PanelRow.close

def healRow (before : List (PanelRow K)) (r : PanelRow K) : PanelRow K :=
  let prev := if r.prevClose.isFinite then r.prevClose else shifted before r.symbol
  let chg := deriveChgRatio r.close prev
  { r with prevClose := prev, chgRatio := chg, dailyChangePct := chg }

/-- The rows of a sorted panel, the last one before first in `before`. -/
def healFrom : List (PanelRow K) → List (PanelRow K) → List (PanelRow K)
  | _, [] => []
  | before, r :: rows => healRow before r :: healFrom (healRow before r :: before) rows

def healPriceHistoryPanel (df : List (PanelRow K)) : List (PanelRow K) := healFrom [] (normalized df)

def rtol : K := 1 / 1000000

/-- `np.isclose(stored, truth, rtol=rtol, atol=0.0, equal_nan=True)`. -/
def isclose (stored truth : Flt K) : Bool :=
  decide (stored = truth) || (truth.isFinite && Flt.le (Flt.abs (Flt.sub stored truth)) (Flt.mul (fin rtol) (Flt.abs truth)))

def assertPriceHistoryUnitsClean (df : List (PanelRow K)) : Except (WriteError K) Unit :=
  let work := normalized df
  let truth (r : PanelRow K) := deriveChgRatio r.close r.prevClose
  let bad := work.filter (fun r => !isclose r.dailyChangePct (truth r))
  raiseIf (bad ≠ []) (.integrity bad.length work.length
    ((bad.take 3).map (fun r => (r.symbol, r.date, r.dailyChangePct, truth r))))

/-! ## Writing -/

/-- `Series.round()`. -/
def rounded : Flt K → Flt K
  | .fin x => fin (halfEven x : K)
  | .inf m => inf m
  | .nan => nan

/-- PRICE_HISTORY_NULLABLE_INT32_COLUMNS, where the panel has them. -/
def int32Columns : List (String × (PanelRow K → Option (Flt K))) :=
  [("open", PanelRow.open_), ("high", PanelRow.high), ("low", PanelRow.low), ("close", fun r => some r.close),
   ("prev_close", fun r => some r.prevClose)]

def int32Min : K := -2147483648

def int32Max : K := 2147483647

def int64Max : K := 9223372036854775807

def overflowsInt32 (x : Flt K) : Bool := Flt.lt (rounded x) (fin int32Min) || Flt.lt (fin int32Max) (rounded x)

/-- `Series.max(skipna=True)`. -/
def maxSkipna (l : List (Flt K)) : Flt K :=
  l.foldl (fun m v => if v.isNan then m else if m.isNan || Flt.lt m v then v else m) nan

/-- Towards zero. -/
def towardsZero (x : K) : ℤ := if 0 ≤ x then ⌊x⌋ else ⌈x⌉

/-- `astype("Int64")` of a column with a missing value, `astype("int64")` of one without. -/
def castVolume (hasNa : Bool) : Flt K → Except (WriteError K) (Flt K)
  | .nan => .ok nan
  | .inf _ => .error (.cast "Cannot convert non-finite values (NA or inf) to integer")
  | .fin x =>
    if hasNa = true ∧ (⌊x⌋ : K) ≠ x then .error (.cast "cannot safely cast non-equivalent float64 to int64")
    else .ok (fin (towardsZero x : K))

/-- The prices of a row in their storage type. -/
def PanelRow.downcast (r : PanelRow K) : PanelRow K :=
  { r with
    open_ := r.open_.map rounded
    high := r.high.map rounded
    low := r.low.map rounded
    close := rounded r.close
    prevClose := rounded r.prevClose }

/-- The checks and casts of `downcast_price_history_frame`. -/
def castColumns (df : List (PanelRow K)) : Except (WriteError K) (List (PanelRow K)) := do
  int32Columns.forM (fun col => raiseIf (df.any (fun r => (col.2 r).any overflowsInt32) = true)
    (.value ("Column '" ++ col.1 ++ "' overflows int32 range [-2147483648, 2147483647]")))
  let volumes := df.filterMap PanelRow.volume
  raiseIf (Flt.lt (fin int64Max) (maxSkipna volumes) = true) (.volumeOverflow (maxSkipna volumes))
  df.mapM (fun r => do
    let volume ← r.volume.elim (.ok none) (fun v => some <$> castVolume (volumes.any Flt.isNan) v)
    .ok { r.downcast with volume := volume })

def downcastPriceHistoryFrame (df : List (PanelRow K)) : Except (WriteError K) (List (PanelRow K)) := do
  let stored ← castColumns df
  .ok (sortRows stored)

/-- `write_price_history_parquet`: what it writes. -/
def writePriceHistoryParquet (df : List (PanelRow K)) : Except (WriteError K) (List (PanelRow K)) := do
  assertPriceHistoryUnitsClean df
  downcastPriceHistoryFrame df

/-! ## What healing leaves alone -/

theorem length_zfill6 (s : String) : 6 ≤ (Intraday.zfill6 s).toList.length := by
  unfold Intraday.zfill6
  split <;> simp <;> omega

theorem zfill6_of_length {s : String} (h : 6 ≤ s.toList.length) : Intraday.zfill6 s = s := by
  unfold Intraday.zfill6
  split
  · next cs hs =>
    rw [hs, List.length_cons] at h
    rw [Nat.sub_eq_zero_of_le (by omega), List.replicate_zero, List.nil_append, ← hs, String.ofList_toList]
  · next cs hs =>
    rw [hs, List.length_cons] at h
    rw [Nat.sub_eq_zero_of_le (by omega), List.replicate_zero, List.nil_append, ← hs, String.ofList_toList]
  · rw [Nat.sub_eq_zero_of_le h, List.replicate_zero, List.nil_append, String.ofList_toList]

/-- A panel in the order of the healing, its symbols padded. -/
structure Normal (rows : List (PanelRow K)) : Prop where
  sorted : rows.Pairwise (fun a b => a.key ≤ b.key)
  padded : ∀ r ∈ rows, 6 ≤ r.symbol.toList.length

theorem normal_normalized (rows : List (PanelRow K)) : Normal (normalized rows) := by
  refine ⟨?_, fun r hr => ?_⟩
  · have hsorted : (normalized rows).Pairwise (fun a b : PanelRow K => decide (a.key ≤ b.key) = true) :=
      List.pairwise_mergeSort
        (fun a b c hab hbc => by simpa using le_trans (of_decide_eq_true hab) (of_decide_eq_true hbc))
        (fun a b => by simpa using le_total a.key b.key) _
    exact hsorted.imp fun h => of_decide_eq_true h
  · obtain ⟨r', -, rfl⟩ := List.mem_map.1 ((List.mergeSort_perm _ _).mem_iff.1 hr)
    exact length_zfill6 r'.symbol

theorem Normal.sortRows_eq {rows : List (PanelRow K)} (h : Normal rows) : sortRows rows = rows :=
  List.mergeSort_of_pairwise (h.sorted.imp fun hab => by simpa using hab)

theorem Normal.normalized_eq {rows : List (PanelRow K)} (h : Normal rows) : normalized rows = rows := by
  have hpad : rows.map (fun r => { r with symbol := Intraday.zfill6 r.symbol }) = rows := by
    refine (List.map_congr_left fun r hr => ?_).trans rows.map_id
    rw [zfill6_of_length (h.padded r hr)]
    rfl
  rw [normalized, hpad, h.sortRows_eq]

/-- Rows that agree in their keys. -/
theorem Normal.of_keys {rows rows' : List (PanelRow K)} (h : Normal rows)
    (hkeys : List.Forall₂ (fun r r' => r'.key = r.key) rows rows') : Normal rows' := by
  have hmap : rows'.map PanelRow.key = rows.map PanelRow.key := by
    induction hkeys with
    | nil => rfl
    | cons hr _ ih =>
      rw [List.map_cons, List.map_cons, hr, ih ⟨h.sorted.of_cons, fun r hr => h.padded r (List.mem_cons_of_mem _ hr)⟩]
  refine ⟨?_, fun r' hr' => ?_⟩
  · have hsorted := h.sorted
    rw [← List.pairwise_map (f := PanelRow.key) (R := (· ≤ ·))] at hsorted ⊢
    rwa [hmap]
  · obtain ⟨r, hr, hkey⟩ := List.mem_map.1 (hmap ▸ List.mem_map_of_mem (f := PanelRow.key) hr')
    have hsymbol : r.symbol = r'.symbol := congrArg (fun k => (ofLex k).1) hkey
    exact hsymbol ▸ h.padded r hr

theorem healFrom_keys : ∀ before rows : List (PanelRow K),
    List.Forall₂ (fun r r' => r'.key = r.key) rows (healFrom before rows)
  | _, [] => .nil
  | before, r :: rows => .cons rfl (healFrom_keys (healRow before r :: before) rows)

theorem normal_heal (df : List (PanelRow K)) : Normal (healPriceHistoryPanel df) :=
  (normal_normalized df).of_keys (healFrom_keys _ _)

/-- A healed row carries the ratio of its prices. -/
theorem dailyChangePct_of_mem : ∀ {before rows : List (PanelRow K)} {r : PanelRow K}, r ∈ healFrom before rows →
    r.dailyChangePct = deriveChgRatio r.close r.prevClose
  | _, [], _, h => by cases h
  | before, r' :: rows, r, h => by
    rcases List.mem_cons.1 h with rfl | h
    · rfl
    · exact dailyChangePct_of_mem h

/-- **A healed panel passes the check.** -/
theorem assert_heal (df : List (PanelRow K)) : assertPriceHistoryUnitsClean (healPriceHistoryPanel df) = .ok () := by
  rw [assertPriceHistoryUnitsClean, Exc.raiseIf_eq_ok, not_not, (normal_heal df).normalized_eq, List.filter_eq_nil_iff]
  intro r hr
  simp [isclose, dailyChangePct_of_mem hr]

/-! ## What rounding leaves alone -/

/-- A base above zero and a change inside the daily limit. -/
def Derivable (c p : K) : Prop := 0 < p ∧ |c / p - 1| ≤ krxDailyLimitRatio

/-- The rounded prices have the ratio of the prices, or neither pair has one. -/
def RatioKept : Flt K → Flt K → Prop
  | .fin c, .fin p => (Derivable c p ↔ Derivable (halfEven c : K) (halfEven p : K)) ∧
      (Derivable c p → (halfEven c : K) / (halfEven p : K) = c / p)
  | _, _ => True

open Classical in
theorem deriveChgRatio_fin (c p : K) :
    deriveChgRatio (fin c) (fin p) = if Derivable c p then fin (c / p - 1) else nan := by
  have habs : ∀ x : K, Flt.abs (fin x) = fin |x| := fun x => by
    rw [Flt.abs]
    rcases lt_or_ge x 0 with hx | hx
    · rw [if_pos hx, abs_of_neg hx]
    · rw [if_neg (not_lt.2 hx), abs_of_nonneg hx]
  by_cases hp : 0 < p
  · by_cases hle : |c / p - 1| ≤ krxDailyLimitRatio
    · rw [if_pos ⟨hp, hle⟩]
      simp [deriveChgRatio, hp, Flt.fin_div_fin _ hp.ne', habs, not_lt.2 hle]
    · rw [if_neg fun h => hle h.2]
      simp [deriveChgRatio, hp, Flt.fin_div_fin _ hp.ne', habs, not_le.1 hle]
  · rw [if_neg fun h => hp h.1]
    simp [deriveChgRatio, hp, Flt.sub]

theorem deriveChgRatio_nan_left (p : Flt K) : deriveChgRatio nan p = nan := by
  simp [deriveChgRatio, Flt.isFinite, Flt.sub]

theorem deriveChgRatio_nan_right (c : Flt K) : deriveChgRatio c nan = nan := by
  simp [deriveChgRatio, Flt.isFinite, Flt.sub]

/-- The derived ratio of the rounded prices is that of the prices just where rounding keeps it. -/
theorem deriveChgRatio_rounded_iff {c p : Flt K} (hc : ∀ m, c ≠ inf m) (hp : ∀ m, p ≠ inf m) :
    deriveChgRatio (rounded c) (rounded p) = deriveChgRatio c p ↔ RatioKept c p := by
  cases c with
  | inf m => exact absurd rfl (hc m)
  | nan => simp [rounded, deriveChgRatio_nan_left, RatioKept]
  | fin c =>
    cases p with
    | inf m => exact absurd rfl (hp m)
    | nan => simp [rounded, deriveChgRatio_nan_right, RatioKept]
    | fin p =>
      simp only [rounded, deriveChgRatio_fin, RatioKept]
      by_cases h : Derivable c p
      · by_cases h' : Derivable (halfEven c : K) (halfEven p : K)
        · simp [h, h']
        · simp [h, h']
      · by_cases h' : Derivable (halfEven c : K) (halfEven p : K)
        · simp [h, h']
        · simp [h, h']

theorem halfEven_pos_iff (c : K) : 0 < halfEven c ↔ 1 / 2 < c := by
  constructor
  · intro h
    by_contra hc
    have hle : halfEven c ≤ halfEven (1 / 2 : K) := Round.halfEven_mono (not_lt.1 hc)
    have hhalf : halfEven (1 / 2 : K) = 0 := by
      have hfloor : ⌊(1 / 2 : K)⌋ = 0 := Int.floor_eq_iff.2 ⟨by norm_num, by norm_num⟩
      norm_num [halfEven, hfloor]
    omega
  · intro h
    by_cases hone : 1 ≤ c
    · have := Round.le_halfEven_of_int (n := 1) (by simpa using hone)
      omega
    · have hfloor : ⌊c⌋ = 0 := Int.floor_eq_iff.2 ⟨by simpa using le_of_lt (lt_trans (by norm_num) h), by simpa using hone⟩
      have hsub : c - (⌊c⌋ : K) = c := by rw [hfloor, Int.cast_zero, sub_zero]
      rw [halfEven, hsub, if_neg (not_lt.2 h.le), if_pos h, hfloor]
      norm_num

/-- A row and what is stored of it. -/
def PanelRow.Stored (r r' : PanelRow K) : Prop := ∃ volume, r' = { r.downcast with volume := volume }

theorem shifted_stored (symbol : String) : ∀ {before before' : List (PanelRow K)},
    List.Forall₂ PanelRow.Stored before before' → shifted before' symbol = rounded (shifted before symbol)
  | _, _, .nil => rfl
  | r :: _, _, .cons ⟨volume, hr⟩ hbefore => by
    subst hr
    have ih := shifted_stored symbol hbefore
    by_cases hs : r.symbol = symbol
    · simp [shifted, PanelRow.downcast, hs]
    · simpa [shifted, PanelRow.downcast, hs] using ih

/-- Healing leaves a stored row alone just where rounding keeps its ratio. -/
theorem healRow_stored {before before' : List (PanelRow K)} (hbefore : List.Forall₂ PanelRow.Stored before before')
    (r : PanelRow K) {r' : PanelRow K} (hr : (healRow before r).Stored r')
    (hc : ∀ m, (healRow before r).close ≠ inf m) (hp : ∀ m, (healRow before r).prevClose ≠ inf m) :
    healRow before' r' = r' ↔ RatioKept (healRow before r).close (healRow before r).prevClose := by
  obtain ⟨volume, rfl⟩ := hr
  have hprev : (if (rounded (healRow before r).prevClose).isFinite then rounded (healRow before r).prevClose
      else shifted before' r.symbol) = rounded (healRow before r).prevClose := by
    rw [shifted_stored r.symbol hbefore]
    by_cases hfin : r.prevClose.isFinite = true
    · have heq : (healRow before r).prevClose = r.prevClose := by simp [healRow, hfin]
      cases hx : r.prevClose with
      | fin x => simp [heq, hx, rounded]
      | nan => simp [hx, Flt.isFinite] at hfin
      | inf m => simp [hx, Flt.isFinite] at hfin
    · have heq : (healRow before r).prevClose = shifted before r.symbol := by simp [healRow, hfin]
      rw [heq, ite_self]
  have hchg : (healRow before r).chgRatio = deriveChgRatio (healRow before r).close (healRow before r).prevClose := rfl
  have hdcp : (healRow before r).dailyChangePct = deriveChgRatio (healRow before r).close (healRow before r).prevClose := rfl
  have hsymbol : (healRow before r).symbol = r.symbol := rfl
  rw [← deriveChgRatio_rounded_iff hc hp]
  generalize healRow before r = h at *
  constructor
  · intro heq
    have hsame := congrArg PanelRow.dailyChangePct heq
    simpa only [healRow, PanelRow.downcast, hsymbol, hprev, hdcp] using hsame
  · intro hsame
    simp only [healRow, PanelRow.downcast, hsymbol, hprev, hsame, hchg, hdcp]

/-- **Healing leaves the stored rows alone just where rounding keeps every ratio.** -/
theorem healFrom_stored : ∀ {rows before before' stored : List (PanelRow K)},
    List.Forall₂ PanelRow.Stored before before' → List.Forall₂ PanelRow.Stored (healFrom before rows) stored →
    (∀ r ∈ healFrom before rows, ∀ m, r.close ≠ inf m ∧ r.prevClose ≠ inf m) →
    (healFrom before' stored = stored ↔ ∀ r ∈ healFrom before rows, RatioKept r.close r.prevClose)
  | [], _, _, _, _, .nil, _ => by simp [healFrom]
  | r :: rows, before, before', _ :: stored, hbefore, .cons hr hstored, hinf => by
    have hrow := healRow_stored hbefore r hr (fun m => (hinf _ List.mem_cons_self m).1)
      (fun m => (hinf _ List.mem_cons_self m).2)
    have ih := healFrom_stored (.cons hr hbefore) hstored fun r' hr' => hinf r' (List.mem_cons_of_mem _ hr')
    rw [healFrom, healFrom, List.cons.injEq, List.forall_mem_cons, ← hrow]
    refine and_congr_right fun heq => ?_
    rw [heq]
    exact ih

theorem not_inf_of_overflowsInt32 {x : Flt K} (h : overflowsInt32 x = false) (m : Bool) : x ≠ inf m := by
  rintro rfl
  cases m <;> simp [overflowsInt32, rounded, Flt.lt] at h

/-- What a write stores, row by row. -/
theorem stored_of_write {panel stored : List (PanelRow K)} (hn : Normal panel)
    (h : writePriceHistoryParquet panel = .ok stored) : List.Forall₂ PanelRow.Stored panel stored ∧
      ∀ r ∈ panel, ∀ m, r.close ≠ inf m ∧ r.prevClose ≠ inf m := by
  simp only [writePriceHistoryParquet, downcastPriceHistoryFrame, castColumns, Exc.bind_eq_ok] at h
  obtain ⟨_, -, l, ⟨_, hint, _, -, hl⟩, h⟩ := h
  have hrows : List.Forall₂ PanelRow.Stored panel l := by
    refine (Exc.forall₂_of_mapM_eq_ok hl).imp fun r r' hr => ?_
    obtain ⟨volume, -, hr⟩ := (Exc.bind_eq_ok _ _ _).1 hr
    exact ⟨volume, (Except.ok.inj hr).symm⟩
  have hsorted : Normal l := hn.of_keys (hrows.imp fun r r' hr => by
    obtain ⟨volume, rfl⟩ := hr
    rfl)
  rw [hsorted.sortRows_eq, Except.ok.injEq] at h
  have hcolumn : ∀ name (get : PanelRow K → Option (Flt K)), (name, get) ∈ int32Columns → ∀ r ∈ panel, ∀ x, get r = some x →
      ∀ m, x ≠ inf m := fun name get hmem r hr x hx m => by
    have hraise := Exc.forM_eq_ok.1 hint (name, get) hmem
    rw [Exc.raiseIf_eq_ok, Bool.not_eq_true, List.any_eq_false] at hraise
    exact not_inf_of_overflowsInt32 (by simpa [hx] using hraise r hr) m
  exact ⟨h ▸ hrows, fun r hr m => ⟨hcolumn "close" (fun r => some r.close) (by simp [int32Columns]) r hr _ rfl m,
    hcolumn "prev_close" (fun r => some r.prevClose) (by simp [int32Columns]) r hr _ rfl m⟩⟩

/-! ## A written price history is clean -/

/-- What is written passes the check, healing it changes nothing, and a positive close is stored as one. -/
structure StoredClean (panel stored : List (PanelRow K)) : Prop where
  clean : assertPriceHistoryUnitsClean stored = .ok ()
  healed : healPriceHistoryPanel stored = stored
  positive : List.Forall₂
    (fun r r' => r'.key = r.key ∧ (Flt.lt (fin 0) r.close = true → Flt.lt (fin 0) r'.close = true)) panel stored

theorem rounded_pos_iff (x : Flt K) : Flt.lt (fin 0) (rounded x) = true ↔ Flt.lt (fin (1 / 2)) x = true := by
  cases x with
  | nan => simp [rounded, Flt.lt]
  | inf m => simp [rounded, Flt.lt]
  | fin x => simpa [rounded] using halfEven_pos_iff x

/-- **Which healed panels are stored clean**: those whose rounded prices keep their ratios, with no positive close up to a
half. -/
theorem stored_clean_iff {df stored : List (PanelRow K)}
    (h : writePriceHistoryParquet (healPriceHistoryPanel df) = .ok stored) :
    StoredClean (healPriceHistoryPanel df) stored ↔ ∀ r ∈ healPriceHistoryPanel df,
      RatioKept r.close r.prevClose ∧ (Flt.lt (fin 0) r.close = true → Flt.lt (fin (1 / 2)) r.close = true) := by
  have hn := normal_heal df
  obtain ⟨hstored, hinf⟩ := stored_of_write hn h
  have hnstored : Normal stored := hn.of_keys (hstored.imp fun r r' hr => by
    obtain ⟨volume, rfl⟩ := hr
    rfl)
  have hheal : healPriceHistoryPanel stored = stored ↔
      ∀ r ∈ healPriceHistoryPanel df, RatioKept r.close r.prevClose := by
    rw [healPriceHistoryPanel, hnstored.normalized_eq]
    exact healFrom_stored .nil hstored hinf
  have hpositive : (∀ r ∈ healPriceHistoryPanel df, Flt.lt (fin 0) r.close = true → Flt.lt (fin (1 / 2)) r.close = true) ↔
      List.Forall₂ (fun r r' => r'.key = r.key ∧ (Flt.lt (fin 0) r.close = true → Flt.lt (fin 0) r'.close = true))
        (healPriceHistoryPanel df) stored := by
    have hrow : ∀ r r' : PanelRow K, r.Stored r' → ((Flt.lt (fin 0) r.close = true → Flt.lt (fin (1 / 2)) r.close = true) ↔
        r'.key = r.key ∧ (Flt.lt (fin 0) r.close = true → Flt.lt (fin 0) r'.close = true)) := by
      rintro r r' ⟨volume, rfl⟩
      rw [← rounded_pos_iff]
      exact ⟨fun hr => ⟨rfl, hr⟩, And.right⟩
    constructor
    · intro hall
      exact ((List.forall₂_and_left _ _).2 ⟨hall, hstored⟩).imp fun r r' hr => (hrow r r' hr.2).1 hr.1
    · intro hall
      have hboth : List.Forall₂ (fun r r' => (Flt.lt (fin 0) r.close = true → Flt.lt (fin (1 / 2)) r.close = true) ∧
          r.Stored r') (healPriceHistoryPanel df) stored := by
        rw [List.forall₂_iff_zip] at hstored ⊢
        exact ⟨hstored.1, fun hmem => ⟨(hrow _ _ (hstored.2 hmem)).2 (List.forall₂_zip hall hmem), hstored.2 hmem⟩⟩
      exact ((List.forall₂_and_left _ _).1 hboth).1
  constructor
  · intro hclean r hr
    exact ⟨hheal.1 hclean.healed r hr, hpositive.2 hclean.positive r hr⟩
  · intro hall
    have hhealed := hheal.2 fun r hr => (hall r hr).1
    refine ⟨?_, hhealed, hpositive.1 fun r hr => (hall r hr).2⟩
    rw [← hhealed]
    exact assert_heal stored

/-! ## A low adjusted price -/

theorem sortRows_singleton (r : PanelRow K) : sortRows [r] = [r] := List.mergeSort_singleton _

theorem normalized_singleton (r : PanelRow K) : normalized [r] = [{ r with symbol := Intraday.zfill6 r.symbol }] :=
  sortRows_singleton _

/-- A price scaled down by later events: 10.4 after 10.6. -/
def lowRow : PanelRow ℚ :=
  ⟨(16000 : Int), "005930", none, none, none, fin (104 / 10), fin (106 / 10), none, nan, nan⟩

def lowStored : PanelRow ℚ :=
  { lowRow with close := fin 10, prevClose := fin 11, chgRatio := fin (-1 / 53), dailyChangePct := fin (-1 / 53) }

theorem write_lowRow : writePriceHistoryParquet (healPriceHistoryPanel [lowRow]) = .ok [lowStored] := by
  have hcast : castColumns (healFrom [] [{ lowRow with symbol := Intraday.zfill6 lowRow.symbol }]) = .ok [lowStored] := by
    decide +kernel
  rw [writePriceHistoryParquet, assert_heal, Exc.ok_bind, downcastPriceHistoryFrame, healPriceHistoryPanel,
    normalized_singleton, hcast, Exc.ok_bind, sortRows_singleton]

/-- **A panel that is written fails the check when it is read back.** -/
theorem stored_not_clean : writePriceHistoryParquet (healPriceHistoryPanel [lowRow]) = .ok [lowStored] ∧
    assertPriceHistoryUnitsClean [lowStored] ≠ .ok () ∧ healPriceHistoryPanel [lowStored] ≠ [lowStored] := by
  refine ⟨write_lowRow, ?_, ?_⟩
  · rw [assertPriceHistoryUnitsClean, normalized_singleton]
    decide +kernel
  · rw [healPriceHistoryPanel, normalized_singleton]
    decide +kernel

/-- Whole prices are stored as they are. -/
def wholeRow : PanelRow ℚ :=
  ⟨(16000 : Int), "005930", some (fin 70000), some (fin 71000), some (fin 69900), fin 71000, fin 70000, some (fin 1000), nan, nan⟩

theorem whole_stored_clean : ∃ stored, writePriceHistoryParquet (healPriceHistoryPanel [wholeRow]) = .ok stored ∧
    StoredClean (healPriceHistoryPanel [wholeRow]) stored := by
  have hheal : healPriceHistoryPanel [wholeRow] = [{ wholeRow with chgRatio := fin (1 / 70), dailyChangePct := fin (1 / 70) }] := by
    rw [healPriceHistoryPanel, normalized_singleton]
    decide +kernel
  have hwrite : writePriceHistoryParquet (healPriceHistoryPanel [wholeRow]) =
      .ok [{ wholeRow with chgRatio := fin (1 / 70), dailyChangePct := fin (1 / 70) }] := by
    have hcast : castColumns [{ wholeRow with chgRatio := fin (1 / 70), dailyChangePct := fin (1 / 70) }] =
        .ok [{ wholeRow with chgRatio := fin (1 / 70), dailyChangePct := fin (1 / 70) }] := by decide +kernel
    rw [writePriceHistoryParquet, assert_heal, Exc.ok_bind, downcastPriceHistoryFrame, hheal, hcast, Exc.ok_bind,
      sortRows_singleton]
  refine ⟨_, hwrite, (stored_clean_iff hwrite).2 ?_⟩
  rw [hheal]
  intro r hr
  obtain rfl := List.mem_singleton.1 hr
  have hround : ∀ n : ℤ, (halfEven (n : ℚ) : ℚ) = n := fun n => by rw [Round.halfEven_intCast]
  refine ⟨?_, by decide +kernel⟩
  have h71 := hround 71000
  have h70 := hround 70000
  norm_num at h71 h70
  simp [RatioKept, wholeRow, h71, h70]

end StoredHistory
