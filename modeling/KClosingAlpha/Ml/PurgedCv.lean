import KClosingAlpha.Lib.Exc
import KClosingAlpha.Ml.RobustEval
import KClosingAlpha.Py.Float
import Mathlib.Order.Interval.Finset.Nat
/-!
# PurgedCv — the walk-forward splitter and the split for calibration (`ml/purged_cv.py`)

The folds test the last blocks of the sorted groups, each trained on what is behind its gap.  The groups are any ordered
values; `np.isin` looks them up by what `tolist` makes of them, so both are a parameter.
-/
namespace Ml

open Py (PyFloat)

inductive CvError where
  | value (msg : String)
  | overflow
  | index
  deriving DecidableEq

section

variable {γ κ : Type} [LinearOrder γ]

/-- The place of a group among the sorted ones. -/
def position (groups : List γ) (v : γ) : Nat := (uniqueSorted groups).idxOf v

/-- `np.flatnonzero` of what holds of the positions. -/
def rowsWhere (p : Nat → Bool) (positions : List Nat) : List Nat :=
  (List.range positions.length).filter (fun i => (positions[i]?).any p)

/-! ## The walk-forward splitter -/

structure PurgedGroupTimeSeriesSplit where
  nSplits : Nat
  purgeGap : Nat
  one_le : 1 ≤ nSplits

namespace PurgedGroupTimeSeriesSplit

theorem one_le_toNat {n : Int} (h : ¬ n < 1) : 1 ≤ n.toNat := by omega

/-- `__init__`. -/
def init (nSplits purgeGap : Int) : Except CvError PurgedGroupTimeSeriesSplit :=
  if h : nSplits < 1 then .error (.value ("n_splits must be >= 1, got " ++ toString nSplits))
  else if purgeGap < 0 then .error (.value ("purge_gap must be >= 0, got " ++ toString purgeGap))
  else .ok ⟨nSplits.toNat, purgeGap.toNat, one_le_toNat h⟩

variable (cv : PurgedGroupTimeSeriesSplit)

/-- `range(start, stop, step)`. -/
def range (start stop step : Nat) : List Nat := List.range' start ((stop - start + (step - 1)) / step) step

def fold (positions : List Nat) (testSize testStart : Nat) : List Nat × List Nat :=
  (rowsWhere (fun p => decide (p < testStart - cv.purgeGap)) positions,
    rowsWhere (fun p => decide (testStart ≤ p) && decide (p < testStart + testSize)) positions)

def split (groups : Option (List γ)) : Except CvError (List (List Nat × List Nat)) :=
  match groups with
  | none => .error (.value "groups must be provided for PurgedGroupTimeSeriesSplit")
  | some groups =>
    let nGroups := (uniqueSorted groups).length
    if nGroups < cv.nSplits + 1 then
      .error (.value ("n_splits=" ++ toString cv.nSplits ++ " requires at least " ++ toString (cv.nSplits + 1) ++
        " unique groups, got " ++ toString nGroups))
    else
      let testSize := nGroups / (cv.nSplits + 1)
      .ok ((range (nGroups - cv.nSplits * testSize) nGroups testSize).map
        (cv.fold (groups.map (position groups)) testSize))

end PurgedGroupTimeSeriesSplit

/-! ## The split for calibration -/

/-- What `ndarray.tolist` makes of a value, and whether `np.isin` finds a value among such. -/
structure Numpy (γ κ : Type) where
  tolist : γ → κ
  isin : γ → List κ → Bool

/-- `int(np.ceil(n * calib_frac))`. -/
def ceilProduct (n : Nat) (calibFrac : PyFloat) : Except CvError Int :=
  match (PyFloat.ofInt n).mul calibFrac with
  | .nan => .error (.value "cannot convert float NaN to integer")
  | .inf _ => .error .overflow
  | .finite neg mant exp _ =>
    .ok (-((-(PyFloat.signedRatio neg mant exp).1) / ((PyFloat.signedRatio neg mant exp).2 : Int)))

/-- The rows of a mask. -/
def masked (trainIdx : List Nat) (trainGroups : List γ) (p : γ → Bool) : List Nat :=
  ((trainIdx.zip trainGroups).filter (fun x => p x.2)).map Prod.fst

/-- `calib_size`, of the number of groups and `int(np.ceil(n * calib_frac))`. -/
def calibSize (n : Nat) (size : Int) : Nat := (max 1 (min ((n : Int) - 1) size)).toNat

/-- `chrono_fit_calibration_split`. -/
def chronoFitCalibrationSplit (np : Numpy γ κ) (groupValues : List γ) (trainIdx : List Nat) (calibFrac : PyFloat)
    (embargo : Int) : Except CvError (List Nat × List Nat) :=
  if trainIdx = [] then .ok ([], [])
  else do
    let trainGroups ← trainIdx.mapM fun i => (groupValues[i]?).elim (.error .index) .ok
    let unique := uniqueSorted trainGroups
    if unique.length < 3 then pure (trainIdx, [])
    else do
      let size ← ceilProduct unique.length calibFrac
      let fitSize := unique.length - calibSize unique.length size
      let calibGroups := (unique.drop fitSize).map np.tolist
      let fitGroups := (unique.take (max 0 ((fitSize : Int) - embargo)).toNat).map np.tolist
      if fitGroups.isEmpty then pure ([], trainIdx)
      else pure (masked trainIdx trainGroups (np.isin · fitGroups), masked trainIdx trainGroups (np.isin · calibGroups))

/-! ## Positions -/

theorem position_lt {groups : List γ} {v : γ} (hv : v ∈ groups) : position groups v < (uniqueSorted groups).length :=
  List.idxOf_lt_length_of_mem (mem_uniqueSorted.2 hv)

theorem position_inj {groups : List γ} {v w : γ} (hv : v ∈ groups) (h : position groups v = position groups w) : v = w :=
  (List.idxOf_inj (mem_uniqueSorted.2 hv)).1 h

/-- Every place is that of a row. -/
theorem exists_position {groups : List γ} {p : Nat} (hp : p < (uniqueSorted groups).length) :
    ∃ i : Nat, ∃ v ∈ groups[i]?, position groups v = p := by
  obtain ⟨i, hi, hrow⟩ := List.mem_iff_getElem.1 (mem_uniqueSorted.1 (List.getElem_mem hp))
  refine ⟨i, _, List.getElem?_eq_getElem hi, ?_⟩
  rw [hrow, position, (nodup_uniqueSorted groups).idxOf_getElem]

theorem mem_rowsWhere {groups : List γ} {p : Nat → Bool} {i : Nat} :
    i ∈ rowsWhere p (groups.map (position groups)) ↔ ∃ v ∈ groups[i]?, p (position groups v) = true := by
  unfold rowsWhere
  rw [List.mem_filter, List.mem_range, List.length_map, List.getElem?_map]
  cases hv : groups[i]? with
  | none => simp
  | some v =>
    have := (List.getElem?_eq_some_iff.1 hv).1
    simp [this]

omit [LinearOrder γ] in
theorem mem_drop_iff_le_idxOf [DecidableEq γ] {l : List γ} (hl : l.Nodup) {v : γ} (hv : v ∈ l) (k : Nat) :
    v ∈ l.drop k ↔ k ≤ l.idxOf v := by
  rw [← List.take_append_drop k l, List.nodup_append] at hl
  constructor
  · intro h
    by_contra hlt
    exact hl.2.2 v ((List.mem_take_iff_idxOf_lt hv).2 (by omega)) v h rfl
  · intro h
    rw [← List.take_append_drop k l, List.mem_append] at hv
    refine hv.resolve_left fun ht => ?_
    have := (List.mem_take_iff_idxOf_lt (List.mem_of_mem_take ht)).1 ht
    omega

/-! ## The folds -/

namespace PurgedGroupTimeSeriesSplit

variable (cv : PurgedGroupTimeSeriesSplit)

/-- The groups of a block. -/
def blockSize (groups : List γ) : Nat := (uniqueSorted groups).length / (cv.nSplits + 1)

/-- Where a block starts; the last one ends at the last group. -/
def blockStart (groups : List γ) (k : Nat) : Nat :=
  (uniqueSorted groups).length - cv.nSplits * cv.blockSize groups + k * cv.blockSize groups

/-- What the splitter promises of its folds, each the rows to train on and those to test. -/
structure Splits (groups : List γ) (folds : List (List Nat × List Nat)) : Prop where
  count : folds.length = cv.nSplits
  tail : 0 < cv.blockSize groups ∧ cv.blockStart groups cv.nSplits = (uniqueSorted groups).length
  block : ∀ k f, folds[k]? = some f → ∀ i, i ∈ f.2 ↔
    ∃ v ∈ groups[i]?, cv.blockStart groups k ≤ position groups v ∧ position groups v < cv.blockStart groups (k + 1)
  size : ∀ f ∈ folds, (f.2.filterMap (groups[·]?)).toFinset.card = cv.blockSize groups
  disjoint : folds.Pairwise fun f g => ∀ i ∈ f.2, i ∉ g.2
  apart : ∀ f ∈ folds, ∀ i ∈ f.1, ∀ j ∈ f.2, ∀ v ∈ groups[i]?, ∀ w ∈ groups[j]?,
    position groups v + cv.purgeGap < position groups w
  dates : ∀ f ∈ folds, ∀ i ∈ f.1, ∀ j ∈ f.2, groups[i]? ≠ groups[j]?
  train : ∀ k f, folds[k]? = some f → cv.purgeGap < cv.blockStart groups k → f.1 ≠ []

variable {cv} {groups : List γ} {folds : List (List Nat × List Nat)}

theorem blockSize_pos (h : cv.nSplits + 1 ≤ (uniqueSorted groups).length) : 0 < cv.blockSize groups :=
  Nat.div_pos h (by omega)

theorem blocks_le (cv : PurgedGroupTimeSeriesSplit) (groups : List γ) :
    cv.nSplits * cv.blockSize groups + cv.blockSize groups ≤ (uniqueSorted groups).length := by
  have h := Nat.mul_div_le (uniqueSorted groups).length (cv.nSplits + 1)
  rw [Nat.succ_mul] at h
  exact h

theorem blockStart_succ (cv : PurgedGroupTimeSeriesSplit) (groups : List γ) (k : Nat) :
    cv.blockStart groups (k + 1) = cv.blockStart groups k + cv.blockSize groups := by
  unfold blockStart
  rw [Nat.succ_mul]
  omega

theorem blockStart_nSplits (cv : PurgedGroupTimeSeriesSplit) (groups : List γ) :
    cv.blockStart groups cv.nSplits = (uniqueSorted groups).length := by
  have := blocks_le cv groups
  unfold blockStart
  omega

theorem blockStart_mono {k l : Nat} (h : k ≤ l) : cv.blockStart groups k ≤ cv.blockStart groups l :=
  Nat.add_le_add_left (Nat.mul_le_mul_right _ h) _

/-- The starts of the blocks. -/
theorem range_blocks (h : cv.nSplits + 1 ≤ (uniqueSorted groups).length) :
    range ((uniqueSorted groups).length - cv.nSplits * cv.blockSize groups) (uniqueSorted groups).length (cv.blockSize groups) =
      (List.range cv.nSplits).map (cv.blockStart groups) := by
  have hpos := blockSize_pos h
  have hle := blocks_le cv groups
  have hcount : ((uniqueSorted groups).length - ((uniqueSorted groups).length - cv.nSplits * cv.blockSize groups) +
      (cv.blockSize groups - 1)) / cv.blockSize groups = cv.nSplits := by
    rw [show (uniqueSorted groups).length - ((uniqueSorted groups).length - cv.nSplits * cv.blockSize groups) =
      cv.blockSize groups * cv.nSplits by rw [Nat.mul_comm (cv.blockSize groups)]; omega]
    rw [Nat.mul_add_div hpos, Nat.div_eq_of_lt (by omega), Nat.add_zero]
  unfold range
  rw [hcount]
  refine List.ext_getElem (by simp) fun k _ _ => ?_
  rw [List.getElem_range', List.getElem_map, List.getElem_range, blockStart, Nat.mul_comm k]

theorem split_eq_ok (h : cv.split (some groups) = .ok folds) : cv.nSplits + 1 ≤ (uniqueSorted groups).length ∧
    folds = (List.range cv.nSplits).map
      (fun k => cv.fold (groups.map (position groups)) (cv.blockSize groups) (cv.blockStart groups k)) := by
  unfold split at h
  dsimp only at h
  split_ifs at h with hn
  have hle : cv.nSplits + 1 ≤ (uniqueSorted groups).length := by omega
  refine ⟨hle, ?_⟩
  rw [← Except.ok.inj h]
  change (range ((uniqueSorted groups).length - cv.nSplits * cv.blockSize groups) _ (cv.blockSize groups)).map _ = _
  rw [range_blocks hle, List.map_map]
  rfl

theorem mem_fold_test {k i : Nat} :
    i ∈ (cv.fold (groups.map (position groups)) (cv.blockSize groups) (cv.blockStart groups k)).2 ↔
      ∃ v ∈ groups[i]?, cv.blockStart groups k ≤ position groups v ∧ position groups v < cv.blockStart groups (k + 1) := by
  rw [fold, mem_rowsWhere]
  simp only [Bool.and_eq_true, decide_eq_true_eq, blockStart_succ]

theorem mem_fold_train {k i : Nat} :
    i ∈ (cv.fold (groups.map (position groups)) (cv.blockSize groups) (cv.blockStart groups k)).1 ↔
      ∃ v ∈ groups[i]?, position groups v + cv.purgeGap < cv.blockStart groups k := by
  rw [fold, mem_rowsWhere]
  simp only [decide_eq_true_eq, Nat.lt_sub_iff_add_lt]

/-- A block is as many groups. -/
theorem card_fold_test {k : Nat} (hk : k < cv.nSplits) :
    ((cv.fold (groups.map (position groups)) (cv.blockSize groups) (cv.blockStart groups k)).2.filterMap
      (groups[·]?)).toFinset.card = cv.blockSize groups := by
  have hend : cv.blockStart groups (k + 1) ≤ (uniqueSorted groups).length := by
    rw [← blockStart_nSplits cv groups]
    exact blockStart_mono hk
  have hmem (v : γ) : v ∈ ((cv.fold (groups.map (position groups)) (cv.blockSize groups) (cv.blockStart groups k)).2.filterMap
      (groups[·]?)).toFinset ↔
      v ∈ groups ∧ cv.blockStart groups k ≤ position groups v ∧ position groups v < cv.blockStart groups (k + 1) := by
    rw [List.mem_toFinset, List.mem_filterMap]
    constructor
    · rintro ⟨i, hi, hv⟩
      obtain ⟨w, hw, hblock⟩ := mem_fold_test.1 hi
      obtain rfl := Option.some.inj (hv.symm.trans hw)
      exact ⟨List.mem_of_getElem? hv, hblock⟩
    · rintro ⟨hv, hblock⟩
      obtain ⟨i, hi⟩ := List.mem_iff_getElem?.1 hv
      exact ⟨i, mem_fold_test.2 ⟨v, hi, hblock⟩, hi⟩
  rw [← Finset.card_image_of_injOn (f := position groups) fun v hv w _ h => position_inj ((hmem v).1 hv).1 h]
  have himage : (((cv.fold (groups.map (position groups)) (cv.blockSize groups) (cv.blockStart groups k)).2.filterMap
      (groups[·]?)).toFinset.image (position groups)) = Finset.Ico (cv.blockStart groups k) (cv.blockStart groups (k + 1)) := by
    ext p
    rw [Finset.mem_image, Finset.mem_Ico]
    constructor
    · rintro ⟨v, hv, rfl⟩
      exact ((hmem v).1 hv).2
    · rintro ⟨hle, hlt⟩
      obtain ⟨i, v, hv, rfl⟩ := exists_position (Nat.lt_of_lt_of_le hlt hend)
      exact ⟨v, (hmem v).2 ⟨List.mem_of_getElem? hv, hle, hlt⟩, rfl⟩
  rw [himage, Nat.card_Ico, blockStart_succ]
  omega

/-- **The folds of the splitter.** -/
theorem splits_of_split (h : cv.split (some groups) = .ok folds) : cv.Splits groups folds := by
  obtain ⟨hn, rfl⟩ := split_eq_ok h
  have hget : ∀ k f, ((List.range cv.nSplits).map
      (fun k => cv.fold (groups.map (position groups)) (cv.blockSize groups) (cv.blockStart groups k)))[k]? = some f →
      k < cv.nSplits ∧ f = cv.fold (groups.map (position groups)) (cv.blockSize groups) (cv.blockStart groups k) := by
    intro k f hf
    rw [List.getElem?_map, Option.map_eq_some_iff] at hf
    obtain ⟨l, hl, rfl⟩ := hf
    obtain ⟨hlt, rfl⟩ := List.getElem?_eq_some_iff.1 hl
    rw [List.length_range] at hlt
    exact ⟨hlt, by rw [List.getElem_range]⟩
  have hmem : ∀ f ∈ (List.range cv.nSplits).map
      (fun k => cv.fold (groups.map (position groups)) (cv.blockSize groups) (cv.blockStart groups k)),
      ∃ k < cv.nSplits, f = cv.fold (groups.map (position groups)) (cv.blockSize groups) (cv.blockStart groups k) := by
    intro f hf
    obtain ⟨k, hk, rfl⟩ := List.mem_map.1 hf
    exact ⟨k, List.mem_range.1 hk, rfl⟩
  have hapart : ∀ f ∈ (List.range cv.nSplits).map
      (fun k => cv.fold (groups.map (position groups)) (cv.blockSize groups) (cv.blockStart groups k)),
      ∀ i ∈ f.1, ∀ j ∈ f.2, ∀ v ∈ groups[i]?, ∀ w ∈ groups[j]?, position groups v + cv.purgeGap < position groups w := by
    intro f hf i hi j hj v hv w hw
    obtain ⟨k, -, rfl⟩ := hmem f hf
    obtain ⟨v', hv', htrain⟩ := mem_fold_train.1 hi
    obtain ⟨w', hw', htest, -⟩ := mem_fold_test.1 hj
    obtain rfl := Option.mem_unique hv hv'
    obtain rfl := Option.mem_unique hw hw'
    exact Nat.lt_of_lt_of_le htrain htest
  refine ⟨by simp, ⟨blockSize_pos hn, blockStart_nSplits cv groups⟩, fun k f hf i => ?_, fun f hf => ?_, ?_, hapart,
    fun f hf i hi j hj heq => ?_, fun k f hf hgap => ?_⟩
  · obtain ⟨-, rfl⟩ := hget k f hf
    exact mem_fold_test
  · obtain ⟨k, hk, rfl⟩ := hmem f hf
    exact card_fold_test hk
  · refine List.pairwise_map.2 (List.pairwise_lt_range.imp fun {k l} hkl i hi hi' => ?_)
    obtain ⟨v, hv, -, hlt⟩ := mem_fold_test.1 hi
    obtain ⟨w, hw, hle, -⟩ := mem_fold_test.1 hi'
    obtain rfl := Option.mem_unique hv hw
    have hmono : cv.blockStart groups (k + 1) ≤ cv.blockStart groups l := blockStart_mono hkl
    omega
  · obtain ⟨k, -, rfl⟩ := hmem f hf
    obtain ⟨v, hv, -⟩ := mem_fold_train.1 hi
    have := hapart _ hf i hi j hj v hv v (heq ▸ hv)
    omega
  · obtain ⟨hk, rfl⟩ := hget k f hf
    have hlt : 0 < (uniqueSorted groups).length := by omega
    obtain ⟨i, v, hv, hzero⟩ := exists_position hlt
    exact List.ne_nil_of_mem (mem_fold_train.2 ⟨v, hv, by omega⟩)

end PurgedGroupTimeSeriesSplit

/-! ## Fit and calibration -/

/-- What documentation promises of `np.isin`: it finds the values that are in a list. -/
def Numpy.Finds (np : Numpy γ κ) (groups : List γ) : Prop :=
  ∀ v ∈ groups, ∀ ws, ws ⊆ groups → (np.isin v (ws.map np.tolist) = true ↔ v ∈ ws)

/-- The groups of the rows to train on. -/
def trainGroupsOf (groupValues : List γ) (trainIdx : List Nat) : List γ := trainIdx.filterMap (groupValues[·]?)

/-- The groups that are left to fit on before the embargo, of the number of groups and `int(np.ceil(n * calib_frac))`. -/
def fitSize (n : Nat) (size : Int) : Nat := n - calibSize n size

/-- How many groups the rows to train on have. -/
def trainCount (groupValues : List γ) (trainIdx : List Nat) : Nat := (uniqueSorted (trainGroupsOf groupValues trainIdx)).length

/-- The place of a group among those of the rows to train on. -/
def trainPosition (groupValues : List γ) (trainIdx : List Nat) (v : γ) : Nat := position (trainGroupsOf groupValues trainIdx) v

/-- What the split for calibration promises, whichever of its cases it takes. -/
structure Chrono (groupValues : List γ) (trainIdx : List Nat) (embargo : Int) (fit calib : List Nat) : Prop where
  rows : ∀ i, i ∈ fit ∨ i ∈ calib → i ∈ trainIdx
  disjoint : ∀ i ∈ fit, i ∉ calib
  apart : ∀ i ∈ fit, ∀ j ∈ calib, ∀ v ∈ groupValues[i]?, ∀ w ∈ groupValues[j]?,
    (trainPosition groupValues trainIdx v : Int) + embargo < trainPosition groupValues trainIdx w

theorem calibSize_pos (n : Nat) (size : Int) : 1 ≤ calibSize n size := by
  unfold calibSize
  omega

theorem calibSize_lt {n : Nat} (hn : 2 ≤ n) (size : Int) : calibSize n size < n := by
  unfold calibSize
  omega

omit [LinearOrder γ] in
theorem mapM_getElem? {groupValues : List γ} : ∀ {trainIdx : List Nat} {trainGroups : List γ},
    trainIdx.mapM (fun i => (groupValues[i]?).elim (.error CvError.index) .ok) = Except.ok trainGroups →
    trainGroups = trainGroupsOf groupValues trainIdx ∧
      ∀ i v, (i, v) ∈ trainIdx.zip trainGroups ↔ i ∈ trainIdx ∧ groupValues[i]? = some v
  | [], trainGroups, h => by
    rw [List.mapM_nil, Exc.pure_eq_ok] at h
    subst h
    simp [trainGroupsOf]
  | i :: trainIdx, trainGroups, h => by
    obtain ⟨v, rest, hv, hrest, rfl⟩ := (Exc.mapM_cons_eq_ok _ _ _ _).1 h
    obtain ⟨rfl, hzip⟩ := mapM_getElem? hrest
    cases hi : groupValues[i]? with
    | none =>
      rw [hi] at hv
      cases hv
    | some v' =>
      rw [hi] at hv
      obtain rfl := Except.ok.inj hv
      refine ⟨by simp [trainGroupsOf, hi], fun j w => ?_⟩
      rw [List.zip_cons_cons, List.mem_cons, hzip, List.mem_cons, Prod.mk.injEq]
      constructor
      · rintro (⟨rfl, rfl⟩ | ⟨hj, hw⟩)
        · exact ⟨.inl rfl, hi⟩
        · exact ⟨.inr hj, hw⟩
      · rintro ⟨rfl | hj, hw⟩
        · rw [hi] at hw
          exact .inl ⟨rfl, (Option.some.inj hw).symm⟩
        · exact .inr ⟨hj, hw⟩

omit [LinearOrder γ] in
theorem mem_masked {groupValues : List γ} {trainIdx : List Nat} {trainGroups : List γ} {p : γ → Bool}
    (hzip : ∀ i v, (i, v) ∈ trainIdx.zip trainGroups ↔ i ∈ trainIdx ∧ groupValues[i]? = some v) {i : Nat} :
    i ∈ masked trainIdx trainGroups p ↔ i ∈ trainIdx ∧ ∃ v ∈ groupValues[i]?, p v = true := by
  unfold masked
  rw [List.mem_map]
  constructor
  · rintro ⟨⟨j, v⟩, hmem, rfl⟩
    obtain ⟨hin, hp⟩ := List.mem_filter.1 hmem
    obtain ⟨hj, hv⟩ := (hzip j v).1 hin
    exact ⟨hj, v, hv, hp⟩
  · rintro ⟨hi, v, hv, hp⟩
    exact ⟨(i, v), List.mem_filter.2 ⟨(hzip i v).2 ⟨hi, hv⟩, hp⟩, rfl⟩

section chrono

variable {np : Numpy γ κ} {groupValues : List γ} {trainIdx fit calib : List Nat} {calibFrac : PyFloat} {embargo : Int}

omit [LinearOrder γ] in
theorem mem_trainGroupsOf {v : γ} : v ∈ trainGroupsOf groupValues trainIdx ↔ ∃ i ∈ trainIdx, groupValues[i]? = some v :=
  List.mem_filterMap

omit [LinearOrder γ] in
theorem trainGroupsOf_subset : trainGroupsOf groupValues trainIdx ⊆ groupValues := fun _ hv => by
  obtain ⟨i, -, hi⟩ := mem_trainGroupsOf.1 hv
  exact List.mem_of_getElem? hi

/-- What `np.isin` finds among the groups behind a place, and among those before one. -/
theorem isin_part (hfinds : np.Finds groupValues) {i : Nat} (hi : i ∈ trainIdx) {v : γ} (hv : groupValues[i]? = some v)
    (k : Nat) :
    (np.isin v (((uniqueSorted (trainGroupsOf groupValues trainIdx)).drop k).map np.tolist) = true ↔
      k ≤ trainPosition groupValues trainIdx v) ∧
    (np.isin v (((uniqueSorted (trainGroupsOf groupValues trainIdx)).take k).map np.tolist) = true ↔
      trainPosition groupValues trainIdx v < k) := by
  have hmem : v ∈ uniqueSorted (trainGroupsOf groupValues trainIdx) := mem_uniqueSorted.2 (mem_trainGroupsOf.2 ⟨i, hi, hv⟩)
  have hsub : uniqueSorted (trainGroupsOf groupValues trainIdx) ⊆ groupValues := fun w hw =>
    trainGroupsOf_subset (mem_uniqueSorted.1 hw)
  have hv' := List.mem_of_getElem? hv
  constructor
  · rw [hfinds v hv' _ fun w hw => hsub (List.mem_of_mem_drop hw)]
    exact mem_drop_iff_le_idxOf (nodup_uniqueSorted _) hmem k
  · rw [hfinds v hv' _ fun w hw => hsub (List.mem_of_mem_take hw)]
    exact List.mem_take_iff_idxOf_lt hmem

/-- **The cases of the split for calibration**: too few groups to split, none left before the embargo, or both parts. -/
theorem chrono_cases (hfinds : np.Finds groupValues)
    (h : chronoFitCalibrationSplit np groupValues trainIdx calibFrac embargo = .ok (fit, calib)) :
    trainCount groupValues trainIdx < 3 ∧ fit = trainIdx ∧ calib = [] ∨
    ∃ size, ceilProduct (trainCount groupValues trainIdx) calibFrac = .ok size ∧ 3 ≤ trainCount groupValues trainIdx ∧
      ((fitSize (trainCount groupValues trainIdx) size : Int) ≤ embargo ∧ fit = [] ∧ calib = trainIdx ∨
       embargo < fitSize (trainCount groupValues trainIdx) size ∧
        (∀ i, i ∈ fit ↔ i ∈ trainIdx ∧ ∃ v ∈ groupValues[i]?,
          (trainPosition groupValues trainIdx v : Int) < fitSize (trainCount groupValues trainIdx) size - embargo) ∧
        ∀ i, i ∈ calib ↔ i ∈ trainIdx ∧ ∃ v ∈ groupValues[i]?,
          fitSize (trainCount groupValues trainIdx) size ≤ trainPosition groupValues trainIdx v) := by
  unfold chronoFitCalibrationSplit at h
  split_ifs at h with hnil
  · obtain ⟨rfl, rfl⟩ := Prod.mk.inj (Except.ok.inj h)
    rw [hnil]
    exact .inl ⟨by simp [trainCount, trainGroupsOf, uniqueSorted], rfl, rfl⟩
  obtain ⟨trainGroups, hgroups, h⟩ := (Exc.bind_eq_ok _ _ _).1 h
  obtain ⟨rfl, hzip⟩ := mapM_getElem? hgroups
  change (if trainCount groupValues trainIdx < 3 then _ else _) = _ at h
  split_ifs at h with hn
  · rw [Exc.pure_eq_ok, Prod.mk.injEq] at h
    exact .inl ⟨hn, h.1.symm, h.2.symm⟩
  obtain ⟨size, hsize, h⟩ := (Exc.bind_eq_ok _ _ _).1 h
  have hcalib := calibSize_lt (show 2 ≤ trainCount groupValues trainIdx by omega) size
  have hlen : (uniqueSorted (trainGroupsOf groupValues trainIdx)).length = trainCount groupValues trainIdx := rfl
  refine .inr ⟨size, hsize, by omega, ?_⟩
  change (if (((uniqueSorted (trainGroupsOf groupValues trainIdx)).take
    (max 0 ((fitSize (trainCount groupValues trainIdx) size : Int) - embargo)).toNat).map np.tolist).isEmpty = true then _
    else _) = _ at h
  split_ifs at h with hempty <;> rw [List.isEmpty_iff, List.map_eq_nil_iff, List.take_eq_nil_iff] at hempty
  · rw [Exc.pure_eq_ok, Prod.mk.injEq] at h
    refine .inl ⟨?_, h.1.symm, h.2.symm⟩
    rcases hempty with hzero | hzero
    · omega
    · rw [hzero] at hlen
      exact absurd hlen (by simp; omega)
  · rw [Exc.pure_eq_ok, Prod.mk.injEq] at h
    simp only [not_or] at hempty
    obtain ⟨rfl, rfl⟩ := h
    refine .inr ⟨by omega, fun i => ?_, fun i => ?_⟩
    · rw [mem_masked hzip]
      refine and_congr_right fun hi => exists_congr fun v => and_congr_right fun hv => ?_
      rw [(isin_part hfinds hi hv _).2]
      change trainPosition groupValues trainIdx v <
        (max 0 ((fitSize (trainCount groupValues trainIdx) size : Int) - embargo)).toNat ↔ _
      omega
    · rw [mem_masked hzip]
      exact and_congr_right fun hi => exists_congr fun v => and_congr_right fun hv => (isin_part hfinds hi hv _).1

/-- **The walk-forward folds and the split for calibration.**  The folds test the last blocks of the sorted groups, all of
one size, and train on what is more than the gap before; what is fitted on is more than the embargo before what is
calibrated on, and with three groups of which some are left before the embargo there is something of each. -/
theorem purged_splits (cv : PurgedGroupTimeSeriesSplit) (groups : List γ) (np : Numpy γ κ) (hfinds : np.Finds groups)
    (trainIdx : List Nat) (calibFrac : PyFloat) (embargo : Int) (hembargo : 0 ≤ embargo) :
    (cv.nSplits + 1 ≤ groups.toFinset.card → ∃ folds, cv.split (some groups) = .ok folds ∧ cv.Splits groups folds) ∧
    ∀ fit calib, chronoFitCalibrationSplit np groups trainIdx calibFrac embargo = .ok (fit, calib) →
      Chrono groups trainIdx embargo fit calib ∧
      (fit = trainIdx ∧ calib = [] ∨ fit = [] ∧ calib = trainIdx ∨ fit ≠ [] ∧ calib ≠ []) ∧
      ∀ size, ceilProduct (trainCount groups trainIdx) calibFrac = .ok size → 3 ≤ trainCount groups trainIdx →
        embargo < fitSize (trainCount groups trainIdx) size → fit ≠ [] ∧ calib ≠ [] := by
  constructor
  · intro hn
    rw [← length_uniqueSorted] at hn
    have hok : ∃ folds, cv.split (some groups) = .ok folds := by
      unfold PurgedGroupTimeSeriesSplit.split
      dsimp only
      rw [if_neg (by omega)]
      exact ⟨_, rfl⟩
    obtain ⟨folds, hfolds⟩ := hok
    exact ⟨folds, hfolds, PurgedGroupTimeSeriesSplit.splits_of_split hfolds⟩
  · intro fit calib h
    rcases chrono_cases hfinds h with ⟨hn, rfl, rfl⟩ | ⟨size, hsize, hn, ⟨hle, rfl, rfl⟩ | ⟨hlt, hfit, hcalib⟩⟩
    · exact ⟨⟨fun i hi => hi.resolve_right (by simp), fun i _ => (by simp), fun i _ j hj => (by cases hj)⟩, .inl ⟨rfl, rfl⟩,
        fun _ _ h3 => absurd h3 (by omega)⟩
    · refine ⟨⟨fun i hi => hi.resolve_left (by simp), fun i hi => (by cases hi), fun i hi => (by cases hi)⟩,
        .inr (.inl ⟨rfl, rfl⟩), fun size' hsize' _ hlt => ?_⟩
      obtain rfl := Except.ok.inj (hsize.symm.trans hsize')
      omega
    · have hapart : ∀ i ∈ fit, ∀ j ∈ calib, ∀ v ∈ groups[i]?, ∀ w ∈ groups[j]?,
          (trainPosition groups trainIdx v : Int) + embargo < trainPosition groups trainIdx w := by
        intro i hi j hj v hv w hw
        obtain ⟨-, v', hv', hvlt⟩ := (hfit i).1 hi
        obtain ⟨-, w', hw', hwle⟩ := (hcalib j).1 hj
        obtain rfl := Option.mem_unique hv hv'
        obtain rfl := Option.mem_unique hw hw'
        omega
      have hsome (p : Nat) (hp : p < trainCount groups trainIdx) :
          ∃ i ∈ trainIdx, ∃ v ∈ groups[i]?, trainPosition groups trainIdx v = p := by
        obtain ⟨k, v, hv, hpos⟩ := exists_position hp
        obtain ⟨i, hi, hiv⟩ := mem_trainGroupsOf.1 (List.mem_of_getElem? hv)
        exact ⟨i, hi, v, hiv, hpos⟩
      have hboth : fit ≠ [] ∧ calib ≠ [] := by
        have hcount := calibSize_pos (trainCount groups trainIdx) size
        constructor
        · obtain ⟨i, hi, v, hv, hpos⟩ := hsome 0 (by omega)
          exact List.ne_nil_of_mem ((hfit i).2 ⟨hi, v, hv, by omega⟩)
        · obtain ⟨i, hi, v, hv, hpos⟩ := hsome (trainCount groups trainIdx - 1) (by omega)
          refine List.ne_nil_of_mem ((hcalib i).2 ⟨hi, v, hv, ?_⟩)
          unfold fitSize
          omega
      refine ⟨⟨fun i hi => ?_, fun i hi hi' => ?_, hapart⟩, .inr (.inr hboth), fun _ _ _ _ => hboth⟩
      · rcases hi with hi | hi
        · exact ((hfit i).1 hi).1
        · exact ((hcalib i).1 hi).1
      · obtain ⟨-, v, hv, -⟩ := (hfit i).1 hi
        have := hapart i hi i hi' v hv v hv
        omega

end chrono

end

/-- Numbers are what `tolist` leaves of them. -/
private def plainNumpy : Numpy Nat Nat := ⟨id, fun v ws => decide (v ∈ ws)⟩

private theorem plainNumpy_finds (groups : List Nat) : plainNumpy.Finds groups := fun v _ ws _ => by
  simp [plainNumpy]

/-- Two folds over five groups, and their first four split for calibration. -/
theorem purged_splits_five :
    (∃ folds, (⟨2, 1, by decide⟩ : PurgedGroupTimeSeriesSplit).split (some [0, 1, 2, 3, 4]) = .ok folds ∧
      (⟨2, 1, by decide⟩ : PurgedGroupTimeSeriesSplit).Splits [0, 1, 2, 3, 4] folds) ∧
    Chrono [0, 1, 2, 3, 4] [0, 1, 2, 3] 1 [0] [2, 3] :=
  have h := purged_splits ⟨2, 1, by decide⟩ [0, 1, 2, 3, 4] plainNumpy (plainNumpy_finds _) [0, 1, 2, 3]
    (PyFloat.ofDecimal false 3 (-1)) 1 (by decide)
  ⟨h.1 (by decide), (h.2 [0] [2, 3] (by decide +kernel)).1⟩

/-- The gap takes all the groups of the first fold; and two groups are not split for calibration. -/
theorem nothing_to_train_on :
    (⟨1, 1, by decide⟩ : PurgedGroupTimeSeriesSplit).split (some [0, 1]) = .ok [([], [1])] ∧
    chronoFitCalibrationSplit plainNumpy [0, 1] [0, 1] (PyFloat.ofDecimal false 3 (-1)) 1 = .ok ([0, 1], []) :=
  ⟨by decide +kernel, by decide +kernel⟩

end Ml
