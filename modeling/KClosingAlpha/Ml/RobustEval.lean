import KClosingAlpha.Lib.Combinations
import Mathlib.Data.List.Sort
import Mathlib.Data.List.Dedup
import Mathlib.Data.Finset.Card
import Mathlib.Tactic.Zify
/-!
# RobustEval — the combinatorial purged splitter (`ml/robust_eval.py`)

Rows belong to dates, dates to bins, and a fold tests some bins and trains on those outside their windows.  The group
values are any ordered ones; what `tolist` of numpy and of pandas make of a value is a parameter, since the positions
are looked up by it.  The product of a position and the number of bins stays within numpy's 64 bits.
-/
namespace Ml

open Combinations

structure CombinatorialPurgedCV where
  nGroups : Nat
  kTest : Nat
  purgeGap : Nat
  embargoGap : Nat
  four_le : 4 ≤ nGroups
  two_le : 2 ≤ kTest
  kTest_lt : kTest < nGroups
  room : kTest * (1 + purgeGap + embargoGap) + 1 ≤ nGroups

/-- What `ndarray.tolist` and `Series.tolist` make of a group value. -/
structure Scalars (γ κ : Type) where
  numpy : γ → κ
  pandas : γ → κ

inductive SplitError where
  | value (msg : String)
  | key
  deriving DecidableEq

structure Fold where
  trainIdx : List Nat
  testIdx : List Nat
  foldId : Nat
  deriving DecidableEq

section

variable {γ κ : Type} [LinearOrder γ] [DecidableEq κ]

/-- `np.array(sorted(pd.unique(arr)))`. -/
def uniqueSorted (groups : List γ) : List γ := groups.dedup.insertionSort (· ≤ ·)

/-- `{v: i for i, v in enumerate(unique_sorted.tolist())}`, the last item first. -/
def order (sc : Scalars γ κ) (unique : List γ) : List (κ × Nat) := (unique.map sc.numpy).zipIdx.reverse

def positions (sc : Scalars γ κ) (unique groups : List γ) : Except SplitError (List Nat) :=
  groups.mapM fun v => ((order sc unique).lookup (sc.pandas v)).elim (.error .key) .ok

/-- `np.flatnonzero` of the rows whose bin is among some. -/
def rowsIn (bins : List Nat) (binIndex : List Nat) : List Nat :=
  (List.range binIndex.length).filter (fun i => (binIndex[i]?).any (fun b => decide (b ∈ bins)))

namespace CombinatorialPurgedCV

/-- `__post_init__`. -/
def postInit (nGroups kTest purgeGap embargoGap : Int) : Except String CombinatorialPurgedCV :=
  if h₁ : nGroups < 4 then .error ("n_groups must be >= 4, got " ++ toString nGroups)
  else if h₂ : ¬ (2 ≤ kTest ∧ kTest < nGroups) then
    .error ("k_test must satisfy 2 <= k_test < n_groups, got " ++ toString kTest)
  else if h₃ : purgeGap < 0 then .error ("purge_gap must be >= 0, got " ++ toString purgeGap)
  else if h₄ : embargoGap < 0 then .error ("embargo_gap must be >= 0, got " ++ toString embargoGap)
  else if h₅ : nGroups < kTest * (1 + purgeGap + embargoGap) + 1 then
    .error ("n_groups must be >= k_test*(1+purge_gap+embargo_gap)+1 = " ++
      toString (kTest * (1 + purgeGap + embargoGap) + 1) ++ " to avoid an empty train split, got " ++ toString nGroups)
  else
    .ok {
      nGroups := nGroups.toNat
      kTest := kTest.toNat
      purgeGap := purgeGap.toNat
      embargoGap := embargoGap.toNat
      four_le := by omega
      two_le := by omega
      kTest_lt := by omega
      room := by
        have hk : (kTest.toNat : Int) = kTest := Int.toNat_of_nonneg (by omega)
        have hp : (purgeGap.toNat : Int) = purgeGap := Int.toNat_of_nonneg (by omega)
        have he : (embargoGap.toNat : Int) = embargoGap := Int.toNat_of_nonneg (by omega)
        have hn : (nGroups.toNat : Int) = nGroups := Int.toNat_of_nonneg (by omega)
        zify
        rw [hk, hp, he, hn]
        exact not_lt.1 h₅ }

/-- The constructor accepts what the structure holds. -/
theorem postInit_eq (cv : CombinatorialPurgedCV) : postInit cv.nGroups cv.kTest cv.purgeGap cv.embargoGap = .ok cv := by
  have hroom : ((cv.kTest * (1 + cv.purgeGap + cv.embargoGap) + 1 : Nat) : Int) ≤ cv.nGroups := by exact_mod_cast cv.room
  have h₁ := cv.four_le
  have h₂ := cv.two_le
  have h₃ := cv.kTest_lt
  unfold postInit
  rw [dif_neg (by omega), dif_neg (by omega), dif_neg (by omega), dif_neg (by omega),
    dif_neg (not_lt.2 (by push_cast at hroom; exact hroom))]
  simp

variable (cv : CombinatorialPurgedCV)

def nPaths : Nat := (cv.nGroups - 1).choose (cv.kTest - 1)

/-- The bins no row of which is trained on when bin `b` is tested. -/
def window (b : Nat) : List Nat :=
  b :: (((List.range' 1 cv.purgeGap).filter (fun gap => decide (gap ≤ b))).map (b - ·) ++
    ((List.range' 1 cv.embargoGap).map (b + ·)).filter (fun c => decide (c < cv.nGroups)))

def purged (combo : List Nat) : List Nat := combo.flatMap cv.window

def trainBins (combo : List Nat) : List Nat := (List.range cv.nGroups).filter (fun b => decide (b ∉ cv.purged combo))

def fold (binIndex : List Nat) (combo : List Nat) (foldId : Nat) : Fold where
  trainIdx := rowsIn (cv.trainBins combo) binIndex
  testIdx := rowsIn combo binIndex
  foldId := foldId

def split (sc : Scalars γ κ) (groups : List γ) : Except SplitError (List Fold) :=
  let unique := uniqueSorted groups
  if unique.length < cv.nGroups then
    .error (.value ("CPCV needs >= n_groups unique groups, got " ++ toString unique.length))
  else do
    let positions ← positions sc unique groups
    let binIndex := positions.map (binOf unique.length cv.nGroups)
    return (combinations (List.range cv.nGroups) cv.kTest).zipIdx.map fun c => cv.fold binIndex c.1 c.2

end CombinatorialPurgedCV

/-! ## Dates and their bins -/

/-- What the documentation of `tolist` promises of a group array: one scalar a value, the same from both. -/
structure Scalars.Agree (sc : Scalars γ κ) (groups : List γ) : Prop where
  same : ∀ v ∈ groups, sc.pandas v = sc.numpy v
  distinct : ∀ v ∈ groups, ∀ w ∈ groups, sc.numpy v = sc.numpy w → v = w

/-- The bin of a date: its place among the dates, spread over the bins. -/
def CombinatorialPurgedCV.dateBin (cv : CombinatorialPurgedCV) (groups : List γ) (v : γ) : Nat :=
  binOf (uniqueSorted groups).length cv.nGroups ((uniqueSorted groups).idxOf v)

/-- What a splitter promises of its folds. -/
structure CombinatorialPurgedCV.Splits (cv : CombinatorialPurgedCV) (groups : List γ) (folds : List Fold) : Prop where
  count : folds.length = cv.nGroups.choose cv.kTest
  rows : ∀ f ∈ folds, ∀ i, i ∈ f.trainIdx ∨ i ∈ f.testIdx → i < groups.length
  disjoint : ∀ f ∈ folds, ∀ i ∈ f.trainIdx, i ∉ f.testIdx
  train : ∀ f ∈ folds, f.trainIdx ≠ []
  test : ∀ f ∈ folds, f.testIdx ≠ []
  dates : ∀ f ∈ folds, ∀ i ∈ f.trainIdx, ∀ j ∈ f.testIdx, groups[i]? ≠ groups[j]?
  apart : ∀ f ∈ folds, ∀ i ∈ f.trainIdx, ∀ j ∈ f.testIdx, ∀ v ∈ groups[i]?, ∀ w ∈ groups[j]?,
    cv.dateBin groups v + cv.purgeGap < cv.dateBin groups w ∨ cv.dateBin groups w + cv.embargoGap < cv.dateBin groups v
  covered : ∀ i < groups.length,
    folds.countP (fun f => decide (i ∈ f.testIdx)) = (cv.nGroups - 1).choose (cv.kTest - 1)

theorem mem_uniqueSorted {groups : List γ} {v : γ} : v ∈ uniqueSorted groups ↔ v ∈ groups := by
  simp [uniqueSorted]

theorem nodup_uniqueSorted (groups : List γ) : (uniqueSorted groups).Nodup :=
  (List.perm_insertionSort _ _).nodup_iff.2 (List.nodup_dedup _)

theorem length_uniqueSorted (groups : List γ) : (uniqueSorted groups).length = groups.toFinset.card := by
  rw [uniqueSorted, List.length_insertionSort, List.card_toFinset]

theorem lookup_of_nodup {β : Type} {k : κ} {b : β} : ∀ {l : List (κ × β)}, (l.map Prod.fst).Nodup → (k, b) ∈ l →
    l.lookup k = some b
  | (k', b') :: l, hnd, hmem => by
    rw [List.map_cons, List.nodup_cons] at hnd
    rcases List.mem_cons.1 hmem with he | hmem
    · cases he
      simp
    · have hne : k ≠ k' := fun he => hnd.1 (he ▸ List.mem_map.2 ⟨_, hmem, rfl⟩)
      rw [List.lookup_cons, beq_false_of_ne hne]
      exact lookup_of_nodup hnd.2 hmem

/-- A value of the array is found at its place among the sorted ones. -/
theorem lookup_order {sc : Scalars γ κ} {groups : List γ} (h : sc.Agree groups) {v : γ} (hv : v ∈ groups) :
    (order sc (uniqueSorted groups)).lookup (sc.pandas v) = some ((uniqueSorted groups).idxOf v) := by
  have hmem := mem_uniqueSorted.2 hv
  have hlt := List.idxOf_lt_length_of_mem hmem
  refine lookup_of_nodup ?_ ?_
  · rw [order, List.map_reverse, List.nodup_reverse, List.zipIdx_map_fst]
    exact (nodup_uniqueSorted groups).map_on fun v hv w hw =>
      h.distinct v (mem_uniqueSorted.1 hv) w (mem_uniqueSorted.1 hw)
  · rw [order, List.mem_reverse, List.mem_zipIdx_iff_getElem?, h.same v hv]
    simp [List.getElem?_eq_getElem hlt]

theorem positions_eq {sc : Scalars γ κ} {groups : List γ} (h : sc.Agree groups) :
    positions sc (uniqueSorted groups) groups = .ok (groups.map (uniqueSorted groups).idxOf) := by
  have hall : ∀ l : List γ, (∀ v ∈ l, v ∈ groups) →
      positions sc (uniqueSorted groups) l = .ok (l.map (uniqueSorted groups).idxOf) := by
    intro l hl
    induction l with
    | nil => rfl
    | cons v l ih =>
      have hrest := ih fun w hw => hl w (List.mem_cons_of_mem _ hw)
      unfold positions at hrest ⊢
      rw [List.mapM_cons, lookup_order h (hl v List.mem_cons_self), hrest]
      rfl
  exact hall groups fun _ hv => hv

/-! ## Rows of a fold -/

omit [LinearOrder γ] in
theorem mem_rowsIn {groups : List γ} {bins : List Nat} {bin : γ → Nat} {i : Nat} :
    i ∈ rowsIn bins (groups.map bin) ↔ ∃ v ∈ groups[i]?, bin v ∈ bins := by
  unfold rowsIn
  rw [List.mem_filter, List.mem_range, List.length_map, List.getElem?_map]
  cases hv : groups[i]? with
  | none => simp
  | some v =>
    have := (List.getElem?_eq_some_iff.1 hv).1
    simp [this]

namespace CombinatorialPurgedCV

variable {cv : CombinatorialPurgedCV} {groups : List γ} {combo : List Nat}

theorem dateBin_lt (cv : CombinatorialPurgedCV) (groups : List γ) (v : γ) : cv.dateBin groups v < cv.nGroups :=
  binOf_lt _ (by have := cv.four_le; omega)

/-- Every bin has a row. -/
theorem exists_row {b : Nat} (hgroups : cv.nGroups ≤ groups.toFinset.card) (hb : b < cv.nGroups) :
    ∃ i : Nat, ∃ v ∈ groups[i]?, cv.dateBin groups v = b := by
  rw [← length_uniqueSorted] at hgroups
  obtain ⟨position, hlt, hbin⟩ := exists_binOf hgroups hb
  obtain ⟨i, hi, hrow⟩ := List.mem_iff_getElem.1 (mem_uniqueSorted.1 (List.getElem_mem hlt))
  refine ⟨i, _, List.getElem?_eq_getElem hi, ?_⟩
  rw [hrow, dateBin, (nodup_uniqueSorted groups).idxOf_getElem]
  exact hbin

/-- Outside the window of a bin one is far enough from it. -/
theorem apart_of_not_mem_window {b c : Nat} (hc : c < cv.nGroups) (h : c ∉ cv.window b) :
    c + cv.purgeGap < b ∨ b + cv.embargoGap < c := by
  by_contra hnear
  refine h ?_
  unfold window
  simp only [List.mem_cons, List.mem_append, List.mem_map, List.mem_filter, List.mem_range'_1, decide_eq_true_eq]
  rcases Nat.lt_trichotomy c b with hlt | rfl | hlt
  · exact .inr (.inl ⟨b - c, by omega, by omega⟩)
  · exact .inl rfl
  · exact .inr (.inr ⟨⟨c - b, by omega, by omega⟩, hc⟩)

theorem length_window (cv : CombinatorialPurgedCV) (b : Nat) : (cv.window b).length ≤ 1 + cv.purgeGap + cv.embargoGap := by
  have hpurge := List.length_filter_le (fun gap => decide (gap ≤ b)) (List.range' 1 cv.purgeGap)
  have hembargo := List.length_filter_le (fun c => decide (c < cv.nGroups)) ((List.range' 1 cv.embargoGap).map (b + ·))
  rw [List.length_map, List.length_range'] at hembargo
  rw [List.length_range'] at hpurge
  simp only [window, List.length_cons, List.length_append, List.length_map]
  omega

theorem length_purged (cv : CombinatorialPurgedCV) (combo : List Nat) :
    (cv.purged combo).length ≤ combo.length * (1 + cv.purgeGap + cv.embargoGap) := by
  induction combo with
  | nil => simp [purged]
  | cons b combo ih =>
    have hwindow := length_window cv b
    unfold purged at ih ⊢
    rw [List.flatMap_cons, List.length_append, List.length_cons, Nat.succ_mul]
    omega

/-- **Some bin is left to train on, however the tested bins are spread.** -/
theorem exists_trainBin (hcombo : combo.length = cv.kTest) : ∃ b < cv.nGroups, b ∉ cv.purged combo := by
  by_contra! hall
  have hsub : List.range cv.nGroups ⊆ cv.purged combo := fun b hb => hall b (List.mem_range.1 hb)
  have hle : cv.nGroups ≤ (cv.purged combo).length := by
    simpa using (List.nodup_range.subperm hsub).length_le
  have hpurged := length_purged cv combo
  have hroom := cv.room
  rw [hcombo] at hpurged
  omega

theorem mem_trainBins {b : Nat} : b ∈ cv.trainBins combo ↔ b < cv.nGroups ∧ b ∉ cv.purged combo := by
  simp [trainBins]

/-- A bin that is trained on is far enough from every tested one. -/
theorem apart_of_mem {b c : Nat} (hb : b ∈ combo) (hc : c ∈ cv.trainBins combo) :
    c + cv.purgeGap < b ∨ b + cv.embargoGap < c := by
  obtain ⟨hlt, hnot⟩ := mem_trainBins.1 hc
  exact apart_of_not_mem_window hlt fun hw => hnot (List.mem_flatMap.2 ⟨b, hb, hw⟩)

omit [DecidableEq κ] in
/-- The folds of the bins of the rows. -/
theorem splits_of_bins (hgroups : cv.nGroups ≤ groups.toFinset.card) : cv.Splits groups
    ((combinations (List.range cv.nGroups) cv.kTest).zipIdx.map fun c => cv.fold (groups.map (cv.dateBin groups)) c.1 c.2) := by
  have hfold : ∀ f ∈ (combinations (List.range cv.nGroups) cv.kTest).zipIdx.map
      fun c => cv.fold (groups.map (cv.dateBin groups)) c.1 c.2, ∃ combo, combo.Sublist (List.range cv.nGroups) ∧
        combo.length = cv.kTest ∧ f.trainIdx = rowsIn (cv.trainBins combo) (groups.map (cv.dateBin groups)) ∧
        f.testIdx = rowsIn combo (groups.map (cv.dateBin groups)) := by
    intro f hf
    obtain ⟨⟨combo, foldId⟩, hmem, rfl⟩ := List.mem_map.1 hf
    obtain ⟨hsub, hlen⟩ := mem_combinations.1 (List.fst_mem_of_mem_zipIdx hmem)
    exact ⟨combo, hsub, hlen, rfl, rfl⟩
  refine ⟨?_, ?_, ?_, ?_, ?_, ?_, ?_, ?_⟩
  · rw [List.length_map, List.length_zipIdx, length_combinations, List.length_range]
  · intro f hf i hi
    obtain ⟨combo, -, -, htrain, htest⟩ := hfold f hf
    rw [htrain, htest, mem_rowsIn, mem_rowsIn] at hi
    rcases hi with ⟨v, hv, -⟩ | ⟨v, hv, -⟩ <;> exact (List.getElem?_eq_some_iff.1 hv).1
  · intro f hf i htrain htest
    obtain ⟨combo, -, -, htrain', htest'⟩ := hfold f hf
    rw [htrain', mem_rowsIn] at htrain
    rw [htest', mem_rowsIn] at htest
    obtain ⟨v, hv, hc⟩ := htrain
    obtain ⟨w, hw, hb⟩ := htest
    obtain rfl := Option.mem_unique hv hw
    have := apart_of_mem hb hc
    omega
  · intro f hf
    obtain ⟨combo, -, hlen, htrain, -⟩ := hfold f hf
    obtain ⟨b, hb, hnot⟩ := exists_trainBin hlen
    obtain ⟨i, v, hv, hbin⟩ := exists_row hgroups hb
    rw [htrain]
    exact List.ne_nil_of_mem (mem_rowsIn.2 ⟨v, hv, hbin ▸ mem_trainBins.2 ⟨hb, hnot⟩⟩)
  · intro f hf
    obtain ⟨combo, hsub, hlen, -, htest⟩ := hfold f hf
    have hpos : 0 < combo.length := by
      have := cv.two_le
      omega
    obtain ⟨b, hb⟩ := List.exists_mem_of_length_pos hpos
    obtain ⟨i, v, hv, hbin⟩ := exists_row hgroups (List.mem_range.1 (hsub.subset hb))
    rw [htest]
    exact List.ne_nil_of_mem (mem_rowsIn.2 ⟨v, hv, hbin ▸ hb⟩)
  · intro f hf i hi j hj he
    obtain ⟨combo, -, -, htrain, htest⟩ := hfold f hf
    rw [htrain, mem_rowsIn] at hi
    rw [htest, mem_rowsIn] at hj
    obtain ⟨v, hv, hc⟩ := hi
    obtain ⟨w, hw, hb⟩ := hj
    obtain rfl := Option.mem_unique (he ▸ hv) hw
    have := apart_of_mem hb hc
    omega
  · intro f hf i hi j hj v hv w hw
    obtain ⟨combo, -, -, htrain, htest⟩ := hfold f hf
    rw [htrain, mem_rowsIn] at hi
    rw [htest, mem_rowsIn] at hj
    obtain ⟨v', hv', hc⟩ := hi
    obtain ⟨w', hw', hb⟩ := hj
    obtain rfl := Option.mem_unique hv hv'
    obtain rfl := Option.mem_unique hw hw'
    exact apart_of_mem hb hc
  · intro i hi
    have htested (combo : List Nat) : (i ∈ rowsIn combo (groups.map (cv.dateBin groups))) ↔
        cv.dateBin groups groups[i] ∈ combo := by
      rw [mem_rowsIn, List.getElem?_eq_getElem hi]
      simp
    obtain ⟨k, hk⟩ : ∃ k, cv.kTest = k + 1 := ⟨cv.kTest - 1, by have := cv.two_le; omega⟩
    have hcount := countP_combinations k List.nodup_range
      (List.mem_range.2 (dateBin_lt cv groups groups[i]))
    rw [List.length_range] at hcount
    have hfst : (combinations (List.range cv.nGroups) (k + 1)) =
        ((combinations (List.range cv.nGroups) (k + 1)).zipIdx.map Prod.fst) := (List.zipIdx_map_fst _ _).symm
    rw [hk, Nat.add_sub_cancel, ← hcount, hfst, List.countP_map, List.countP_map, ← hfst]
    exact List.countP_congr fun c _ => by simp [fold, htested]

end CombinatorialPurgedCV

end

end Ml
