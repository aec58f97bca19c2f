import KClosingAlpha.Ml.TopkFeatures
import Mathlib.Algebra.Field.Rat
import Mathlib.Algebra.Order.Ring.Rat
/-!
# TopkTiming — a feature reads what its declared timing allows

Every history column gives a row what it computes from the rows of its symbol up to the row (`historyColumn_concat`),
so the features of a candidate come from the rows of its symbol before the date, the row of the date, and the
candidates of the date (`rankerFeatures_eq`).  What a declared timing leaves out is then read off one feature at a time.
-/
namespace TopkFeatures

set_option linter.unusedSectionVars false

open Flt (nan fin inf)
open Grouped (group sortRows perGroup)
open Series (shift shiftBack rolling rollSum rollMean rollMax rollCount cumsum scan lastN)

variable {K : Type} [Field K] [LinearOrder K]

/-! ## The columns of a symbol, row by row -/

/-- What a lagged window gives after the values `s`. -/
def lagAt (w : Nat) (agg : Nat → List (Flt K) → Flt K) (s : List (Flt K)) : Flt K := agg (max 3 (w / 2)) (lastN w (nan :: s))

theorem lagRoll_concat (w : Nat) (agg : Nat → List (Flt K) → Flt K) (s : List (Flt K)) (x : Flt K) :
    lagRoll w agg (s ++ [x]) = lagRoll w agg s ++ [lagAt w agg s] := Series.rolling_shift_concat w _ nan s x

@[simp] theorem length_lagRoll (w : Nat) (agg : Nat → List (Flt K) → Flt K) (s : List (Flt K)) :
    (lagRoll w agg s).length = s.length := by
  rw [lagRoll, Series.length_rolling, Series.length_shift]

theorem lagRoll_map_concat (w : Nat) (agg : Nat → List (Flt K) → Flt K) (φ : PanelRow K → Flt K) (p : List (PanelRow K))
    (x : PanelRow K) : lagRoll w agg ((p ++ [x]).map φ) = lagRoll w agg (p.map φ) ++ [lagAt w agg (p.map φ)] := by
  rw [List.map_append, List.map_singleton, lagRoll_concat]

/-- The gap of a row after an up day. -/
def condLagAt (chgMin : K) (p : List (PanelRow K)) (x : PanelRow K) : Flt K :=
  (p.getLast?.map (fun y => Flt.onlyIf (isUp chgMin y) (overnight x))).getD nan

theorem zipWith_concat {α β γ : Type} (f : α → β → γ) {l : List α} {m : List β} (h : l.length = m.length) (a : α) (b : β) :
    List.zipWith f (l ++ [a]) (m ++ [b]) = List.zipWith f l m ++ [f a b] := by
  rw [List.zipWith_append h]
  rfl

/-- The gap of tomorrow, brought back to tomorrow, is today's own: the column never reads a later row. -/
theorem condLag_concat (chgMin : K) (p : List (PanelRow K)) (x : PanelRow K) :
    condLag chgMin (p ++ [x]) = condLag chgMin p ++ [condLagAt chgMin p x] := by
  have hcond : ∀ (g : List (PanelRow K)) (y : PanelRow K), condLag chgMin (g ++ [y])
      = nan :: List.zipWith (fun gap r => Flt.onlyIf (isUp chgMin r) gap) ((g ++ [y]).map overnight).tail g := by
    intro g y
    have hlen : ((g ++ [y]).map overnight).tail.length = g.length := by simp
    have hback : shiftBack nan ((g ++ [y]).map overnight) = ((g ++ [y]).map overnight).tail ++ [nan] := by
      cases g <;> rfl
    rw [condLag, hback, zipWith_concat _ hlen, Series.shift_append_singleton]
  rcases List.eq_nil_or_concat p with rfl | ⟨p, y, rfl⟩
  · rfl
  · rw [List.concat_eq_append, hcond, hcond]
    have htail : ((p ++ [y] ++ [x]).map overnight).tail = ((p ++ [y]).map overnight).tail ++ [overnight x] := by
      cases p <;> simp
    have hlen : ((p ++ [y]).map overnight).tail.length = p.length := by simp
    rw [htail, zipWith_concat _ hlen, List.cons_append]
    simp [condLagAt]

/-- Net buying over traded value after the rows `p`. -/
def cum5At (netbuy : PanelRow K → Flt K) (p : List (PanelRow K)) : Flt K :=
  ((lagAt 5 rollSum (p.map netbuy)).div (dropZero (lagAt 5 rollSum (p.map PanelRow.valKrw)))).clip (fin (-1)) (fin 1)

theorem cum5_concat (netbuy : PanelRow K → Flt K) (p : List (PanelRow K)) (x : PanelRow K) :
    cum5 netbuy (p ++ [x]) = cum5 netbuy p ++ [cum5At netbuy p] := by
  have hlen : (lagRoll 5 rollSum (p.map netbuy)).length = ((lagRoll 5 rollSum (p.map PanelRow.valKrw)).map dropZero).length := by
    simp
  dsimp only [cum5]
  rw [lagRoll_map_concat, lagRoll_map_concat, List.map_append, List.map_singleton, zipWith_concat _ hlen]
  rfl

/-- What a history column gives a row `x` of a symbol after the rows `p`. -/
def historyAt (m : Libm K) (chgMin : K) (p : List (PanelRow K)) (x : PanelRow K) : HistoryFeature → Flt K
  | .ret5 => lagAt 5 rollSum (p.map (fun r => m.npLog1p (chgOf r)))
  | .ret20 => lagAt 20 rollSum (p.map (fun r => m.npLog1p (chgOf r)))
  | .ret60 => lagAt 60 rollSum (p.map (fun r => m.npLog1p (chgOf r)))
  | .distHigh60 =>
    let idx := cumsum ((p ++ [x]).map (fun r => m.npLog1p (chgOf r)))
    m.npExpm1 ((idx.getLastD nan).sub (rollMax 20 (lastN 60 idx)))
  | .upcount20 =>
    Flt.onlyIf (!(lagAt 20 rollCount (p.map (fun r => m.npLog1p (chgOf r)))).isNan)
      (rollSum 5 (lastN 20 (nan :: p.map (fun r => if isUp chgMin r then fin 1 else fin 0))))
  | .onMean20 => lagAt 20 rollMean (p.map overnight)
  | .onMean60 => lagAt 60 rollMean (p.map overnight)
  | .upnextOn60 =>
    Flt.onlyIf ((fin minConditionalObs).le (rollCount 1 (lastN 60 (condLag chgMin (p ++ [x])))))
      (rollMean 1 (lastN 60 (condLag chgMin (p ++ [x]))))
  | .gap => overnight x
  | .idMean20 => lagAt 20 rollMean (p.map intraday)
  | .instCum5 => cum5At PanelRow.instNetbuy p
  | .foreignCum5 => cum5At PanelRow.foreignNetbuy p

theorem cumsum_concat (s : List (Flt K)) (x : Flt K) : ∃ v, cumsum (s ++ [x]) = cumsum s ++ [v] := ⟨_, Series.scan_concat _ s x⟩

/-- **A row's features come from the rows of its symbol up to it.** -/
theorem historyColumn_concat (m : Libm K) (chgMin : K) (p : List (PanelRow K)) (x : PanelRow K) (f : HistoryFeature) :
    historyColumn m chgMin (p ++ [x]) f = historyColumn m chgMin p f ++ [historyAt m chgMin p x f] := by
  cases f with
  | ret5 => exact lagRoll_map_concat 5 rollSum _ p x
  | ret20 => exact lagRoll_map_concat 20 rollSum _ p x
  | ret60 => exact lagRoll_map_concat 60 rollSum _ p x
  | distHigh60 =>
    obtain ⟨v, hv⟩ := cumsum_concat (p.map (fun r => m.npLog1p (chgOf r))) (m.npLog1p (chgOf x))
    dsimp only [historyColumn, historyAt]
    rw [List.map_append, List.map_singleton, hv, Series.rolling_concat, zipWith_concat _ (by simp)]
    simp
  | upcount20 =>
    dsimp only [historyColumn, historyAt]
    rw [lagRoll_map_concat, List.map_append, List.map_singleton, Series.rolling_shift_concat, zipWith_concat _ (by simp)]
  | onMean20 => exact lagRoll_map_concat 20 rollMean _ p x
  | onMean60 => exact lagRoll_map_concat 60 rollMean _ p x
  | upnextOn60 =>
    dsimp only [historyColumn, historyAt]
    rw [condLag_concat, Series.rolling_concat, Series.rolling_concat, zipWith_concat _ (by simp)]
  | gap => exact List.map_append
  | idMean20 => exact lagRoll_map_concat 20 rollMean _ p x
  | instCum5 => exact cum5_concat PanelRow.instNetbuy p x
  | foreignCum5 => exact cum5_concat PanelRow.foreignNetbuy p x

theorem historyColumn_eq_scan (m : Libm K) (chgMin : K) (f : HistoryFeature) (g : List (PanelRow K)) :
    historyColumn m chgMin g f = scan (fun p x => historyAt m chgMin p x f) g := by
  refine Series.eq_scan (f := fun g => historyColumn m chgMin g f) ?_ (fun l x => historyColumn_concat m chgMin l x f) g
  cases f <;> rfl

/-- The history row of a row of a symbol, after the rows before it. -/
def historyRow (m : Libm K) (chgMin : K) (p : List (PanelRow K)) (x : PanelRow K) : HistoryRow K :=
  { date := x.date, symbol := x.symbol, value := fun f => dropInf (historyAt m chgMin p x f) }

theorem historySymbol_eq_scan (m : Libm K) (chgMin : K) (g : List (PanelRow K)) :
    historySymbol m chgMin g = scan (historyRow m chgMin) g := by
  refine Series.eq_scan (f := historySymbol m chgMin) rfl (fun l x => ?_) g
  have hlen : ∀ f, (historyColumn m chgMin l f).length = l.length := fun f => by
    rw [historyColumn_eq_scan, Series.length_scan]
  rw [historySymbol, List.zipIdx_append, List.map_append]
  congr 1
  · refine List.map_congr_left (fun ri hri => ?_)
    obtain ⟨r, i⟩ := ri
    obtain ⟨-, hi, -⟩ := List.mem_zipIdx hri
    dsimp only
    congr 1
    funext f
    rw [historyColumn_concat, List.getElem?_append_left (by rw [hlen]; omega)]
  · simp only [List.zipIdx_singleton, List.map_cons, List.map_nil, historyRow, Nat.zero_add]
    congr 2
    funext f
    rw [historyColumn_concat, List.getElem?_append_right (by rw [hlen]), hlen, Nat.sub_self]
    rfl

/-! ## The rows of a symbol before a date, and on it -/

def before (panel : List (PanelRow K)) (s : String) (T : Day) : List (PanelRow K) :=
  sortRows PanelRow.key (panel.filter (fun r => decide (r.symbol = s) && decide (r.date < T)))

def rowsOn (panel : List (PanelRow K)) (s : String) (T : Day) : List (PanelRow K) :=
  sortRows PanelRow.key (panel.filter (fun r => decide (r.symbol = s) && decide (r.date = T)))

theorem nodup_of_checkDuplicates {panel : List (PanelRow K)} {u : Unit} (h : checkDuplicates panel = .ok u) :
    (panel.map PanelRow.key).Nodup := by
  rw [checkDuplicates, Exc.raiseIf_eq_ok, duplicates, not_not] at h
  have hle : (panel.map PanelRow.key).dedup.length ≤ (panel.map PanelRow.key).length := (List.dedup_sublist _).length_le
  have hlen : (panel.map PanelRow.key).dedup.length = (panel.map PanelRow.key).length := by
    rw [List.length_map] at hle ⊢
    omega
  exact List.dedup_eq_self.1 ((List.dedup_sublist _).eq_of_length hlen)

/-- The row of a date in the columns of a symbol, its dates in order. -/
theorem find?_scan_historyRow (m : Libm K) (chgMin : K) {l : List (PanelRow K)} (h : l.Pairwise (fun a b => a.date < b.date)) (T : Day) :
    (scan (historyRow m chgMin) l).find? (fun r => decide (r.date = T))
      = (l.filter (fun r => decide (r.date = T))).head?.map (historyRow m chgMin (l.filter (fun r => decide (r.date < T)))) := by
  rw [List.head?_filter]
  have hnone : ∀ p : List (PanelRow K), (∀ a ∈ p, ¬ a.date = T) →
      (scan (historyRow m chgMin) p).find? (fun r => decide (r.date = T)) = none := by
    intro p hp
    rw [List.find?_eq_none]
    intro b hb
    obtain ⟨q, x, r, rfl, rfl⟩ := Series.mem_scanFrom hb
    exact fun hdate => hp x (by simp) (of_decide_eq_true hdate)
  cases hx : l.find? (fun r => decide (r.date = T)) with
  | none =>
    exact hnone l (fun a ha hdate => List.find?_eq_none.1 hx a ha (decide_eq_true hdate))
  | some x =>
    obtain ⟨hdate, p, q, rfl, hp⟩ := List.find?_eq_some_iff_append.1 hx
    have hT : x.date = T := of_decide_eq_true hdate
    obtain ⟨-, hxq, hpx⟩ := List.pairwise_append.1 h
    have hbefore : (p ++ x :: q).filter (fun r => decide (r.date < T)) = p := by
      have hleft : p.filter (fun r => decide (r.date < T)) = p :=
        List.filter_eq_self.2 (fun a ha => decide_eq_true (hT ▸ hpx a ha x List.mem_cons_self))
      have hright : (x :: q).filter (fun r => decide (r.date < T)) = [] := by
        refine List.filter_eq_nil_iff.2 (fun a ha hlt => ?_)
        have halt : a.date < T := of_decide_eq_true hlt
        rcases List.mem_cons.1 ha with rfl | ha
        · exact absurd hT halt.ne
        · exact absurd (hT ▸ (List.pairwise_cons.1 hxq).1 a ha) halt.not_gt
      rw [List.filter_append, hleft, hright, List.append_nil]
    have hpnone := hnone p (fun a ha hd => by simpa [hd] using hp a ha)
    have hhead : decide ((historyRow m chgMin p x).date = T) = true := decide_eq_true hT
    rw [hbefore, Series.scan_append, List.find?_append, hpnone, Option.none_or, Series.scanFrom]
    exact List.find?_cons_of_pos hhead

theorem group_pairwise_date {panel : List (PanelRow K)} (h : (panel.map PanelRow.key).Nodup) (s : String) :
    (group PanelRow.symbol s (sortRows PanelRow.key panel)).Pairwise (fun a b => a.date < b.date) := by
  have hle : (sortRows PanelRow.key panel).Pairwise (fun a b => toLex a.key ≤ toLex b.key) := Grouped.sortRows_pairwise _ _
  have hne : (sortRows PanelRow.key panel).Pairwise (fun a b => a.key ≠ b.key) :=
    List.pairwise_map.1 (Grouped.nodup_sortRows_keys h)
  refine List.Pairwise.imp_of_mem (fun {a b} ha hb hab => ?_) ((hle.and hne).filter _)
  have hsym : a.symbol = b.symbol := ((Grouped.mem_group.1 ha).2).trans ((Grouped.mem_group.1 hb).2).symm
  rcases Prod.Lex.le_iff.1 hab.1 with hlt | ⟨-, hdate⟩
  · exact absurd hsym hlt.ne
  · exact lt_of_le_of_ne hdate (fun heq => hab.2 (Prod.ext hsym heq))

theorem filter_group_sorted {panel : List (PanelRow K)} (h : (panel.map PanelRow.key).Nodup) (s : String) (p : Day → Bool) :
    (group PanelRow.symbol s (sortRows PanelRow.key panel)).filter (fun r => p r.date)
      = sortRows PanelRow.key (panel.filter (fun r => decide (r.symbol = s) && p r.date)) := by
  have hsub : (group PanelRow.symbol s panel).Sublist panel := List.filter_sublist
  have hnodup : ((group PanelRow.symbol s panel).map PanelRow.key).Nodup := h.sublist (hsub.map _)
  rw [Grouped.group_sortRows h, Grouped.filter_sortRows _ hnodup, group, List.filter_filter]
  congr 2
  funext r
  rw [Bool.and_comm]

/-- **The history row of a symbol on a date** comes from the row of the date and the rows before it. -/
theorem find?_history (m : Libm K) (chgMin : K) {panel : List (PanelRow K)} (h : (panel.map PanelRow.key).Nodup) (s : String) (T : Day) :
    (perGroup PanelRow.symbol (historySymbol m chgMin) (sortRows PanelRow.key panel)).find?
        (fun r => decide (r.date = T) && decide (r.symbol = s))
      = (rowsOn panel s T).head?.map (historyRow m chgMin (before panel s T)) := by
  have hsym : ∀ (g : List (PanelRow K)) (t : String), (∀ a ∈ g, a.symbol = t) → ∀ b ∈ historySymbol m chgMin g, b.symbol = t := by
    intro g t hg b hb
    rw [historySymbol_eq_scan] at hb
    obtain ⟨q, x, r, rfl, rfl⟩ := Series.mem_scanFrom hb
    exact hg x (by simp)
  have hfind : ∀ hist : List (HistoryRow K), hist.find? (fun r => decide (r.date = T) && decide (r.symbol = s))
      = (group HistoryRow.symbol s hist).find? (fun r => decide (r.date = T)) := by
    intro hist
    rw [group, List.find?_filter]
    congr 1
    funext r
    simp [and_comm]
  rw [hfind, Grouped.group_perGroup rfl hsym, historySymbol_eq_scan, find?_scan_historyRow m chgMin (group_pairwise_date h s) T,
    filter_group_sorted h s (fun d => decide (d = T)), filter_group_sorted h s (fun d => decide (d < T))]
  rfl

/-- **The as-of match is the last row of the symbol before the date.** -/
theorem mergeAsof_eq {panel : List (PanelRow K)} (h : (panel.map PanelRow.key).Nodup) (s : String) (T : Day) :
    mergeAsof panel s T = (before panel s T).getLast? := by
  have hkey' : (panel.map (fun r => (r.date, r.symbol))).Nodup := by
    refine List.Nodup.of_map Prod.swap ?_
    rw [List.map_map]
    exact h
  have hsub : (panel.filter (fun r => decide (r.symbol = s) && decide (r.date < T))).Sublist panel := List.filter_sublist
  have hsorted := Grouped.sortRows_pairwise PanelRow.key (panel.filter (fun r => decide (r.symbol = s) && decide (r.date < T)))
  dsimp only [mergeAsof, before]
  rw [Grouped.filter_sortRows _ hkey']
  congr 1
  refine Grouped.eq_of_perm_of_pairwise ?_ ?_ hsorted ?_
  · exact (Grouped.sortRows_perm _ _).trans (Grouped.sortRows_perm _ _).symm
  · refine List.Pairwise.imp_of_mem (fun {a b} ha hb hab => ?_)
      (Grouped.sortRows_pairwise (fun r : PanelRow K => (r.date, r.symbol)) _)
    have hsym : ∀ {r : PanelRow K}, r ∈ sortRows (fun r : PanelRow K => (r.date, r.symbol))
        (panel.filter (fun r => decide (r.symbol = s) && decide (r.date < T))) → r.symbol = s := by
      intro r hr
      have hand := (List.mem_filter.1 (Grouped.mem_sortRows.1 hr)).2
      exact of_decide_eq_true (Bool.and_eq_true_iff.1 hand).1
    have hdate : a.date ≤ b.date := by
      rcases Prod.Lex.le_iff.1 hab with hlt | heq
      · exact le_of_lt hlt
      · exact le_of_eq heq.1
    exact Prod.Lex.le_iff.2 (.inr ⟨(hsym ha).trans (hsym hb).symm, hdate⟩)
  · exact (((Grouped.sortRows_perm _ _).map PanelRow.key).nodup_iff.2 (h.sublist (hsub.map _)))

/-! ## The features of a candidate -/

def lagOf (panel : List (PanelRow K)) (s : String) (T : Day) : Flt K :=
  ((before panel s T).getLast?.map PanelRow.instNetbuy).getD nan

def densityOf (panel : List (PanelRow K)) (s : String) (T : Day) : Flt K :=
  (((lagOf panel s T).fillna (fin 0)).div ((((before panel s T).getLast?.map PanelRow.valKrw).getD nan).maximum (fin 1))).clip
    (fin (-1)) (fin 1)

def historyOf (m : Libm K) (chgMin : K) (panel : List (PanelRow K)) (s : String) (T : Day) (f : HistoryFeature) : Flt K :=
  (((rowsOn panel s T).head?.map (fun x => dropInf (historyAt m chgMin (before panel s T) x f)))).getD nan

/-- A feature of a candidate among the candidates and with the panel. -/
def featureOf (m : Libm K) (chgMin : K) (cands : List (CandRow K)) (panel : List (PanelRow K)) (c : CandRow K) : RankerFeature → Flt K
  | .chgRatio => c.chgRatio
  | .logTv => m.npLog1p (c.tvClean.maximum (fin 0))
  | .logMc => m.npLog1p (c.mcClean.maximum (fin 0))
  | .bodyRatio => (c.close.sub c.open_).div ((c.high.sub c.low).maximum (fin 1))
  | .upperShadowRatio => (c.high.sub (c.open_.maximum c.close)).div ((c.high.sub c.low).maximum (fin 1))
  | .intradayRange => (c.high.sub c.low).div c.close
  | .kospiPct => c.kospiPct
  | .kosdaqPct => c.kosdaqPct
  | .vKospi => c.vKospi
  | .tvRank => rankOnDate cands CandRow.tvClean c
  | .chgRank => rankOnDate cands CandRow.chgRatio c
  | .instDensity => densityOf panel c.symbol c.date
  | .instRank => rankOnDate cands (fun d => lagOf panel d.symbol d.date) c
  | .tickCost => c.tickCostBp
  | .logClose => m.npLog (Flt.onlyIf ((fin 0).lt c.levelClose) c.levelClose)
  | .history f => historyOf m chgMin panel c.symbol c.date f

/-- **What the three functions attach to the candidates.** -/
theorem rankerFeatures_eq {m : Libm K} {chgMin : K} {cands : List (CandRow K)} {panel : List (PanelRow K)} {out : List (RankerRow K)}
    (h : rankerFeatures m chgMin cands panel = .ok out) :
    (panel.map PanelRow.key).Nodup ∧
      out.map (fun r => (r.toCandRow, r.value)) = cands.map (fun c => (c, featureOf m chgMin cands panel c)) := by
  simp only [rankerFeatures, Exc.bind_eq_ok, attachLaggedFlowFeatures, attachTopkFeatures, computeTopkHistoryFeatures] at h
  obtain ⟨flowed, ⟨u, hdup, hflowed⟩, hist, ⟨u', -, hhist⟩, hout⟩ := h
  have hnodup := nodup_of_checkDuplicates hdup
  cases hflowed
  cases hhist
  cases hout
  refine ⟨hnodup, ?_⟩
  have hlag : instNetbuyLag1 panel = fun c => lagOf panel c.symbol c.date := by
    funext c
    rw [instNetbuyLag1, mergeAsof_eq hnodup, lagOf]
  have hval : valLag1 panel = fun c => (((before panel c.symbol c.date).getLast?.map PanelRow.valKrw).getD nan).maximum (fin 1) := by
    funext c
    rw [valLag1, mergeAsof_eq hnodup]
  simp only [computeDerivedFeatures, List.map_map]
  refine List.map_congr_left (fun c _ => ?_)
  refine Prod.ext rfl ?_
  funext f
  cases f with
  | history f =>
    simp only [Function.comp_apply, RankerRow.value, featureOf, historyOf, find?_history m chgMin hnodup, Option.map_map]
    rfl
  | instDensity =>
    simp only [Function.comp_apply, RankerRow.value, featureOf, densityOf, hlag, hval]
  | instRank =>
    simp only [Function.comp_apply, RankerRow.value, featureOf, hlag]
    congr 1
    exact List.map_id' _
  | _ => rfl

/-- The three functions raise exactly for a panel that repeats a key. -/
theorem rankerFeatures_returns {m : Libm K} {chgMin : K} {cands : List (CandRow K)} {panel : List (PanelRow K)}
    (h : (panel.map PanelRow.key).Nodup) : ∃ out, rankerFeatures m chgMin cands panel = .ok out := by
  have hdup : checkDuplicates panel = .ok () := by
    rw [checkDuplicates, Exc.raiseIf_eq_ok, duplicates, h.dedup, List.length_map]
    omega
  simp only [rankerFeatures, attachLaggedFlowFeatures, attachTopkFeatures, computeTopkHistoryFeatures, hdup, Exc.ok_bind]
  exact ⟨_, rfl⟩

/-! ## What a change of the panel leaves -/

/-- The values of a feature on a date, candidate by candidate. -/
def valuesOn (out : List (RankerRow K)) (T : Day) (f : RankerFeature) : List (Flt K) :=
  (out.filter (fun r => decide (r.date = T))).map (fun r => r.value f)

/-- The candidates of a date. -/
def candsOn (cands : List (CandRow K)) (T : Day) : List (CandRow K) := cands.filter (fun c => decide (c.date = T))

section Change

variable {m : Libm K} {chgMin : K} {cands cands' : List (CandRow K)} {panel panel' : List (PanelRow K)}
  {out out' : List (RankerRow K)} {T : Day} {s : String}

theorem valuesOn_eq (h : rankerFeatures m chgMin cands panel = .ok out) (T : Day) (f : RankerFeature) :
    valuesOn out T f = (candsOn cands T).map (fun c => featureOf m chgMin cands panel c f) := by
  have heq := congrArg (fun l => (l.filter (fun cv : CandRow K × (RankerFeature → Flt K) => decide (cv.1.date = T))).map
    (fun cv => cv.2 f)) (rankerFeatures_eq h).2
  simp only [List.filter_map, List.map_map] at heq
  exact heq

/-- Lists whose rows match in one column match in another the first determines. -/
theorem map_eq_of_map_eq {α α' β γ : Type} {a : α → β} {a' : α' → β} {b : α → γ} {b' : α' → γ} : ∀ {l : List α} {l' : List α'},
    l.map a = l'.map a' → (∀ x ∈ l, ∀ y ∈ l', a x = a' y → b x = b' y) → l.map b = l'.map b'
  | [], [], _, _ => rfl
  | [], _ :: _, h, _ => by cases h
  | _ :: _, [], h, _ => by cases h
  | x :: l, y :: l', h, hb => by
    rw [List.map_cons, List.map_cons] at h
    obtain ⟨hhead, htail⟩ := List.cons.inj h
    rw [List.map_cons, List.map_cons, hb x List.mem_cons_self y List.mem_cons_self hhead,
      map_eq_of_map_eq htail (fun u hu v hv => hb u (List.mem_cons_of_mem _ hu) v (List.mem_cons_of_mem _ hv))]

theorem sorted_filter_congr (hnodup : (panel.map PanelRow.key).Nodup) (p : Day → Bool)
    (h : (panel.filter (fun r => p r.date)).Perm (panel'.filter (fun r => p r.date))) (s : String) :
    sortRows PanelRow.key (panel.filter (fun r => decide (r.symbol = s) && p r.date))
      = sortRows PanelRow.key (panel'.filter (fun r => decide (r.symbol = s) && p r.date)) := by
  have hsub : (panel.filter (fun r => decide (r.symbol = s) && p r.date)).Sublist panel := List.filter_sublist
  refine Grouped.sortRows_congr ?_ (hnodup.sublist (hsub.map _))
  rw [← List.filter_filter, ← List.filter_filter]
  exact h.filter _

theorem before_congr (hnodup : (panel.map PanelRow.key).Nodup)
    (h : (panel.filter (fun r => decide (r.date < T))).Perm (panel'.filter (fun r => decide (r.date < T)))) (s : String) :
    before panel s T = before panel' s T := sorted_filter_congr hnodup (fun d => decide (d < T)) h s

theorem rowsOn_congr (hnodup : (panel.map PanelRow.key).Nodup)
    (h : (panel.filter (fun r => decide (r.date = T))).Perm (panel'.filter (fun r => decide (r.date = T)))) (s : String) :
    rowsOn panel s T = rowsOn panel' s T := sorted_filter_congr hnodup (fun d => decide (d = T)) h s

theorem rowsOn_eq_nil_iff : rowsOn panel s T = [] ↔ s ∉ (panel.filter (fun r => decide (r.date = T))).map PanelRow.symbol := by
  rw [List.eq_nil_iff_forall_not_mem]
  simp only [rowsOn, Grouped.mem_sortRows, List.mem_filter, List.mem_map, Bool.and_eq_true, decide_eq_true_eq]
  constructor
  · rintro h ⟨r, ⟨hr, hdate⟩, hsym⟩
    exact h r ⟨hr, hsym, hdate⟩
  · rintro h r ⟨hr, hsym, hdate⟩
    exact h ⟨r, ⟨hr, hdate⟩, hsym⟩

/-- A history column declared prior reads nothing of the row of the date. -/
theorem historyAt_prior {f : HistoryFeature} (hf : (RankerFeature.history f, FeatureTiming.priorConfirmed) ∈ topkFeatureSpecs)
    (p : List (PanelRow K)) (x y : PanelRow K) : historyAt m chgMin p x f = historyAt m chgMin p y f := by
  cases f with
  | distHigh60 => simp [topkFeatureSpecs] at hf
  | upnextOn60 => simp [topkFeatureSpecs] at hf
  | gap => simp [topkFeatureSpecs] at hf
  | _ => rfl

/-- The ranks of a date come from the values of its candidates. -/
theorem rankOnDate_congr {val val' : CandRow K → Flt K} (h : (candsOn cands T).map val = (candsOn cands' T).map val')
    {c c' : CandRow K} (hc : c.date = T) (hc' : c'.date = T) (heq : val c = val' c') :
    rankOnDate cands val c = rankOnDate cands' val' c' := by
  rw [rankOnDate, rankOnDate, hc, hc', heq]
  exact congrArg (rankPct · _) h

theorem date_of_mem_candsOn {c : CandRow K} (h : c ∈ candsOn cands T) : c.date = T := of_decide_eq_true (List.mem_filter.1 h).2

/-- **A feature declared prior** is unchanged by the values of the date, of the panel's rows and of the candidates. -/
theorem prior_unchanged (h : rankerFeatures m chgMin cands panel = .ok out) (h' : rankerFeatures m chgMin cands' panel' = .ok out')
    (hbefore : (panel.filter (fun r => decide (r.date < T))).Perm (panel'.filter (fun r => decide (r.date < T))))
    (hon : ((panel.filter (fun r => decide (r.date = T))).map PanelRow.symbol).Perm
      ((panel'.filter (fun r => decide (r.date = T))).map PanelRow.symbol))
    (hcands : (candsOn cands T).map CandRow.symbol = (candsOn cands' T).map CandRow.symbol)
    {f : RankerFeature} (hf : (f, FeatureTiming.priorConfirmed) ∈ topkFeatureSpecs) : valuesOn out T f = valuesOn out' T f := by
  have hsame := before_congr (rankerFeatures_eq h).1 hbefore
  have hlag : ∀ s, lagOf panel s T = lagOf panel' s T := fun s => by rw [lagOf, lagOf, hsame]
  have hlags : (candsOn cands T).map (fun d => lagOf panel d.symbol d.date) = (candsOn cands' T).map (fun d => lagOf panel' d.symbol d.date) :=
    map_eq_of_map_eq hcands (fun x hx y hy hxy => by
      rw [date_of_mem_candsOn hx, date_of_mem_candsOn hy, hxy, hlag])
  rw [valuesOn_eq h, valuesOn_eq h']
  refine map_eq_of_map_eq hcands (fun c hc c' hc' hsym => ?_)
  have hT := date_of_mem_candsOn hc
  have hT' := date_of_mem_candsOn hc'
  cases f with
  | instDensity => rw [featureOf, featureOf, hT, hT', hsym, densityOf, densityOf, hlag, hsame]
  | instRank =>
    exact rankOnDate_congr hlags hT hT' (by rw [hT, hT', hsym, hlag])
  | history f =>
    rw [featureOf, featureOf, hT, hT', hsym, historyOf, historyOf, hsame]
    cases hrows : rowsOn panel c'.symbol T with
    | nil =>
      have hrows' : rowsOn panel' c'.symbol T = [] := rowsOn_eq_nil_iff.2 (fun hmem => rowsOn_eq_nil_iff.1 hrows (hon.mem_iff.2 hmem))
      rw [hrows']
    | cons x xs =>
      cases hrows' : rowsOn panel' c'.symbol T with
      | nil =>
        have hnil : rowsOn panel c'.symbol T = [] := rowsOn_eq_nil_iff.2 (fun hmem => rowsOn_eq_nil_iff.1 hrows' (hon.mem_iff.1 hmem))
        rw [hnil] at hrows
        cases hrows
      | cons y ys =>
        rw [List.head?_cons, List.head?_cons, Option.map_some, Option.map_some, historyAt_prior hf _ x y]
  | _ => simp [topkFeatureSpecs] at hf

/-- **A feature declared a snapshot** is unchanged by what the panel holds of other dates. -/
theorem snapshot_unchanged (h : rankerFeatures m chgMin cands panel = .ok out) (h' : rankerFeatures m chgMin cands' panel' = .ok out')
    (hon : (panel.filter (fun r => decide (r.date = T))).Perm (panel'.filter (fun r => decide (r.date = T))))
    (hcands : candsOn cands T = candsOn cands' T)
    {f : RankerFeature} (hf : (f, FeatureTiming.decisionSnapshot) ∈ topkFeatureSpecs) : valuesOn out T f = valuesOn out' T f := by
  have hsame := rowsOn_congr (rankerFeatures_eq h).1 hon
  rw [valuesOn_eq h, valuesOn_eq h', ← hcands]
  refine List.map_congr_left (fun c hc => ?_)
  have hT := date_of_mem_candsOn hc
  cases f with
  | tvRank => exact rankOnDate_congr (by rw [hcands]) hT hT rfl
  | chgRank => exact rankOnDate_congr (by rw [hcands]) hT hT rfl
  | history f =>
    cases f with
    | gap =>
      rw [featureOf, featureOf, hT, historyOf, historyOf, hsame]
      rfl
    | _ => simp [topkFeatureSpecs] at hf
  | _ => first | rfl | simp [topkFeatureSpecs] at hf

/-- **No feature reads a panel row dated after its date.** -/
theorem later_unchanged (h : rankerFeatures m chgMin cands panel = .ok out) (h' : rankerFeatures m chgMin cands' panel' = .ok out')
    (hupto : (panel.filter (fun r => decide (r.date ≤ T))).Perm (panel'.filter (fun r => decide (r.date ≤ T))))
    (hcands : candsOn cands T = candsOn cands' T) (f : RankerFeature) : valuesOn out T f = valuesOn out' T f := by
  have hrestrict : ∀ (p : Day → Bool), (∀ d, p d = true → d ≤ T) →
      (panel.filter (fun r => p r.date)).Perm (panel'.filter (fun r => p r.date)) := by
    intro p hp
    have hfilter : ∀ l : List (PanelRow K), (l.filter (fun r => decide (r.date ≤ T))).filter (fun r => p r.date) = l.filter (fun r => p r.date) := by
      intro l
      rw [List.filter_filter]
      congr 1
      funext r
      cases hpr : p r.date with
      | false => rfl
      | true => simp [hp r.date hpr]
    rw [← hfilter panel, ← hfilter panel']
    exact hupto.filter _
  have hbefore := before_congr (rankerFeatures_eq h).1 (hrestrict (fun d => decide (d < T)) (fun d hd => le_of_lt (of_decide_eq_true hd)))
  have hon := rowsOn_congr (rankerFeatures_eq h).1 (hrestrict (fun d => decide (d = T)) (fun d hd => le_of_eq (of_decide_eq_true hd)))
  have hlag : ∀ s, lagOf panel s T = lagOf panel' s T := fun s => by rw [lagOf, lagOf, hbefore]
  rw [valuesOn_eq h, valuesOn_eq h', ← hcands]
  refine List.map_congr_left (fun c hc => ?_)
  have hT := date_of_mem_candsOn hc
  cases f with
  | tvRank => exact rankOnDate_congr (by rw [hcands]) hT hT rfl
  | chgRank => exact rankOnDate_congr (by rw [hcands]) hT hT rfl
  | instDensity => rw [featureOf, featureOf, hT, densityOf, densityOf, hlag, hbefore]
  | instRank =>
    refine rankOnDate_congr ?_ hT hT (by rw [hT, hlag])
    rw [← hcands]
    exact List.map_congr_left (fun d hd => by rw [date_of_mem_candsOn hd, hlag])
  | history f => rw [featureOf, featureOf, hT, historyOf, historyOf, hbefore, hon]
  | _ => rfl

/-- **The declared timing of the features is respected**, on every date of every two runs that return. -/
theorem declared_timing (h : rankerFeatures m chgMin cands panel = .ok out) (h' : rankerFeatures m chgMin cands' panel' = .ok out')
    (T : Day) (f : RankerFeature) :
    ((panel.filter (fun r => decide (r.date ≤ T))).Perm (panel'.filter (fun r => decide (r.date ≤ T))) →
      candsOn cands T = candsOn cands' T → valuesOn out T f = valuesOn out' T f) ∧
    ((f, FeatureTiming.priorConfirmed) ∈ topkFeatureSpecs →
      (panel.filter (fun r => decide (r.date < T))).Perm (panel'.filter (fun r => decide (r.date < T))) →
      ((panel.filter (fun r => decide (r.date = T))).map PanelRow.symbol).Perm
        ((panel'.filter (fun r => decide (r.date = T))).map PanelRow.symbol) →
      (candsOn cands T).map CandRow.symbol = (candsOn cands' T).map CandRow.symbol → valuesOn out T f = valuesOn out' T f) ∧
    ((f, FeatureTiming.decisionSnapshot) ∈ topkFeatureSpecs →
      (panel.filter (fun r => decide (r.date = T))).Perm (panel'.filter (fun r => decide (r.date = T))) →
      candsOn cands T = candsOn cands' T → valuesOn out T f = valuesOn out' T f) := by
  refine ⟨fun hupto hcands => ?_, fun hf hbefore hon hcands => ?_, fun hf hon hcands => ?_⟩
  · exact later_unchanged h h' hupto hcands f
  · exact prior_unchanged h h' hbefore hon hcands hf
  · exact snapshot_unchanged h h' hon hcands hf

end Change

/-- Functions that are exact where a row's change is zero and a price is one. -/
def flatLibm : Libm ℚ := { log := fun x => x - 1, log1p := fun x => x, expm1 := fun x => x }

def flatPanelRow (date : Day) (symbol : String) (opening inst : ℚ) : PanelRow ℚ :=
  { date := date, symbol := symbol, open_ := fin opening, close := fin 1, prevClose := fin 1, volume := fin 10,
    instNetbuy := fin inst, foreignNetbuy := fin 0, closeRaw := nan }

def flatCand (date : Day) (symbol : String) (opening : ℚ) : CandRow ℚ :=
  { date := date, symbol := symbol, open_ := fin opening, high := fin 2, low := fin 1, close := fin 1, tvClean := fin 0, mcClean := fin 0,
    chgRatio := fin 0, kospiPct := fin 0, kosdaqPct := fin 0, vKospi := fin 18, tickCostBp := fin 5, closeRaw := none }

/-- A panel of four days, and what may be changed in it: the rows after day 3, the values of day 3, the rows before it. -/
def threeDays : List (PanelRow ℚ) :=
  [flatPanelRow 1 "A" 1 3, flatPanelRow 2 "A" 1 4, flatPanelRow 2 "B" 1 (-2), flatPanelRow 3 "A" 2 5, flatPanelRow 3 "B" 1 6]

theorem declared_timing_four_days :
    (∀ f, (rankerFeatures flatLibm 0 [flatCand 3 "A" 2, flatCand 3 "B" 1] threeDays).map (valuesOn · 3 f)
      = (rankerFeatures flatLibm 0 [flatCand 3 "A" 2, flatCand 3 "B" 1] (flatPanelRow 4 "A" 7 8 :: threeDays)).map (valuesOn · 3 f)) ∧
    (rankerFeatures flatLibm 0 [flatCand 3 "A" 2, flatCand 3 "B" 1] threeDays).map (valuesOn · 3 .instRank)
      = (rankerFeatures flatLibm 0 [flatCand 3 "A" 9, flatCand 3 "B" 8] (threeDays.take 3 ++ [flatPanelRow 3 "B" 4 4, flatPanelRow 3 "A" 4 4])).map
          (valuesOn · 3 .instRank) ∧
    (rankerFeatures flatLibm 0 [flatCand 3 "A" 2, flatCand 3 "B" 1] threeDays).map (valuesOn · 3 (.history .gap))
      = (rankerFeatures flatLibm 0 [flatCand 3 "A" 2, flatCand 3 "B" 1] (flatPanelRow 1 "B" 3 3 :: threeDays.drop 2)).map
          (valuesOn · 3 (.history .gap)) := by
  obtain ⟨out, h⟩ := @rankerFeatures_returns ℚ _ _ flatLibm 0 [flatCand 3 "A" 2, flatCand 3 "B" 1] threeDays (by decide +kernel)
  refine ⟨fun f => ?_, ?_, ?_⟩
  · obtain ⟨out', h'⟩ := @rankerFeatures_returns ℚ _ _ flatLibm 0 [flatCand 3 "A" 2, flatCand 3 "B" 1] (flatPanelRow 4 "A" 7 8 :: threeDays)
      (by decide +kernel)
    rw [h, h']
    exact congrArg Except.ok ((declared_timing h h' 3 f).1 (by decide +kernel) rfl)
  · obtain ⟨out', h'⟩ := @rankerFeatures_returns ℚ _ _ flatLibm 0 [flatCand 3 "A" 9, flatCand 3 "B" 8]
      (threeDays.take 3 ++ [flatPanelRow 3 "B" 4 4, flatPanelRow 3 "A" 4 4]) (by decide +kernel)
    rw [h, h']
    exact congrArg Except.ok ((declared_timing h h' 3 .instRank).2.1 (by decide) (by decide +kernel) (by decide +kernel) (by decide +kernel))
  · obtain ⟨out', h'⟩ := @rankerFeatures_returns ℚ _ _ flatLibm 0 [flatCand 3 "A" 2, flatCand 3 "B" 1]
      (flatPanelRow 1 "B" 3 3 :: threeDays.drop 2) (by decide +kernel)
    rw [h, h']
    exact congrArg Except.ok ((declared_timing h h' 3 (.history .gap)).2.2 (by decide) (by decide +kernel) rfl)

end TopkFeatures
