import Mathlib.Data.List.Nodup
import KClosingAlpha.Lib.Exc
import KClosingAlpha.Order.EntryPrice
import KClosingAlpha.Paper.Book
/-!
# ExitPaths — the forward exit of a candidate (`attach_forward_exit_paths`)

A candidate exits at the first tradable open of the next twenty trading days.  Days are day numbers and numbers are
computed exactly.  Where the calendar ends inside the twenty days and none of those there is tradable, the code takes
the haircut meant for a candidate that did not resume in twenty days: just then a later day can change the label.
-/
namespace ExitPaths

open Exc (raiseIf)
open Flt (nan fin)

abbrev Day := Int

/-! ## Costs -/

inductive CostMode where
  | aa | pa
deriving DecidableEq

/-- `round_trip_ticks` of AA_COST and PA_COST. -/
def CostMode.roundTripTicks : CostMode → ℚ
  | aa => 2
  | pa => 1

def tickReformDate : Day := 19382

def krxTickBandsPreReformKospi : List (Flt ℚ × ℤ) :=
  [(fin 1000, 1), (fin 5000, 5), (fin 10000, 10), (fin 50000, 50), (fin 100000, 100), (fin 500000, 500), (.inf false, 1000)]

def krxTickBandsPreReformKosdaq : List (Flt ℚ × ℤ) :=
  [(fin 1000, 1), (fin 5000, 5), (fin 10000, 10), (fin 50000, 50), (.inf false, 100)]

def kosdaqMarketLabels : List String := ["KOSDAQ", "KSQ150"]

def krxTickSizeAsof (price : Flt ℚ) (tradeDate : Day) (market : String) : Option ℤ :=
  let bands := if tickReformDate ≤ tradeDate then Order.krxTickBands
    else if market ∈ kosdaqMarketLabels then krxTickBandsPreReformKosdaq else krxTickBandsPreReformKospi
  if price.isFinite && Flt.lt (fin 0) price then (bands.find? (fun band => Flt.lt price band.1)).map Prod.snd else none

def tickCostBp (price : Flt ℚ) (tradeDate : Day) (market : String) : Flt ℚ :=
  match krxTickSizeAsof price tradeDate market with
  | some tick => Flt.mul (Flt.div (fin tick) price) (fin 10000)
  | none => nan

/-- `BROKERAGE_FEE_BP`. -/
def brokerageFeeBp : ℚ := 72792 / 100000

def roundTripCostBp (price : Flt ℚ) (tradeDate : Day) (market : String) (cost : CostMode) : Flt ℚ :=
  let statutory : Flt ℚ := match Paper.statutoryBpAsof tradeDate with
    | some bp => fin bp
    | none => nan
  Flt.add (Flt.add statutory (Flt.mul (fin cost.roundTripTicks) (tickCostBp price tradeDate market))) (fin brokerageFeeBp)

/-- `STRESS_COST_BP`. -/
def stressCostBp : ℚ := 46

/-! ## The forward search -/

/-- The columns of a panel row that are read. -/
structure Bar where
  date : Day
  symbol : String
  open_ : Flt ℚ
  volume : Flt ℚ
deriving DecidableEq

/-- A candidate row; `closeRaw` is none where the candidates have no such column, and so is `market`. -/
structure Cand where
  date : Day
  symbol : String
  close : Flt ℚ
  closeRaw : Option (Flt ℚ)
  market : Option String
deriving DecidableEq

inductive ExitStatus where
  | tradable | suspended | unresolved
deriving DecidableEq

structure ExitPath where
  d1Tradable : Bool
  exitPrice : Flt ℚ
  exitStatus : ExitStatus
  holdingDays : Nat
  exitDate : Option Day
  grossReturn : Flt ℚ
  costAaBp : Flt ℚ
  costPaBp : Flt ℚ
  costStressBp : Flt ℚ
  netReturnAa : Flt ℚ
  netReturnPa : Flt ℚ
  netReturnStress : Flt ℚ
deriving DecidableEq

inductive ExitError where
  | key (d : Day)
  | value (msg : String)
deriving DecidableEq

section

variable (ph : List Bar) (marketDates : List Day)

def barAt (d : Day) (s : String) : Option Bar := ph.find? (fun b => decide (b.date = d) && decide (b.symbol = s))

def Bar.tradable (b : Bar) : Bool := b.open_.isFinite && Flt.lt (fin 0) b.open_ && Flt.lt (fin 0) b.volume

/-- The row of D+k. -/
def barAfter (i : Nat) (s : String) (k : Nat) : Option Bar := marketDates[i + k]?.bind (fun d => barAt ph d s)

/-- The search of a suspended candidate: it stops where the calendar does. -/
def searchSteps (i : Nat) (s : String) : List Nat → Option (Flt ℚ × Nat)
  | [] => none
  | step :: steps =>
    if marketDates.length ≤ i + step then none
    else match barAfter ph marketDates i s step with
      | some b => if b.tradable then some (b.open_, step) else searchSteps i s steps
      | none => searchSteps i s steps

structure Exit where
  d1Tradable : Bool
  price : Flt ℚ
  status : ExitStatus
  holdingDays : Nat
deriving DecidableEq

/-- The exit of a candidate at a place of the calendar. -/
def exitAt (i : Nat) (c : Cand) : Exit :=
  let validD1 : Bool := i + 1 < marketDates.length
  match (barAfter ph marketDates i c.symbol 1).filter Bar.tradable with
  | some b => ⟨true, b.open_, .tradable, 1⟩
  | none =>
    if validD1 then match searchSteps ph marketDates i c.symbol (List.range' 2 19) with
      | some (op, step) => ⟨false, op, .suspended, step⟩
      | none => ⟨false, Flt.mul c.close (fin (1 / 2)), .unresolved, 20⟩
    else ⟨false, nan, .tradable, 1⟩

def levelClose (c : Cand) : Flt ℚ := (c.closeRaw.getD nan).fillna c.close

def exitPath (i : Nat) (c : Cand) (market : String) : ExitPath :=
  let e := exitAt ph marketDates i c
  let gross := Flt.sub (Flt.div e.price c.close) (fin 1)
  let costAa := roundTripCostBp (levelClose c) c.date market .aa
  let costPa := roundTripCostBp (levelClose c) c.date market .pa
  let net (cost : Flt ℚ) := Flt.sub gross (Flt.div cost (fin 10000))
  { d1Tradable := e.d1Tradable
    exitPrice := e.price
    exitStatus := e.status
    holdingDays := e.holdingDays
    exitDate := if i + 1 < marketDates.length then marketDates[i + e.holdingDays]? else none
    grossReturn := gross
    costAaBp := costAa
    costPaBp := costPa
    costStressBp := fin stressCostBp
    netReturnAa := net costAa
    netReturnPa := net costPa
    netReturnStress := net (fin stressCostBp) }

/-- `d_to_idx[d]`. -/
def indexOf (d : Day) : Except ExitError Nat := (marketDates.findIdx? (· = d)).elim (.error (.key d)) .ok

/-- `attach_forward_exit_paths`: the columns it attaches, row by row. -/
def attachForwardExitPaths (cands : List Cand) : Except ExitError (List ExitPath) := do
  let indices ← cands.mapM (fun c => indexOf marketDates c.date)
  raiseIf (¬ (ph.map (fun b => (b.date, b.symbol))).Nodup) (.value "cannot handle a non-unique multi-index!")
  (cands.zip indices).mapM (fun x => x.1.market.elim
    (.error (.value "attach_forward_exit_paths requires a 'market' column for point-in-time tick costing"))
    (fun market => .ok (exitPath ph marketDates x.2 x.1 market)))

/-! ## First hit -/

/-- The price of the tradable open of D+k, where there is one. -/
def openingAfter (i : Nat) (s : String) (k : Nat) : Option (Flt ℚ) :=
  ((barAfter ph marketDates i s k).filter Bar.tradable).map Bar.open_

theorem barAfter_none_of_end {i k : Nat} (h : marketDates.length ≤ i + k) (s : String) :
    barAfter ph marketDates i s k = none := by
  rw [barAfter, List.getElem?_eq_none h]
  rfl

/-- **The break at the calendar's end skips no open**: the search is the first hit of its steps. -/
theorem searchSteps_range' (i : Nat) (s : String) : ∀ m a : Nat,
    searchSteps ph marketDates i s (List.range' a m) =
      ((List.range' a m).find? (fun k => (openingAfter ph marketDates i s k).isSome)).bind
        (fun k => (openingAfter ph marketDates i s k).map (fun op => (op, k)))
  | 0, a => rfl
  | m + 1, a => by
    have ih := searchSteps_range' i s m (a + 1)
    rw [List.range'_succ, searchSteps]
    by_cases hend : marketDates.length ≤ i + a
    · have hnone : ∀ k ∈ a :: List.range' (a + 1) m, openingAfter ph marketDates i s k = none := by
        intro k hk
        have hak : a ≤ k := by
          rcases List.mem_cons.1 hk with rfl | hk
          · exact le_refl k
          · have := (List.mem_range'_1.1 hk).1
            omega
        rw [openingAfter, barAfter_none_of_end ph marketDates (by omega) s]
        rfl
      rw [if_pos hend, List.find?_eq_none.2 (fun k hk => by simp [hnone k hk])]
      rfl
    · rw [if_neg hend, List.find?_cons]
      cases hb : barAfter ph marketDates i s a with
      | none => simpa [openingAfter, hb] using ih
      | some b => by_cases ht : b.tradable = true <;> simp [openingAfter, hb, Option.filter, ht, ih]

/-- `op` is the first tradable open of D+1..D+20, that of D+k. -/
structure IsFirst (i : Nat) (s : String) (k : Nat) (op : Flt ℚ) : Prop where
  one_le : 1 ≤ k
  le : k ≤ 20
  opens : openingAfter ph marketDates i s k = some op
  first : ∀ j, 1 ≤ j → j < k → openingAfter ph marketDates i s j = none

/-- No day of D+1..D+20 in the calendar has a tradable open. -/
def NoneTrades (i : Nat) (s : String) : Prop := ∀ k, 1 ≤ k → k ≤ 20 → openingAfter ph marketDates i s k = none

theorem isFirst_or_noneTrades (i : Nat) (s : String) :
    (∃ k op, IsFirst ph marketDates i s k op) ∨ NoneTrades ph marketDates i s := by
  cases h : (List.range' 1 20).find? (fun k => (openingAfter ph marketDates i s k).isSome) with
  | none =>
    rw [List.find?_range'_eq_none] at h
    exact .inr fun k h1 h20 => by simpa using h k h1 (by omega)
  | some k =>
    obtain ⟨hk, hmem, hfirst⟩ := List.find?_range'_eq_some.1 h
    obtain ⟨h1, h20⟩ := List.mem_range'_1.1 hmem
    obtain ⟨op, hop⟩ := Option.isSome_iff_exists.1 hk
    exact .inl ⟨k, op, h1, by omega, hop, fun j hj hjk => by simpa using hfirst j hj hjk⟩

/-- The exit at the first tradable open: found at D+1 or by the search. -/
theorem exitAt_of_isFirst {i : Nat} {c : Cand} {k : Nat} {op : Flt ℚ}
    (h : IsFirst ph marketDates i c.symbol k op) :
    exitAt ph marketDates i c = ⟨decide (k = 1), op, if k = 1 then .tradable else .suspended, k⟩ := by
  obtain ⟨h1, h20, hop, hfirst⟩ := h
  have hlt : i + k < marketDates.length := by
    by_contra hend
    rw [openingAfter, barAfter_none_of_end ph marketDates (by omega)] at hop
    simp at hop
  rcases Nat.lt_or_ge 1 k with hk | hk
  · have hfind : (List.range' 2 19).find? (fun j => (openingAfter ph marketDates i c.symbol j).isSome) = some k :=
      List.find?_range'_eq_some.2 ⟨by simp [hop], List.mem_range'_1.2 (by omega),
        fun j hj hjk => by simp [hfirst j (by omega) hjk]⟩
    have hd1 : (barAfter ph marketDates i c.symbol 1).filter Bar.tradable = none := by
      simpa [openingAfter] using hfirst 1 (le_refl 1) hk
    have hne : k ≠ 1 := by omega
    simp only [exitAt, hd1]
    rw [if_pos (by simp; omega), searchSteps_range', hfind]
    simp [hop, hne]
  · obtain rfl : k = 1 := by omega
    obtain ⟨b, hb, rfl⟩ := Option.map_eq_some_iff.1 hop
    simp [exitAt, hb]

theorem exitAt_of_noneTrades {i : Nat} {c : Cand} (h : NoneTrades ph marketDates i c.symbol) :
    exitAt ph marketDates i c = if i + 1 < marketDates.length
      then ⟨false, Flt.mul c.close (fin (1 / 2)), .unresolved, 20⟩ else ⟨false, nan, .tradable, 1⟩ := by
  have hd1 : (barAfter ph marketDates i c.symbol 1).filter Bar.tradable = none := by
    simpa [openingAfter] using h 1 (le_refl 1) (by omega)
  have hfind : (List.range' 2 19).find? (fun j => (openingAfter ph marketDates i c.symbol j).isSome) = none :=
    List.find?_range'_eq_none.2 fun k h2 h20 => by simp [h k (by omega) (by omega)]
  simp only [exitAt, hd1, searchSteps_range', hfind, decide_eq_true_eq]
  rfl

end

/-! ## Prepared panels -/

theorem getElem?_filter_le {e d : Day} : ∀ {l : List Day}, l.Pairwise (· < ·) → ∀ m : Nat,
    (l.filter (· ≤ e))[m]? = some d ↔ l[m]? = some d ∧ d ≤ e
  | [], _, m => by simp
  | x :: l, h, m => by
    obtain ⟨hx, hl⟩ := List.pairwise_cons.1 h
    by_cases hxe : x ≤ e
    · rw [List.filter_cons_of_pos (by simpa using hxe)]
      cases m with
      | zero =>
        simp only [List.getElem?_cons_zero, Option.some.injEq]
        exact ⟨fun hd => ⟨hd, hd ▸ hxe⟩, fun hd => hd.1⟩
      | succ m => simpa using getElem?_filter_le hl m
    · have hlater : ∀ y ∈ x :: l, ¬ y ≤ e := by
        intro y hy
        rcases List.mem_cons.1 hy with rfl | hy
        · exact hxe
        · exact fun hye => hxe (le_of_lt (lt_of_lt_of_le (hx y hy) hye))
      rw [List.filter_eq_nil_iff.2 (by simpa using hlater)]
      simp only [List.getElem?_nil, reduceCtorEq, false_iff]
      exact fun hd => hlater d (List.mem_of_getElem? hd.1) hd.2

theorem indexOf_eq_ok {marketDates : List Day} (h : marketDates.Pairwise (· < ·)) (d : Day) (i : Nat) :
    indexOf marketDates d = .ok i ↔ marketDates[i]? = some d := by
  rw [indexOf]
  constructor
  · intro hi
    cases hf : marketDates.findIdx? (· = d) with
    | none => rw [hf] at hi; simp at hi
    | some j =>
      rw [hf, Option.elim_some, Except.ok.injEq] at hi
      obtain ⟨hj, hd, -⟩ := List.findIdx?_eq_some_iff_getElem.1 hf
      rw [← hi, List.getElem?_eq_getElem hj, of_decide_eq_true hd]
  · intro hi
    obtain ⟨hlt, hd⟩ := List.getElem?_eq_some_iff.1 hi
    have hf : marketDates.findIdx? (· = d) = some i := by
      rw [List.findIdx?_eq_some_iff_getElem]
      refine ⟨hlt, by simpa using hd, fun j hj => ?_⟩
      have hlt' := List.pairwise_iff_getElem.1 h j i (by omega) hlt hj
      simpa [← hd] using ne_of_lt hlt'
    rw [hf, Option.elim_some]

/-- A panel as it is loaded: one row a key, the calendar its days in order. -/
structure Prepared where
  bars : List Bar
  marketDates : List Day
  nodup : (bars.map (fun b => (b.date, b.symbol))).Nodup
  sorted : marketDates.Pairwise (· < ·)
  days : ∀ d, d ∈ marketDates ↔ ∃ b ∈ bars, b.date = d

namespace Prepared

/-- `P'` adds later trading days: the calendar goes on, and its rows of the days of `P` are those of `P`. -/
structure Extends (P P' : Prepared) : Prop where
  calendar : ∃ later, P'.marketDates = P.marketDates ++ later
  rows : ∀ b, b ∈ P.bars ↔ b ∈ P'.bars ∧ b.date ∈ P.marketDates

/-- Two panels with the same days and rows up to a day. -/
structure AgreesUpTo (e : Day) (P Q : Prepared) : Prop where
  calendar : Q.marketDates.filter (· ≤ e) = P.marketDates.filter (· ≤ e)
  rows : ∀ b : Bar, b.date ≤ e → (b ∈ Q.bars ↔ b ∈ P.bars)

theorem Extends.agreesUpTo {P P' : Prepared} (h : P.Extends P') {e : Day} (he : e ∈ P.marketDates) :
    P.AgreesUpTo e P' := by
  obtain ⟨later, hlater⟩ := h.calendar
  have hsorted := P'.sorted
  rw [hlater] at hsorted
  have hgt : ∀ d ∈ later, e < d := fun d hd => (List.pairwise_append.1 hsorted).2.2 e he d hd
  have hnone : later.filter (· ≤ e) = [] :=
    List.filter_eq_nil_iff.2 fun d hd => by simpa using hgt d hd
  refine ⟨?_, fun b hb => ?_⟩
  · rw [hlater, List.filter_append, hnone, List.append_nil]
  · rw [h.rows b]
    refine ⟨fun hb' => ⟨hb', ?_⟩, And.left⟩
    have hday := (P'.days b.date).2 ⟨b, hb', rfl⟩
    rw [hlater, List.mem_append] at hday
    exact hday.resolve_right fun hd => not_lt.2 hb (hgt _ hd)

theorem AgreesUpTo.getElem? {e d : Day} {P Q : Prepared} (h : P.AgreesUpTo e Q) (hd : d ≤ e) (m : Nat) :
    Q.marketDates[m]? = some d ↔ P.marketDates[m]? = some d := by
  have hQ := getElem?_filter_le (e := e) (d := d) Q.sorted m
  have hP := getElem?_filter_le (e := e) (d := d) P.sorted m
  rw [h.calendar, hP] at hQ
  simpa [hd] using hQ.symm

theorem barAt_eq_some (P : Prepared) (d : Day) (s : String) (b : Bar) :
    barAt P.bars d s = some b ↔ b ∈ P.bars ∧ b.date = d ∧ b.symbol = s := by
  constructor
  · intro h
    have hp := List.find?_some h
    simp only [Bool.and_eq_true, decide_eq_true_eq] at hp
    exact ⟨List.mem_of_find?_eq_some h, hp⟩
  · rintro ⟨hb, hd, hs⟩
    cases hf : barAt P.bars d s with
    | none => simpa [hd, hs] using List.find?_eq_none.1 hf b hb
    | some b' =>
      have hp := List.find?_some hf
      simp only [Bool.and_eq_true, decide_eq_true_eq] at hp
      have hkey := List.inj_on_of_nodup_map P.nodup (List.mem_of_find?_eq_some hf) hb
        (Prod.ext (hp.1.trans hd.symm) (hp.2.trans hs.symm))
      rw [hkey]

theorem AgreesUpTo.barAt_eq {e d : Day} {P Q : Prepared} (h : P.AgreesUpTo e Q) (hd : d ≤ e) (s : String) :
    barAt Q.bars d s = barAt P.bars d s := by
  refine Option.ext fun b => ?_
  rw [barAt_eq_some, barAt_eq_some]
  constructor
  · rintro ⟨hb, rfl, hs⟩
    exact ⟨(h.rows b hd).1 hb, rfl, hs⟩
  · rintro ⟨hb, rfl, hs⟩
    exact ⟨(h.rows b hd).2 hb, rfl, hs⟩

/-- Up to the day they agree on, the opens are the same. -/
theorem AgreesUpTo.openingAfter_eq {e : Day} {P Q : Prepared} (h : P.AgreesUpTo e Q) {i k : Nat} (s : String)
    (hk : ∃ d ≤ e, P.marketDates[i + k]? = some d) :
    openingAfter Q.bars Q.marketDates i s k = openingAfter P.bars P.marketDates i s k := by
  obtain ⟨d, hd, hget⟩ := hk
  have hQ := (h.getElem? hd (i + k)).2 hget
  simp only [openingAfter, barAfter, hget, hQ, Option.bind_some, h.barAt_eq hd s]

theorem getElem?_le_of_le (P : Prepared) {m m' : Nat} {e : Day} (hm : m ≤ m') (h : P.marketDates[m']? = some e) :
    ∃ d ≤ e, P.marketDates[m]? = some d := by
  obtain ⟨hlt, rfl⟩ := List.getElem?_eq_some_iff.1 h
  have hm' : m < P.marketDates.length := by omega
  refine ⟨P.marketDates[m], ?_, List.getElem?_eq_getElem hm'⟩
  rcases Nat.eq_or_lt_of_le hm with rfl | hlt'
  · exact le_refl _
  · exact le_of_lt (List.pairwise_iff_getElem.1 P.sorted m m' hm' hlt hlt')

end Prepared

/-! ## Finality -/

/-- A candidate, its place in the calendar and the columns attached to it. -/
def Labels (P : Prepared) (c : Cand) (p : ExitPath) : Prop :=
  ∃ i market, P.marketDates[i]? = some c.date ∧ c.market = some market ∧ p = exitPath P.bars P.marketDates i c market

/-- A run attaches to every candidate its label. -/
theorem attachForwardExitPaths_eq_ok (P : Prepared) (cands : List Cand) (paths : List ExitPath) :
    attachForwardExitPaths P.bars P.marketDates cands = .ok paths ↔ List.Forall₂ (Labels P) cands paths := by
  have hraise : ∀ u : Unit, raiseIf (¬ (P.bars.map (fun b => (b.date, b.symbol))).Nodup)
      (ExitError.value "cannot handle a non-unique multi-index!") = .ok u := fun u =>
    (Exc.raiseIf_eq_ok _ _ u).2 (not_not.2 P.nodup)
  simp only [attachForwardExitPaths, hraise (), Exc.ok_bind, Exc.bind_eq_ok, Exc.mapM_zip_eq_ok, indexOf_eq_ok P.sorted]
  refine iff_of_eq (congrArg (fun R => List.Forall₂ R cands paths) ?_)
  funext c p
  cases hm : c.market with
  | none => simp [Labels, hm]
  | some market => simp [Labels, hm, eq_comm]

theorem labels_unique {P : Prepared} {c : Cand} {p p' : ExitPath} (h : Labels P c p) (h' : Labels P c p') : p' = p := by
  obtain ⟨i, market, hi, hm, rfl⟩ := h
  obtain ⟨i', market', hi', hm', rfl⟩ := h'
  rw [← indexOf_eq_ok P.sorted] at hi hi'
  rw [hi, Except.ok.injEq] at hi'
  rw [hm, Option.some.injEq] at hm'
  rw [hi', hm']

/-- The exit date of a label is a day of the calendar past the candidate's. -/
theorem Prepared.exitDate_of_exitAt {P : Prepared} {i : Nat} {c : Cand} {market : String} {e : Day}
    (h : (exitPath P.bars P.marketDates i c market).exitDate = some e) :
    i + 1 < P.marketDates.length ∧
      P.marketDates[i + (exitAt P.bars P.marketDates i c).holdingDays]? = some e := by
  simp only [exitPath] at h
  split at h
  · next hlt => exact ⟨hlt, h⟩
  · simp at h

/-- **A label depends on no row after its exit date.** -/
theorem exitPath_agreesUpTo {P Q : Prepared} {i : Nat} {c : Cand} {market : String} {e : Day}
    (he : (exitPath P.bars P.marketDates i c market).exitDate = some e) (h : P.AgreesUpTo e Q) :
    exitPath Q.bars Q.marketDates i c market = exitPath P.bars P.marketDates i c market := by
  obtain ⟨hlt, hexit⟩ := Prepared.exitDate_of_exitAt he
  have hsame : ∀ k, k ≤ (exitAt P.bars P.marketDates i c).holdingDays →
      openingAfter Q.bars Q.marketDates i c.symbol k = openingAfter P.bars P.marketDates i c.symbol k := fun k hk =>
    h.openingAfter_eq c.symbol (P.getElem?_le_of_le (by omega) hexit)
  have hexitQ := (h.getElem? (le_refl e) _).2 hexit
  have hlen := (List.getElem?_eq_some_iff.1 hexitQ).1
  rcases isFirst_or_noneTrades P.bars P.marketDates i c.symbol with ⟨k, op, hk⟩ | hnone
  · have hP := exitAt_of_isFirst P.bars P.marketDates hk
    rw [hP] at hsame hexit hexitQ hlen
    have hfirst : IsFirst Q.bars Q.marketDates i c.symbol k op :=
      ⟨hk.one_le, hk.le, (hsame k (le_refl k)).trans hk.opens,
        fun j hj hjk => (hsame j (le_of_lt hjk)).trans (hk.first j hj hjk)⟩
    have hQ := exitAt_of_isFirst Q.bars Q.marketDates hfirst
    have hltQ : i + 1 < Q.marketDates.length := by
      have := hk.one_le
      dsimp only at hlen
      omega
    simp only [exitPath, hP, hQ, hexit, hexitQ, if_pos hlt, if_pos hltQ]
  · have hP := exitAt_of_noneTrades P.bars P.marketDates hnone
    rw [if_pos hlt] at hP
    rw [hP] at hsame hexit hexitQ hlen
    have hltQ : i + 1 < Q.marketDates.length := by
      dsimp only at hlen
      omega
    have hQ := exitAt_of_noneTrades Q.bars Q.marketDates (c := c) (i := i)
      (fun k h1 h20 => (hsame k h20).trans (hnone k h1 h20))
    rw [if_pos hltQ] at hQ
    simp only [exitPath, hP, hQ, hexit, hexitQ, if_pos hlt, if_pos hltQ]

theorem labels_agreesUpTo {P Q : Prepared} {c : Cand} {p : ExitPath} {e : Day} (hp : Labels P c p)
    (he : p.exitDate = some e) (h : P.AgreesUpTo e Q) : Labels Q c p := by
  obtain ⟨i, market, hi, hm, rfl⟩ := hp
  obtain ⟨d, hd, hget⟩ := P.getElem?_le_of_le (Nat.le_add_right i _) (Prepared.exitDate_of_exitAt he).2
  have hdate : c.date = d := Option.some.inj (hi.symm.trans hget)
  exact ⟨i, market, (h.getElem? (hdate ▸ hd) i).2 hi, hm, (exitPath_agreesUpTo he h).symm⟩

/-- Every later day of the search is in the calendar, or the search needs none of them. -/
def Settled (P : Prepared) (c : Cand) : Prop :=
  ∀ i, P.marketDates[i]? = some c.date → i + 1 < P.marketDates.length →
    NoneTrades P.bars P.marketDates i c.symbol → i + 20 < P.marketDates.length

def SameLabel (p p' : ExitPath) : Prop :=
  p'.grossReturn = p.grossReturn ∧ p'.exitStatus = p.exitStatus ∧ p'.holdingDays = p.holdingDays

/-- The first tradable open of D+1..D+20, or the haircut where all twenty days exist and none trades, or no exit. -/
def ExitAsMeant (P : Prepared) (c : Cand) (p : ExitPath) : Prop :=
  p.grossReturn = Flt.sub (Flt.div p.exitPrice c.close) (fin 1) ∧ ∃ i, P.marketDates[i]? = some c.date ∧
    ((∃ k op, IsFirst P.bars P.marketDates i c.symbol k op ∧ p.exitPrice = op ∧ p.holdingDays = k ∧
        p.exitStatus = if k = 1 then .tradable else .suspended) ∨
      (NoneTrades P.bars P.marketDates i c.symbol ∧ i + 20 < P.marketDates.length ∧
        p.exitPrice = Flt.mul c.close (fin (1 / 2)) ∧ p.holdingDays = 20 ∧ p.exitStatus = .unresolved) ∨
      (NoneTrades P.bars P.marketDates i c.symbol ∧ p.exitPrice = nan ∧ p.exitStatus ≠ .unresolved))

/-- The labels of a run are final: later days change none, each is the first hit, and none reads past its exit date. -/
structure Final (P : Prepared) (cands : List Cand) (paths : List ExitPath) : Prop where
  extended : ∀ P', P.Extends P' → ∃ paths', attachForwardExitPaths P'.bars P'.marketDates cands = .ok paths' ∧
    List.Forall₂ (fun p p' => p.grossReturn.isNan = false → SameLabel p p') paths paths'
  first : List.Forall₂ (ExitAsMeant P) cands paths
  through : ∀ e Q paths', P.AgreesUpTo e Q → attachForwardExitPaths Q.bars Q.marketDates cands = .ok paths' →
    List.Forall₂ (fun p p' => p.exitDate = some e → SameLabel p p') paths paths'

theorem exitDate_of_settled {P : Prepared} {c : Cand} {p : ExitPath} (hp : Labels P c p) (hc : Settled P c)
    (hgross : p.grossReturn.isNan = false) : ∃ e ∈ P.marketDates, p.exitDate = some e := by
  obtain ⟨i, market, hi, hm, rfl⟩ := hp
  have hdate : ∀ k, 1 ≤ k → i + k < P.marketDates.length → (exitAt P.bars P.marketDates i c).holdingDays = k →
      ∃ e ∈ P.marketDates, (exitPath P.bars P.marketDates i c market).exitDate = some e := by
    intro k h1 hlt hk
    refine ⟨P.marketDates[i + k], List.getElem_mem hlt, ?_⟩
    simp only [exitPath, hk]
    rw [if_pos (by omega), List.getElem?_eq_getElem hlt]
  rcases isFirst_or_noneTrades P.bars P.marketDates i c.symbol with ⟨k, op, hk⟩ | hnone
  · have hP := exitAt_of_isFirst P.bars P.marketDates hk
    have hlt : i + k < P.marketDates.length := by
      by_contra hend
      have hop := hk.opens
      rw [openingAfter, barAfter_none_of_end P.bars P.marketDates (by omega)] at hop
      simp at hop
    exact hdate k hk.one_le hlt (by rw [hP])
  · have hP := exitAt_of_noneTrades P.bars P.marketDates hnone
    by_cases hlt : i + 1 < P.marketDates.length
    · rw [if_pos hlt] at hP
      exact hdate 20 (by omega) (hc i hi hlt hnone) (by rw [hP])
    · rw [if_neg hlt] at hP
      simp [exitPath, hP, Flt.sub] at hgross

/-- Later days leave a settled label with a value alone. -/
theorem labels_extends {P P' : Prepared} {c : Cand} {p : ExitPath} (hp : Labels P c p) (hc : Settled P c)
    (h : P.Extends P') : ∃ p', Labels P' c p' ∧ (p.grossReturn.isNan = false → SameLabel p p') := by
  by_cases hgross : p.grossReturn.isNan = false
  · obtain ⟨e, he, hexit⟩ := exitDate_of_settled hp hc hgross
    exact ⟨p, labels_agreesUpTo hp hexit (h.agreesUpTo he), fun _ => ⟨rfl, rfl, rfl⟩⟩
  · obtain ⟨i, market, hi, hm, rfl⟩ := hp
    obtain ⟨later, hlater⟩ := h.calendar
    have hi' : P'.marketDates[i]? = some c.date := by
      rw [hlater, List.getElem?_append_left (List.getElem?_eq_some_iff.1 hi).1, hi]
    exact ⟨_, ⟨i, market, hi', hm, rfl⟩, fun hg => absurd hg hgross⟩

theorem exitAsMeant_of_settled {P : Prepared} {c : Cand} {p : ExitPath} (hp : Labels P c p) (hc : Settled P c) :
    ExitAsMeant P c p := by
  obtain ⟨i, market, hi, hm, rfl⟩ := hp
  refine ⟨rfl, i, hi, ?_⟩
  rcases isFirst_or_noneTrades P.bars P.marketDates i c.symbol with ⟨k, op, hk⟩ | hnone
  · refine .inl ⟨k, op, hk, ?_⟩
    simp [exitPath, exitAt_of_isFirst P.bars P.marketDates hk]
  · have hP := exitAt_of_noneTrades P.bars P.marketDates hnone
    by_cases hlt : i + 1 < P.marketDates.length
    · refine .inr (.inl ⟨hnone, hc i hi hlt hnone, ?_⟩)
      simp [exitPath, hP, hlt]
    · refine .inr (.inr ⟨hnone, ?_⟩)
      simp [exitPath, hP, hlt]

/-- A haircut taken at the calendar's end is not the exit that is meant. -/
theorem settled_of_exitAsMeant {P : Prepared} {c : Cand} {p : ExitPath} (hp : Labels P c p) (h : ExitAsMeant P c p) :
    Settled P c := by
  obtain ⟨i, market, hi, hm, rfl⟩ := hp
  obtain ⟨-, i', hi', hexit⟩ := h
  intro j hj hlt hnone
  rw [← indexOf_eq_ok P.sorted] at hi hi' hj
  obtain rfl : i = i' := by rw [hi, Except.ok.injEq] at hi'; exact hi'
  obtain rfl : i = j := by rw [hi, Except.ok.injEq] at hj; exact hj
  have hP := exitAt_of_noneTrades P.bars P.marketDates hnone
  rw [if_pos hlt] at hP
  rcases hexit with ⟨k, op, hk, -⟩ | ⟨-, hall, -⟩ | ⟨-, -, hstatus⟩
  · have hop := hk.opens
    rw [hnone k hk.one_le hk.le] at hop
    simp at hop
  · exact hall
  · simp [exitPath, hP] at hstatus

/-- **Labels are final just where every candidate is settled.** -/
theorem final_iff_settled {P : Prepared} {cands : List Cand} {paths : List ExitPath}
    (h : attachForwardExitPaths P.bars P.marketDates cands = .ok paths) :
    Final P cands paths ↔ ∀ c ∈ cands, Settled P c := by
  have hlabels := (attachForwardExitPaths_eq_ok P cands paths).1 h
  constructor
  · intro hfinal
    have hboth : List.Forall₂ (fun c p => Labels P c p ∧ ExitAsMeant P c p) cands paths := by
      rw [List.forall₂_iff_zip] at hlabels ⊢
      exact ⟨hlabels.1, fun hmem => ⟨hlabels.2 hmem, List.forall₂_zip hfinal.first hmem⟩⟩
    have hsettled : List.Forall₂ (fun c p => Settled P c ∧ Labels P c p) cands paths :=
      hboth.imp fun c p hcp => ⟨settled_of_exitAsMeant hcp.1 hcp.2, hcp.1⟩
    exact ((List.forall₂_and_left _ _).1 hsettled).1
  · intro hsettled
    have hboth := (List.forall₂_and_left _ _).2 ⟨hsettled, hlabels⟩
    refine ⟨fun P' hext => ?_, hboth.imp fun c p hcp => exitAsMeant_of_settled hcp.2 hcp.1, ?_⟩
    · obtain ⟨paths', hS, hT⟩ := Exc.exists_forall₂_beside (fun c p hcp => labels_extends hcp.2 hcp.1 hext) hboth
      exact ⟨paths', (attachForwardExitPaths_eq_ok P' cands paths').2 hS, hT⟩
    · intro e Q paths' hagree hQ
      refine Exc.forall₂_beside (fun c p p' hp hp' he => ?_) hlabels ((attachForwardExitPaths_eq_ok Q cands paths').1 hQ)
      rw [labels_unique (labels_agreesUpTo hp he hagree) hp']
      exact ⟨rfl, rfl, rfl⟩

/-! ## One more day -/

/-- The panel with one row of a later day. -/
def Prepared.addDay (P : Prepared) (b : Bar) (h : ∀ d ∈ P.marketDates, d < b.date) : Prepared where
  bars := P.bars ++ [b]
  marketDates := P.marketDates ++ [b.date]
  nodup := by
    rw [List.map_append, List.nodup_append]
    refine ⟨P.nodup, by simp, fun k hk k' hk' => ?_⟩
    obtain ⟨b', hb', rfl⟩ := List.mem_map.1 hk
    obtain rfl : k' = (b.date, b.symbol) := by simpa using hk'
    exact fun heq => ne_of_lt (h _ ((P.days _).2 ⟨b', hb', rfl⟩)) (congrArg Prod.fst heq)
  sorted := List.pairwise_append.2 ⟨P.sorted, List.pairwise_singleton _ _, fun d hd d' hd' => by
    rw [List.mem_singleton.1 hd']
    exact h d hd⟩
  days d := by
    simp only [List.mem_append, List.mem_singleton, P.days, or_and_right, exists_or, exists_eq_left]
    exact or_congr Iff.rfl eq_comm

theorem Prepared.extends_addDay (P : Prepared) (b : Bar) (h : ∀ d ∈ P.marketDates, d < b.date) :
    P.Extends (P.addDay b h) := by
  refine ⟨⟨[b.date], rfl⟩, fun b' => ?_⟩
  simp only [addDay, List.mem_append, List.mem_singleton]
  constructor
  · exact fun hb' => ⟨.inl hb', (P.days _).2 ⟨b', hb', rfl⟩⟩
  · rintro ⟨hb' | rfl, hday⟩
    · exact hb'
    · exact absurd (h _ hday) (lt_irrefl _)

/-- **A label that is not settled is not final**: the candidate trades on the next day and its exit is another. -/
theorem label_changes_of_not_settled {P : Prepared} {c : Cand} {p : ExitPath} (hp : Labels P c p) (h : ¬ Settled P c) :
    p.exitStatus = .unresolved ∧ ∃ P', P.Extends P' ∧ ∀ p', Labels P' c p' → ¬ SameLabel p p' := by
  obtain ⟨i, market, hi, hm, rfl⟩ := hp
  simp only [Settled, not_forall] at h
  obtain ⟨i', hi', hlt, hnone, hend⟩ := h
  obtain rfl : i = i' := by
    rw [← indexOf_eq_ok P.sorted] at hi hi'
    rw [hi, Except.ok.injEq] at hi'
    exact hi'
  have hstatus : (exitPath P.bars P.marketDates i c market).exitStatus = .unresolved := by
    simp [exitPath, exitAt_of_noneTrades P.bars P.marketDates hnone, hlt]
  refine ⟨hstatus, ?_⟩
  obtain ⟨e, hlast⟩ : ∃ e, P.marketDates[P.marketDates.length - 1]? = some e :=
    ⟨_, List.getElem?_eq_getElem (by omega)⟩
  have hlater : ∀ d ∈ P.marketDates, d < e + 1 := fun d hd => by
    obtain ⟨m, hmlt, rfl⟩ := List.getElem_of_mem hd
    obtain ⟨d', hd', hget⟩ := P.getElem?_le_of_le (m := m) (by omega) hlast
    rw [List.getElem?_eq_getElem hmlt, Option.some.injEq] at hget
    exact Int.lt_add_one_of_le (hget ▸ hd')
  let b : Bar := ⟨e + 1, c.symbol, fin 1, fin 1⟩
  have hext := P.extends_addDay b hlater
  refine ⟨P.addDay b hlater, hext, ?_⟩
  rintro p' ⟨j, market', hj, hm', rfl⟩ ⟨-, hsame, -⟩
  -- The new day is D+k, the first one of the candidate's symbol that trades.
  have hk : IsFirst (P.addDay b hlater).bars (P.addDay b hlater).marketDates i c.symbol (P.marketDates.length - i) (fin 1) := by
    refine ⟨by omega, by omega, ?_, fun m h1 hmk => ?_⟩
    · have hat : barAt (P.addDay b hlater).bars (e + 1) c.symbol = some b :=
        (Prepared.barAt_eq_some _ _ _ _).2 ⟨List.mem_append_right _ List.mem_cons_self, rfl, rfl⟩
      have hget : (P.addDay b hlater).marketDates[i + (P.marketDates.length - i)]? = some (e + 1) := by
        rw [Nat.add_sub_cancel' (by omega)]
        exact List.getElem?_concat_length
      simp [openingAfter, barAfter, hget, hat, b, Bar.tradable]
    · rw [(hext.agreesUpTo (List.mem_of_getElem? hlast)).openingAfter_eq c.symbol (P.getElem?_le_of_le (by omega) hlast)]
      exact hnone m h1 (by omega)
  have hi'' : (P.addDay b hlater).marketDates[i]? = some c.date := by
    rw [Prepared.addDay, List.getElem?_append_left (by omega), hi]
  rw [← indexOf_eq_ok (P.addDay b hlater).sorted] at hi'' hj
  obtain rfl : i = j := by
    rw [hi'', Except.ok.injEq] at hj
    exact hj
  rw [hstatus, exitPath, exitAt_of_isFirst _ _ hk] at hsame
  simp only at hsame
  split at hsame <;> simp at hsame

/-- A candidate's stock is suspended on the two days that follow. -/
def suspendedPanel : Prepared where
  bars := [⟨20606, "000020", fin 10000, fin 500⟩, ⟨20607, "000020", fin 0, fin 0⟩, ⟨20608, "000020", fin 0, fin 0⟩]
  marketDates := [20606, 20607, 20608]
  nodup := by decide
  sorted := by decide
  days d := by simp [eq_comm]

/-- It resumes on the third day. -/
def resumedPanel : Prepared := suspendedPanel.addDay ⟨20609, "000020", fin 11000, fin 500⟩ (by decide)

def suspendedCand : Cand := ⟨20606, "000020", fin 10000, none, some "KOSPI"⟩

/-- The haircut of the newest days turns into an exit when the next day comes. -/
theorem haircut_label_changes : suspendedPanel.Extends resumedPanel ∧
    (attachForwardExitPaths suspendedPanel.bars suspendedPanel.marketDates [suspendedCand]).map
        (fun paths => paths.map (fun p => (p.grossReturn, p.exitStatus, p.holdingDays))) =
      .ok [(fin (-1 / 2), .unresolved, 20)] ∧
    (attachForwardExitPaths resumedPanel.bars resumedPanel.marketDates [suspendedCand]).map
        (fun paths => paths.map (fun p => (p.grossReturn, p.exitStatus, p.holdingDays))) =
      .ok [(fin (1 / 10), .suspended, 3)] :=
  ⟨suspendedPanel.extends_addDay _ _, by decide +kernel, by decide +kernel⟩

theorem final_resumed : Final resumedPanel [suspendedCand]
    [exitPath resumedPanel.bars resumedPanel.marketDates 0 suspendedCand "KOSPI"] := by
  refine (final_iff_settled (by decide +kernel)).2 fun c hc i hi hlt hnone => ?_
  obtain rfl := List.mem_singleton.1 hc
  obtain rfl : i = 0 := by
    rw [← indexOf_eq_ok resumedPanel.sorted] at hi
    exact (Except.ok.inj ((by decide : indexOf resumedPanel.marketDates suspendedCand.date = .ok 0).symm.trans hi)).symm
  exact absurd (hnone 3 (by decide) (by decide)) (by decide +kernel)

end ExitPaths
