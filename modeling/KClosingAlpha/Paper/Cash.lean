import KClosingAlpha.Paper.Nav
import KClosingAlpha.Paper.Recovery
import Mathlib.Algebra.Order.BigOperators.Group.List
/-!
# Cash — the paper book never spends cash it does not have (`paper_trade.py`, `paper_broker.py`)

Cash is a sum over the fills (`cashOf`), whatever round trips they make.  An entry session walks its orders with the cash
of the ledger and books a buy only out of what remains; an exit session only brings cash in.  Orders sized out of the
investable capital, at prices that are not below the fills', fit in with their fees.
-/
namespace Paper

/-! ## Cash as a sum over the fills -/

/-- What a buy takes out. -/
def Fill.outlay (f : Fill) : Int := f.notional + sideFeeKrw f.notional

/-- What a sell brings in. -/
def Fill.proceeds (f : Fill) : Int :=
  f.notional - sideFeeKrw f.notional -
    f.notional * (f.filledAt.bind (fun t => statutoryBpAsof (Timestamp.day t))).getD 0 / 10000

def cashOf (seed : Int) (fills : List Fill) : Int :=
  seed - ((fills.filter Fill.isBuy).map Fill.outlay).sum + ((fills.filter Fill.isSell).map Fill.proceeds).sum

theorem cashOf_append (seed : Int) (fills rows : List Fill) : cashOf seed (fills ++ rows) =
    cashOf seed fills - ((rows.filter Fill.isBuy).map Fill.outlay).sum +
      ((rows.filter Fill.isSell).map Fill.proceeds).sum := by
  unfold cashOf
  simp only [List.filter_append, List.map_append, List.sum_append]
  omega

/-- What a round trip brings in. -/
def RoundTrip.inflow (t : RoundTrip) : Int := t.exitPrice * t.qty - t.sellFee - t.sellTax

theorem roundTrip_inflow {kind : Calendar} {buy rec : Fill} {row : RoundTrip} (h : roundTrip kind buy rec = .ok row) :
    row.inflow = rec.proceeds := by
  unfold roundTrip at h
  simp only [Exc.bind_eq_ok, Exc.raiseIf_eq_ok] at h
  obtain ⟨-, -, -, -, h⟩ := h
  split at h
  · cases h
  next sellFilledAt hfilled =>
    split at h
    · cases h
    next taxBp htax =>
      simp only [Exc.bind_eq_ok, Exc.raiseIf_eq_ok] at h
      obtain ⟨-, -, -, -, h⟩ := h
      split at h
      · cases h
      · cases h
        simp only [RoundTrip.inflow, Fill.proceeds, Fill.notional, hfilled, Option.bind_some, htax, Option.getD_some]

/-- One fill of the loop, in money. -/
theorem Book.step_inflow {kind : Calendar} {b b' : Book} {rec : Fill} (h : b.step kind rec = .ok b') :
    (b'.rows.map RoundTrip.inflow).sum =
      (b.rows.map RoundTrip.inflow).sum + (([rec].filter Fill.isSell).map Fill.proceeds).sum := by
  unfold Book.step at h
  split at h
  next hbuy =>
    cases h
    have hnone : [rec].filter Fill.isSell = [] := by simp [Fill.isSell, hbuy]
    simp [hnone]
  next =>
    split at h
    next hsell =>
      split at h
      · cases h
      · split at h
        · cases h
        · simp only [Exc.bind_eq_ok] at h
          obtain ⟨row, hrow, h⟩ := h
          cases h
          have hone : [rec].filter Fill.isSell = [rec] := by simp [Fill.isSell, hsell]
          simp [hone, roundTrip_inflow hrow]
    next => cases h

theorem buildBook_inflow {kind : Calendar} : ∀ {fills : List Fill} {b b' : Book},
    fills.foldlM (Book.step kind) b = .ok b' → (b'.rows.map RoundTrip.inflow).sum =
      (b.rows.map RoundTrip.inflow).sum + ((fills.filter Fill.isSell).map Fill.proceeds).sum
  | [], b, b', h => by
    cases h
    simp
  | rec :: rest, b, b', h => by
    rw [List.foldlM_cons] at h
    obtain ⟨b₁, h₁, h⟩ := (Exc.bind_eq_ok _ _ _).1 h
    have hsplit : (rec :: rest).filter Fill.isSell = [rec].filter Fill.isSell ++ rest.filter Fill.isSell :=
      List.filter_append [rec] rest
    rw [buildBook_inflow h, Book.step_inflow h₁, hsplit, List.map_append, List.sum_append]
    omega

/-- **The cash of a snapshot is that of the fills.** -/
theorem nav_cash {kind : Calendar} {fills : List Fill} {seed : Int} {asOfDate : String} {marks : Marks}
    {nav : NavSnapshot} (h : buildNavSnapshot kind fills seed asOfDate marks = .ok nav) :
    nav.cash = cashOf seed fills := by
  obtain ⟨trips, htrips⟩ : ∃ trips, buildRoundTrips kind fills = .ok trips := by
    unfold buildNavSnapshot at h
    split_ifs at h with hnil
    · subst hnil
      exact ⟨_, rfl⟩
    · obtain ⟨trips, htrips, -⟩ := (Exc.bind_eq_ok _ _ _).1 h
      exact ⟨trips, htrips⟩
  obtain ⟨hcash, -⟩ := buildNavSnapshot_sums htrips h
  obtain ⟨b, hb, rfl⟩ := (Exc.map_eq_ok _ _ _).1 htrips
  have hin := buildBook_inflow hb
  rw [List.map_nil, List.sum_nil, zero_add] at hin
  rw [hcash, cashOf, ← hin]
  rfl

/-! ## A sell brings cash in -/

theorem statutoryBpAsof_le {day bp : Int} (h : statutoryBpAsof day = some bp) : 0 ≤ bp ∧ bp ≤ 30 := by
  obtain ⟨p, hp, rfl⟩ := Option.map_eq_some_iff.1 h
  have hall : ∀ p ∈ statutoryBpSchedule, 0 ≤ p.2 ∧ p.2 ≤ 30 := by decide
  exact hall p (List.mem_of_mem_filter (List.mem_of_getLast? hp))

theorem proceeds_nonneg {f : Fill} (h : 0 ≤ f.notional) : 0 ≤ f.proceeds := by
  obtain ⟨bp, hbp, h0, h30⟩ : ∃ bp, (f.filledAt.bind (fun t => statutoryBpAsof (Timestamp.day t))).getD 0 = bp ∧
      0 ≤ bp ∧ bp ≤ 30 := by
    refine ⟨_, rfl, ?_⟩
    cases hb : f.filledAt.bind (fun t => statutoryBpAsof (Timestamp.day t)) with
    | none => simp
    | some bp =>
      obtain ⟨t, -, ht⟩ := Option.bind_eq_some_iff.1 hb
      exact statutoryBpAsof_le ht
  unfold Fill.proceeds sideFeeKrw
  rw [hbp]
  have htax : f.notional * bp ≤ f.notional * 30 := Int.mul_le_mul_of_nonneg_left h30 h
  omega

/-! ## The orders of an entry -/

theorem investableCapital_nonneg (cash seed : Int) : 0 ≤ investableCapital cash seed := le_max_left ..

/-- Whatever is bought out of the investable capital, its fee is left in the cash. -/
theorem investableCapital_afford {cash seed n : Int} (hn : 0 < n) (h : n ≤ investableCapital cash seed) :
    n + sideFeeKrw n ≤ cash := by
  unfold investableCapital at h
  unfold sideFeeKrw
  omega

theorem sizeOrderQty_eq {capital price qty : Int} {allocation : Rat} (h : sizeOrderQty capital allocation price = .ok qty) :
    0 < price ∧ 0 < allocation ∧ qty = ⌊(capital : Rat) * allocation / price⌋ := by
  unfold sizeOrderQty at h
  simp only [Exc.bind_eq_ok, Exc.raiseIf_eq_ok, not_le, Except.ok.injEq] at h
  obtain ⟨-, hprice, -, halloc, rfl⟩ := h
  exact ⟨hprice, halloc, rfl⟩

/-- What an order is filled for, if it is. -/
def PaperOrder.value (snapshot : String → Option SnapshotRow) (o : PaperOrder) : Int :=
  match snapshot o.symbol with
  | none => 0
  | some row => if row.confirmed = true ∧ 0 < row.close then row.close * o.qty else 0

theorem PaperOrder.value_nonneg {snapshot : String → Option SnapshotRow} {o : PaperOrder} (h : 0 < o.qty) :
    0 ≤ o.value snapshot := by
  unfold PaperOrder.value
  split
  · exact le_rfl
  · split_ifs with hrow
    · exact (Int.mul_pos hrow.2 h).le
    · exact le_rfl

/-- The orders are buys of at least one share. -/
theorem buildEntryOrders_buys {date : String} {capital : Int} {placed : Timestamp} (hcap : 0 ≤ capital) :
    ∀ {picks : List (Pick × Int)} {orders : List PaperOrder}, buildEntryOrders date capital placed picks = .ok orders →
      ∀ o ∈ orders, o.side = "buy" ∧ 0 < o.qty
  | [], orders, h => by
    cases h
    exact fun o ho => by cases ho
  | (p, price) :: picks, orders, h => by
    unfold buildEntryOrders at h
    split_ifs at h with hprice
    · exact buildEntryOrders_buys hcap h
    · obtain ⟨qty, hsize, h⟩ := (Exc.bind_eq_ok _ _ _).1 h
      split_ifs at h with hqty
      · exact buildEntryOrders_buys hcap h
      · obtain ⟨rest, hrest, rfl⟩ := (Exc.map_eq_ok _ _ _).1 h
        obtain ⟨hpos, halloc, rfl⟩ := sizeOrderQty_eq hsize
        have hnonneg : 0 ≤ ⌊(capital : Rat) * p.allocation / price⌋ := by
          have : (0 : Rat) ≤ capital := by exact_mod_cast hcap
          have : (0 : Rat) < price := by exact_mod_cast hpos
          exact Int.floor_nonneg.2 (by positivity)
        refine List.forall_mem_cons.2 ⟨⟨rfl, ?_⟩, buildEntryOrders_buys hcap hrest⟩
        exact lt_of_le_of_ne hnonneg (Ne.symm hqty)

/-- **The orders' values are within their allocations**, when no fill is above its sizing price. -/
theorem buildEntryOrders_value {date : String} {capital : Int} {placed : Timestamp}
    {snapshot : String → Option SnapshotRow} (hcap : 0 ≤ capital) :
    ∀ {picks : List (Pick × Int)} {orders : List PaperOrder}, buildEntryOrders date capital placed picks = .ok orders →
      (∀ x ∈ picks, 0 < x.1.allocation ∧
        (0 < x.2 → ∀ row, snapshot x.1.symbol = some row → row.confirmed = true → row.close ≤ x.2)) →
      ((orders.map (PaperOrder.value snapshot)).sum : Rat) ≤ capital * (picks.map (fun x => x.1.allocation)).sum
  | [], orders, h, _ => by
    cases h
    simp
  | (p, price) :: picks, orders, h, hall => by
    have hcap' : (0 : Rat) ≤ capital := by exact_mod_cast hcap
    obtain ⟨⟨halloc, hclose⟩, hrest⟩ := List.forall_mem_cons.1 hall
    have hskip : (0 : Rat) ≤ capital * p.allocation := mul_nonneg hcap' halloc.le
    rw [List.map_cons, List.sum_cons, mul_add]
    unfold buildEntryOrders at h
    split_ifs at h with hprice
    · have := buildEntryOrders_value hcap h hrest
      linarith
    · obtain ⟨qty, hsize, h⟩ := (Exc.bind_eq_ok _ _ _).1 h
      split_ifs at h with hqty
      · have := buildEntryOrders_value hcap h hrest
        linarith
      · obtain ⟨rest, hrest', rfl⟩ := (Exc.map_eq_ok _ _ _).1 h
        have ih := buildEntryOrders_value hcap hrest' hrest
        obtain ⟨hpos, -, hfloor⟩ := sizeOrderQty_eq hsize
        have hpos' : (0 : Rat) < price := by exact_mod_cast hpos
        have hle : (qty : Rat) * price ≤ capital * p.allocation := by
          rw [hfloor, ← le_div_iff₀ hpos']
          exact Int.floor_le _
        have hqty0 : 0 ≤ qty := by
          rw [hfloor]
          exact Int.floor_nonneg.2 (by positivity)
        have hvalue : (entryOrder date placed p.symbol qty).value snapshot ≤ qty * price := by
          change (match snapshot p.symbol with
            | none => 0
            | some row => if row.confirmed = true ∧ 0 < row.close then row.close * qty else 0) ≤ qty * price
          have hnonneg : 0 ≤ qty * price := mul_nonneg hqty0 hpos.le
          cases hrow : snapshot p.symbol with
          | none => exact hnonneg
          | some row =>
            dsimp only
            split_ifs with hfill
            · rw [mul_comm]
              exact mul_le_mul_of_nonneg_left (hclose hpos row hrow hfill.1) hqty0
            · exact hnonneg
        have hvalue' : ((entryOrder date placed p.symbol qty).value snapshot : Rat) ≤ qty * price := by
          exact_mod_cast hvalue
        rw [List.map_cons, List.sum_cons, Int.cast_add]
        linarith

/-! ## The walk over the orders -/

theorem buildAuctionFill_some {order : PaperOrder} {row : SnapshotRow} {fill : PaperFill}
    (h : buildAuctionFill order row = .ok (some fill)) : row.confirmed = true ∧ 0 < row.close ∧
      fill.side = order.side ∧ fill.qty = order.qty ∧ fill.fillPrice = row.close := by
  unfold buildAuctionFill at h
  split_ifs at h with hconf hclose
  · cases h
  · cases h
    exact ⟨by simpa using hconf, not_le.1 hclose, rfl, rfl, rfl⟩

/-- **One ranked order**: it leaves cash and fills as they were, or its buy is paid out of what remains. -/
theorem EntryWalk.step_cases {snapshot : String → Option SnapshotRow} {w w' : EntryWalk} {order : PaperOrder}
    (h : w.step snapshot order = .ok w') :
    (∃ status, status ≠ .insufficientCash ∧ w' = { w with rows := w.rows ++ [⟨order, status⟩] }) ∨
    ∃ f : Fill, f.side = order.side ∧ f.qty = order.qty ∧ 0 < f.fillPrice ∧ f.notional = order.value snapshot ∧
      (w.remainingCash < f.outlay ∧ w' = { w with rows := w.rows ++ [⟨order, .insufficientCash⟩] } ∨
        f.outlay ≤ w.remainingCash ∧
          w' = ⟨w.rows ++ [⟨order, .filled⟩], w.fills ++ [f], w.remainingCash - f.outlay⟩) := by
  unfold EntryWalk.step at h
  split at h
  · cases h
    exact .inl ⟨_, by decide, rfl⟩
  next row hrow =>
    obtain ⟨fill, hfill, h⟩ := (Exc.bind_eq_ok _ _ _).1 h
    cases fill with
    | none =>
      cases h
      exact .inl ⟨_, by decide, rfl⟩
    | some fill =>
      obtain ⟨hconf, hclose, hside, hqty, hprice⟩ := buildAuctionFill_some hfill
      have hvalue : fill.fillPrice * fill.qty = order.value snapshot := by
        unfold PaperOrder.value
        rw [hrow, hprice, hqty]
        exact (if_pos ⟨hconf, hclose⟩).symm
      have hpos : 0 < fill.fillPrice := by rwa [hprice]
      refine .inr ⟨fillRow fill order, hside, hqty, hpos, hvalue, ?_⟩
      dsimp only at h
      split_ifs at h with hcash
      · cases h
        exact .inl ⟨hcash, rfl⟩
      · cases h
        exact .inr ⟨not_lt.1 hcash, rfl⟩

/-- The walk books buys, and pays every one. -/
theorem EntryWalk.run_pays {snapshot : String → Option SnapshotRow} : ∀ {orders : List PaperOrder} {w w' : EntryWalk},
    orders.foldlM (EntryWalk.step snapshot) w = .ok w' → (∀ o ∈ orders, o.side = "buy" ∧ 0 < o.qty) →
      0 ≤ w.remainingCash → (∀ f ∈ w.fills, f.side = "buy" ∧ 0 < f.qty) →
      0 ≤ w'.remainingCash ∧ (∀ f ∈ w'.fills, f.side = "buy" ∧ 0 < f.qty) ∧
        w'.remainingCash + (w'.fills.map Fill.outlay).sum = w.remainingCash + (w.fills.map Fill.outlay).sum
  | [], w, w', h, _, h0, hf => by
    cases h
    exact ⟨h0, hf, rfl⟩
  | order :: orders, w, w', h, ho, h0, hf => by
    rw [List.foldlM_cons] at h
    obtain ⟨w₁, h₁, h⟩ := (Exc.bind_eq_ok _ _ _).1 h
    obtain ⟨horder, ho⟩ := List.forall_mem_cons.1 ho
    obtain ⟨status, -, rfl⟩ | ⟨f, hside, hqty, -, -, ⟨-, rfl⟩ | ⟨hpaid, rfl⟩⟩ := EntryWalk.step_cases h₁
    · exact (EntryWalk.run_pays h ho h0 hf :)
    · exact (EntryWalk.run_pays h ho h0 hf :)
    · have hf' : ∀ g ∈ w.fills ++ [f], g.side = "buy" ∧ 0 < g.qty := by
        intro g hg
        rcases List.mem_append.1 hg with hg | hg
        · exact hf g hg
        · rw [List.mem_singleton.1 hg, hside, hqty]
          exact horder
      obtain ⟨h0', hf'', hsum⟩ := EntryWalk.run_pays h ho (show 0 ≤ w.remainingCash - f.outlay by omega) hf'
      refine ⟨h0', hf'', hsum.trans ?_⟩
      simp only [List.map_append, List.map_singleton, List.sum_append, List.sum_singleton]
      omega

/-- Fees of parts are no more than the fee of the whole. -/
theorem sideFeeKrw_add_le (a b : Int) : sideFeeKrw a + sideFeeKrw b ≤ sideFeeKrw (a + b) := by
  unfold sideFeeKrw
  omega

/-- **Orders within the investable capital are never short of cash.** -/
theorem EntryWalk.run_fits {snapshot : String → Option SnapshotRow} {cash seed : Int} :
    ∀ {orders : List PaperOrder} {w w' : EntryWalk} {spent : Int}, orders.foldlM (EntryWalk.step snapshot) w = .ok w' →
      (∀ o ∈ orders, 0 < o.qty) → 0 ≤ spent → cash ≤ w.remainingCash + spent + sideFeeKrw spent →
      spent + (orders.map (PaperOrder.value snapshot)).sum ≤ investableCapital cash seed →
      ∀ r ∈ w'.rows, r ∈ w.rows ∨ r.status ≠ .insufficientCash
  | [], w, w', spent, h, _, _, _, _ => by
    cases h
    exact fun r hr => .inl hr
  | order :: orders, w, w', spent, h, ho, h0, hleft, hfit => by
    rw [List.foldlM_cons] at h
    obtain ⟨w₁, h₁, h⟩ := (Exc.bind_eq_ok _ _ _).1 h
    obtain ⟨hqty, ho⟩ := List.forall_mem_cons.1 ho
    rw [List.map_cons, List.sum_cons] at hfit
    have hvalue : 0 ≤ order.value snapshot := PaperOrder.value_nonneg hqty
    have hrest : 0 ≤ (orders.map (PaperOrder.value snapshot)).sum :=
      List.sum_nonneg (fun v hv => by
        obtain ⟨o, hmem, rfl⟩ := List.mem_map.1 hv
        exact PaperOrder.value_nonneg (ho o hmem))
    have hnew : ∀ {st : OrderStatus} {r : OrderRow}, st ≠ .insufficientCash → r ∈ w.rows ++ [⟨order, st⟩] →
        r ∈ w.rows ∨ r.status ≠ .insufficientCash := by
      intro st r hst hr
      rcases List.mem_append.1 hr with hr | hr
      · exact .inl hr
      · rw [List.mem_singleton.1 hr]
        exact .inr hst
    obtain ⟨status, hst, rfl⟩ | ⟨f, -, hshares, hprice, hn, hcases⟩ := EntryWalk.step_cases h₁
    · have hfit' : spent + (orders.map (PaperOrder.value snapshot)).sum ≤ investableCapital cash seed := by omega
      intro r hr
      rcases EntryWalk.run_fits h ho h0 hleft hfit' r hr with hr | hr
      · exact hnew hst hr
      · exact .inr hr
    · -- what is spent by then, this order included, can be afforded
      have hout : f.outlay = order.value snapshot + sideFeeKrw (order.value snapshot) := by rw [Fill.outlay, hn]
      have hfees := sideFeeKrw_add_le spent (order.value snapshot)
      have hpos : 0 < order.value snapshot := hn ▸ Int.mul_pos hprice (hshares ▸ hqty)
      have hafford : spent + order.value snapshot + sideFeeKrw (spent + order.value snapshot) ≤ cash :=
        investableCapital_afford (by omega) (show _ ≤ investableCapital cash seed by omega)
      rcases hcases with ⟨hlt, -⟩ | ⟨-, rfl⟩
      · omega
      · have hleft' : cash ≤ w.remainingCash - f.outlay + (spent + order.value snapshot) +
            sideFeeKrw (spent + order.value snapshot) := by omega
        have hfit' : spent + order.value snapshot + (orders.map (PaperOrder.value snapshot)).sum ≤
            investableCapital cash seed := by omega
        intro r hr
        rcases EntryWalk.run_fits h ho (by omega) hleft' hfit' r hr with hr | hr
        · exact hnew (by decide) hr
        · exact .inr hr

/-! ## Sessions -/

namespace PaperSession

variable {s : PaperSession} {l c : PaperLedger}

/-- A session, cut or not, adds the fills of its plan or none, and no correction. -/
theorem fills_of_cut (h : s.Cut l c ∨ c = s.final l) : c.corrections = l.corrections ∧
    (c.fills = l.fills ∨ ∃ fills rows, s.plan l = .ok (.book fills rows) ∧ c.fills = l.fills ++ fills) := by
  obtain ⟨herr, hok⟩ := s.spec l
  cases hp : s.plan l with
  | error e =>
    obtain ⟨hfinal, hcut⟩ := herr e hp
    obtain rfl : c = l := h.elim (hcut c).1 (fun h => h.trans hfinal)
    exact ⟨rfl, .inl rfl⟩
  | ok p =>
    obtain ⟨hfinal, hcut⟩ := hok p hp
    rw [hcut c, hfinal] at h
    cases p with
    | nothing =>
      obtain rfl : c = l := h.elim id id
      exact ⟨rfl, .inl rfl⟩
    | noDecision date reason =>
      rcases h with (rfl | rfl) | rfl <;> exact ⟨rfl, .inl rfl⟩
    | missed rows =>
      rcases h with (rfl | rfl) | rfl <;> exact ⟨rfl, .inl rfl⟩
    | book fills rows =>
      cases hr : l.recordFills fills with
      | error e =>
        rw [Plan.result_book_error hr] at h
        rcases h with (rfl | ⟨l', hr', -⟩) | rfl
        · exact ⟨rfl, .inl rfl⟩
        · cases hr.symm.trans hr'
        · exact ⟨rfl, .inl rfl⟩
      | ok l' =>
        rw [Plan.result_book_ok hr] at h
        obtain ⟨hf, -, hc, -⟩ := s.refresh.result_fields (l := l'.recordOrders rows)
        obtain ⟨-, -, rfl⟩ := recordFills_eq_ok.1 hr
        rcases h with (rfl | ⟨l', hr', hcut⟩) | rfl
        · exact ⟨rfl, .inl rfl⟩
        · cases hr.symm.trans hr'
          rcases hcut with rfl | rfl | rfl | rfl
          · exact ⟨rfl, .inr ⟨fills, rows, rfl, rfl⟩⟩
          · exact ⟨rfl, .inr ⟨fills, rows, rfl, rfl⟩⟩
          · exact ⟨rfl, .inr ⟨fills, rows, rfl, rfl⟩⟩
          · exact ⟨hc, .inr ⟨fills, rows, rfl, hf⟩⟩
        · exact ⟨hc, .inr ⟨fills, rows, rfl, hf⟩⟩

end PaperSession

/-- No correction, no buy of a negative number of shares, and no overdraft. -/
structure Solvent (seed : Int) (l : PaperLedger) : Prop where
  uncorrected : l.corrections = []
  shares : ∀ f ∈ l.fills, f.side = "buy" → 0 < f.qty
  cash : 0 ≤ cashOf seed l.fills

theorem loadEffectiveFills_of_uncorrected {l : PaperLedger} (h : l.corrections = []) : l.loadEffectiveFills = l.fills := by
  unfold PaperLedger.loadEffectiveFills PaperLedger.voidedOrderIds
  rw [h]
  simp

/-- What an entry that books its fills computed on the way. -/
theorem entryPlan_book {inp : EntryInputs} {l : PaperLedger} {fills : List Fill} {rows : List OrderRow}
    (h : entryPlan inp l = .ok (.book fills rows)) :
    ∃ prices nav orders ranked walk, inp.picks.mapM (Pick.price inp.sizingBufferBp) = .ok prices ∧
      buildNavSnapshot inp.calendar l.loadEffectiveFills inp.seedCapital (isoDate inp.day) none = .ok nav ∧
      buildEntryOrders (isoDate inp.day) (investableCapital nav.cash inp.seedCapital) (placedAt inp.day 55200)
        (inp.picks.zip prices) = .ok orders ∧ List.Perm ranked orders ∧
      ranked.foldlM (EntryWalk.step inp.snapshot)
        ⟨unsizedRows (isoDate inp.day) (placedAt inp.day 55200) .zeroQty inp.picks orders, [], nav.cash⟩ = .ok walk ∧
      fills = walk.fills ∧ rows = walk.rows := by
  unfold entryPlan at h
  dsimp only at h
  split_ifs at h
  · cases h
  · cases h
  · cases h
  · cases h
  · cases h
  · obtain ⟨prices, -, h⟩ := (Exc.bind_eq_ok _ _ _).1 h
    obtain ⟨nav, -, h⟩ := (Exc.bind_eq_ok _ _ _).1 h
    obtain ⟨orders, -, h⟩ := (Exc.bind_eq_ok _ _ _).1 h
    cases h
  · obtain ⟨prices, hprices, h⟩ := (Exc.bind_eq_ok _ _ _).1 h
    obtain ⟨nav, hnav, h⟩ := (Exc.bind_eq_ok _ _ _).1 h
    obtain ⟨orders, horders, h⟩ := (Exc.bind_eq_ok _ _ _).1 h
    obtain ⟨walk, hwalk, h⟩ := (Exc.bind_eq_ok _ _ _).1 h
    cases h
    exact ⟨prices, nav, orders, _, walk, hprices, hnav, horders, List.mergeSort_perm _ _, hwalk, rfl, rfl⟩

/-- The fills an entry books are buys the cash pays for. -/
theorem entryPlan_pays {inp : EntryInputs} {l : PaperLedger} {fills : List Fill} {rows : List OrderRow}
    (hl : Solvent inp.seedCapital l) (h : entryPlan inp l = .ok (.book fills rows)) :
    (∀ f ∈ fills, f.side = "buy" ∧ 0 < f.qty) ∧ 0 ≤ cashOf inp.seedCapital (l.fills ++ fills) := by
  obtain ⟨prices, nav, orders, ranked, walk, -, hnav, horders, hperm, hwalk, rfl, -⟩ := entryPlan_book h
  have hcash : nav.cash = cashOf inp.seedCapital l.fills := by
    rw [nav_cash hnav, loadEffectiveFills_of_uncorrected hl.uncorrected]
  have hbuys := buildEntryOrders_buys (investableCapital_nonneg _ _) horders
  obtain ⟨hleft, hf, hsum⟩ := EntryWalk.run_pays hwalk (fun o ho => hbuys o (hperm.mem_iff.1 ho)) (hcash ▸ hl.cash)
    (fun f hf => by cases hf)
  refine ⟨hf, ?_⟩
  have hbuy : walk.fills.filter Fill.isBuy = walk.fills :=
    List.filter_eq_self.2 (fun f hmem => by simp [Fill.isBuy, (hf f hmem).1])
  have hsell : walk.fills.filter Fill.isSell = [] :=
    List.filter_eq_nil_iff.2 (fun f hmem => by simp [Fill.isSell, (hf f hmem).1])
  rw [cashOf_append, hbuy, hsell, ← hcash]
  simp only [List.map_nil, List.sum_nil, add_zero] at hsum ⊢
  omega

/-- The fills an exit books are sells. -/
theorem exitPlan_sells {inp : ExitInputs} {l : PaperLedger} {seed : Int} {fills : List Fill} {rows : List OrderRow}
    (hl : Solvent seed l) (h : exitPlan inp l = .ok (.book fills rows)) :
    ∀ f ∈ fills, f.side = "sell" ∧ 0 ≤ f.notional := by
  unfold exitPlan at h
  obtain ⟨lots, hlots, h⟩ := (Exc.bind_eq_ok _ _ _).1 h
  have hlot : ∀ lot ∈ lots, 0 < lot.qty := by
    intro lot hmem
    rw [loadOpenPositions_eq hlots, loadEffectiveFills_of_uncorrected hl.uncorrected] at hmem
    obtain ⟨f, hf, rfl⟩ := List.mem_map.1 hmem
    obtain ⟨hf, hbuy⟩ := List.mem_filter.1 (List.mem_of_mem_filter hf)
    exact hl.shares f hf (by simpa [Fill.isBuy] using hbuy)
  have hsells : ∀ {opens : PaperOrder → Int} {observedAt : Timestamp} {fills : List Fill},
      exitFills opens observedAt (buildExitOrders lots (isoDate inp.day) (exitPlacedAt inp.day)) = .ok fills →
      ∀ f ∈ fills, f.side = "sell" ∧ 0 ≤ f.notional := by
    intro opens observedAt fills hfills f hf
    rw [exitFills_eq hfills] at hf
    obtain ⟨o, ho, rfl⟩ := List.mem_map.1 hf
    obtain ⟨ho, hopen⟩ := List.mem_filter.1 ho
    obtain ⟨lot, hmem, rfl⟩ := List.mem_map.1 ho
    exact ⟨rfl, mul_nonneg (of_decide_eq_true hopen).le (hlot lot hmem).le⟩
  dsimp only at h
  split_ifs at h
  · cases h
  all_goals
    obtain ⟨fills', hfills, h⟩ := (Exc.bind_eq_ok _ _ _).1 h
    split_ifs at h
    · cases h
    · cases h
      exact hsells hfills

/-! ## Runs of sessions -/

/-- A session with this seed capital, run to its end or cut between two writes. -/
inductive SessionStep (seed : Int) : PaperLedger → PaperLedger → Prop where
  | run (l : PaperLedger) (s : PaperSession) (hs : s.refresh.seedCapital = seed) : SessionStep seed l (s.final l)
  | cut {l c : PaperLedger} (s : PaperSession) (hs : s.refresh.seedCapital = seed) (h : s.Cut l c) : SessionStep seed l c

/-- The ledgers of entry and exit sessions, in any order and of any number. -/
def sessions (seed : Int) : System PaperLedger where
  start l := l = .empty
  step := SessionStep seed

/-- The fills of a plan leave cash, and its buys are of shares. -/
theorem Solvent.plan {s : PaperSession} {l : PaperLedger} (hl : Solvent s.refresh.seedCapital l) {fills : List Fill}
    {rows : List OrderRow} (h : s.plan l = .ok (.book fills rows)) :
    (∀ f ∈ fills, f.side = "buy" → 0 < f.qty) ∧ 0 ≤ cashOf s.refresh.seedCapital (l.fills ++ fills) := by
  cases s with
  | entry inp =>
    obtain ⟨hbuys, hcash⟩ := entryPlan_pays hl h
    exact ⟨fun f hf _ => (hbuys f hf).2, hcash⟩
  | exit inp =>
    obtain ⟨goesOn, -, h⟩ := (Exc.bind_eq_ok _ _ _).1 h
    cases goesOn with
    | false => cases h
    | true =>
      have hsells := exitPlan_sells hl h
      refine ⟨fun f hf hside => absurd ((hsells f hf).1.symm.trans hside) (by decide), ?_⟩
      have hbuy : fills.filter Fill.isBuy = [] :=
        List.filter_eq_nil_iff.2 (fun f hmem => by simp [Fill.isBuy, (hsells f hmem).1])
      have hin : 0 ≤ ((fills.filter Fill.isSell).map Fill.proceeds).sum := by
        refine List.sum_nonneg (fun v hv => ?_)
        obtain ⟨f, hf, rfl⟩ := List.mem_map.1 hv
        exact proceeds_nonneg (hsells f (List.mem_of_mem_filter hf)).2
      have hcash := hl.cash
      rw [cashOf_append, hbuy]
      simp only [List.map_nil, List.sum_nil]
      omega

theorem Solvent.step {seed : Int} {l l' : PaperLedger} (hl : Solvent seed l) (h : SessionStep seed l l') :
    Solvent seed l' := by
  obtain ⟨s, rfl, hcut⟩ : ∃ s : PaperSession, s.refresh.seedCapital = seed ∧ (s.Cut l l' ∨ l' = s.final l) := by
    cases h with
    | run s hs => exact ⟨s, hs, .inr rfl⟩
    | cut s hs h => exact ⟨s, hs, .inl h⟩
  obtain ⟨hcorr, hfills | ⟨fills, rows, hplan, hfills⟩⟩ := PaperSession.fills_of_cut hcut
  · exact ⟨hcorr.trans hl.uncorrected, hfills ▸ hl.shares, hfills ▸ hl.cash⟩
  · obtain ⟨hbuys, hcash⟩ := hl.plan hplan
    refine ⟨hcorr.trans hl.uncorrected, fun f hf hside => ?_, hfills ▸ hcash⟩
    rw [hfills] at hf
    exact (List.mem_append.1 hf).elim (fun hf => hl.shares f hf hside) (fun hf => hbuys f hf hside)

theorem solvent_always {seed : Int} (hseed : 0 ≤ seed) : (sessions seed).Always (Solvent seed) := by
  apply System.Inductive.always
  constructor
  · rintro l rfl
    exact ⟨rfl, fun f hf => (by cases hf), by simpa [cashOf, PaperLedger.empty] using hseed⟩
  · exact fun l l' hl h => hl.step h

/-! ## No order is short of cash -/

/-- The allocations are positive and sum to one at most. -/
structure EntryInputs.Allocated (inp : EntryInputs) : Prop where
  positive : ∀ p ∈ inp.picks, 0 < p.allocation
  total : (inp.picks.map Pick.allocation).sum ≤ 1

/-- No pick is filled above its sizing price. -/
def EntryInputs.Covered (inp : EntryInputs) : Prop :=
  ∀ p ∈ inp.picks, ∀ price, p.price inp.sizingBufferBp = .ok price → 0 < price →
    ∀ row, inp.snapshot p.symbol = some row → row.confirmed = true → row.close ≤ price

theorem EntryInputs.Allocated.fits {inp : EntryInputs} {l : PaperLedger} (ha : inp.Allocated) (hc : inp.Covered)
    {fills : List Fill} {rows : List OrderRow} (h : entryPlan inp l = .ok (.book fills rows)) :
    ∀ r ∈ rows, r.status ≠ .insufficientCash := by
  obtain ⟨prices, nav, orders, ranked, walk, hprices, -, horders, hperm, hwalk, -, rfl⟩ := entryPlan_book h
  have hcap := investableCapital_nonneg nav.cash inp.seedCapital
  have hbuys := buildEntryOrders_buys hcap horders
  obtain ⟨hlen, hzip⟩ := List.forall₂_iff_zip.1 (Exc.forall₂_of_mapM_eq_ok hprices)
  have hpicks : ∀ x ∈ inp.picks.zip prices, 0 < x.1.allocation ∧
      (0 < x.2 → ∀ row, inp.snapshot x.1.symbol = some row → row.confirmed = true → row.close ≤ x.2) := by
    intro x hx
    have hmem : x.1 ∈ inp.picks := (List.of_mem_zip hx).1
    exact ⟨ha.positive _ hmem, hc _ hmem _ (hzip hx)⟩
  have halloc : (inp.picks.zip prices).map (fun x => x.1.allocation) = inp.picks.map Pick.allocation := by
    rw [show (fun x : Pick × Int => x.1.allocation) = Pick.allocation ∘ Prod.fst from rfl, ← List.map_map,
      List.map_fst_zip hlen.le]
  have hfit : (ranked.map (PaperOrder.value inp.snapshot)).sum ≤ investableCapital nav.cash inp.seedCapital := by
    have hcap' : (0 : Rat) ≤ investableCapital nav.cash inp.seedCapital := by exact_mod_cast hcap
    have hvalue := buildEntryOrders_value hcap horders hpicks
    rw [halloc] at hvalue
    have hle := hvalue.trans (mul_le_of_le_one_right hcap' ha.total)
    rw [(hperm.map (PaperOrder.value inp.snapshot)).sum_eq]
    exact_mod_cast hle
  have hleft : nav.cash ≤ nav.cash + 0 + sideFeeKrw 0 := by simp [sideFeeKrw]
  intro r hr
  rcases EntryWalk.run_fits hwalk (fun o ho => (hbuys o (hperm.mem_iff.1 ho)).2) le_rfl hleft
    (by rw [zero_add]; exact hfit) r hr with hr | hr
  · obtain ⟨p, -, rfl⟩ := List.mem_map.1 hr
    exact OrderStatus.noConfusion
  · exact hr

/-- **The paper book never spends cash it does not have.** -/
theorem never_overspends {seed : Int} (hseed : 0 ≤ seed) {l : PaperLedger} (hl : (sessions seed).Reachable l) :
    (∀ kind asOfDate marks nav, buildNavSnapshot kind l.loadEffectiveFills seed asOfDate marks = .ok nav →
      0 ≤ nav.cash) ∧
    ∀ inp : EntryInputs, inp.Allocated → inp.Covered → ∀ fills rows, entryPlan inp l = .ok (.book fills rows) →
      ∀ r ∈ rows, r.status ≠ .insufficientCash := by
  refine ⟨fun kind asOfDate marks nav hnav => ?_, fun inp ha hc fills rows h => ha.fits hc h⟩
  have hs := solvent_always hseed l hl
  rw [nav_cash hnav, loadEffectiveFills_of_uncorrected hs.uncorrected]
  exact hs.cash

/-- One pick for the whole seed: nineteen shares and their fee are paid, and what is left is positive. -/
theorem never_overspends_one_pick :
    let inp := PaperSession.onePick (placedAt 20091 55000)
    let f : Fill := ⟨"2025-01-03:005930:entry", "005930", "buy", 19, 50000, some (placedAt 20091 55800), "2025-01-03",
      "auction_close", none⟩
    let rows : List OrderRow := [⟨entryOrder "2025-01-03" (placedAt 20091 55200) "005930" 19, .filled⟩]
    (∃ nav, buildNavSnapshot (fun _ => .standard) [f] 1000000 "2025-01-03" none = .ok nav ∧ 0 ≤ nav.cash) ∧
      entryPlan inp .empty = .ok (.book [f] rows) ∧ ∀ r ∈ rows, r.status ≠ .insufficientCash := by
  intro inp f rows
  have hplan : entryPlan inp .empty = .ok (.book [f] rows) := by decide +kernel
  have hfills : ((PaperSession.entry inp).final .empty).loadEffectiveFills = [f] := by decide +kernel
  have hstart : (sessions 1000000).Reachable .empty := .start rfl
  have hreach : (sessions 1000000).Reachable ((PaperSession.entry inp).final .empty) := hstart.step (.run _ _ rfl)
  have halloc : inp.Allocated := by
    constructor
    · intro p hp
      obtain rfl := List.mem_singleton.1 hp
      decide
    · decide +kernel
  have hcovered : inp.Covered := by
    intro p hp price hprice _ row hrow _
    obtain rfl := List.mem_singleton.1 hp
    have heq : Pick.price 50 ⟨"005930", some 50000, 1, some (placedAt 20091 55000), some 1⟩ = .ok 50250 := by
      decide +kernel
    cases heq.symm.trans hprice
    cases hrow
    decide
  constructor
  · obtain ⟨nav, hnav⟩ : ∃ nav, buildNavSnapshot (fun _ => .standard) [f] 1000000 "2025-01-03" none = .ok nav := ⟨_, rfl⟩
    exact ⟨nav, hnav, (never_overspends (by decide) hreach).1 (fun _ => .standard) "2025-01-03" none nav (hfills ▸ hnav)⟩
  · exact ⟨hplan, (never_overspends (by decide) hstart).2 inp halloc hcovered [f] rows hplan⟩

end Paper
