import KClosingAlpha.Paper.Book
import Mathlib
/-!
# Nav — the net asset value adds up (`build_nav_snapshot`)

The loop of `build_round_trips` never loses a buy: the closed ones and the open ones are among the buys it read
(`Covers`).  When no other buy carries the id of a closed one, the buys split into the closed and the open ones, and
cash counted over all buys cancels against profit counted over the pairs.
-/
namespace Paper

/-! ## One round trip -/

/-- A row accounts for the buy it closes. -/
structure RoundTrip.Closes (row : RoundTrip) (buy : Fill) : Prop where
  id : row.entryOrderId = buy.orderId
  notional : row.entryPrice * row.qty = buy.notional
  buyFee : row.buyFee = sideFeeKrw buy.notional
  cost : row.cost = row.buyFee + row.sellFee + row.sellTax
  netPnl : row.netPnl = row.exitPrice * row.qty - row.entryPrice * row.qty - row.cost

theorem roundTrip_closes {kind : Calendar} {buy rec : Fill} {row : RoundTrip} (h : roundTrip kind buy rec = .ok row) :
    row.Closes buy := by
  unfold roundTrip at h
  simp only [Exc.bind_eq_ok, Exc.raiseIf_eq_ok, not_not] at h
  obtain ⟨-, -, -, hqty, h⟩ := h
  split at h
  · cases h
  · split at h
    · cases h
    · simp only [Exc.bind_eq_ok, Exc.raiseIf_eq_ok] at h
      obtain ⟨-, -, -, -, h⟩ := h
      split at h
      · cases h
      · cases h
        refine ⟨rfl, ?_, ?_, rfl, rfl⟩
        · change buy.fillPrice * rec.qty = buy.fillPrice * buy.qty
          rw [hqty]
        · change sideFeeKrw (buy.fillPrice * rec.qty) = sideFeeKrw (buy.fillPrice * buy.qty)
          rw [hqty]

/-! ## The loop of `build_round_trips` -/

/-- The buys read so far include, one for one, the closed and the open ones. -/
def Covers (fills : List Fill) (b : Book) : Prop :=
  ∃ closed, List.Forall₂ RoundTrip.Closes b.rows closed ∧ (closed ++ b.openBuys).Subperm (fills.filter Fill.isBuy)

theorem covers_step {kind : Calendar} {fills : List Fill} {b b' : Book} {rec : Fill} (hc : Covers fills b)
    (h : b.step kind rec = .ok b') : Covers (fills ++ [rec]) b' := by
  obtain ⟨closed, hrows, hsub⟩ := hc
  unfold Book.step at h
  split at h
  next hbuy =>
    cases h
    refine ⟨closed, hrows, ?_⟩
    have hone : [rec].filter Fill.isBuy = [rec] := by simp [Fill.isBuy, hbuy]
    rw [List.filter_append, hone, ← List.append_assoc]
    refine List.Subperm.append ?_ (List.Subperm.refl _)
    exact ((List.Subperm.refl closed).append List.filter_sublist.subperm).trans hsub
  next hbuy =>
    split at h
    next hsell =>
      split at h
      · cases h
      next link _ =>
        split at h
        · cases h
        next buy hfind =>
          simp only [Exc.bind_eq_ok] at h
          obtain ⟨row, hrow, h⟩ := h
          cases h
          have hnone : [rec].filter Fill.isBuy = [] := by simp [Fill.isBuy, hbuy]
          refine ⟨closed ++ [buy], List.rel_append hrows (.cons (roundTrip_closes hrow) .nil), ?_⟩
          rw [List.filter_append, hnone, List.append_nil, List.append_assoc]
          -- the closed buy leaves the open ones
          have hmem : buy ∈ b.openBuys := List.mem_of_find?_eq_some hfind
          have hid : buy.orderId = link := by simpa using List.find?_some hfind
          have hcons : ([buy] ++ b.openBuys.filter (fun f => f.orderId ≠ link)).Subperm b.openBuys := by
            have hout : buy ∈ b.openBuys.filter (fun f => !decide (f.orderId ≠ link)) :=
              List.mem_filter.2 ⟨hmem, by simp [hid]⟩
            refine ((List.singleton_sublist.2 hout).subperm.append (List.Subperm.refl _)).trans ?_
            exact (List.perm_append_comm.trans (List.filter_append_perm _ b.openBuys)).subperm
          exact ((List.Subperm.refl closed).append hcons).trans hsub
    next => cases h

theorem covers_foldlM {kind : Calendar} : ∀ {rest fills : List Fill} {b b' : Book}, Covers fills b →
    rest.foldlM (Book.step kind) b = .ok b' → Covers (fills ++ rest) b'
  | [], fills, b, b', hc, h => by
    cases h
    rwa [List.append_nil]
  | rec :: rest, fills, b, b', hc, h => by
    rw [List.foldlM_cons] at h
    obtain ⟨b₁, h₁, h⟩ := (Exc.bind_eq_ok _ _ _).1 h
    have hrest := covers_foldlM (covers_step hc h₁) h
    rwa [List.append_assoc] at hrest

/-- **The round trips close buys of the ledger, each once.** -/
theorem covers_buildRoundTrips {kind : Calendar} {fills : List Fill} {trips : List RoundTrip}
    (h : buildRoundTrips kind fills = .ok trips) :
    ∃ closed, List.Forall₂ RoundTrip.Closes trips closed ∧ closed.Subperm (fills.filter Fill.isBuy) := by
  obtain ⟨b, hb, rfl⟩ := (Exc.map_eq_ok _ _ _).1 h
  have hnil : Covers [] ⟨[], []⟩ := ⟨[], .nil, List.Subperm.refl _⟩
  obtain ⟨closed, hrows, hsub⟩ := covers_foldlM hnil hb
  exact ⟨closed, hrows, (List.sublist_append_left closed b.openBuys).subperm.trans hsub⟩

/-! ## Open and closed buys -/

/-- No two buys carry the id of one closed entry. -/
def Linked (fills : List Fill) (trips : List RoundTrip) : Prop :=
  (fills.filter Fill.isBuy).Pairwise (fun f g => f.orderId = g.orderId → f.orderId ∉ trips.map RoundTrip.entryOrderId)

theorem map_closed {β : Type} {f : Fill → β} {g : RoundTrip → β} (hfg : ∀ row buy, row.Closes buy → f buy = g row) :
    ∀ {trips : List RoundTrip} {closed : List Fill}, List.Forall₂ RoundTrip.Closes trips closed →
      closed.map f = trips.map g
  | _, _, .nil => rfl
  | _, _, .cons hc hrest => by rw [List.map_cons, List.map_cons, hfg _ _ hc, map_closed hfg hrest]

/-- **The buys are the closed ones and the open lots.** -/
theorem closed_perm {fills : List Fill} {trips : List RoundTrip} {closed : List Fill}
    (hclosed : List.Forall₂ RoundTrip.Closes trips closed) (hsub : closed.Subperm (fills.filter Fill.isBuy))
    (hl : Linked fills trips) : (closed ++ openLots fills trips).Perm (fills.filter Fill.isBuy) := by
  have hids : closed.map Fill.orderId = trips.map RoundTrip.entryOrderId :=
    map_closed (fun _ _ hc => hc.id.symm) hclosed
  let p : Fill → Bool := fun f => decide (f.orderId ∈ trips.map RoundTrip.entryOrderId)
  have hopen : openLots fills trips = (fills.filter Fill.isBuy).filter (fun f => !p f) := by
    rw [List.filter_filter]
    refine List.filter_congr (fun f _ => ?_)
    rw [Bool.and_comm, decide_not]
  have hall : closed.filter p = closed := by
    refine List.filter_eq_self.2 (fun f hf => decide_eq_true ?_)
    rw [← hids]
    exact List.mem_map_of_mem hf
  have hsub' : closed.Subperm ((fills.filter Fill.isBuy).filter p) := hall ▸ hsub.filter p
  -- the buys with a closed id have different ids, so there are no more of them than rows
  have hnodup : (((fills.filter Fill.isBuy).filter p).map Fill.orderId).Nodup := by
    rw [List.Nodup, List.pairwise_map]
    refine (hl.filter p).imp_of_mem (fun {f g} hf _ hne heq => ?_)
    exact hne heq (of_decide_eq_true (List.mem_filter.1 hf).2)
  have hsubset : ((fills.filter Fill.isBuy).filter p).map Fill.orderId ⊆ closed.map Fill.orderId := by
    intro id hid
    obtain ⟨f, hf, rfl⟩ := List.mem_map.1 hid
    rw [hids]
    exact of_decide_eq_true (List.mem_filter.1 hf).2
  have hlen := (hnodup.subperm hsubset).length_le
  rw [List.length_map, List.length_map] at hlen
  rw [hopen]
  exact ((hsub'.perm_of_length_le hlen).append_right _).trans (List.filter_append_perm p _)

/-! ## The sums over the open lots -/

/-- The value of an open lot at its mark. -/
def Fill.marketValue (asOfDate : String) (marks : Marks) (f : Fill) : Int :=
  if f.filledAt.map (fun t => isoDate (Timestamp.day t)) = some asOfDate then f.notional
  else if 0 < marks.price f.symbol then marks.price f.symbol * f.qty
  else f.notional

/-- A lot that is valued at a mark: filled before the snapshot's date, with a price. -/
def Fill.marked (asOfDate : String) (marks : Marks) (f : Fill) : Bool :=
  decide (f.filledAt.map (fun t => isoDate (Timestamp.day t)) ≠ some asOfDate) && decide (0 < marks.price f.symbol)

theorem marketValue_eq (asOfDate : String) (marks : Marks) (f : Fill) :
    f.marketValue asOfDate marks =
      f.notional + if f.marked asOfDate marks then (marks.price f.symbol - f.fillPrice) * f.qty else 0 := by
  unfold Fill.marketValue Fill.marked Fill.notional
  by_cases hd : f.filledAt.map (fun t => isoDate (Timestamp.day t)) = some asOfDate
  · simp [hd]
  · by_cases hm : 0 < marks.price f.symbol
    · simp only [hd, hm, if_false, if_true, ne_eq, not_false_eq_true, decide_true, Bool.and_self]
      rw [Int.sub_mul]
      omega
    · simp [hd, hm]

theorem openTotals_add {asOfDate : String} {marks : Marks} {a a' : OpenTotals} {f : Fill}
    (h : a.add asOfDate marks f = .ok a') :
    a'.costBasis = a.costBasis + f.notional ∧ a'.buyFees = a.buyFees + sideFeeKrw f.notional ∧
      a'.marketValue = a.marketValue + f.marketValue asOfDate marks ∧ a'.nOpen = a.nOpen + 1 := by
  unfold OpenTotals.add at h
  split at h
  · cases h
  next filledAt hf =>
    unfold Fill.marketValue
    simp only [hf, Option.map_some, Option.some.injEq]
    dsimp only at h
    split_ifs at h with hd hm
    all_goals
      cases h
    · exact ⟨rfl, rfl, by rw [if_pos hd], rfl⟩
    · exact ⟨rfl, rfl, by rw [if_neg hd, if_pos hm], rfl⟩
    · exact ⟨rfl, rfl, by rw [if_neg hd, if_neg hm], rfl⟩

theorem openTotals_foldlM {asOfDate : String} {marks : Marks} : ∀ {lots : List Fill} {a a' : OpenTotals},
    lots.foldlM (OpenTotals.add asOfDate marks) a = .ok a' →
      a'.costBasis = a.costBasis + (lots.map Fill.notional).sum ∧
      a'.buyFees = a.buyFees + (lots.map (fun f => sideFeeKrw f.notional)).sum ∧
      a'.marketValue = a.marketValue + (lots.map (Fill.marketValue asOfDate marks)).sum ∧
      a'.nOpen = a.nOpen + lots.length
  | [], a, a', h => by
    cases h
    simp
  | f :: lots, a, a', h => by
    rw [List.foldlM_cons] at h
    obtain ⟨a₁, h₁, h⟩ := (Exc.bind_eq_ok _ _ _).1 h
    obtain ⟨hc, hb, hm, hn⟩ := openTotals_add h₁
    obtain ⟨hc', hb', hm', hn'⟩ := openTotals_foldlM h
    simp only [List.map_cons, List.sum_cons, List.length_cons]
    omega

/-- Lots with a fill time never stop the loop. -/
theorem openTotals_ok (asOfDate : String) (marks : Marks) : ∀ {lots : List Fill} (a : OpenTotals),
    (∀ f ∈ lots, f.filledAt.isSome = true) → ∃ a', lots.foldlM (OpenTotals.add asOfDate marks) a = .ok a'
  | [], a, _ => ⟨a, rfl⟩
  | f :: lots, a, h => by
    obtain ⟨t, ht⟩ := Option.isSome_iff_exists.1 (h f List.mem_cons_self)
    have hstep : ∃ a₁, a.add asOfDate marks f = .ok a₁ := by
      unfold OpenTotals.add
      rw [ht]
      dsimp only
      split_ifs
      · exact ⟨_, rfl⟩
      · exact ⟨_, rfl⟩
      · exact ⟨_, rfl⟩
    obtain ⟨a₁, h₁⟩ := hstep
    obtain ⟨a', h'⟩ := openTotals_ok asOfDate marks a₁ (fun g hg => h g (List.mem_cons_of_mem _ hg))
    refine ⟨a', ?_⟩
    rw [List.foldlM_cons, h₁]
    exact h'

/-! ## The identities -/

theorem buildNavSnapshot_sums {kind : Calendar} {fills : List Fill} {trips : List RoundTrip} {seed : Int}
    {asOfDate : String} {marks : Marks} {nav : NavSnapshot} (hb : buildRoundTrips kind fills = .ok trips)
    (h : buildNavSnapshot kind fills seed asOfDate marks = .ok nav) :
    nav.cash = seed - ((fills.filter Fill.isBuy).map (fun f => f.notional + sideFeeKrw f.notional)).sum +
        (trips.map (fun t => t.exitPrice * t.qty - t.sellFee - t.sellTax)).sum ∧
      nav.cumulativeCost = ((fills.filter Fill.isBuy).map (fun f => sideFeeKrw f.notional)).sum +
        (trips.map (fun t => t.sellFee + t.sellTax)).sum ∧
      nav.nav = nav.cash + ((openLots fills trips).map Fill.notional).sum ∧
      nav.navMtm = nav.cash + ((openLots fills trips).map (Fill.marketValue asOfDate marks)).sum ∧
      nav.nOpenPositions = (openLots fills trips).length ∧ nav.nClosedTrades = trips.length := by
  unfold buildNavSnapshot at h
  split_ifs at h with hnil
  · cases h
    subst hnil
    cases hb
    simp [openLots]
  · rw [hb, Exc.ok_bind] at h
    obtain ⟨lots, hlots, h⟩ := (Exc.bind_eq_ok _ _ _).1 h
    cases h
    obtain ⟨hc, -, hm, hn⟩ := openTotals_foldlM hlots
    dsimp only at hc hm hn ⊢
    refine ⟨rfl, rfl, by rw [hc]; omega, by rw [hm]; omega, by omega, rfl⟩

/-- Net profit is what came in from the sells, less the buys' prices and fees. -/
theorem sum_netPnl : ∀ {trips : List RoundTrip} {closed : List Fill}, List.Forall₂ RoundTrip.Closes trips closed →
    (trips.map RoundTrip.netPnl).sum = (trips.map (fun t => t.exitPrice * t.qty - t.sellFee - t.sellTax)).sum -
      (closed.map (fun f => f.notional + sideFeeKrw f.notional)).sum
  | _, _, .nil => rfl
  | _, _, .cons hc hrest => by
    simp only [List.map_cons, List.sum_cons]
    rw [sum_netPnl hrest, hc.netPnl, hc.cost, hc.buyFee, hc.notional]
    omega

theorem sum_cost : ∀ {trips : List RoundTrip} {closed : List Fill}, List.Forall₂ RoundTrip.Closes trips closed →
    (trips.map RoundTrip.cost).sum =
      (closed.map (fun f => sideFeeKrw f.notional)).sum + (trips.map (fun t => t.sellFee + t.sellTax)).sum
  | _, _, .nil => rfl
  | _, _, .cons hc hrest => by
    simp only [List.map_cons, List.sum_cons]
    rw [sum_cost hrest, hc.cost, hc.buyFee]
    omega

theorem sum_split {closed lots buys : List Fill} (h : (closed ++ lots).Perm buys) (f : Fill → Int) :
    (buys.map f).sum = (closed.map f).sum + (lots.map f).sum := by
  rw [← (h.map f).sum_eq, List.map_append, List.sum_append]

theorem sum_add (f g : Fill → Int) : ∀ l : List Fill, (l.map (fun x => f x + g x)).sum = (l.map f).sum + (l.map g).sum
  | [] => rfl
  | x :: l => by
    simp only [List.map_cons, List.sum_cons, sum_add f g l]
    omega

theorem sum_marketValue (asOfDate : String) (marks : Marks) : ∀ lots : List Fill,
    (lots.map (Fill.marketValue asOfDate marks)).sum = (lots.map Fill.notional).sum +
      ((lots.filter (Fill.marked asOfDate marks)).map (fun f => (marks.price f.symbol - f.fillPrice) * f.qty)).sum
  | [] => rfl
  | f :: lots => by
    simp only [List.map_cons, List.sum_cons, List.filter_cons, marketValue_eq, sum_marketValue asOfDate marks lots]
    by_cases hm : f.marked asOfDate marks = true
    · simp only [hm, if_true, List.map_cons, List.sum_cons]
      omega
    · simp only [hm, if_false, Bool.false_eq_true]
      omega

/-- **The net asset value adds up**, for every fill ledger `build_round_trips` accepts in which no other buy carries the
id of a closed one, and every set of marks: it is the seed, the profit of the closed trips and the fees of the open lots;
it is cash and the open lots at cost; costs and counts split the same way; and marking the open lots moves it by exactly
what the marked ones moved.  The snapshot is there whenever the open lots have a fill time. -/
theorem nav_accounting {kind : Calendar} {fills : List Fill} {trips : List RoundTrip} (seed : Int) (asOfDate : String)
    (marks : Marks) (hb : buildRoundTrips kind fills = .ok trips) (hl : Linked fills trips) :
    (∀ nav, buildNavSnapshot kind fills seed asOfDate marks = .ok nav →
      nav.nav = seed + (trips.map RoundTrip.netPnl).sum -
        ((openLots fills trips).map (fun f => sideFeeKrw f.notional)).sum ∧
      nav.cash + ((openLots fills trips).map Fill.notional).sum = nav.nav ∧
      nav.cumulativeCost = ((openLots fills trips).map (fun f => sideFeeKrw f.notional)).sum +
        (trips.map RoundTrip.cost).sum ∧
      nav.nOpenPositions = (openLots fills trips).length ∧ nav.nClosedTrades = trips.length ∧
      nav.nOpenPositions + nav.nClosedTrades = (fills.filter Fill.isBuy).length ∧
      nav.navMtm - nav.nav = (((openLots fills trips).filter (Fill.marked asOfDate marks)).map
        (fun f => (marks.price f.symbol - f.fillPrice) * f.qty)).sum) ∧
    ((∀ f ∈ openLots fills trips, f.filledAt.isSome = true) →
      ∃ nav, buildNavSnapshot kind fills seed asOfDate marks = .ok nav) := by
  obtain ⟨closed, hclosed, hsub⟩ := covers_buildRoundTrips hb
  have hperm := closed_perm hclosed hsub hl
  refine ⟨fun nav hnav => ?_, fun hfilled => ?_⟩
  · obtain ⟨hcash, hcost, hn, hmtm, hopen, htrips⟩ := buildNavSnapshot_sums hb hnav
    have hpaid := sum_split hperm (fun f => f.notional + sideFeeKrw f.notional)
    have hfees := sum_split hperm (fun f => sideFeeKrw f.notional)
    have hlots := sum_add Fill.notional (fun f => sideFeeKrw f.notional) (openLots fills trips)
    have hpnl := sum_netPnl hclosed
    have hcosts := sum_cost hclosed
    have hmarks := sum_marketValue asOfDate marks (openLots fills trips)
    have hlen := hperm.length_eq
    rw [List.length_append, ← hclosed.length_eq] at hlen
    refine ⟨?_, hn.symm, ?_, hopen, htrips, ?_, ?_⟩
    · linarith
    · linarith
    · omega
    · linarith
  · unfold buildNavSnapshot
    split_ifs with hnil
    · exact ⟨_, rfl⟩
    · obtain ⟨lots, hlots⟩ := openTotals_ok asOfDate marks ⟨0, 0, 0, 0, 0⟩ hfilled
      rw [hb, Exc.ok_bind, hlots]
      exact ⟨_, rfl⟩

namespace Sample

/-- A calendar on which every day trades. -/
def everyDay : Calendar := fun _ => .standard

/-- A buy of ten shares at 10,000 KRW on day 20091. -/
def buy (orderId symbol : String) : Fill :=
  { orderId, symbol, side := "buy", qty := 10, fillPrice := 10000, filledAt := some (placedAt 20091 55800)
    decisionDate := "2025-01-03", trigger := "auction_close", entryOrderId := none }

/-- Its sell at 11,000 KRW on the next day. -/
def sell (orderId symbol entry : String) : Fill :=
  { orderId, symbol, side := "sell", qty := 10, fillPrice := 11000, filledAt := some (placedAt 20092 32400)
    decisionDate := "2025-01-04", trigger := "auction_open", entryOrderId := some entry }

/-- The trip of the two. -/
def trip : RoundTrip :=
  { entryOrderId := "a", exitOrderId := "s", symbol := "A", decisionDate := "2025-01-03"
    entryFilledAt := some (placedAt 20091 55800), exitFilledAt := some (placedAt 20092 32400), qty := 10, entryPrice := 10000
    exitPrice := 11000, exitTrigger := "auction_open", grossPnl := 10000, buyFee := 3, sellFee := 4, sellTax := 165
    cost := 172, netPnl := 9828, grossRet := 1 / 10, netRet := 9828 / 100000, carryDays := 0 }

/-- One lot closed and one open. -/
def twoLots : List Fill := [buy "a" "A", buy "b" "B", sell "s" "A" "a"]

/-- A buy, its sell, and a second buy under the first one's id. -/
def reused : List Fill := [buy "a" "A", sell "s" "A" "a", buy "a" "A"]

/-- The open lot is marked at 12,000 KRW. -/
def marks : Marks := some (fun _ => some 12000)

end Sample

/-- The open lot of two is marked 20,000 KRW above its cost. -/
theorem nav_accounting_two_lots : ∃ nav,
    buildNavSnapshot Sample.everyDay Sample.twoLots 1000000 "2025-01-04" Sample.marks = .ok nav ∧
      nav.nOpenPositions + nav.nClosedTrades = 2 ∧ nav.navMtm - nav.nav = 20000 := by
  have hb : buildRoundTrips Sample.everyDay Sample.twoLots = .ok [Sample.trip] := by decide +kernel
  have hl : Linked Sample.twoLots [Sample.trip] := by
    unfold Linked
    decide +kernel
  have h := nav_accounting 1000000 "2025-01-04" Sample.marks hb hl
  obtain ⟨nav, hnav⟩ := h.2 (by decide +kernel)
  obtain ⟨-, -, -, -, -, hcount, hmark⟩ := h.1 nav hnav
  exact ⟨nav, hnav, hcount.trans (by decide +kernel), hmark.trans (by decide +kernel)⟩

/-- A ledger that reuses the id of a closed buy is accepted, and its open lot is counted nowhere. -/
theorem reused_entry_not_counted : ¬ ∀ (fills : List Fill) (trips : List RoundTrip) (nav : NavSnapshot),
    buildRoundTrips Sample.everyDay fills = .ok trips →
      buildNavSnapshot Sample.everyDay fills 1000000 "2025-01-04" none = .ok nav →
        nav.nav = 1000000 + (trips.map RoundTrip.netPnl).sum - nav.openBuyFees ∧
          nav.nOpenPositions + nav.nClosedTrades = (fills.filter Fill.isBuy).length := by
  intro h
  have hb : buildRoundTrips Sample.everyDay Sample.reused = .ok [Sample.trip] := by decide +kernel
  obtain ⟨nav, hnav⟩ : ∃ nav, buildNavSnapshot Sample.everyDay Sample.reused 1000000 "2025-01-04" none = .ok nav :=
    ⟨_, rfl⟩
  obtain ⟨-, -, -, -, hopen, htrips⟩ := buildNavSnapshot_sums hb hnav
  have hcount := (h _ _ nav hb hnav).2
  rw [hopen, htrips] at hcount
  revert hcount
  decide +kernel

end Paper
