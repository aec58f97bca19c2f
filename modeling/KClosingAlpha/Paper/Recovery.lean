import KClosingAlpha.Paper.Positions
import KClosingAlpha.Paper.Session
/-!
# Recovery — a paper session cut between two writes and run again

A session is its plan and the writes of the plan (`Plan.result`); where it can be cut is between two of them
(`Plan.Cut`).  Rewriting order rows and snapshots is idempotent, and the trades follow from the fills, so a session that
books no fill comes out the same; one that books a fill never does, since the second run does not see the order it
booked it for.
-/
namespace Paper

/-! ## Tables that keep the last row of a key -/

section tables

variable {α κ : Type} [DecidableEq κ] {key : α → κ}

theorem dropDuplicates_sublist : ∀ l : List α, (dropDuplicates key l).Sublist l
  | [] => .slnil
  | a :: l => by
    unfold dropDuplicates
    split_ifs
    · exact (dropDuplicates_sublist l).cons a
    · exact (dropDuplicates_sublist l).cons_cons a

theorem dropDuplicates_of_nodup : ∀ {l : List α}, (l.map key).Nodup → dropDuplicates key l = l
  | [], _ => rfl
  | a :: l, h => by
    rw [List.map_cons, List.nodup_cons] at h
    have hno : l.any (fun b => decide (key b = key a)) = false := by
      rw [List.any_eq_false]
      intro b hb heq
      exact h.1 (of_decide_eq_true heq ▸ List.mem_map_of_mem hb)
    unfold dropDuplicates
    rw [hno, if_neg Bool.false_ne_true, dropDuplicates_of_nodup h.2]

theorem nodup_dropDuplicates : ∀ l : List α, ((dropDuplicates key l).map key).Nodup
  | [] => List.nodup_nil
  | a :: l => by
    unfold dropDuplicates
    split_ifs with h
    · exact nodup_dropDuplicates l
    · rw [List.map_cons, List.nodup_cons]
      refine ⟨fun hm => h ?_, nodup_dropDuplicates l⟩
      obtain ⟨b, hb, heq⟩ := List.mem_map.1 hm
      exact List.any_eq_true.2 ⟨b, (dropDuplicates_sublist l).subset hb, decide_eq_true heq⟩

/-- New rows replace the old ones of their keys. -/
theorem dropDuplicates_append {rows : List α} (hr : (rows.map key).Nodup) : ∀ l : List α,
    dropDuplicates key (l ++ rows) = (dropDuplicates key l).filter (fun a => decide (key a ∉ rows.map key)) ++ rows
  | [] => dropDuplicates_of_nodup hr
  | a :: l => by
    have ih := dropDuplicates_append hr l
    have hany : (l ++ rows).any (fun b => decide (key b = key a)) =
        (l.any (fun b => decide (key b = key a)) || decide (key a ∈ rows.map key)) := by
      rw [List.any_append]
      congr 1
      rw [Bool.eq_iff_iff]
      simp [List.any_eq_true]
    rw [List.cons_append]
    conv_lhs => unfold dropDuplicates
    conv_rhs => unfold dropDuplicates
    rw [hany]
    by_cases hl : l.any (fun b => decide (key b = key a)) = true
    · rw [hl, Bool.true_or, if_pos rfl, if_pos rfl, ih]
    · by_cases hk : key a ∈ rows.map key
      · rw [Bool.eq_false_iff.2 hl, decide_eq_true hk, Bool.false_or, if_pos rfl, if_neg Bool.false_ne_true,
          List.filter_cons_of_neg (by simp [hk]), ih]
      · rw [Bool.eq_false_iff.2 hl, decide_eq_false hk, Bool.or_self, if_neg Bool.false_ne_true,
          if_neg Bool.false_ne_true, List.filter_cons_of_pos (by simpa using hk), ih, List.cons_append]

/-- **Writing the same rows again changes nothing.** -/
theorem appendLast_idem (l : List α) {rows : List α} (hr : (rows.map key).Nodup) :
    appendLast key (appendLast key l rows) rows = appendLast key l rows := by
  have hnodup : ∀ {m : List α}, (m.map key).Nodup → (∀ a ∈ m, key a ∉ rows.map key) →
      appendLast key (m ++ rows) rows = m ++ rows := by
    intro m hm hdis
    unfold appendLast
    split_ifs with hnil
    · rw [List.isEmpty_iff, List.append_eq_nil_iff] at hnil
      rw [hnil.1, List.nil_append]
    · have hall : ((m ++ rows).map key).Nodup := by
        rw [List.map_append]
        refine hm.append hr (fun k hk hk' => ?_)
        obtain ⟨a, ha, rfl⟩ := List.mem_map.1 hk
        exact hdis a ha hk'
      rw [dropDuplicates_append hr, dropDuplicates_of_nodup hall, List.filter_append]
      have hkeep : m.filter (fun a => decide (key a ∉ rows.map key)) = m :=
        List.filter_eq_self.2 (fun a ha => decide_eq_true (hdis a ha))
      have hdrop : rows.filter (fun a => decide (key a ∉ rows.map key)) = [] := by
        refine List.filter_eq_nil_iff.2 (fun a ha hn => ?_)
        exact of_decide_eq_true hn (List.mem_map_of_mem ha)
      rw [hkeep, hdrop, List.append_nil]
  by_cases hl : l.isEmpty = true
  · have hfirst : appendLast key l rows = [] ++ rows := by
      unfold appendLast
      rw [if_pos hl, List.nil_append]
    rw [hfirst]
    exact hnodup List.nodup_nil (fun a ha => by cases ha)
  · have hfirst : appendLast key l rows =
        (dropDuplicates key l).filter (fun a => decide (key a ∉ rows.map key)) ++ rows := by
      unfold appendLast
      rw [if_neg hl, dropDuplicates_append hr]
    rw [hfirst]
    apply hnodup
    · exact (nodup_dropDuplicates l).sublist (List.filter_sublist.map key)
    · exact fun a ha => of_decide_eq_true (List.mem_filter.1 ha).2

theorem mem_appendLast {l rows : List α} {a : α} (h : a ∈ appendLast key l rows) : a ∈ l ∨ a ∈ rows := by
  unfold appendLast at h
  split_ifs at h
  · exact .inr h
  · exact List.mem_append.1 ((dropDuplicates_sublist _).subset h)

theorem mem_appendLast_of_mem {l rows : List α} (hr : (rows.map key).Nodup) {a : α} (h : a ∈ rows) :
    a ∈ appendLast key l rows := by
  unfold appendLast
  split_ifs
  · exact h
  · rw [dropDuplicates_append hr]
    exact List.mem_append_right _ h

/-- The last row written is kept, whatever else has its key. -/
theorem getLast_mem_appendLast {l rows : List α} (h : rows ≠ []) : rows.getLast h ∈ appendLast key l rows := by
  unfold appendLast
  split_ifs
  · exact List.getLast_mem h
  · have hlast : ∀ m : List α, ∀ a, a ∈ dropDuplicates key (m ++ [a]) := by
      intro m a
      rw [dropDuplicates_append (by simp)]
      exact List.mem_append_right _ List.mem_cons_self
    have hsplit : l ++ rows = (l ++ rows.dropLast) ++ [rows.getLast h] := by
      rw [List.append_assoc, List.dropLast_append_getLast]
    rw [hsplit]
    exact hlast _ _

end tables

/-! ## The writes of a plan -/

/-- The tables a run is judged by. -/
def SameBooks (a b : PaperLedger) : Prop := a.fills = b.fills ∧ a.orders = b.orders ∧ a.trades = b.trades ∧ a.nav = b.nav

theorem SameBooks.rfl {a : PaperLedger} : SameBooks a a := ⟨Eq.refl _, Eq.refl _, Eq.refl _, Eq.refl _⟩

/-- Lots and money are read off the fills and the corrections. -/
theorem reads_congr {l l' : PaperLedger} (hf : l.fills = l'.fills) (hc : l.corrections = l'.corrections) :
    l.loadEffectiveFills = l'.loadEffectiveFills ∧ l.loadOpenPositions = l'.loadOpenPositions := by
  have he : l.loadEffectiveFills = l'.loadEffectiveFills := by
    unfold PaperLedger.loadEffectiveFills PaperLedger.voidedOrderIds
    rw [hf, hc]
  refine ⟨he, ?_⟩
  unfold PaperLedger.loadOpenPositions
  rw [he]

/-- What the refresh of a session needs besides the ledger. -/
structure Refresh where
  calendar : Calendar
  seedCapital : Int
  asOfDate : String
  closes : String → Option Int

namespace Refresh

variable (r : Refresh) (l : PaperLedger)

/-- The trades the refresh writes, when it gets that far. -/
def trades : Option (List RoundTrip) :=
  match l.loadOpenPositions, buildRoundTrips r.calendar l.loadEffectiveFills with
  | .ok _, .ok trips => some trips
  | _, _ => none

/-- The snapshot the refresh writes, when it gets that far. -/
def snapshot : Option NavSnapshot :=
  match l.loadOpenPositions, buildRoundTrips r.calendar l.loadEffectiveFills with
  | .ok lots, .ok _ => (buildNavSnapshot r.calendar l.loadEffectiveFills r.seedCapital r.asOfDate
      (some (loadOpenLotMarks r.closes lots r.asOfDate))).toOption
  | _, _ => none

/-- The ledger with the trades rewritten. -/
def withTrades : PaperLedger := { l with trades := (r.trades l).getD l.trades }

/-- The ledger after the refresh. -/
def result : PaperLedger :=
  match r.snapshot l with
  | none => r.withTrades l
  | some nav => (r.withTrades l).recordNav [nav]

def program : Session := refreshTradeLedgers r.calendar r.seedCapital r.asOfDate r.closes

variable {r l}

/-- **What the refresh does, and where it can be cut.** -/
theorem program_spec : (Prog.run Op.exec r.program l).2 = r.result l ∧
    ∀ c, Prog.Reach (Prog.exec Op.exec) r.program l c ↔ c = l ∨ c = r.withTrades l ∨ c = r.result l := by
  unfold program refreshTradeLedgers result withTrades trades snapshot
  cases hlots : l.loadOpenPositions with
  | error e =>
    simp only [Prog.run_call, Prog.reach_call, Op.exec, hlots, Prog.ofExcept_error, Prog.raise_bind, Prog.run_raise,
      Prog.reach_raise, Option.getD_none, true_and]
    exact fun c => by simp
  | ok lots =>
    cases htrips : buildRoundTrips r.calendar l.loadEffectiveFills with
    | error e =>
      simp only [Prog.run_call, Prog.reach_call, Op.exec, hlots, htrips, Prog.ofExcept_error, Prog.ofExcept_ok,
        Prog.ret_bind, Prog.raise_bind, Prog.run_raise, Prog.reach_raise, Option.getD_none, true_and]
      exact fun c => by simp
    | ok trips =>
      cases hnav : buildNavSnapshot r.calendar l.loadEffectiveFills r.seedCapital r.asOfDate
          (some (loadOpenLotMarks r.closes lots r.asOfDate)) with
      | error e =>
        simp only [Prog.run_call, Prog.reach_call, Op.exec, hlots, htrips, hnav, Prog.ofExcept_error, Prog.ofExcept_ok,
          Prog.ret_bind, Prog.raise_bind, Prog.run_raise, Prog.reach_raise, Option.getD_some, Except.toOption, true_and]
        exact fun c => by simp
      | ok nav =>
        simp only [Prog.run_call, Prog.reach_call, Op.exec, hlots, htrips, hnav, Prog.ofExcept_ok, Prog.ret_bind,
          Prog.run_ret, Prog.reach_ret, Option.getD_some, Except.toOption]
        exact ⟨rfl, fun c => by simp [PaperLedger.recordNav]⟩

/-- The refresh reads fills and corrections only. -/
theorem trades_congr (l l' : PaperLedger) (hf : l.fills = l'.fills) (hc : l.corrections = l'.corrections) :
    r.trades l = r.trades l' ∧ r.snapshot l = r.snapshot l' := by
  obtain ⟨he, ho⟩ := reads_congr hf hc
  unfold trades snapshot
  rw [he, ho]
  exact ⟨rfl, rfl⟩

end Refresh

/-- The ledger a plan leaves. -/
def Plan.result (r : Refresh) (l : PaperLedger) : Plan → PaperLedger
  | .nothing => l
  | .noDecision date reason => l.recordNoDecision date reason
  | .missed rows => l.recordOrders rows
  | .book fills rows =>
    match l.recordFills fills with
    | .error _ => l
    | .ok l' => r.result (l'.recordOrders rows)

theorem Plan.result_book_ok {r : Refresh} {l l' : PaperLedger} {fills : List Fill} {rows : List OrderRow}
    (h : l.recordFills fills = .ok l') : Plan.result r l (.book fills rows) = r.result (l'.recordOrders rows) := by
  simp only [Plan.result, h]

theorem Plan.result_book_error {r : Refresh} {l : PaperLedger} {fills : List Fill} {rows : List OrderRow} {e : String}
    (h : l.recordFills fills = .error e) : Plan.result r l (.book fills rows) = l := by
  simp only [Plan.result, h]

/-- The ledgers a plan can be cut at. -/
def Plan.Cut (r : Refresh) (l c : PaperLedger) : Plan → Prop
  | .nothing => c = l
  | .noDecision date reason => c = l ∨ c = l.recordNoDecision date reason
  | .missed rows => c = l ∨ c = l.recordOrders rows
  | .book fills rows =>
    c = l ∨ ∃ l', l.recordFills fills = .ok l' ∧
      (c = l' ∨ c = l'.recordOrders rows ∨ c = r.withTrades (l'.recordOrders rows) ∨ c = r.result (l'.recordOrders rows))

section writes

variable {r : Refresh} {l : PaperLedger}

theorem recordFillRows_spec (fills : List Fill) :
    (∀ l', l.recordFills fills = .ok l' → Prog.run Op.exec (recordFillRows fills) l = (.ok (), l')) ∧
    (∀ e, l.recordFills fills = .error e → Prog.run Op.exec (recordFillRows fills) l = (.error e, l)) ∧
    ∀ c, Prog.Reach (Prog.exec Op.exec) (recordFillRows fills) l c ↔ c = l ∨ l.recordFills fills = .ok c := by
  unfold recordFillRows
  cases fills with
  | nil =>
    have hok : l.recordFills [] = .ok l := by
      simp [PaperLedger.recordFills, appendOnly, Exc.raiseIf]
    simp only [List.isEmpty_nil, if_true, hok, Prog.run_ret, Prog.reach_ret]
    exact ⟨fun l' h => (by cases h; rfl), fun e h => (by cases h), fun c => by simp [eq_comm]⟩
  | cons f fs =>
    simp only [List.isEmpty_cons, Bool.false_eq_true, if_false]
    unfold PaperLedger.recordFills
    cases h : appendOnly Fill.orderId "order_id" "fills" l.fills (f :: fs) with
    | error e =>
      simp only [Prog.run_call, Prog.reach_call, Op.exec, h, Prog.ofExcept_error, Prog.raise_bind, Prog.run_raise,
        Prog.reach_raise, Exc.error_bind]
      exact ⟨fun l' h' => (by cases h'), fun e' h' => (by cases h'; rfl), fun c => by simp⟩
    | ok rows =>
      simp only [Prog.run_call, Prog.reach_call, Op.exec, h, Prog.ofExcept_ok, Prog.ret_bind, Prog.run_ret,
        Prog.reach_ret, Exc.ok_bind]
      exact ⟨fun l' h' => (by cases h'; rfl), fun e' h' => (by cases h'), fun c => by simp [eq_comm]⟩

theorem recordOrderRows_spec (rows : List OrderRow) :
    Prog.run Op.exec (recordOrderRows rows) l = (.ok (), l.recordOrders rows) ∧
    ∀ c, Prog.Reach (Prog.exec Op.exec) (recordOrderRows rows) l c ↔ c = l ∨ c = l.recordOrders rows := by
  unfold recordOrderRows
  simp only [Prog.run_call, Prog.reach_call, Op.exec, Prog.run_ret, Prog.reach_ret]
  exact ⟨rfl, fun c => by simp [PaperLedger.recordOrders]⟩

/-- The order rows and the refresh. -/
theorem recordOrderRows_refresh (rows : List OrderRow) :
    (Prog.run Op.exec ((recordOrderRows rows).bind fun _ => r.program) l).2 = r.result (l.recordOrders rows) ∧
    ∀ c, Prog.Reach (Prog.exec Op.exec) ((recordOrderRows rows).bind fun _ => r.program) l c ↔
      c = l ∨ c = l.recordOrders rows ∨ c = r.withTrades (l.recordOrders rows) ∨ c = r.result (l.recordOrders rows) := by
  obtain ⟨hrun, hreach⟩ := recordOrderRows_spec (l := l) rows
  obtain ⟨hres, hcut⟩ := Refresh.program_spec (r := r) (l := l.recordOrders rows)
  constructor
  · rw [Prog.run_bind, hrun]
    exact hres
  · intro c
    rw [Prog.reach_bind, hreach, hrun]
    constructor
    · rintro ((h | h) | ⟨a, w, heq, h⟩)
      · exact .inl h
      · exact .inr (.inl h)
      · cases heq
        exact .inr ((hcut c).1 h)
    · rintro (h | h)
      · exact .inl (.inl h)
      · exact .inr ⟨(), _, rfl, (hcut c).2 h⟩

/-- **What the writes of a plan do, and where they can be cut.** -/
theorem Plan.write_spec (p : Plan) :
    (Prog.run Op.exec (p.write r.calendar r.seedCapital r.asOfDate r.closes) l).2 = p.result r l ∧
    ∀ c, Prog.Reach (Prog.exec Op.exec) (p.write r.calendar r.seedCapital r.asOfDate r.closes) l c ↔ p.Cut r l c := by
  cases p with
  | nothing => exact ⟨rfl, fun c => Prog.reach_ret⟩
  | noDecision date reason =>
    unfold Plan.write Plan.Cut
    simp only [Prog.run_call, Prog.reach_call, Op.exec, Prog.run_ret, Prog.reach_ret]
    exact ⟨rfl, fun c => by simp [PaperLedger.recordNoDecision]⟩
  | missed rows =>
    obtain ⟨hrun, hreach⟩ := recordOrderRows_spec (l := l) rows
    exact ⟨congrArg Prod.snd hrun, hreach⟩
  | book fills rows =>
    obtain ⟨hok, herr, hfills⟩ := recordFillRows_spec (l := l) fills
    change (Prog.run Op.exec ((recordFillRows fills).bind fun _ => (recordOrderRows rows).bind fun _ => r.program) l).2 = _ ∧
      ∀ c, Prog.Reach (Prog.exec Op.exec) ((recordFillRows fills).bind fun _ =>
        (recordOrderRows rows).bind fun _ => r.program) l c ↔ _
    cases h : l.recordFills fills with
    | error e =>
      constructor
      · rw [Prog.run_bind, herr e h]
        simp only [Plan.result, h]
      · intro c
        rw [Prog.reach_bind, hfills, herr e h]
        simp [Plan.Cut, h]
    | ok l' =>
      obtain ⟨hrun, hreach⟩ := recordOrderRows_refresh (r := r) (l := l') rows
      constructor
      · rw [Prog.run_bind, hok l' h]
        simp only [Plan.result, h]
        exact hrun
      · intro c
        rw [Prog.reach_bind, hfills, hok l' h]
        unfold Plan.Cut
        constructor
        · rintro ((rfl | hc) | ⟨a, w, heq, hc⟩)
          · exact .inl rfl
          · exact .inr ⟨c, hc, .inl rfl⟩
          · cases heq
            exact .inr ⟨l', h, (hreach c).1 hc⟩
        · rintro (rfl | ⟨l₁, h₁, hc⟩)
          · exact .inl (.inl rfl)
          · cases h.symm.trans h₁
            exact .inr ⟨(), l', rfl, (hreach c).2 hc⟩

end writes

/-! ## What a plan books -/

/-- The ids of the rows that say FILLED. -/
def filledIds (rows : List OrderRow) : List String :=
  (rows.filter (fun r => decide (r.status = .filled))).map (fun r => r.order.orderId)

theorem mem_filledIds {rows : List OrderRow} {id : String} :
    id ∈ filledIds rows ↔ ∃ r ∈ rows, r.status = .filled ∧ r.order.orderId = id := by
  unfold filledIds
  simp [and_assoc]

theorem filledIds_append (rows rows' : List OrderRow) : filledIds (rows ++ rows') = filledIds rows ++ filledIds rows' := by
  unfold filledIds
  rw [List.filter_append, List.map_append]

/-- Rows that say anything else of every order. -/
theorem filledIds_eq_nil {rows : List OrderRow} (h : ∀ r ∈ rows, r.status ≠ .filled) : filledIds rows = [] := by
  unfold filledIds
  rw [List.filter_eq_nil_iff.2 (fun r hr => by simpa using h r hr), List.map_nil]

/-- One row an order, and FILLED where a fill is booked. -/
structure Booked (fills : List Fill) (rows : List OrderRow) : Prop where
  nodup : (rows.map (fun r => r.order.orderId)).Nodup
  filled : ∀ id, id ∈ filledIds rows ↔ id ∈ fills.map Fill.orderId

def Plan.Booked : Plan → Prop
  | .nothing | .noDecision _ _ => True
  | .missed rows => Paper.Booked [] rows
  | .book fills rows => Paper.Booked fills rows

/-- An order of the entry session of a date. -/
structure IsEntry (date : String) (o : PaperOrder) : Prop where
  id : o.orderId = entryOrderId date o.symbol
  reason : o.reason = "entry"
  dated : o.decisionDate = date

theorem entryOrderId_injective (date : String) : Function.Injective (entryOrderId date) := by
  intro a b h
  unfold entryOrderId at h
  have := congrArg String.toList h
  simp only [String.toList_append, List.append_assoc, List.append_cancel_left_eq, List.append_cancel_right_eq] at this
  exact String.toList_inj.1 this

theorem exitOrderId_injective (date : String) : Function.Injective (exitOrderId · date) := by
  intro a b h
  unfold exitOrderId at h
  have := congrArg String.toList h
  simp only [String.toList_append, List.append_assoc, List.append_cancel_right_eq] at this
  exact String.toList_inj.1 this

/-- Entry orders of different symbols have different ids. -/
theorem IsEntry.nodup {date : String} {orders : List PaperOrder} (h : ∀ o ∈ orders, IsEntry date o)
    (hs : (orders.map PaperOrder.symbol).Nodup) : (orders.map PaperOrder.orderId).Nodup := by
  have heq : orders.map PaperOrder.orderId = (orders.map PaperOrder.symbol).map (entryOrderId date) := by
    rw [List.map_map]
    exact List.map_congr_left (fun o ho => (h o ho).id)
  rw [heq]
  exact hs.map (entryOrderId_injective date)

/-- The orders are picks, each once. -/
theorem buildEntryOrders_spec {date : String} {seedCapital : Int} {placed : Timestamp} :
    ∀ {picks : List (Pick × Int)} {orders : List PaperOrder}, buildEntryOrders date seedCapital placed picks = .ok orders →
      (orders.map PaperOrder.symbol).Sublist (picks.map (fun p => p.1.symbol)) ∧ ∀ o ∈ orders, IsEntry date o
  | [], orders, h => by
    cases h
    exact ⟨.slnil, fun o ho => by cases ho⟩
  | (p, price) :: picks, orders, h => by
    unfold buildEntryOrders at h
    split_ifs at h with hprice
    · obtain ⟨hs, ho⟩ := buildEntryOrders_spec h
      exact ⟨hs.cons _, ho⟩
    · obtain ⟨qty, -, h⟩ := (Exc.bind_eq_ok _ _ _).1 h
      split_ifs at h with hqty
      · obtain ⟨hs, ho⟩ := buildEntryOrders_spec h
        exact ⟨hs.cons _, ho⟩
      · obtain ⟨rest, hrest, rfl⟩ := (Exc.map_eq_ok _ _ _).1 h
        obtain ⟨hs, ho⟩ := buildEntryOrders_spec hrest
        exact ⟨hs.cons_cons _, List.forall_mem_cons.2 ⟨⟨rfl, rfl, rfl⟩, ho⟩⟩

theorem buildAuctionFill_orderId {order : PaperOrder} {row : SnapshotRow} {fill : PaperFill}
    (h : buildAuctionFill order row = .ok (some fill)) : fill.orderId = order.orderId := by
  unfold buildAuctionFill at h
  split_ifs at h
  · rw [Except.ok.injEq] at h
    cases h
  · rw [Except.ok.injEq, Option.some.injEq] at h
    rw [← h]

/-- One ranked order gets one row, and a fill where the row says so. -/
theorem EntryWalk.step_spec {snapshot : String → Option SnapshotRow} {w w' : EntryWalk} {order : PaperOrder}
    (h : w.step snapshot order = .ok w') : w'.rows.map OrderRow.order = w.rows.map OrderRow.order ++ [order] ∧
      (filledIds w.rows = w.fills.map Fill.orderId → filledIds w'.rows = w'.fills.map Fill.orderId) := by
  have hskip : ∀ {st : OrderStatus}, st ≠ .filled → w' = { w with rows := w.rows ++ [⟨order, st⟩] } →
      w'.rows.map OrderRow.order = w.rows.map OrderRow.order ++ [order] ∧
        (filledIds w.rows = w.fills.map Fill.orderId → filledIds w'.rows = w'.fills.map Fill.orderId) := by
    rintro st hst rfl
    refine ⟨List.map_append, fun hf => ?_⟩
    rw [filledIds_append, show filledIds [⟨order, st⟩] = [] from filledIds_eq_nil (by simpa using hst), List.append_nil]
    exact hf
  unfold EntryWalk.step at h
  split at h
  · cases h
    exact hskip (by decide) rfl
  · obtain ⟨fill, hfill, h⟩ := (Exc.bind_eq_ok _ _ _).1 h
    cases fill with
    | none =>
      cases h
      exact hskip (by decide) rfl
    | some fill =>
      dsimp only at h
      split_ifs at h
      · cases h
        exact hskip (by decide) rfl
      · cases h
        refine ⟨List.map_append, fun hf => ?_⟩
        rw [filledIds_append, hf, List.map_append]
        congr 1
        exact congrArg (fun id => [id]) (buildAuctionFill_orderId hfill).symm

theorem EntryWalk.run_spec {snapshot : String → Option SnapshotRow} : ∀ {orders : List PaperOrder} {w w' : EntryWalk},
    orders.foldlM (EntryWalk.step snapshot) w = .ok w' → w'.rows.map OrderRow.order = w.rows.map OrderRow.order ++ orders ∧
      (filledIds w.rows = w.fills.map Fill.orderId → filledIds w'.rows = w'.fills.map Fill.orderId)
  | [], w, w', h => by
    cases h
    exact ⟨(List.append_nil _).symm, id⟩
  | order :: orders, w, w', h => by
    rw [List.foldlM_cons] at h
    obtain ⟨w₁, h₁, h⟩ := (Exc.bind_eq_ok _ _ _).1 h
    obtain ⟨hrows₁, hfilled₁⟩ := EntryWalk.step_spec h₁
    obtain ⟨hrows, hfilled⟩ := EntryWalk.run_spec h
    refine ⟨?_, fun hf => hfilled (hfilled₁ hf)⟩
    rw [hrows, hrows₁, List.append_assoc, List.singleton_append]

/-- The rows of an entry session. -/
structure EntryRows (date : String) (fills : List Fill) (rows : List OrderRow) : Prop where
  some : rows ≠ []
  entry : ∀ r ∈ rows, IsEntry date r.order
  nodup : (rows.map (fun r => r.order.orderId)).Nodup
  filled : filledIds rows = fills.map Fill.orderId

theorem EntryRows.booked {date : String} {fills : List Fill} {rows : List OrderRow} (h : EntryRows date fills rows) :
    Booked fills rows := ⟨h.nodup, fun id => by rw [h.filled]⟩

/-- The rows of the picks without an order, and the orders. -/
theorem entryRows (status : OrderStatus) {date : String} {placed : Timestamp} {picks : List Pick} {prices : List Int}
    {orders orders' : List PaperOrder} {fills : List Fill} {rows : List OrderRow} {seedCapital : Int}
    (hne : picks ≠ []) (hpicks : (picks.map Pick.symbol).Nodup)
    (horders : buildEntryOrders date seedCapital placed (picks.zip prices) = .ok orders) (hperm : orders'.Perm orders)
    (hrows : (rows.map OrderRow.order).Perm ((unsizedRows date placed status picks orders).map OrderRow.order ++ orders'))
    (hfilled : filledIds rows = fills.map Fill.orderId) : EntryRows date fills rows := by
  obtain ⟨hsub, hentry⟩ := buildEntryOrders_spec horders
  have hzip : ∀ (picks : List Pick) (prices : List Int), ((picks.zip prices).map (fun p => p.1.symbol)).Sublist
      (picks.map Pick.symbol) := by
    intro picks
    induction picks with
    | nil => exact fun prices => .slnil
    | cons p picks ih =>
      intro prices
      cases prices with
      | nil => exact List.nil_sublist _
      | cons price prices => exact (ih prices).cons_cons _
  have hnodup : (orders.map PaperOrder.symbol).Nodup := hpicks.sublist (hsub.trans (hzip picks prices))
  have hunsized : ((unsizedRows date placed status picks orders).map OrderRow.order).map PaperOrder.symbol =
      (picks.filter (fun p => p.symbol ∉ orders.map PaperOrder.symbol)).map Pick.symbol := by
    unfold unsizedRows
    rw [List.map_map, List.map_map]
    rfl
  have hall : ∀ o ∈ rows.map OrderRow.order, IsEntry date o := by
    intro o ho
    rcases List.mem_append.1 (hrows.mem_iff.1 ho) with ho | ho
    · unfold unsizedRows at ho
      rw [List.map_map] at ho
      obtain ⟨p, -, rfl⟩ := List.mem_map.1 ho
      exact ⟨rfl, rfl, rfl⟩
    · exact hentry o (hperm.mem_iff.1 ho)
  have hsymbols : ((rows.map OrderRow.order).map PaperOrder.symbol).Nodup := by
    rw [(hrows.map PaperOrder.symbol).nodup_iff, List.map_append, hunsized]
    apply List.Nodup.append (hpicks.sublist (List.filter_sublist.map _))
    · exact (hperm.map PaperOrder.symbol).nodup_iff.2 hnodup
    · intro s hs hs'
      obtain ⟨p, hp, rfl⟩ := List.mem_map.1 hs
      exact of_decide_eq_true (List.mem_filter.1 hp).2 ((hperm.map PaperOrder.symbol).mem_iff.1 hs')
  constructor
  · -- every pick has a row
    rintro rfl
    obtain ⟨p, ps, rfl⟩ := List.exists_cons_of_ne_nil hne
    have hempty := hrows.nil_eq
    rw [eq_comm, List.append_eq_nil_iff] at hempty
    obtain rfl : orders = [] := (List.perm_nil.1 (hempty.2 ▸ hperm.symm))
    simp [unsizedRows] at hempty
  · exact fun r hr => hall r.order (List.mem_map_of_mem hr)
  · have := IsEntry.nodup hall hsymbols
    rwa [List.map_map] at this
  · exact hfilled

/-- **What an entry plans**: only when it recorded nothing for its date yet. -/
theorem entryPlan_spec {inp : EntryInputs} {l : PaperLedger} {p : Plan} (h : entryPlan inp l = .ok p) :
    p = .nothing ∨ (∃ date reason, p = .noDecision date reason) ∨
      (∃ rows, p = .missed rows ∧ EntryRows (isoDate inp.day) [] rows) ∨
      ∃ fills rows, p = .book fills rows ∧ EntryRows (isoDate inp.day) fills rows := by
  unfold entryPlan at h
  dsimp only at h
  have hne : inp.picks.isEmpty ≠ true → inp.picks ≠ [] := fun hpicks heq => hpicks (by rw [heq]; rfl)
  split_ifs at h with hwindow hclosed hrecorded hpicks htrading hmissed
  · cases h
    exact .inl rfl
  · cases h
    exact .inl rfl
  · cases h
    exact .inl rfl
  · cases h
    exact .inr (.inl ⟨_, _, rfl⟩)
  · cases h
    exact .inl rfl
  · obtain ⟨prices, -, h⟩ := (Exc.bind_eq_ok _ _ _).1 h
    obtain ⟨nav, -, h⟩ := (Exc.bind_eq_ok _ _ _).1 h
    obtain ⟨orders, horders, h⟩ := (Exc.bind_eq_ok _ _ _).1 h
    cases h
    refine .inr (.inr (.inl ⟨_, rfl, entryRows .missedAuction (hne hpicks) inp.picks_nodup horders (.refl _) ?_
      (filledIds_eq_nil ?_)⟩))
    · rw [List.map_append, List.map_map]
      exact List.perm_append_comm.trans (.of_eq (by rw [show OrderRow.order ∘ (fun o => ⟨o, .missedAuction⟩) = id from rfl,
        List.map_id]))
    · intro r hr
      rcases List.mem_append.1 hr with hr | hr
      · obtain ⟨o, -, rfl⟩ := List.mem_map.1 hr
        exact OrderStatus.noConfusion
      · obtain ⟨p, -, rfl⟩ := List.mem_map.1 hr
        exact OrderStatus.noConfusion
  · obtain ⟨prices, -, h⟩ := (Exc.bind_eq_ok _ _ _).1 h
    obtain ⟨nav, -, h⟩ := (Exc.bind_eq_ok _ _ _).1 h
    obtain ⟨orders, horders, h⟩ := (Exc.bind_eq_ok _ _ _).1 h
    obtain ⟨walk, hwalk, h⟩ := (Exc.bind_eq_ok _ _ _).1 h
    cases h
    obtain ⟨hrows, hfilled⟩ := EntryWalk.run_spec hwalk
    refine .inr (.inr (.inr ⟨_, _, rfl, entryRows .zeroQty (hne hpicks) inp.picks_nodup horders (List.mergeSort_perm _ _)
      (.of_eq hrows) (hfilled (filledIds_eq_nil ?_))⟩))
    intro r hr
    obtain ⟨p, -, rfl⟩ := List.mem_map.1 hr
    exact OrderStatus.noConfusion

/-- **What an exit plans**: an order for every open lot, or nothing. -/
theorem exitPlan_spec {inp : ExitInputs} {l : PaperLedger} {p : Plan} (hl : (l.fills.map Fill.orderId).Nodup)
    (h : exitPlan inp l = .ok p) : p = .nothing ∨ ∃ fills rows, p = .book fills rows ∧ Booked fills rows := by
  unfold exitPlan at h
  obtain ⟨lots, hlots, h⟩ := (Exc.bind_eq_ok _ _ _).1 h
  dsimp only at h
  split_ifs at h
  · cases h
    exact .inl rfl
  all_goals
    obtain ⟨fills, hfills, h⟩ := (Exc.bind_eq_ok _ _ _).1 h
    split_ifs at h
    · cases h
      exact .inl rfl
    cases h
    refine .inr ⟨_, _, rfl, ?_, fun id => ?_⟩
    · have hids : (buildExitOrders lots (isoDate inp.day) (exitPlacedAt inp.day)).map PaperOrder.orderId =
          (lots.map Lot.entryOrderId).map (exitOrderId · (isoDate inp.day)) := by
        unfold buildExitOrders
        rw [List.map_map, List.map_map]
        rfl
      have hlot : (lots.map Lot.entryOrderId).Nodup := by
        rw [loadOpenPositions_eq hlots, List.map_map]
        exact hl.sublist ((List.filter_sublist.trans (List.filter_sublist.trans List.filter_sublist)).map Fill.orderId)
      rw [List.map_map]
      change ((buildExitOrders lots (isoDate inp.day) (exitPlacedAt inp.day)).map PaperOrder.orderId).Nodup
      rw [hids]
      exact hlot.map (exitOrderId_injective _)
    · rw [mem_filledIds]
      constructor
      · rintro ⟨r, hr, hst, rfl⟩
        obtain ⟨o, ho, rfl⟩ := List.mem_map.1 hr
        by_contra hno
        rw [if_neg hno] at hst
        cases hst
      · intro hid
        have hmem := hid
        rw [exitFills_eq hfills, List.map_map] at hmem
        obtain ⟨o, ho, rfl⟩ := List.mem_map.1 hmem
        exact ⟨_, List.mem_map_of_mem (List.mem_of_mem_filter ho), if_pos hid, rfl⟩

/-! ## Sessions -/

/-- A session of either kind. -/
inductive PaperSession where
  | entry (inp : EntryInputs)
  | exit (inp : ExitInputs)

namespace PaperSession

def program : PaperSession → Session
  | entry inp => runEntry inp
  | exit inp => runExit inp

def refresh : PaperSession → Refresh
  | entry inp => ⟨inp.calendar, inp.seedCapital, isoDate inp.day, inp.closes⟩
  | exit inp => ⟨inp.calendar, inp.seedCapital, isoDate inp.day, inp.closes⟩

/-- What a session decides to write, from the ledger it finds. -/
def plan : PaperSession → PaperLedger → Except String Plan
  | entry inp, l => entryPlan inp l
  | exit inp, l => do if ← exitGate inp l then exitPlan inp l else .ok .nothing

/-- The ledger a session leaves. -/
def final (s : PaperSession) (l : PaperLedger) : PaperLedger := (Prog.run Op.exec s.program l).2

/-- The ledgers a session can be cut at. -/
def Cut (s : PaperSession) (l c : PaperLedger) : Prop := Prog.Reach (Prog.exec Op.exec) s.program l c

/-- The plan of a session, as ledgers. -/
theorem spec (s : PaperSession) (l : PaperLedger) :
    (∀ e, s.plan l = .error e → s.final l = l ∧ ∀ c, s.Cut l c ↔ c = l) ∧
    ∀ p, s.plan l = .ok p → s.final l = p.result s.refresh l ∧ ∀ c, s.Cut l c ↔ p.Cut s.refresh l c := by
  have hself : ∀ {p : Plan} {c : PaperLedger} {r : Refresh}, c = l ∨ p.Cut r l c ↔ p.Cut r l c := by
    intro p c r
    refine or_iff_right_of_imp (fun h => ?_)
    subst h
    cases p with
    | nothing => rfl
    | noDecision | missed | book => exact .inl rfl
  cases s with
  | entry inp =>
    unfold final Cut program runEntry
    simp only [Prog.run_call, Prog.reach_call, Op.exec]
    change (∀ e, entryPlan inp l = .error e → _) ∧ ∀ p, entryPlan inp l = .ok p → _
    cases hp : entryPlan inp l with
    | error e =>
      simp only [Prog.ofExcept_error, Prog.raise_bind, Prog.run_raise, Prog.reach_raise]
      exact ⟨fun e' _ => ⟨trivial, fun c => or_self_iff⟩, fun p h => by cases h⟩
    | ok p =>
      simp only [Prog.ofExcept_ok, Prog.ret_bind]
      refine ⟨fun e h => (by cases h), fun p' h => ?_⟩
      cases h
      obtain ⟨hrun, hcut⟩ := Plan.write_spec (r := refresh (entry inp)) (l := l) p
      exact ⟨hrun, fun c => (or_congr_right (hcut c)).trans hself⟩
  | exit inp =>
    unfold final Cut program runExit
    simp only [Prog.run_call, Prog.reach_call, Op.exec]
    change (∀ e, (exitGate inp l >>= fun b => if b then exitPlan inp l else .ok .nothing) = .error e → _) ∧
      ∀ p, (exitGate inp l >>= fun b => if b then exitPlan inp l else .ok .nothing) = .ok p → _
    cases hg : exitGate inp l with
    | error e =>
      simp only [Prog.ofExcept_error, Prog.raise_bind, Prog.run_raise, Prog.reach_raise, Exc.error_bind]
      exact ⟨fun e' _ => ⟨trivial, fun c => or_self_iff⟩, fun p h => by cases h⟩
    | ok b =>
      simp only [Prog.ofExcept_ok, Prog.ret_bind, Exc.ok_bind]
      cases b with
      | false =>
        simp only [Bool.false_eq_true, if_false, Prog.run_ret, Prog.reach_ret]
        refine ⟨fun e h => (by cases h), fun p h => ?_⟩
        cases h
        exact ⟨rfl, fun c => or_self_iff⟩
      | true =>
        simp only [if_true, Prog.run_call, Prog.reach_call, Op.exec]
        cases hp : exitPlan inp l with
        | error e =>
          simp only [Prog.ofExcept_error, Prog.raise_bind, Prog.run_raise, Prog.reach_raise]
          exact ⟨fun e' _ => ⟨trivial, fun c => by simp⟩, fun p h => by cases h⟩
        | ok p =>
          simp only [Prog.ofExcept_ok, Prog.ret_bind]
          refine ⟨fun e h => (by cases h), fun p' h => ?_⟩
          cases h
          obtain ⟨hrun, hcut⟩ := Plan.write_spec (r := refresh (exit inp)) (l := l) p
          exact ⟨hrun, fun c => (or_congr_right ((or_congr_right (hcut c)).trans hself)).trans hself⟩

/-- Every plan books consistently. -/
theorem plan_booked {s : PaperSession} {l : PaperLedger} (hl : (l.fills.map Fill.orderId).Nodup) {p : Plan}
    (h : s.plan l = .ok p) : p.Booked := by
  cases s with
  | entry inp =>
    rcases entryPlan_spec h with rfl | ⟨date, reason, rfl⟩ | ⟨rows, rfl, hrows⟩ | ⟨fills, rows, rfl, hrows⟩
    · trivial
    · trivial
    · exact hrows.booked
    · exact hrows.booked
  | exit inp =>
    obtain ⟨b, -, h⟩ := (Exc.bind_eq_ok _ _ _).1 h
    cases b with
    | false =>
      cases h
      trivial
    | true =>
      rcases exitPlan_spec hl h with rfl | ⟨fills, rows, rfl, hrows⟩
      · trivial
      · exact hrows

end PaperSession

/-! ## The ledgers on disk -/

/-- No fill twice, and no order row that says FILLED of a fill that is not there. -/
structure WellFormed (l : PaperLedger) : Prop where
  nodup : (l.fills.map Fill.orderId).Nodup
  filled : ∀ id ∈ filledIds l.orders, id ∈ l.fills.map Fill.orderId

/-- What changes a ledger: a session, cut anywhere or not at all, and the corrections. -/
inductive DiskStep : PaperLedger → PaperLedger → Prop where
  | session {l c : PaperLedger} (s : PaperSession) (h : s.Cut l c) : DiskStep l c
  | void {l l' : PaperLedger} (orderId reason evidence operator asOfDate : String)
      (h : l.voidFill orderId reason evidence operator asOfDate = .ok l') : DiskStep l l'
  | note {l l' : PaperLedger} (targetOrderIds : List String) (reason evidence operator asOfDate : String)
      (h : l.recordNote targetOrderIds reason evidence operator asOfDate = .ok l') : DiskStep l l'

/-- The ledgers that come about from nothing. -/
def disk : System PaperLedger where
  start l := l = .empty
  step := DiskStep

section wellFormed

variable {l l' : PaperLedger}

@[simp] theorem Refresh.result_fields (r : Refresh) : (r.result l).fills = l.fills ∧ (r.result l).orders = l.orders ∧
    (r.result l).corrections = l.corrections ∧ (r.result l).trades = (r.trades l).getD l.trades ∧
    (r.result l).nav = (match r.snapshot l with | none => l.nav | some n => appendLast NavSnapshot.asOfDate l.nav [n]) := by
  unfold Refresh.result Refresh.withTrades PaperLedger.recordNav
  cases r.snapshot l <;> exact ⟨rfl, rfl, rfl, rfl, rfl⟩

/-- Only fills and order rows matter. -/
theorem WellFormed.congr (h : WellFormed l) (hf : l'.fills = l.fills) (ho : l'.orders = l.orders) : WellFormed l' :=
  ⟨hf ▸ h.nodup, by rw [ho, hf]; exact h.filled⟩

theorem WellFormed.recordFills (h : WellFormed l) {fills : List Fill} (hr : l.recordFills fills = .ok l') :
    WellFormed l' := by
  obtain ⟨hn, hnew, rfl⟩ := recordFills_eq_ok.1 hr
  constructor
  · change ((l.fills ++ fills).map Fill.orderId).Nodup
    rw [List.map_append]
    refine h.nodup.append hn (fun id hid hid' => ?_)
    obtain ⟨f, hf, rfl⟩ := List.mem_map.1 hid'
    exact hnew f hf hid
  · intro id hid
    change id ∈ (l.fills ++ fills).map Fill.orderId
    rw [List.map_append]
    exact List.mem_append_left _ (h.filled id hid)

theorem WellFormed.recordOrders (h : WellFormed l) {rows : List OrderRow}
    (hr : ∀ id ∈ filledIds rows, id ∈ l.fills.map Fill.orderId) : WellFormed (l.recordOrders rows) := by
  refine ⟨h.nodup, fun id hid => ?_⟩
  obtain ⟨r, hmem, hst, rfl⟩ := mem_filledIds.1 hid
  rcases mem_appendLast hmem with hmem | hmem
  · exact h.filled _ (mem_filledIds.2 ⟨r, hmem, hst, rfl⟩)
  · exact hr _ (mem_filledIds.2 ⟨r, hmem, hst, rfl⟩)

/-- A session keeps the ledger well formed wherever it is cut. -/
theorem WellFormed.cut (h : WellFormed l) {s : PaperSession} {c : PaperLedger} (hc : s.Cut l c) : WellFormed c := by
  obtain ⟨herr, hok⟩ := s.spec l
  cases hp : s.plan l with
  | error e =>
    rw [((herr e hp).2 c).1 hc]
    exact h
  | ok p =>
    have hb := PaperSession.plan_booked h.nodup hp
    have hcut := ((hok p hp).2 c).1 hc
    cases p with
    | nothing =>
      rw [show c = l from hcut]
      exact h
    | noDecision date reason =>
      rcases hcut with rfl | rfl
      · exact h
      · exact h.congr rfl rfl
    | missed rows =>
      rcases hcut with rfl | rfl
      · exact h
      · exact h.recordOrders (fun id hid => absurd ((hb.filled id).1 hid) (by simp))
    | book fills rows =>
      rcases hcut with rfl | ⟨l', hr, hcut⟩
      · exact h
      have hl' := h.recordFills hr
      have hrows : WellFormed (l'.recordOrders rows) := by
        refine hl'.recordOrders (fun id hid => ?_)
        obtain ⟨-, -, rfl⟩ := recordFills_eq_ok.1 hr
        change id ∈ (l.fills ++ fills).map Fill.orderId
        rw [List.map_append]
        exact List.mem_append_right _ ((hb.filled id).1 hid)
      rcases hcut with rfl | rfl | rfl | rfl
      · exact hl'
      · exact hrows
      · exact hrows.congr rfl rfl
      · exact hrows.congr (s.refresh.result_fields).1 (s.refresh.result_fields).2.1

end wellFormed

theorem wellFormed_always : disk.Always WellFormed := by
  apply System.Inductive.always
  constructor
  · rintro l rfl
    exact ⟨List.nodup_nil, fun id hid => by cases hid⟩
  · intro l l' h hs
    cases hs with
    | session s hc => exact h.cut hc
    | void orderId reason evidence operator asOfDate hv =>
      unfold PaperLedger.voidFill at hv
      simp only [Exc.bind_eq_ok] at hv
      obtain ⟨-, -, -, -, hv⟩ := hv
      split at hv
      · cases hv
      · simp only [Exc.bind_eq_ok] at hv
        obtain ⟨-, -, -, -, hv⟩ := hv
        rw [recordCorrections_eq_ok hv]
        exact h.congr rfl rfl
    | note targetOrderIds reason evidence operator asOfDate hn =>
      unfold PaperLedger.recordNote at hn
      simp only [Exc.bind_eq_ok] at hn
      obtain ⟨-, -, -, -, hn⟩ := hn
      rw [recordCorrections_eq_ok hn]
      exact h.congr rfl rfl

/-! ## Running a cut session again -/

/-- The trades and the NAV already are what the refresh writes. -/
def Refresh.Settled (r : Refresh) (l : PaperLedger) : Prop :=
  (∀ trips, r.trades l = some trips → trips = l.trades) ∧
    ∀ nav, r.snapshot l = some nav → appendLast NavSnapshot.asOfDate l.nav [nav] = l.nav

/-- Orders and refresh written over what they left behind, in full or in part. -/
theorem Refresh.rewrite {r : Refresh} {l c : PaperLedger} {rows : List OrderRow}
    (hrows : (rows.map (fun r => r.order.orderId)).Nodup)
    (hfills : c.fills = l.fills) (hcorr : c.corrections = l.corrections) (horders : c.orders = (l.recordOrders rows).orders)
    (htrades : c.trades = l.trades ∨ c.trades = (r.result (l.recordOrders rows)).trades)
    (hnav : c.nav = l.nav ∨ c.nav = (r.result (l.recordOrders rows)).nav) :
    SameBooks (r.result (c.recordOrders rows)) (r.result (l.recordOrders rows)) := by
  obtain ⟨ht, hs⟩ := Refresh.trades_congr (r := r) (c.recordOrders rows) (l.recordOrders rows) hfills hcorr
  obtain ⟨hf₁, ho₁, -, ht₁, hn₁⟩ := r.result_fields (l := c.recordOrders rows)
  obtain ⟨hf₂, ho₂, -, ht₂, hn₂⟩ := r.result_fields (l := l.recordOrders rows)
  refine ⟨?_, ?_, ?_, ?_⟩
  · rw [hf₁, hf₂]
    exact hfills
  · rw [ho₁, ho₂]
    change appendLast _ c.orders rows = _
    rw [horders]
    exact appendLast_idem _ hrows
  · rw [ht₁, ht₂, ht]
    change (r.trades (l.recordOrders rows)).getD c.trades = (r.trades (l.recordOrders rows)).getD l.trades
    rw [ht₂] at htrades
    change c.trades = l.trades ∨ c.trades = (r.trades (l.recordOrders rows)).getD l.trades at htrades
    cases htr : r.trades (l.recordOrders rows) with
    | some trips => rfl
    | none =>
      rw [htr] at htrades
      exact htrades.elim id id
  · rw [hn₁, hn₂, hs]
    rw [hn₂] at hnav
    cases hsn : r.snapshot (l.recordOrders rows) with
    | none =>
      rw [hsn] at hnav
      exact hnav.elim id id
    | some nav =>
      rw [hsn] at hnav
      change appendLast _ c.nav [nav] = appendLast _ l.nav [nav]
      rcases hnav with hnav | hnav
      · rw [hnav]
      · rw [hnav]
        exact appendLast_idem _ (List.nodup_singleton _)

namespace PaperSession

variable {s : PaperSession} {l : PaperLedger}

/-- Wherever the session is cut, running it again comes to the books of the session that was not cut. -/
def Converges (s : PaperSession) (l : PaperLedger) : Prop := ∀ c, s.Cut l c → SameBooks (s.final c) (s.final l)

def isEntry : PaperSession → Prop
  | entry _ => True
  | exit _ => False

/-- The session records no fill; and an entry that writes order rows finds trades and NAV settled. -/
def Repeatable (s : PaperSession) (l : PaperLedger) : Prop :=
  ∀ fills rows, s.plan l = .ok (.book fills rows) → ∀ l', l.recordFills fills = .ok l' →
    fills = [] ∧ (s.isEntry → s.refresh.Settled l)

/-- A session that adds no fill adds no row that says FILLED. -/
theorem filledIds_final (hl : WellFormed l) (hf : (s.final l).fills = l.fills) {id : String}
    (hid : id ∈ filledIds (s.final l).orders) : id ∈ filledIds l.orders := by
  obtain ⟨herr, hok⟩ := s.spec l
  have hnew : ∀ {rows : List OrderRow}, filledIds rows = [] → id ∈ filledIds (l.recordOrders rows).orders →
      id ∈ filledIds l.orders := by
    intro rows hrows hid
    obtain ⟨r, hr, hst, rfl⟩ := mem_filledIds.1 hid
    rcases mem_appendLast hr with hr | hr
    · exact mem_filledIds.2 ⟨r, hr, hst, rfl⟩
    · exact absurd (mem_filledIds.2 ⟨r, hr, hst, rfl⟩) (by rw [hrows]; exact List.not_mem_nil)
  cases hp : s.plan l with
  | error e =>
    rw [(herr e hp).1] at hid
    exact hid
  | ok p =>
    have hb := plan_booked hl.nodup hp
    rw [(hok p hp).1] at hf hid
    cases p with
    | nothing => exact hid
    | noDecision date reason => exact hid
    | missed rows =>
      apply hnew _ hid
      exact List.eq_nil_iff_forall_not_mem.2 (fun id' h => absurd ((hb.filled id').1 h) (by simp))
    | book fills rows =>
      cases hr : l.recordFills fills with
      | error e =>
        rw [Plan.result_book_error hr] at hid
        exact hid
      | ok l' =>
        rw [Plan.result_book_ok hr, (s.refresh.result_fields).1] at hf
        rw [Plan.result_book_ok hr, (s.refresh.result_fields).2.1] at hid
        obtain ⟨-, -, rfl⟩ := recordFills_eq_ok.1 hr
        have hnil : fills = [] := List.append_right_eq_self.1 hf
        subst hnil
        apply hnew _ hid
        exact List.eq_nil_iff_forall_not_mem.2 (fun id' h => absurd ((hb.filled id').1 h) (by simp))

/-- **A session that records a fill does not converge**: cut right after, it never writes that order's row. -/
theorem not_converges_of_fill (hl : WellFormed l) {fills : List Fill} {rows : List OrderRow} {l' : PaperLedger}
    (hp : s.plan l = .ok (.book fills rows)) (hr : l.recordFills fills = .ok l') (hne : fills ≠ []) : ¬ s.Converges l := by
  intro h
  obtain ⟨hfinal, hcut⟩ := (s.spec l).2 _ hp
  have hb : Booked fills rows := plan_booked hl.nodup hp
  have hsame := h l' ((hcut l').2 (.inr ⟨l', hr, .inl rfl⟩))
  obtain ⟨f, fs, rfl⟩ := List.exists_cons_of_ne_nil hne
  have hres : s.final l = s.refresh.result (l'.recordOrders rows) := hfinal.trans (Plan.result_book_ok hr)
  have hfills : (s.final l).fills = l'.fills := by
    rw [hres, (s.refresh.result_fields).1]
    rfl
  have hrow : f.orderId ∈ filledIds (s.final l).orders := by
    obtain ⟨r, hrm, hst, hid⟩ := mem_filledIds.1 ((hb.filled f.orderId).2 List.mem_cons_self)
    rw [hres, (s.refresh.result_fields).2.1]
    exact mem_filledIds.2 ⟨r, mem_appendLast_of_mem hb.nodup hrm, hst, hid⟩
  have hback : f.orderId ∈ filledIds l'.orders := by
    apply filledIds_final (s := s) (hl.recordFills hr) (hsame.1.trans hfills)
    rw [hsame.2.1]
    exact hrow
  obtain ⟨-, hnew, rfl⟩ := recordFills_eq_ok.1 hr
  exact hnew f List.mem_cons_self (hl.filled _ hback)

theorem plan_exit_congr {inp : ExitInputs} {c : PaperLedger} (hf : c.fills = l.fills)
    (hc : c.corrections = l.corrections) : (exit inp).plan c = (exit inp).plan l := by
  obtain ⟨-, ho⟩ := reads_congr hf hc
  change (exitGate inp c >>= _) = (exitGate inp l >>= _)
  unfold exitGate exitPlan
  rw [ho]

theorem recordFills_nil : l.recordFills [] = .ok l :=
  recordFills_eq_ok.2 ⟨List.nodup_nil, fun r hr => (by cases hr), by rw [List.append_nil]⟩

/-- An exit without a fill. -/
theorem converges_exit {inp : ExitInputs} {rows : List OrderRow} (hrows : (rows.map (fun r => r.order.orderId)).Nodup)
    (hp : (exit inp).plan l = .ok (.book [] rows)) : (exit inp).Converges l := by
  intro c hc
  have hagain : ∀ d : PaperLedger, d.fills = l.fills → d.corrections = l.corrections →
      (exit inp).final d = (exit inp).refresh.result (d.recordOrders rows) := by
    intro d hf hcorr
    rw [(((exit inp).spec d).2 _ ((plan_exit_congr hf hcorr).trans hp)).1, Plan.result_book_ok recordFills_nil]
  obtain ⟨hf₁, ho₁, hc₁, -, -⟩ := (exit inp).refresh.result_fields (l := l.recordOrders rows)
  rw [hagain l rfl rfl]
  rcases ((((exit inp).spec l).2 _ hp).2 c).1 hc with rfl | ⟨l', hr, hcut⟩
  · rw [hagain c rfl rfl]
    exact SameBooks.rfl
  cases recordFills_nil.symm.trans hr
  rcases hcut with rfl | rfl | rfl | rfl
  · rw [hagain c rfl rfl]
    exact SameBooks.rfl
  · rw [hagain (l.recordOrders rows) rfl rfl]
    exact Refresh.rewrite hrows rfl rfl rfl (.inl rfl) (.inl rfl)
  · rw [hagain ((exit inp).refresh.withTrades (l.recordOrders rows)) rfl rfl]
    exact Refresh.rewrite hrows rfl rfl rfl (.inr (Refresh.result_fields _).2.2.2.1.symm) (.inl rfl)
  · rw [hagain _ hf₁ hc₁]
    exact Refresh.rewrite hrows hf₁ hc₁ ho₁ (.inr rfl) (.inr rfl)

/-- An entry that finds its rows does nothing. -/
theorem final_entry_of_rows {inp : EntryInputs} {c : PaperLedger} {fills : List Fill} {rows : List OrderRow}
    (hrows : EntryRows (isoDate inp.day) fills rows) (hc : c.orders = (l.recordOrders rows).orders) :
    (entry inp).final c = c := by
  have hrecorded : entryAlreadyRecorded c.orders (isoDate inp.day) = true := by
    rw [hc]
    refine List.any_eq_true.2 ⟨_, getLast_mem_appendLast hrows.some, ?_⟩
    have hlast := hrows.entry _ (List.getLast_mem hrows.some)
    rw [hlast.dated, hlast.reason]
    simp
  have hplan : (entry inp).plan c = .ok .nothing := by
    change entryPlan inp c = _
    unfold entryPlan
    dsimp only
    split_ifs <;> rfl
  exact (((entry inp).spec c).2 _ hplan).1

theorem entryRows_of_book {inp : EntryInputs} {fills : List Fill} {rows : List OrderRow}
    (h : (entry inp).plan l = .ok (.book fills rows)) : EntryRows (isoDate inp.day) fills rows := by
  rcases entryPlan_spec h with heq | ⟨date, reason, heq⟩ | ⟨rows', heq, hrows⟩ | ⟨fills', rows', heq, hrows⟩
  · cases heq
  · cases heq
  · cases heq
  · cases heq
    exact hrows

/-- An entry without a fill, on settled tables. -/
theorem converges_entry {inp : EntryInputs} {rows : List OrderRow} (hp : (entry inp).plan l = .ok (.book [] rows))
    (hset : (entry inp).refresh.Settled l) : (entry inp).Converges l := by
  intro c hc
  have hrows := entryRows_of_book hp
  obtain ⟨hfinal, hcut⟩ := ((entry inp).spec l).2 _ hp
  rw [Plan.result_book_ok recordFills_nil] at hfinal
  obtain ⟨hf, ho, -, ht, hn⟩ := (entry inp).refresh.result_fields (l := l.recordOrders rows)
  obtain ⟨htr, hsn⟩ := Refresh.trades_congr (r := (entry inp).refresh) (l.recordOrders rows) l rfl rfl
  have htrades : l.trades = ((entry inp).refresh.result (l.recordOrders rows)).trades := by
    rw [ht, htr]
    cases h : (entry inp).refresh.trades l with
    | none => rfl
    | some trips => exact (hset.1 trips h).symm
  have hnav : l.nav = ((entry inp).refresh.result (l.recordOrders rows)).nav := by
    rw [hn, hsn]
    cases h : (entry inp).refresh.snapshot l with
    | none => rfl
    | some nav => exact (hset.2 nav h).symm
  rcases (hcut c).1 hc with rfl | ⟨l', hr, hcases⟩
  · exact SameBooks.rfl
  cases recordFills_nil.symm.trans hr
  rw [hfinal]
  rcases hcases with rfl | rfl | rfl | rfl
  · rw [hfinal]
    exact SameBooks.rfl
  · rw [final_entry_of_rows hrows rfl]
    exact ⟨hf.symm, ho.symm, htrades, hnav⟩
  · rw [final_entry_of_rows (l := l) (c := (entry inp).refresh.withTrades (l.recordOrders rows)) hrows rfl]
    exact ⟨hf.symm, ho.symm, ht.symm, hnav⟩
  · rw [final_entry_of_rows hrows ho]
    exact SameBooks.rfl

/-- Cut before the trades, an entry is skipped the second time: they have to be what they were. -/
theorem settled_of_converges {inp : EntryInputs} {rows : List OrderRow} (hp : (entry inp).plan l = .ok (.book [] rows))
    (h : (entry inp).Converges l) : (entry inp).refresh.Settled l := by
  obtain ⟨hfinal, hcut⟩ := ((entry inp).spec l).2 _ hp
  have hsame := h (l.recordOrders rows) ((hcut _).2 (.inr ⟨l, recordFills_nil, .inr (.inl rfl)⟩))
  rw [final_entry_of_rows (entryRows_of_book hp) rfl, hfinal, Plan.result_book_ok recordFills_nil] at hsame
  obtain ⟨-, -, -, ht, hn⟩ := (entry inp).refresh.result_fields (l := l.recordOrders rows)
  obtain ⟨htr, hsn⟩ := Refresh.trades_congr (r := (entry inp).refresh) (l.recordOrders rows) l rfl rfl
  obtain ⟨-, -, hst, hsv⟩ := hsame
  rw [ht, htr] at hst
  rw [hn, hsn] at hsv
  constructor
  · intro trips htrips
    rw [htrips] at hst
    exact hst.symm
  · intro nav hnav
    rw [hnav] at hsv
    exact hsv.symm

/-- **A cut session converges exactly when it books no fill**, and, for an entry, when there was nothing to refresh. -/
theorem converges_iff (s : PaperSession) {l : PaperLedger} (hl : disk.Reachable l) : s.Converges l ↔ s.Repeatable l := by
  have hwf := wellFormed_always l hl
  constructor
  · intro h fills rows hp l' hr
    have hnil : fills = [] := by_contra (fun hne => not_converges_of_fill hwf hp hr hne h)
    subst hnil
    refine ⟨rfl, fun hentry => ?_⟩
    cases s with
    | entry inp => exact settled_of_converges hp h
    | exit inp => exact hentry.elim
  · intro h c hc
    obtain ⟨herr, hok⟩ := s.spec l
    cases hp : s.plan l with
    | error e =>
      rw [((herr e hp).2 c).1 hc]
      exact SameBooks.rfl
    | ok p =>
      obtain ⟨hfinal, hcut⟩ := hok p hp
      cases p with
      | nothing =>
        rw [show c = l from (hcut c).1 hc]
        exact SameBooks.rfl
      | noDecision date reason =>
        rcases (hcut c).1 hc with rfl | rfl
        · exact SameBooks.rfl
        · have hagain : s.plan (l.recordNoDecision date reason) = .ok (.noDecision date reason) := by
            cases s with
            | entry inp => exact hp
            | exit inp => exact (plan_exit_congr rfl rfl).trans hp
          rw [hfinal, ((s.spec _).2 _ hagain).1]
          exact SameBooks.rfl
      | missed rows =>
        rcases (hcut c).1 hc with rfl | rfl
        · exact SameBooks.rfl
        · cases s with
          | entry inp =>
            rcases entryPlan_spec hp with heq | ⟨date, reason, heq⟩ | ⟨rows', heq, hrows⟩ | ⟨fills, rows', heq, hrows⟩
            · cases heq
            · cases heq
            · cases heq
              rw [hfinal, final_entry_of_rows hrows rfl]
              exact SameBooks.rfl
            · cases heq
          | exit inp =>
            obtain ⟨b, -, hp⟩ := (Exc.bind_eq_ok _ _ _).1 hp
            cases b with
            | false => cases hp
            | true =>
              rcases exitPlan_spec hwf.nodup hp with heq | ⟨fills, rows', heq, -⟩
              · cases heq
              · cases heq
      | book fills rows =>
        cases hr : l.recordFills fills with
        | error e =>
          rcases (hcut c).1 hc with rfl | ⟨l', hr', -⟩
          · exact SameBooks.rfl
          · cases hr.symm.trans hr'
        | ok l' =>
          obtain ⟨rfl, hset⟩ := h fills rows hp l' hr
          cases s with
          | entry inp => exact converges_entry hp (hset trivial) c hc
          | exit inp => exact converges_exit (plan_booked hwf.nodup hp).nodup hp c hc

/-- One pick, decided at a time of the third of January 2025, and the close that fills it. -/
def onePick (decidedAt : Timestamp) : EntryInputs where
  day := 20091
  now := placedAt 20091 56000
  calendar := fun _ => .standard
  picks := [⟨"005930", some 50000, 1, some decidedAt, some 1⟩]
  picks_nodup := List.nodup_singleton _
  tradingDay := true
  snapshot := fun _ => some ⟨true, 50000, some (placedAt 20091 55800)⟩
  seedCapital := 1000000
  sizingBufferBp := 50
  closes := fun _ => none

/-- Decided before the auction, and cut after the fill. -/
theorem cut_after_fill : disk.Reachable .empty ∧ ¬ (entry (onePick (placedAt 20091 55000))).Converges .empty := by
  have hstart : disk.Reachable .empty := .start rfl
  have hplan : entryPlan (onePick (placedAt 20091 55000)) .empty =
      .ok (.book [⟨"2025-01-03:005930:entry", "005930", "buy", 19, 50000, some (placedAt 20091 55800), "2025-01-03",
        "auction_close", none⟩] [⟨entryOrder "2025-01-03" (placedAt 20091 55200) "005930" 19, .filled⟩]) := by
    decide +kernel
  refine ⟨hstart, not_converges_of_fill (wellFormed_always _ hstart) hplan (recordFills_eq_ok.2 ⟨?_, ?_, rfl⟩) ?_⟩
  · exact List.nodup_singleton _
  · exact fun r _ => List.not_mem_nil
  · exact List.cons_ne_nil _ _

/-- Decided after the auction: the rows say so, and nothing else is written. -/
theorem converges_missed : (entry (onePick (placedAt 20091 55900))).Converges .empty := by
  refine (converges_iff _ (.start rfl)).2 (fun fills rows hp => ?_)
  have hplan : entryPlan (onePick (placedAt 20091 55900)) .empty =
      .ok (.missed [⟨entryOrder "2025-01-03" (placedAt 20091 55200) "005930" 19, .missedAuction⟩]) := by
    decide +kernel
  cases hplan.symm.trans hp

end PaperSession

end Paper
