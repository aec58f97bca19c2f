import KClosingAlpha.Lib.System
import KClosingAlpha.Paper.Ledger
import Mathlib.Data.Option.Basic
/-!
# Positions — the exit and the accounts see the same lots

A ledger starts empty and is changed by entries, exits of its open lots, voided fills and notes.  Every effective sell
was entitled to its lot when it was recorded, and stays so (`Sound`): a void takes a sell away, or a buy that no
effective sell names.  `build_round_trips` then finds every lot it looks for, and leaves open what
`load_open_positions` returns.
-/
namespace Paper

/-! ## Ids that a correction's target field carries unchanged -/

/-- No comma, and no white space at either end. -/
structure Plain (id : String) : Prop where
  comma : ',' ∉ id.toList
  head : ∃ c cs, id.toList = c :: cs ∧ Py.isSpace c = false
  last : ∃ cs c, id.toList = cs ++ [c] ∧ Py.isSpace c = false

theorem stripChars_plain {c d : Char} {cs ds : List Char} (h : c :: cs = ds ++ [d]) (hc : Py.isSpace c = false)
    (hd : Py.isSpace d = false) : Py.stripChars (c :: cs) = c :: cs := by
  unfold Py.stripChars
  rw [List.dropWhile_cons_of_neg (by rw [hc]; exact Bool.false_ne_true), h, List.reverse_append, List.reverse_singleton,
    List.singleton_append, List.dropWhile_cons_of_neg (by rw [hd]; exact Bool.false_ne_true), List.reverse_cons,
    List.reverse_reverse]

theorem Plain.targets {id : String} (h : Plain id) : PaperLedger.targets id = [id] := by
  obtain ⟨c, cs, hid, hc⟩ := h.head
  obtain ⟨ds, d, hid', hd⟩ := h.last
  have hstrip : Py.stripChars id.toList = id.toList := by
    rw [hid]
    exact stripChars_plain (hid.symm.trans hid') hc hd
  have hne : id ≠ "" := by
    rintro rfl
    cases hid
  unfold PaperLedger.targets
  rw [List.splitOn_eq_singleton h.comma, List.map_singleton, hstrip, String.ofList_toList, List.filter_cons,
    if_pos (by simpa using hne), List.filter_nil]

/-- A character that neither separates nor pads the target field. -/
def isPlainChar (c : Char) : Bool := decide (c ≠ ',') && !Py.isSpace c

theorem isPlainChar_digitChar : ∀ d < 10, isPlainChar (Nat.digitChar d) = true := by decide

theorem isPlainChar_pad : ∀ (n k : Nat), ∀ c ∈ pad n k, isPlainChar c = true
  | 0, _, c, hc => by cases hc
  | n + 1, k, c, hc => by
    rcases List.mem_append.1 hc with hc | hc
    · exact isPlainChar_pad n (k / 10) c hc
    · rw [List.mem_singleton.1 hc]
      exact isPlainChar_digitChar _ (Nat.mod_lt k (by decide))

theorem isPlainChar_isoDate (day : Int) : ∀ c ∈ (isoDate day).toList, isPlainChar c = true := by
  intro c hc
  unfold isoDate at hc
  simp only [String.toList_ofList, List.mem_append, List.mem_cons] at hc
  rcases hc with (hc | rfl | hc) | rfl | hc
  · exact isPlainChar_pad _ _ c hc
  · decide
  · exact isPlainChar_pad _ _ c hc
  · decide
  · exact isPlainChar_pad _ _ c hc

theorem isoDate_ne_nil (day : Int) : (isoDate day).toList ≠ [] := by
  unfold isoDate
  simp

theorem not_comma_isoDate (day : Int) : ',' ∉ (isoDate day).toList := by
  intro hc
  have := isPlainChar_isoDate day ',' hc
  revert this
  decide

theorem plain_entryOrderId (day : Int) {symbol : String} (hs : ',' ∉ symbol.toList) :
    Plain (entryOrderId (isoDate day) symbol) := by
  have hchars : (entryOrderId (isoDate day) symbol).toList =
      (isoDate day).toList ++ ':' :: (symbol.toList ++ [':', 'e', 'n', 't', 'r', 'y']) := by
    simp [entryOrderId]
  obtain ⟨c, cs, hcs⟩ := List.exists_cons_of_ne_nil (isoDate_ne_nil day)
  have hc : isPlainChar c = true := isPlainChar_isoDate day c (by rw [hcs]; exact List.mem_cons_self)
  refine ⟨?_, ⟨c, cs ++ ':' :: (symbol.toList ++ [':', 'e', 'n', 't', 'r', 'y']), ?_, ?_⟩,
    ⟨(isoDate day).toList ++ ':' :: (symbol.toList ++ [':', 'e', 'n', 't', 'r']), 'y', ?_, rfl⟩⟩
  · rw [hchars]
    simp [not_comma_isoDate, hs]
  · rw [hchars, hcs]
    rfl
  · simpa using (Bool.and_eq_true_iff.1 hc).2
  · rw [hchars]
    simp

theorem plain_exitOrderId (day : Int) {entry : String} (h : Plain entry) : Plain (exitOrderId entry (isoDate day)) := by
  have hchars : (exitOrderId entry (isoDate day)).toList =
      entry.toList ++ ([':', 'e', 'x', 'i', 't', ':'] ++ (isoDate day).toList) := by
    simp [exitOrderId]
  obtain ⟨c, cs, hcs, hc⟩ := h.head
  obtain ⟨ds, d, hds⟩ := (isoDate day).toList.eq_nil_or_concat'.resolve_left (isoDate_ne_nil day)
  have hd : isPlainChar d = true := isPlainChar_isoDate day d (by rw [hds]; simp)
  refine ⟨?_, ⟨c, cs ++ ([':', 'e', 'x', 'i', 't', ':'] ++ (isoDate day).toList), ?_, hc⟩,
    ⟨entry.toList ++ ([':', 'e', 'x', 'i', 't', ':'] ++ ds), d, ?_, ?_⟩⟩
  · rw [hchars]
    simp [not_comma_isoDate, h.comma]
  · rw [hchars, hcs]
    rfl
  · rw [hchars, hds]
    simp
  · simpa using (Bool.and_eq_true_iff.1 hd).2

/-! ## Histories of a ledger -/

/-- A buy of an entry session: the pick, its size, the close and its time. -/
structure EntryFill where
  symbol : String
  qty : Int
  close : Int
  executedAt : Timestamp

/-- `build_auction_fill` and `_fill_row`. -/
def EntryFill.row (day : Int) (e : EntryFill) : Fill :=
  { orderId := entryOrderId (isoDate day) e.symbol, symbol := e.symbol, side := "buy", qty := e.qty
    fillPrice := e.close, filledAt := some e.executedAt, decisionDate := isoDate day, trigger := "auction_close"
    entryOrderId := none }

/-- One change of a ledger; a call that raises changes nothing. -/
inductive Step (symbols : String → Prop) (days : Int → Prop) : PaperLedger → PaperLedger → Prop where
  | entry {l l' : PaperLedger} (day : Int) (buys : List EntryFill)
      (hbuys : ∀ e ∈ buys, symbols e.symbol ∧ 0 < e.qty ∧ 0 < e.close)
      (h : l.recordFills (buys.map (EntryFill.row day)) = .ok l') : Step symbols days l l'
  | exit {l l' : PaperLedger} (day : Int) (hday : days day) (opens : PaperOrder → Int) (observedAt : Timestamp)
      (lots : List Lot) (hlots : l.loadOpenPositions = .ok lots) (rows : List Fill)
      (hrows : exitFills opens observedAt (buildExitOrders lots (isoDate day) (exitPlacedAt day)) = .ok rows)
      (h : l.recordFills rows = .ok l') : Step symbols days l l'
  | void {l l' : PaperLedger} (orderId reason evidence operator asOfDate : String)
      (h : l.voidFill orderId reason evidence operator asOfDate = .ok l') : Step symbols days l l'
  | note {l l' : PaperLedger} (targetOrderIds : List String) (reason evidence operator asOfDate : String)
      (h : l.recordNote targetOrderIds reason evidence operator asOfDate = .ok l') : Step symbols days l l'

/-- The ledgers reached from the empty one, with these symbols and exit dates. -/
def ledgers (symbols : String → Prop) (days : Int → Prop) : System PaperLedger where
  start l := l = .empty
  step := Step symbols days

/-! ## What every effective fill is entitled to -/

/-- A buy that can be paired. -/
structure Bought (f : Fill) : Prop where
  side : f.side = "buy"
  link : f.entryOrderId = none
  qty : 0 < f.qty
  price : 0 < f.fillPrice
  filled : ∃ t, f.filledAt = some t

/-- A sell of a lot that is there and that no earlier sell took. -/
structure Sold (past : List Fill) (f : Fill) : Prop where
  side : f.side = "sell"
  rated : ∃ t, f.filledAt = some t ∧ (statutoryBpAsof (Timestamp.day t)).isSome = true
  lot : ∃ buy ∈ past, buy.side = "buy" ∧ f.entryOrderId = some buy.orderId ∧ buy.symbol = f.symbol ∧ buy.qty = f.qty
  first : ∀ g ∈ past, g.side = "sell" → g.entryOrderId ≠ f.entryOrderId

def Entitled (past : List Fill) (f : Fill) : Prop := Bought f ∨ Sold past f

/-- What holds of every ledger reached. -/
structure Sound (l : PaperLedger) : Prop where
  nodup : (l.fills.map Fill.orderId).Nodup
  plain : ∀ f ∈ l.fills, Plain f.orderId
  voided : ∀ id ∈ l.voidedOrderIds, id ∈ l.fills.map Fill.orderId
  entitled : History.Along Entitled l.loadEffectiveFills

section sound

variable {l l' : PaperLedger}

/-- Only sells name an entry. -/
theorem Entitled.side_of_link {past : List Fill} {f : Fill} {id : String} (h : Entitled past f)
    (hlink : f.entryOrderId = some id) : f.side = "sell" := by
  rcases h with hb | hs
  · rw [hb.link] at hlink
    cases hlink
  · exact hs.side

/-- A buy stays a buy, and a sell keeps its lot while the buy stays and no other sell takes it. -/
theorem Entitled.filter {q : Fill → Bool} {past : List Fill} {f : Fill} (h : Entitled past f)
    (hq : ∀ buy ∈ past, buy.side = "buy" → f.entryOrderId = some buy.orderId → q buy = true) :
    Entitled (past.filter q) f := by
  rcases h with hb | hs
  · exact .inl hb
  · obtain ⟨buy, hmem, hside, hlink, hsym, hqty⟩ := hs.lot
    refine .inr ⟨hs.side, hs.rated, ⟨buy, List.mem_filter.2 ⟨hmem, hq buy hmem hside hlink⟩, hside, hlink, hsym, hqty⟩, ?_⟩
    exact fun g hg => hs.first g (List.mem_of_mem_filter hg)

theorem recordFills_eq_ok {rows : List Fill} :
    l.recordFills rows = .ok l' ↔ (rows.map Fill.orderId).Nodup ∧ (∀ r ∈ rows, r.orderId ∉ l.fills.map Fill.orderId) ∧
      l' = { l with fills := l.fills ++ rows } := by
  unfold PaperLedger.recordFills
  simp only [Exc.bind_eq_ok, appendOnly_eq_ok, Except.ok.injEq]
  constructor
  · rintro ⟨fills, ⟨hn, hnew, rfl⟩, rfl⟩
    exact ⟨hn, hnew, rfl⟩
  · rintro ⟨hn, hnew, rfl⟩
    exact ⟨_, ⟨hn, hnew, rfl⟩, rfl⟩

theorem recordCorrections_eq_ok {rows : List Correction} (h : l.recordCorrections rows = .ok l') :
    l' = { l with corrections := l.corrections ++ rows } := by
  unfold PaperLedger.recordCorrections at h
  simp only [Exc.bind_eq_ok, appendOnly_eq_ok, Except.ok.injEq] at h
  obtain ⟨corrections, ⟨-, -, rfl⟩, rfl⟩ := h
  rfl

/-- New fills are effective: nothing was voided before it was recorded. -/
theorem Sound.effective_append (h : Sound l) {rows : List Fill} (hnew : ∀ r ∈ rows, r.orderId ∉ l.fills.map Fill.orderId) :
    ({ l with fills := l.fills ++ rows } : PaperLedger).loadEffectiveFills = l.loadEffectiveFills ++ rows := by
  change (l.fills ++ rows).filter (fun f => f.orderId ∉ l.voidedOrderIds) = _
  rw [List.filter_append]
  congr 1
  refine List.filter_eq_self.2 (fun r hr => ?_)
  simpa using fun hv => hnew r hr (h.voided _ hv)

theorem Sound.append (h : Sound l) {rows : List Fill} (hr : l.recordFills rows = .ok l') (hp : ∀ r ∈ rows, Plain r.orderId)
    (he : ∀ past r future, rows = past ++ r :: future → Entitled (l.loadEffectiveFills ++ past) r) : Sound l' := by
  obtain ⟨hn, hnew, rfl⟩ := recordFills_eq_ok.1 hr
  refine ⟨?_, ?_, ?_, ?_⟩
  · change ((l.fills ++ rows).map Fill.orderId).Nodup
    rw [List.map_append]
    refine h.nodup.append hn (fun id hid hid' => ?_)
    obtain ⟨r, hr, rfl⟩ := List.mem_map.1 hid'
    exact hnew r hr hid
  · intro f hf
    rcases List.mem_append.1 hf with hf | hf
    · exact h.plain f hf
    · exact hp f hf
  · intro id hid
    change id ∈ (l.fills ++ rows).map Fill.orderId
    rw [List.map_append]
    exact List.mem_append_left _ (h.voided id hid)
  · rw [h.effective_append hnew]
    exact h.entitled.append he

/-- A correction that voids nothing. -/
theorem voidedOrderIds_note (c : Correction) (hc : c.action = .note) :
    ({ l with corrections := l.corrections ++ [c] } : PaperLedger).voidedOrderIds = l.voidedOrderIds := by
  change ((l.corrections ++ [c]).filter _).flatMap _ = _
  rw [List.filter_append, List.filter_cons_of_neg (by simp [hc]), List.filter_nil, List.append_nil]
  rfl

theorem voidedOrderIds_void (c : Correction) (hc : c.action = .voidFill) :
    ({ l with corrections := l.corrections ++ [c] } : PaperLedger).voidedOrderIds =
      l.voidedOrderIds ++ PaperLedger.targets c.targetOrderIds := by
  change ((l.corrections ++ [c]).filter _).flatMap _ = _
  rw [List.filter_append, List.filter_cons_of_pos (by simp [hc]), List.filter_nil, List.flatMap_append,
    List.flatMap_singleton]
  rfl

theorem Sound.note (h : Sound l) (c : Correction) (hc : c.action = .note) :
    Sound { l with corrections := l.corrections ++ [c] } := by
  have hv := voidedOrderIds_note (l := l) c hc
  refine ⟨h.nodup, h.plain, by rw [hv]; exact h.voided, ?_⟩
  unfold PaperLedger.loadEffectiveFills
  rw [hv]
  exact h.entitled

/-- A void of a sell, or of a buy that no effective sell names. -/
theorem Sound.void (h : Sound l) (c : Correction) (hc : c.action = .voidFill)
    (hid : c.targetOrderIds ∈ l.fills.map Fill.orderId)
    (hfree : ∀ f ∈ l.loadEffectiveFills, f.side = "sell" → f.entryOrderId = some c.targetOrderIds →
      ∀ g ∈ l.fills, g.orderId = c.targetOrderIds → g.side ≠ "buy") :
    Sound { l with corrections := l.corrections ++ [c] } := by
  obtain ⟨target, htarget, htid⟩ := List.mem_map.1 hid
  have hplain : PaperLedger.targets c.targetOrderIds = [c.targetOrderIds] := htid ▸ (h.plain target htarget).targets
  have hv : ({ l with corrections := l.corrections ++ [c] } : PaperLedger).voidedOrderIds =
      l.voidedOrderIds ++ [c.targetOrderIds] := by rw [voidedOrderIds_void c hc, hplain]
  refine ⟨h.nodup, h.plain, fun id hm => ?_, ?_⟩
  · rw [hv] at hm
    rcases List.mem_append.1 hm with hm | hm
    · exact h.voided id hm
    · rw [List.mem_singleton.1 hm]
      exact hid
  · have heff : ({ l with corrections := l.corrections ++ [c] } : PaperLedger).loadEffectiveFills =
        l.loadEffectiveFills.filter (fun f => decide (f.orderId ≠ c.targetOrderIds)) := by
      unfold PaperLedger.loadEffectiveFills
      rw [hv, List.filter_filter]
      refine List.filter_congr (fun f _ => ?_)
      rw [Bool.eq_iff_iff]
      simp only [List.mem_append, List.mem_singleton, not_or, decide_eq_true_eq, Bool.and_eq_true]
      exact and_comm
    rw [heff]
    refine h.entitled.filter (fun past f future hsplit _ he => he.filter (fun buy hbuy hside hlink => ?_))
    -- a buy that is named is not the one voided
    refine decide_eq_true (fun hbid => ?_)
    have hf : f ∈ l.loadEffectiveFills := by simp [hsplit]
    have hb : buy ∈ l.fills := List.mem_of_mem_filter (show buy ∈ l.loadEffectiveFills by simp [hsplit, hbuy])
    refine hfree f hf ?_ (hbid ▸ hlink) buy hb hbid hside
    exact he.side_of_link hlink

/-! ## One step -/

theorem Sound.entry (h : Sound l) {symbols : String → Prop} (hsym : ∀ s, symbols s → ',' ∉ s.toList) {day : Int}
    {buys : List EntryFill} (hbuys : ∀ e ∈ buys, symbols e.symbol ∧ 0 < e.qty ∧ 0 < e.close)
    (hr : l.recordFills (buys.map (EntryFill.row day)) = .ok l') : Sound l' := by
  refine h.append hr (fun r hr => ?_) (fun past r future heq => .inl ?_)
  · obtain ⟨e, he, rfl⟩ := List.mem_map.1 hr
    exact plain_entryOrderId day (hsym _ (hbuys e he).1)
  · have hmem : r ∈ buys.map (EntryFill.row day) := by rw [heq]; simp
    obtain ⟨e, he, rfl⟩ := List.mem_map.1 hmem
    exact ⟨rfl, rfl, (hbuys e he).2.1, (hbuys e he).2.2, e.executedAt, rfl⟩

/-- The row of an exit order filled at a price. -/
def exitRow (order : PaperOrder) (price : Int) : Fill :=
  { orderId := order.orderId, symbol := order.symbol, side := order.side, qty := order.qty, fillPrice := price
    filledAt := some order.placedAt, decisionDate := order.decisionDate, trigger := "auction_open"
    entryOrderId := order.entryOrderId }

theorem exitFills_eq {opens : PaperOrder → Int} {observedAt : Timestamp} : ∀ {orders : List PaperOrder} {rows : List Fill},
    exitFills opens observedAt orders = .ok rows →
      rows = (orders.filter (fun o => decide (0 < opens o))).map (fun o => exitRow o (opens o))
  | [], rows, h => by
    cases h
    rfl
  | order :: orders, rows, h => by
    unfold exitFills at h
    obtain ⟨fill, hfill, h⟩ := (Exc.bind_eq_ok _ _ _).1 h
    unfold buildOpenAuctionFill at hfill
    split_ifs at hfill with hearly hno
    · cases hfill
      rw [List.filter_cons_of_neg (by simpa using hno)]
      exact exitFills_eq h
    · cases hfill
      obtain ⟨rest, hrest, rfl⟩ := (Exc.map_eq_ok _ _ _).1 h
      rw [List.filter_cons_of_pos (by simpa using hno), List.map_cons, ← exitFills_eq hrest]
      rfl

theorem loadOpenPositions_eq {lots : List Lot} (h : l.loadOpenPositions = .ok lots) :
    lots = ((l.loadEffectiveFills.filter Fill.isBuy).filter (fun f => decide (f.orderId ∉
      (l.loadEffectiveFills.filter Fill.isSell).filterMap Fill.entryOrderId))).map Fill.lot := by
  unfold PaperLedger.loadOpenPositions at h
  dsimp only at h
  split_ifs at h
  cases h
  rfl

theorem day_exitPlacedAt (day : Int) : Timestamp.day (exitPlacedAt day) = day := day_placedAt (by omega) (by omega)

theorem Sound.nodup_effective (h : Sound l) : (l.loadEffectiveFills.map Fill.orderId).Nodup :=
  h.nodup.sublist (List.filter_sublist.map Fill.orderId)

theorem Sound.exit (h : Sound l) {days : Int → Prop} (hdays : ∀ d, days d → (statutoryBpAsof d).isSome = true) {day : Int}
    (hday : days day) {opens : PaperOrder → Int} {observedAt : Timestamp} {lots : List Lot}
    (hlots : l.loadOpenPositions = .ok lots) {rows : List Fill}
    (hrows : exitFills opens observedAt (buildExitOrders lots (isoDate day) (exitPlacedAt day)) = .ok rows)
    (hr : l.recordFills rows = .ok l') : Sound l' := by
  let order : Fill → PaperOrder := fun buy => exitOrder (isoDate day) (exitPlacedAt day) buy.lot
  let free : List Fill := (l.loadEffectiveFills.filter Fill.isBuy).filter (fun f => decide (f.orderId ∉
    (l.loadEffectiveFills.filter Fill.isSell).filterMap Fill.entryOrderId))
  let sold : List Fill := free.filter (fun buy => decide (0 < opens (order buy)))
  have heq : rows = sold.map (fun buy => exitRow (order buy) (opens (order buy))) := by
    rw [exitFills_eq hrows, loadOpenPositions_eq hlots]
    unfold buildExitOrders
    rw [List.map_map, List.filter_map, List.map_map]
    rfl
  have hsub : sold.Sublist l.loadEffectiveFills :=
    List.filter_sublist.trans (List.filter_sublist.trans List.filter_sublist)
  apply h.append hr
  · intro r hr
    rw [heq] at hr
    obtain ⟨buy, hbuy, rfl⟩ := List.mem_map.1 hr
    exact plain_exitOrderId day (h.plain buy (List.mem_of_mem_filter (hsub.subset hbuy)))
  · intro past r future hsplit
    right
    have hmem : r ∈ sold.map (fun buy => exitRow (order buy) (opens (order buy))) := by
      rw [← heq, hsplit]
      simp
    obtain ⟨buy, hbuy, rfl⟩ := List.mem_map.1 hmem
    have hfree := List.mem_filter.1 (List.mem_of_mem_filter hbuy)
    have hside : buy.side = "buy" := by simpa [Fill.isBuy] using (List.mem_filter.1 hfree.1).2
    refine ⟨rfl, ⟨exitPlacedAt day, rfl, ?_⟩,
      ⟨buy, List.mem_append_left _ (hsub.subset hbuy), hside, rfl, rfl, rfl⟩, ?_⟩
    · rw [day_exitPlacedAt]
      exact hdays day hday
    · intro g hg hgside hglink
      rcases List.mem_append.1 hg with hg | hg
      · -- no effective sell names an open lot
        have hno := of_decide_eq_true hfree.2
        exact hno (List.mem_filterMap.2 ⟨g, List.mem_filter.2 ⟨hg, by simp [Fill.isSell, hgside]⟩, hglink⟩)
      · -- no other row of the batch has the same lot
        have hlinks : ((past ++ exitRow (order buy) (opens (order buy)) :: future).map Fill.entryOrderId).Nodup := by
          rw [← hsplit, heq, List.map_map]
          have hsome : sold.map (Fill.entryOrderId ∘ fun buy => exitRow (order buy) (opens (order buy))) =
              (sold.map Fill.orderId).map some := by
            rw [List.map_map]
            rfl
          rw [hsome]
          exact (h.nodup_effective.sublist (hsub.map Fill.orderId)).map (Option.some_injective _)
        rw [List.map_append, List.map_cons] at hlinks
        have hdis := List.disjoint_of_nodup_append hlinks (List.mem_map_of_mem hg)
        exact hdis (hglink ▸ List.mem_cons_self)

theorem sound_step {symbols : String → Prop} {days : Int → Prop} (hsym : ∀ s, symbols s → ',' ∉ s.toList)
    (hdays : ∀ d, days d → (statutoryBpAsof d).isSome = true) (h : Sound l) (hs : Step symbols days l l') : Sound l' := by
  cases hs with
  | entry day buys hbuys hr => exact h.entry hsym hbuys hr
  | exit day hday opens observedAt lots hlots rows hrows hr => exact h.exit hdays hday hlots hrows hr
  | note targetOrderIds reason evidence operator asOfDate hn =>
    unfold PaperLedger.recordNote at hn
    simp only [Exc.bind_eq_ok] at hn
    obtain ⟨-, -, -, -, hn⟩ := hn
    rw [recordCorrections_eq_ok hn]
    exact h.note _ rfl
  | void orderId reason evidence operator asOfDate hv =>
    unfold PaperLedger.voidFill at hv
    simp only [Exc.bind_eq_ok] at hv
    obtain ⟨-, -, -, -, hv⟩ := hv
    split at hv
    · cases hv
    next target hfind =>
      simp only [Exc.bind_eq_ok, Exc.raiseIf_eq_ok, not_and] at hv
      obtain ⟨-, -, -, hfree, hv⟩ := hv
      rw [recordCorrections_eq_ok hv]
      have htarget : target ∈ l.fills := List.mem_of_find?_eq_some hfind
      have hid : target.orderId = orderId := by simpa using List.find?_some hfind
      apply h.void _ rfl
      · exact List.mem_map.2 ⟨target, htarget, hid⟩
      · intro f hf hside hlink g hg hgid hgside
        have hsame : g = target := List.inj_on_of_nodup_map h.nodup hg htarget (hgid.trans hid.symm)
        apply hfree (by rw [← hsame]; simp [Fill.isBuy, hgside])
        exact List.mem_map.2 ⟨f, List.mem_filter.2 ⟨hf, by simp [Fill.isSell, hside]⟩, hlink⟩

theorem always_sound {symbols : String → Prop} {days : Int → Prop} (hsym : ∀ s, symbols s → ',' ∉ s.toList)
    (hdays : ∀ d, days d → (statutoryBpAsof d).isSome = true) : (ledgers symbols days).Always Sound := by
  refine System.Inductive.always ⟨?_, fun _ _ h hs => sound_step hsym hdays h hs⟩
  intro l hl
  rw [show l = .empty from hl]
  exact ⟨List.nodup_nil, by simp [PaperLedger.empty], by simp [PaperLedger.empty, PaperLedger.voidedOrderIds],
    History.along_nil _⟩

end sound

/-! ## The round trips of entitled fills -/

section pairing

variable (kind : Calendar)

/-- The ids the sells name. -/
def soldIds (fills : List Fill) : List String := (fills.filter Fill.isSell).filterMap Fill.entryOrderId

theorem soldIds_append (fills rows : List Fill) : soldIds (fills ++ rows) = soldIds fills ++ soldIds rows := by
  unfold soldIds
  rw [List.filter_append, List.filterMap_append]

theorem mem_soldIds {fills : List Fill} {id : String} :
    id ∈ soldIds fills ↔ ∃ g ∈ fills, g.side = "sell" ∧ g.entryOrderId = some id := by
  unfold soldIds
  simp only [List.mem_filterMap, List.mem_filter, Fill.isSell, beq_iff_eq]
  exact ⟨fun ⟨g, ⟨hg, hs⟩, hl⟩ => ⟨g, hg, hs, hl⟩, fun ⟨g, hg, hs, hl⟩ => ⟨g, ⟨hg, hs⟩, hl⟩⟩

/-- What the loop has after entitled fills: the buys no sell named are open, and the rows are the sells'. -/
structure Paired (fills : List Fill) (b : Book) : Prop where
  openBuys : ∀ f, f ∈ b.openBuys ↔ f ∈ fills ∧ f.side = "buy" ∧ f.orderId ∉ soldIds fills
  rows : b.rows.map RoundTrip.entryOrderId = soldIds fills

/-- A sell and the buy it is entitled to make a row. -/
theorem roundTrip_ok {buy rec : Fill} (hb : Bought buy) (hsym : buy.symbol = rec.symbol) (hqty : buy.qty = rec.qty)
    (hrated : ∃ t, rec.filledAt = some t ∧ (statutoryBpAsof (Timestamp.day t)).isSome = true) :
    ∃ row, roundTrip kind buy rec = .ok row ∧ row.entryOrderId = buy.orderId := by
  obtain ⟨t, ht, hrate⟩ := hrated
  obtain ⟨bp, hbp⟩ := Option.isSome_iff_exists.1 hrate
  obtain ⟨t', ht'⟩ := hb.filled
  have hprice : buy.fillPrice ≠ 0 := hb.price.ne'
  have hnotional : buy.fillPrice * rec.qty ≠ 0 := Int.mul_ne_zero hprice (hqty ▸ hb.qty.ne')
  unfold roundTrip
  simp only [Exc.raiseIf, hsym, hqty, ht, hbp, ht', hprice, hnotional, ne_eq, not_true_eq_false, if_false, Exc.ok_bind]
  exact ⟨_, rfl, rfl⟩

theorem paired_step {fills : List Fill} {b : Book} {rec : Fill} (hp : Paired fills b) (hn : ((fills ++ [rec]).map Fill.orderId).Nodup)
    (he : History.Along Entitled (fills ++ [rec])) : ∃ b', b.step kind rec = .ok b' ∧ Paired (fills ++ [rec]) b' := by
  have hnew : ∀ f ∈ fills, f.orderId ≠ rec.orderId := by
    intro f hf heq
    rw [List.map_append] at hn
    exact List.disjoint_of_nodup_append hn (List.mem_map_of_mem hf) (heq ▸ List.mem_cons_self)
  rcases he.last with hb | hs
  · have hsold : soldIds (fills ++ [rec]) = soldIds fills := by
      rw [soldIds_append, show soldIds [rec] = [] by simp [soldIds, Fill.isSell, hb.side], List.append_nil]
    have hfresh : rec.orderId ∉ soldIds fills := by
      intro hid
      obtain ⟨g, hg, hgs, hlink⟩ := mem_soldIds.1 hid
      obtain ⟨past, future, rfl⟩ := List.append_of_mem hg
      rcases he.init past g future rfl with hgb | hgs'
      · rw [hgb.link] at hlink
        cases hlink
      · obtain ⟨buy, hbuy, -, hblink, -, -⟩ := hgs'.lot
        rw [hlink] at hblink
        exact hnew buy (List.mem_append_left _ hbuy) (Option.some.inj hblink).symm
    refine ⟨_, by unfold Book.step; rw [if_pos hb.side], ?_, ?_⟩
    · intro f
      rw [hsold]
      simp only [List.mem_append, List.mem_filter, hp.openBuys f, List.mem_singleton, decide_eq_true_eq]
      constructor
      · rintro (⟨⟨hf, hside, hid⟩, -⟩ | rfl)
        · exact ⟨.inl hf, hside, hid⟩
        · exact ⟨.inr rfl, hb.side, hfresh⟩
      · rintro ⟨hf | rfl, hside, hid⟩
        · exact .inl ⟨⟨hf, hside, hid⟩, hnew f hf⟩
        · exact .inr rfl
    · rw [hsold]
      exact hp.rows
  · obtain ⟨buy, hbuy, hside, hlink, hsym, hqty⟩ := hs.lot
    have hsold : soldIds (fills ++ [rec]) = soldIds fills ++ [buy.orderId] := by
      rw [soldIds_append, show soldIds [rec] = [buy.orderId] by simp [soldIds, Fill.isSell, hs.side, hlink]]
    have hopen : buy ∈ b.openBuys := by
      rw [hp.openBuys]
      refine ⟨hbuy, hside, fun hid => ?_⟩
      obtain ⟨g, hg, hgs, hglink⟩ := mem_soldIds.1 hid
      exact hs.first g hg hgs (hglink.trans hlink.symm)
    have hinj : ∀ f ∈ fills, f.orderId = buy.orderId → f = buy := by
      intro f hf heq
      rw [List.map_append] at hn
      exact List.inj_on_of_nodup_map hn.of_append_left hf hbuy heq
    have hfind : b.openBuys.find? (fun f => f.orderId == buy.orderId) = some buy := by
      cases hfind : b.openBuys.find? (fun f => f.orderId == buy.orderId) with
      | none => exact absurd (List.find?_eq_none.1 hfind buy hopen) (by simp)
      | some f =>
        have hf := (hp.openBuys f).1 (List.mem_of_find?_eq_some hfind)
        rw [hinj f hf.1 (by simpa using List.find?_some hfind)]
    have hbought : Bought buy := by
      obtain ⟨past, future, rfl⟩ := List.append_of_mem hbuy
      rcases he.init past buy future rfl with hb | hs'
      · exact hb
      · rw [hs'.side] at hside
        exact absurd hside (by decide)
    obtain ⟨row, hrow, hid⟩ := roundTrip_ok kind hbought hsym hqty hs.rated
    refine ⟨⟨b.openBuys.filter (fun f => f.orderId ≠ buy.orderId), b.rows ++ [row]⟩, ?_, ?_, ?_⟩
    · unfold Book.step
      rw [if_neg (by rw [hs.side]; decide), if_pos hs.side, hlink]
      dsimp only
      rw [hfind]
      dsimp only
      rw [hrow]
      rfl
    · intro f
      rw [hsold]
      simp only [List.mem_filter, hp.openBuys f, decide_eq_true_eq, List.mem_append, List.mem_singleton, not_or]
      constructor
      · rintro ⟨⟨hf, hfs, hid'⟩, hne⟩
        exact ⟨.inl hf, hfs, hid', hne⟩
      · rintro ⟨hf | rfl, hfs, hid', hne⟩
        · exact ⟨⟨hf, hfs, hid'⟩, hne⟩
        · rw [hs.side] at hfs
          exact absurd hfs (by decide)
    · rw [hsold, List.map_append, hp.rows, List.map_singleton, hid]

theorem paired_buildBook {fills : List Fill} (hn : (fills.map Fill.orderId).Nodup) (he : History.Along Entitled fills) :
    ∃ b, buildBook kind fills = .ok b ∧ Paired fills b := by
  induction fills using List.reverseRecOn with
  | nil => exact ⟨_, rfl, by simp, rfl⟩
  | append_singleton fills rec ih =>
    have hn' : (fills.map Fill.orderId).Nodup := by
      rw [List.map_append] at hn
      exact hn.of_append_left
    obtain ⟨b, hb, hp⟩ := ih hn' he.init
    obtain ⟨b', hb', hp'⟩ := paired_step kind hp hn he
    refine ⟨b', ?_, hp'⟩
    unfold buildBook at hb ⊢
    rw [Exc.foldlM_snoc, hb]
    exact hb'

/-- **Entitled fills pair up**, and the lots left open are the buys no sell names. -/
theorem buildRoundTrips_entitled {fills : List Fill} (hn : (fills.map Fill.orderId).Nodup)
    (he : History.Along Entitled fills) :
    ∃ trips, buildRoundTrips kind fills = .ok trips ∧ trips.map RoundTrip.entryOrderId = soldIds fills := by
  obtain ⟨b, hb, hp⟩ := paired_buildBook kind hn he
  refine ⟨b.rows, ?_, hp.rows⟩
  unfold buildRoundTrips
  rw [hb]
  rfl

theorem loadOpenPositions_entitled {l : PaperLedger} (he : History.Along Entitled l.loadEffectiveFills) :
    l.loadOpenPositions = .ok (((l.loadEffectiveFills.filter Fill.isBuy).filter
      (fun f => decide (f.orderId ∉ soldIds l.loadEffectiveFills))).map Fill.lot) := by
  unfold PaperLedger.loadOpenPositions
  dsimp only
  rw [if_neg]
  · rfl
  · rw [Bool.not_eq_true, List.any_eq_false]
    intro f hf
    have hside : f.side = "sell" := by simpa [Fill.isSell] using (List.mem_filter.1 hf).2
    obtain ⟨past, future, hsplit⟩ := List.append_of_mem (List.mem_of_mem_filter hf)
    rcases he past f future hsplit with hb | hs
    · rw [hb.side] at hside
      exact absurd hside (by decide)
    · obtain ⟨buy, -, -, hlink, -⟩ := hs.lot
      rw [hlink]
      exact Bool.false_ne_true

/-- **The exit and the accounts see the same lots**: for every ledger reached from the empty one by entries, exits of open
lots, voids and notes, whose symbols hold no comma and whose exits are dated when there is a statutory rate,
`build_round_trips` does not raise, and `load_open_positions` returns the effective buys no trip closed, in order. -/
theorem open_positions_agree {symbols : String → Prop} {days : Int → Prop} (hsym : ∀ s, symbols s → ',' ∉ s.toList)
    (hdays : ∀ d, days d → (statutoryBpAsof d).isSome = true) {l : PaperLedger} (hl : (ledgers symbols days).Reachable l) :
    ∃ trips, buildRoundTrips kind l.loadEffectiveFills = .ok trips ∧
      l.loadOpenPositions = .ok ((openLots l.loadEffectiveFills trips).map Fill.lot) := by
  have h := always_sound hsym hdays l hl
  obtain ⟨trips, htrips, hids⟩ := buildRoundTrips_entitled kind h.nodup_effective h.entitled
  refine ⟨trips, htrips, ?_⟩
  rw [loadOpenPositions_entitled h.entitled]
  unfold openLots
  rw [hids, List.filter_filter]
  congr 3
  funext f
  exact Bool.and_comm _ _

end pairing

namespace Sample

/-- A buy of ten shares at 10,000 KRW. -/
def pick (symbol : String) : EntryFill := { symbol, qty := 10, close := 10000, executedAt := placedAt 20091 55800 }

/-- Only one symbol opens. -/
def opensOnly (symbol : String) (o : PaperOrder) : Int := if o.symbol = symbol then 11000 else 0

/-- The ledger after an entry of two symbols and the exit of the first. -/
def traded (first second : String) (day : Int) : PaperLedger :=
  { PaperLedger.empty with
    fills := [(pick first).row 20091, (pick second).row 20091,
      exitRow (exitOrder (isoDate day) (exitPlacedAt day) ((pick first).row 20091).lot) 11000] }

/-- A correction that names the second symbol's entry. -/
def voiding (second : String) : Correction :=
  { correctionId := "2025-01-04:VOID_FILL:" ++ entryOrderId "2025-01-03" second, action := .voidFill
    targetOrderIds := entryOrderId "2025-01-03" second, reason := "r", evidence := "", operator := "o"
    asOfDate := "2025-01-04" }

theorem reachable_traded {symbols : String → Prop} {days : Int → Prop} {first second : String} {day : Int}
    (hfirst : symbols first) (hsecond : symbols second) (hday : days day)
    (hentry : PaperLedger.empty.recordFills ([pick first, pick second].map (EntryFill.row 20091)) =
      .ok { PaperLedger.empty with fills := [(pick first).row 20091, (pick second).row 20091] })
    (hlots : ({ PaperLedger.empty with fills := [(pick first).row 20091, (pick second).row 20091] } :
      PaperLedger).loadOpenPositions = .ok [((pick first).row 20091).lot, ((pick second).row 20091).lot])
    (hrows : exitFills (opensOnly first) (exitPlacedAt day)
      (buildExitOrders [((pick first).row 20091).lot, ((pick second).row 20091).lot] (isoDate day) (exitPlacedAt day)) =
        .ok [exitRow (exitOrder (isoDate day) (exitPlacedAt day) ((pick first).row 20091).lot) 11000])
    (hexit : ({ PaperLedger.empty with fills := [(pick first).row 20091, (pick second).row 20091] } :
      PaperLedger).recordFills [exitRow (exitOrder (isoDate day) (exitPlacedAt day) ((pick first).row 20091).lot) 11000] =
        .ok (traded first second day)) : (ledgers symbols days).Reachable (traded first second day) := by
  have h₀ : (ledgers symbols days).Reachable .empty := .start rfl
  have hbuys : ∀ e ∈ [pick first, pick second], symbols e.symbol ∧ 0 < e.qty ∧ 0 < e.close := by
    simp [pick, hfirst, hsecond]
  have h₁ := h₀.step (.entry 20091 _ hbuys hentry)
  exact h₁.step (.exit day hday _ _ _ hlots _ hrows hexit)

end Sample

/-- Two lots, one of them sold the next day. -/
theorem open_positions_agree_traded : ∃ trips,
    buildRoundTrips (fun _ => .standard) (Sample.traded "X" "Y" 20092).loadEffectiveFills = .ok trips ∧
      (Sample.traded "X" "Y" 20092).loadOpenPositions =
        .ok ((openLots (Sample.traded "X" "Y" 20092).loadEffectiveFills trips).map Fill.lot) :=
  open_positions_agree (fun _ => .standard) (fun s (h : ',' ∉ s.toList) => h)
    (fun d (h : (statutoryBpAsof d).isSome = true) => h)
    (Sample.reachable_traded (by decide +kernel) (by decide +kernel) (by decide +kernel) (by decide +kernel)
      (by decide +kernel) (by decide +kernel) (by decide +kernel))

/-- A symbol with a comma lets the void of its entry void another one, whose sell then has no buy; and an exit dated
before the first statutory rate has no tax. -/
theorem open_positions_disagree :
    (¬ ∀ l, (ledgers (fun _ => True) (fun d => (statutoryBpAsof d).isSome = true)).Reachable l →
      ∃ trips, buildRoundTrips (fun _ => .standard) l.loadEffectiveFills = .ok trips) ∧
    ¬ ∀ l, (ledgers (fun s => ',' ∉ s.toList) (fun _ => True)).Reachable l →
      ∃ trips, buildRoundTrips (fun _ => .standard) l.loadEffectiveFills = .ok trips := by
  have hfail : ∀ {l : PaperLedger} (e : String), buildRoundTrips (fun _ => .standard) l.loadEffectiveFills = .error e →
      ¬ ∃ trips, buildRoundTrips (fun _ => .standard) l.loadEffectiveFills = .ok trips := by
    rintro l e he ⟨trips, h⟩
    rw [he] at h
    cases h
  constructor
  · intro h
    have hr : (ledgers (fun _ => True) (fun d => (statutoryBpAsof d).isSome = true)).Reachable
        (Sample.traded "X" "a,2025-01-03:X:entry,b" 20092) :=
      Sample.reachable_traded trivial trivial (by decide +kernel) (by decide +kernel) (by decide +kernel)
        (by decide +kernel) (by decide +kernel)
    have hv : (Sample.traded "X" "a,2025-01-03:X:entry,b" 20092).voidFill
        (entryOrderId "2025-01-03" "a,2025-01-03:X:entry,b") "r" "" "o" "2025-01-04" =
          .ok { Sample.traded "X" "a,2025-01-03:X:entry,b" 20092 with
            corrections := [Sample.voiding "a,2025-01-03:X:entry,b"] } := by decide +kernel
    refine hfail "sell fill 2025-01-03:X:entry:exit:2025-01-04 references unknown or closed entry 2025-01-03:X:entry" ?_
      (h _ (hr.step (.void _ _ _ _ _ hv)))
    decide +kernel
  · intro h
    have hr : (ledgers (fun s => ',' ∉ s.toList) (fun _ => True)).Reachable (Sample.traded "X" "Y" 9495) :=
      Sample.reachable_traded (by decide +kernel) (by decide +kernel) trivial (by decide +kernel) (by decide +kernel)
        (by decide +kernel) (by decide +kernel)
    refine hfail "cannot convert float NaN to integer" ?_ (h _ hr)
    decide +kernel

end Paper
